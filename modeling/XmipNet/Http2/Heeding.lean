import XmipNet.Http2.Course

/-!
# Answering a stream that was reset

Where the client resets a stream while its answer is being sent, the loop that
sends the body sees it before the next piece and gives up: nothing more goes out
on the stream. Only that loop looks: a header block is written whatever became
of its stream.
-/

namespace XmipNet
namespace Http2

open Http (Response)

namespace Event

/-- `id` was reset, by the peer or by this side. -/
def Resets (id : Nat) : Event → Prop
  | received frame | emitted frame =>
      frame.kind = .rstStream ∧ frame.stream = id
  | passedOver _ | breached _ => False

/-- Something of a message was emitted on `id`. -/
def Carries (id : Nat) : Event → Prop
  | emitted frame =>
      frame.stream = id ∧ (frame.kind = .headers ∨
        frame.kind = .continuation ∨ frame.kind = .data)
  | received _ | passedOver _ | breached _ => False

/-- Once `id` was reset nothing of a message was emitted on it. -/
def Heeded (id : Nat) (events : List Event) : Prop :=
  ∀ earlier event rest, events = earlier ++ event :: rest → Resets id event →
    ∀ later ∈ rest, ¬Carries id later

theorem heeded_of_uncarried
    {id : Nat}
    {events : List Event}
    (uncarried : ∀ event ∈ events, ¬Carries id event) :
    Heeded id events := by
  rintro earlier event rest rfl _ later member
  exact uncarried later
    (List.mem_append_right _ (List.mem_cons_of_mem _ member))

/-- Events before the first reset change nothing. -/
theorem Heeded.append
    {id : Nat}
    {events more : List Event}
    (calm : ∀ event ∈ events, ¬Resets id event)
    (heeded : Heeded id more) :
    Heeded id (events ++ more) := by
  intro earlier event rest split resets
  rcases List.append_eq_append_iff.mp split with
    ⟨between, rfl, after⟩ | ⟨between, before, after⟩
  · exact heeded between event rest after resets
  · cases between with
    | nil =>
        exact heeded [] event rest after.symm resets
    | cons first between =>
        have same : event = first := (List.cons.inj after).1
        refine absurd resets (calm event ?_)
        rw [before, same]
        exact List.mem_append_right _ List.mem_cons_self

/-- Either nothing resets `id`, or it was heeded and what went on failed: so too
with events before that reset nothing. -/
theorem calm_or_heeded_append
    {id : Nat}
    {fails : Prop}
    {events more : List Event}
    (calm : ∀ event ∈ events, ¬Resets id event)
    (made : (∀ event ∈ more, ¬Resets id event) ∨ (fails ∧ Heeded id more)) :
    (∀ event ∈ events ++ more, ¬Resets id event) ∨
      (fails ∧ Heeded id (events ++ more)) := by
  rcases made with calmStill | ⟨failed, heeded⟩
  · refine Or.inl fun event member => ?_
    rcases List.mem_append.mp member with before | since
    · exact calm event before
    · exact calmStill event since
  · exact Or.inr ⟨failed, heeded.append calm⟩

end Event

namespace Core

open Event (Resets)

/-- There is a record of `id`. -/
def Present (streams : Streams) (id : Nat) : Prop :=
  ∃ stream, streams[id]? = some stream

/-- There is a record of `id`, and it was reset. -/
def Dead (streams : Streams) (id : Nat) : Prop :=
  ∃ stream, streams[id]? = some stream ∧ stream.reset.isSome = true

theorem dead_markReset
    {core : Core}
    {id : Nat}
    (present : Present core.streams id)
    (code : ErrorCode) :
    Dead (core.markReset id code).streams id := by
  obtain ⟨stream, found⟩ := present
  refine ⟨{ stream with state := .closed, reset := some code }, ?_, rfl⟩
  rw [markReset, NatMap.getElem?_modify, if_pos rfl, found]
  rfl

/-- What was added to the events names a reset of `id` only where its record is
reset. -/
def Owns (core after : Core) (id : Nat) : Prop :=
  ∃ added, after.events = core.events ++ added ∧
    ∀ event ∈ added, Resets id event → Dead after.streams id

theorem owns_of_events
    {core after : Core}
    (same : after.events = core.events)
    (id : Nat) :
    Owns core after id :=
  ⟨[], by rw [same, List.append_nil], fun _ member => by cases member⟩

theorem owns_log
    {core after : Core}
    (event : Event)
    (logged : after.events = core.events ++ [event])
    {id : Nat}
    (calm : ¬Resets id event) :
    Owns core after id := by
  refine ⟨[event], logged, fun other member resets => absurd ?_ calm⟩
  rwa [← List.mem_singleton.mp member]

theorem owns_spoil
    {core : Core}
    {id : Nat}
    (present : Present core.streams id)
    (other : Nat)
    (code : ErrorCode) :
    Owns core (core.spoil other code) id := by
  refine ⟨[.emitted (.reset other code)], rfl, fun event member resets => ?_⟩
  rw [List.mem_singleton.mp member] at resets
  obtain ⟨_, same⟩ := resets
  cases same
  exact dead_markReset present code

theorem Owns.trans
    {core middle after : Core}
    {id : Nat}
    (calm : ∃ added, middle.events = core.events ++ added ∧
      ∀ event ∈ added, ¬Resets id event)
    (owns : Owns middle after id) :
    Owns core after id := by
  obtain ⟨first, grown, calm⟩ := calm
  obtain ⟨second, more, dead⟩ := owns
  refine ⟨first ++ second, by rw [more, grown, List.append_assoc], ?_⟩
  intro event member resets
  rcases List.mem_append.mp member with before | later
  · exact absurd resets (calm event before)
  · exact dead event later resets

theorem Sets.present
    {streams changed : Streams}
    {id other : Nat}
    {stream : Stream}
    (sets : Sets streams other stream changed)
    (present : Present streams id) :
    Present changed id := by
  obtain ⟨record, found⟩ := present
  rw [Present, sets id]
  split
  · exact ⟨stream, rfl⟩
  · exact ⟨record, found⟩

theorem Extends.owns
    {frame : Frame}
    {core after : Core}
    (carries : Extends frame core after)
    {id : Nat}
    (present : Present core.streams id) :
    Owns core after id := by
  cases carries with
  | letGo | ended | empty => exact owns_of_events rfl id
  | spoiled code shut => exact owns_spoil present _ code
  | @overBody stream content streams accepts exceeds sets =>
      have still : Present { core with streams := streams }.streams id :=
        sets.present present
      exact owns_spoil still _ .cancel
  | grown accepts within stays positive sets =>
      exact owns_log (.emitted (.windowUpdate _ _)) rfl
        fun resets => by cases resets.1

theorem Heads.owns
    {own other : Nat}
    {fields : List Hpack.Field}
    {ends : Bool}
    {core after : Core}
    (heads : Heads other fields ends core after)
    (present : Present core.streams own) :
    Owns core after own := by
  cases heads with
  | malformed violation fails => exact owns_spoil present _ _
  | letGo | headed | opened => exact owns_of_events rfl own
  | unheaded checks found live violation fails => exact owns_spoil present _ _
  | passedOver checks opens leaving =>
      exact owns_log (.passedOver other) rfl id
  | refused checks opens staying full =>
      have still : Present (core.reach other).streams own := present
      exact owns_spoil still _ .refusedStream

theorem calm_regain
    (core : Core)
    (length id : Nat) :
    ∃ added, (core.regain length).events = core.events ++ added ∧
      ∀ event ∈ added, ¬Resets id event := by
  rw [regain]
  split
  · refine ⟨[_], rfl, fun event member resets => ?_⟩
    rw [List.mem_singleton.mp member] at resets
    cases resets.1
  · exact ⟨[], (List.append_nil _).symm, fun _ member => by cases member⟩

theorem present_regain
    {core : Core}
    {id : Nat}
    (present : Present core.streams id)
    (length : Nat) :
    Present (core.regain length).streams id := by
  rw [regain]
  split
  · exact present
  · exact present

end Core

namespace Took

open Core

variable {frame : Frame} {sight after : Sight} {id : Nat}

/-- What handling a frame adds to the events resets `id` only by its record. -/
theorem owns_handled
    (took : Took frame sight after)
    (present : Present sight.core.streams id) :
    Owns sight.core after.core id := by
  cases took with
  | data kind unbroken room opened carries =>
      exact Owns.trans (calm_regain _ _ id)
        (carries.owns (present_regain present _))
  | decoded assembles whole decodes heads =>
      have still : Present { sight.core with continuing := none }.streams id :=
        present
      exact heads.owns still
  | spoiled code kind => exact owns_spoil present _ code
  | settings kind same =>
      exact owns_log (.emitted ⟨.settings, ack, 0, []⟩) rfl
        fun resets => by cases resets.1
  | pinged kind asks =>
      exact owns_log (.emitted (.ping frame.payload true)) rfl
        fun resets => by cases resets.1
  | waiting | unheard | reset | ponged | wentAway | granted =>
      exact owns_of_events rfl id

/-- A `RST_STREAM` that was taken reset the record of its stream. -/
theorem dead_of_reset
    (took : Took frame sight after)
    (kind : frame.kind = .rstStream)
    (present : Present sight.core.streams frame.stream) :
    Dead after.core.streams frame.stream := by
  cases took with
  | reset code isReset opened => exact dead_markReset present code
  | data other => cases kind.symm.trans other
  | waiting assembles | decoded assembles =>
      rcases kind_of_assembled assembles with other | other
      · cases kind.symm.trans other
      · cases kind.symm.trans other
  | unheard other | spoiled _ other =>
      rw [kind] at other
      simp at other
  | settings other | pinged other | ponged other | wentAway other
  | granted other => cases kind.symm.trans other

/-- A frame that was taken resets `id` only by its record. -/
theorem owns
    (took : Took frame (sight.log (.received frame)) after)
    (present : Present sight.core.streams id) :
    Owns sight.core after.core id := by
  have still : Present (sight.log (.received frame)).core.streams id := present
  obtain ⟨added, grown, dead⟩ := took.owns_handled still
  refine ⟨.received frame :: added, ?_, fun event member resets => ?_⟩
  · rw [List.append_cons]
    exact grown
  · rcases List.mem_cons.mp member with rfl | later
    · obtain ⟨kind, same⟩ := resets
      cases same
      exact took.dead_of_reset kind still
    · exact dead event later resets

end Took

namespace Connection

open Core
open Event (Resets Carries Heeded)
open Fallible (bind_apply modify_bind_apply Runs)

/-- What touches the connection underneath by emitting alone emits nothing of a
message. -/
theorem control_of_emits
    {ε α : Type}
    {action : Fallible Connection ε α}
    (emits : Runs Emission action)
    (connection : Connection) :
    ∃ frames, Event.sent (action connection).2.events =
      Event.sent connection.events ++ frames ∧
        ∀ frame ∈ frames, frame.Control := by
  refine emits.invariant (motive := fun after =>
    ∃ frames, Event.sent after.events =
      Event.sent connection.events ++ frames ∧
        ∀ frame ∈ frames, frame.Control) ?_
    ⟨[], (List.append_nil _).symm, fun _ member => by cases member⟩
  rintro reached after emission ⟨frames, grown, controls⟩
  cases emission with
  | inside same =>
      have kept : Event.sent after.events = Event.sent reached.events :=
        congrArg (fun view => view.2.2.2.2) same
      exact ⟨frames, kept.trans grown, controls⟩
  | @emitted frame control =>
      have logged := events_emit frame reached
      have events : (emit frame reached).2.events =
        reached.events ++ [.emitted frame] := logged
      refine ⟨frames ++ [frame], ?_, ?_⟩
      · rw [events, Event.sent_append, grown, List.append_assoc]
        rfl
      · intro other member
        rcases List.mem_append.mp member with before | last
        · exact controls other before
        · rw [List.mem_singleton.mp last]
          exact control

theorem uncarried_of_control
    {events later : List Event}
    {frames : List Frame}
    (sent : Event.sent (events ++ later) = Event.sent events ++ frames)
    (controls : ∀ frame ∈ frames, frame.Control)
    (id : Nat) :
    ∀ event ∈ later, ¬Carries id event := by
  rw [Event.sent_append, List.append_cancel_left_eq] at sent
  intro event member carries
  cases event with
  | emitted frame =>
      have listed : frame ∈ Event.sent later :=
        List.mem_filterMap.mpr ⟨.emitted frame, member, rfl⟩
      rw [sent] at listed
      obtain ⟨noData, noHeaders, noContinuation⟩ := controls frame listed
      rcases carries.2 with kind | kind | kind
      · exact noHeaders kind
      · exact noContinuation kind
      · exact noData kind
  | received | passedOver | breached => exact carries

/-- Reading a frame emits nothing of a message. -/
theorem control_pump (connection : Connection) :
    ∃ frames, Event.sent (pump connection).2.events =
      Event.sent connection.events ++ frames ∧
        ∀ frame ∈ frames, frame.Control := by
  rw [pump_apply]
  split
  · exact ⟨[], (List.append_nil _).symm, fun _ member => by cases member⟩
  · exact ⟨[], (List.append_nil _).symm, fun _ member => by cases member⟩
  next violation wire read =>
    exact control_of_emits (emits_fail violation) { connection with wire }
  next frame wire read =>
    have control := control_of_emits (emits_take frame) { connection with wire }
    split
    next runs =>
      rw [runs] at control
      exact control
    next runs =>
      rw [runs] at control
      exact control

/-- What reading a frame adds: nothing of a message, and where it was handled
well, a reset of a stream with its record. -/
theorem heeded_pump
    {connection : Connection}
    (waits : Waits connection.core)
    {id : Nat}
    (present : Present connection.streams id) :
    ∃ later, (pump connection).2.events = connection.events ++ later ∧
      (∀ event ∈ later, ¬Carries id event) ∧
      ((pump connection).1 = .ok true →
        ∀ event ∈ later, Resets id event →
          Dead (pump connection).2.streams id) := by
  obtain ⟨later, grown⟩ := (moves_pump waits).events
  have events : (pump connection).2.events = connection.events ++ later :=
    grown.symm
  obtain ⟨frames, sent, controls⟩ := control_pump connection
  refine ⟨later, events, ?_, fun well => ?_⟩
  · rw [events] at sent
    exact uncarried_of_control sent controls id
  · obtain ⟨frame, _, took⟩ := took_of_pump_true waits (Prod.ext well rfl)
    have there : Present connection.sight.core.streams id := present
    obtain ⟨added, more, dead⟩ := took.owns there
    have same : later = added :=
      List.append_cancel_left (events.symm.trans more)
    rw [same]
    exact dead

/-! ## What an action makes of a reset -/

/-- Whatever its outcome, `action` emits nothing of a message on `id` once it
was reset, and then it fails. -/
def Heeds {α : Type} (id : Nat) (action : Action α) (connection : Connection) :
    Prop :=
  ∃ later, (action connection).2.events = connection.events ++ later ∧
    ((∀ event ∈ later, ¬Resets id event) ∨
      ((∃ failure, (action connection).1 = .error failure) ∧ Heeded id later))

section Heeds

variable {α β : Type} {id : Nat} {connection : Connection}

theorem heeds_of_events
    {action : Action α}
    (same : (action connection).2.events = connection.events) :
    Heeds id action connection :=
  ⟨[], by rw [same, List.append_nil], Or.inl fun _ member => by cases member⟩

theorem heeds_bind
    {first : Action α}
    {next : α → Action β}
    (heeds : Heeds id first connection)
    (goes : ∀ value after, first connection = (.ok value, after) →
      Heeds id (next value) after) :
    Heeds id (first >>= next) connection := by
  obtain ⟨later, grown, made⟩ := heeds
  rw [Heeds, bind_apply]
  split
  next value after runs =>
    rw [runs] at grown made
    have calm : ∀ event ∈ later, ¬Resets id event := by
      rcases made with calm | ⟨⟨_, fails⟩, _⟩
      · exact calm
      · cases fails
    obtain ⟨more, further, then_⟩ := goes value after runs
    refine ⟨later ++ more, ?_, ?_⟩
    · rw [further, ← List.append_assoc]
      exact congrArg (· ++ more) grown
    · exact Event.calm_or_heeded_append calm then_
  next failure after runs =>
    rw [runs] at grown made
    refine ⟨later, grown, ?_⟩
    rcases made with calm | ⟨_, heeded⟩
    · exact Or.inl calm
    · exact Or.inr ⟨⟨failure, rfl⟩, heeded⟩

theorem heeds_emit
    {frame : Frame}
    (kind : frame.kind ≠ .rstStream) :
    Heeds id (emit frame) connection := by
  refine ⟨[.emitted frame], events_emit frame connection,
    Or.inl fun event member resets => ?_⟩
  rw [List.mem_singleton.mp member] at resets
  exact kind resets.1

theorem heeds_emitPieces
    (other : Nat)
    (ends : Bool)
    {kind : Kind}
    (block : kind = .headers ∨ kind = .continuation)
    (cut : List (List UInt8)) :
    Heeds id (emitPieces other ends kind cut) connection := by
  induction cut generalizing kind connection with
  | nil => exact heeds_of_events rfl
  | cons piece rest inductionHypothesis =>
      refine heeds_bind (heeds_emit ?_) fun _ after _ => ?_
      · exact (plain_pieceFrame other block _ _ _).2.1
      · exact inductionHypothesis (Or.inr rfl)

theorem heeds_sendHeaders
    (other : Nat)
    (fields : List Hpack.Field)
    (ends : Bool) :
    Heeds id (sendHeaders other fields ends) connection := by
  refine heeds_bind (heeds_of_events rfl) fun block encoded _ => ?_
  refine heeds_bind (heeds_of_events rfl) fun current _ _ => ?_
  refine heeds_bind (heeds_emitPieces other ends (Or.inl rfl) _) fun _ sent _ => ?_
  split
  · exact heeds_of_events rfl
  · exact heeds_of_events rfl

/-- A frame read once what was held is written. -/
theorem heeded_read
    (waits : Waits connection.core)
    (present : Present connection.streams id)
    {released after : Connection}
    (same : released.sight = connection.sight)
    {outcome : Except NetError Bool}
    (reads : pump released = (outcome, after)) :
    ∃ later, after.events = connection.events ++ later ∧
      (∀ event ∈ later, ¬Carries id event) ∧
      (outcome = .ok true → ∀ event ∈ later, Resets id event →
        Dead after.streams id) := by
  have cores : released.core = connection.core := congrArg Sight.core same
  have streams : released.streams = connection.streams :=
    congrArg Core.streams cores
  have events : released.events = connection.events :=
    congrArg Core.events cores
  have heeded := heeded_pump (cores ▸ waits) (streams ▸ present)
  rwa [reads, events] at heeded

theorem heeded_stall
    (waits : Waits connection.core)
    (present : Present connection.streams id)
    {outcome : Except NetError Unit}
    {after : Connection}
    (stalls : stall connection = (outcome, after)) :
    ∃ later, after.events = connection.events ++ later ∧
      (∀ event ∈ later, ¬Carries id event) ∧
      (outcome = .ok () → ∀ event ∈ later, Resets id event →
        Dead after.streams id) := by
  cases stalled_of_stall stalls with
  | unwritten releases same =>
      have events : after.events = connection.events :=
        congrArg (fun sight => sight.core.events) same
      refine ⟨[], by rw [events, List.append_nil], ?_, fun fine => by cases fine⟩
      exact fun _ member => by cases member
  | broken releases same reads | closed releases same reads =>
      obtain ⟨later, grown, uncarried, _⟩ := heeded_read waits present same reads
      exact ⟨later, grown, uncarried, fun fine => by cases fine⟩
  | read releases same reads =>
      obtain ⟨later, grown, uncarried, dead⟩ :=
        heeded_read waits present same reads
      exact ⟨later, grown, uncarried, fun _ => dead rfl⟩

theorem openWindow_of_dead
    (dead : Dead connection.streams id) :
    ∃ failure, connection.openWindow id = .error failure := by
  obtain ⟨stream, found, reset⟩ := dead
  obtain ⟨code, reset⟩ := Option.isSome_iff_exists.mp reset
  refine ⟨refused id code, ?_⟩
  simp only [openWindow, found, reset]

theorem sendFrom_of_dead
    (dead : Dead connection.streams id)
    (ends : Bool)
    (rest : List UInt8) :
    ∃ failure, sendFrom id ends rest connection = (.error failure, connection) := by
  obtain ⟨failure, shut⟩ := openWindow_of_dead dead
  refine ⟨failure, ?_⟩
  have step := sendStep_of_refused shut ends rest
  rw [sendFrom]
  split
  next runs =>
    rw [step] at runs
    cases runs
    rfl
  next runs =>
    rw [step] at runs
    cases runs
  next runs =>
    rw [step] at runs
    cases runs

/-- A turn that went well and left the record of its stream as it is read
nothing that resets the stream. -/
theorem heeded_sendStep
    (waits : Waits connection.core)
    (present : Present connection.streams id)
    (held : connection.held.isSome = true)
    {rest : List UInt8}
    (nonempty : rest ≠ [])
    {ends : Bool}
    {left : Option (List UInt8)}
    {after : Connection}
    (runs : sendStep id ends rest connection = (.ok left, after)) :
    ∃ later, after.events = connection.events ++ later ∧
      ((∀ event ∈ later, ¬Resets id event) ∨
        ((∀ event ∈ later, ¬Carries id event) ∧ left = some rest ∧
          Dead after.streams id)) := by
  have turned := turned_of_sendStep held nonempty runs
  generalize made : (Except.ok left : Except NetError _) = outcome at turned
  cases turned with
  | refused | broken => cases made
  | waited opens shut stalls =>
      cases made
      obtain ⟨later, grown, uncarried, dead⟩ :=
        heeded_stall waits present stalls
      refine ⟨later, grown, ?_⟩
      by_cases calm : ∀ event ∈ later, ¬Resets id event
      · exact Or.inl calm
      · simp only [not_forall, not_not] at calm
        obtain ⟨event, member, resets⟩ := calm
        exact Or.inr ⟨uncarried, rfl, dead rfl event member resets⟩
  | pieced bytes opens free piece =>
      refine ⟨[.emitted _], rfl, Or.inl fun event member resets => ?_⟩
      rw [List.mem_singleton.mp member] at resets
      cases resets.1

/-- The loop that sends a body sees a reset before the next piece. -/
theorem heeds_sendLoop
    (waits : Waits connection.core)
    (present : Present connection.streams id)
    (held : connection.held.isSome = true)
    {rest : List UInt8}
    (nonempty : rest ≠ [])
    (ends : Bool) :
    Heeds id (sendLoop id ends rest) connection := by
  rw [Heeds, sendLoop]
  fun_induction sendFrom id ends rest connection with
  | case1 rest connection failure after runs =>
      cases turned_of_sendStep held nonempty runs with
      | refused shut =>
          exact ⟨[], (List.append_nil _).symm,
            Or.inl fun _ member => by cases member⟩
      | broken opens shut stalls =>
          obtain ⟨later, grown, uncarried, _⟩ :=
            heeded_stall waits present stalls
          exact ⟨later, grown,
            Or.inr ⟨⟨failure, rfl⟩, Event.heeded_of_uncarried uncarried⟩⟩
  | case2 rest connection after runs =>
      obtain ⟨added, grown, made⟩ :=
        heeded_sendStep waits present held nonempty runs
      rcases made with calm | ⟨_, left, _⟩
      · exact ⟨added, grown, Or.inl calm⟩
      · cases left
  | case3 rest connection left after runs inductionHypothesis =>
      obtain ⟨added, grown, made⟩ :=
        heeded_sendStep waits present held nonempty runs
      rcases made with calm | ⟨uncarried, _, dead⟩
      · have moved := ((plays_sendStep held nonempty id ends).of_eq runs).steps
          waits
        have heldStill := (held_of_steady
          ((keeps_steady_sendStep id ends rest).of_eq runs)).trans held
        obtain ⟨stream, found⟩ := present
        obtain ⟨more, further, then_⟩ := inductionHypothesis
          (moved.waits waits) (moved.keeps_record found) heldStill
          (nonempty_of_sendStep nonempty runs)
        refine ⟨added ++ more, ?_, Event.calm_or_heeded_append calm then_⟩
        rw [further, grown, List.append_assoc]
      · obtain ⟨failure, gives⟩ := sendFrom_of_dead dead ends left
        rw [gives]
        exact ⟨added, grown,
          Or.inr ⟨⟨failure, rfl⟩, Event.heeded_of_uncarried uncarried⟩⟩

theorem heeds_sendData
    (waits : Waits connection.core)
    (present : Present connection.streams id)
    (held : connection.held.isSome = true)
    {body : List UInt8}
    (nonempty : body ≠ [])
    (ends : Bool) :
    Heeds id (sendData id body ends) connection := by
  refine heeds_bind (heeds_sendLoop waits present held nonempty ends) ?_
  intro _ sent _
  split
  · exact heeds_of_events rfl
  · exact heeds_of_events rfl

/-- Writing what was built adds nothing to the events. -/
theorem events_together
    (build : Action α)
    (connection : Connection) :
    (Connection.together build connection).2.events =
      (build { connection with held := some [] }).2.events := by
  rw [together_apply]
  exact congrArg (fun sight => sight.core.events) (keeps_sight_release _)

theorem Heeds.together
    {build : Action α}
    (heeds : Heeds id build { connection with held := some [] }) :
    Heeds id (Connection.together build) connection := by
  obtain ⟨later, grown, made⟩ := heeds
  refine ⟨later, (events_together build connection).trans grown, ?_⟩
  rcases made with calm | ⟨⟨failure, fails⟩, heeded⟩
  · exact Or.inl calm
  · refine Or.inr ⟨⟨failure, ?_⟩, heeded⟩
    rw [together_apply]
    simp only [fails]
    rfl

end Heeds

/-! ## A header block is written whatever became of its stream -/

theorem Heeds.grows
    {α : Type}
    {id : Nat}
    {action : Action α}
    {connection : Connection}
    (heeds : Heeds id action connection) :
    connection.events <+: (action connection).2.events := by
  obtain ⟨later, grown, _⟩ := heeds
  exact ⟨later, grown.symm⟩

/-- What the first of two actions did is among the events of both. -/
theorem grows_bind
    {α β : Type}
    {first : Action α}
    {next : α → Action β}
    {connection : Connection}
    {events : List Event}
    (grown : events <+: (first connection).2.events)
    (grows : ∀ value after, first connection = (.ok value, after) →
      after.events <+: (next value after).2.events) :
    events <+: ((first >>= next) connection).2.events := by
  rw [bind_apply]
  split
  next value after runs =>
    rw [runs] at grown
    exact grown.trans (grows value after runs)
  next failure after runs =>
    rwa [runs] at grown

/-- A block is cut into one piece at least. -/
theorem exists_pieces
    (most : Nat)
    (block : List UInt8) :
    ∃ piece rest, pieces most block = piece :: rest := by
  rw [pieces]
  cases cut : chunks most block with
  | nil => exact ⟨[], [], rfl⟩
  | cons piece rest => exact ⟨piece, rest, rfl⟩

theorem carried_sendHeaders
    (id : Nat)
    (fields : List Hpack.Field)
    (ends : Bool)
    (connection : Connection) :
    ∃ frame, Carries id (.emitted frame) ∧
      connection.events ++ [.emitted frame] <+:
        (sendHeaders id fields ends connection).2.events := by
  obtain ⟨piece, rest, cut⟩ := exists_pieces
    connection.remoteSettings.maxFrameSize
    (connection.encoder.encode fields).1
  let encoded : Connection :=
    { connection with encoder := (connection.encoder.encode fields).2 }
  have runs : sendHeaders id fields ends connection =
      (emitPieces id ends .headers (piece :: rest) >>= fun _ =>
        if ends then
          Fallible.modify fun connection => connection.endLocally id
        else
          pure ()) encoded := by
    rw [← cut]
    rfl
  refine ⟨pieceFrame id .headers ends rest.isEmpty piece,
    ⟨rfl, Or.inl rfl⟩, ?_⟩
  rw [runs]
  refine grows_bind ?_ fun _ after _ => ?_
  · rw [emitPieces]
    refine grows_bind ?_ fun _ after _ => ?_
    · have events : (emit (pieceFrame id .headers ends rest.isEmpty piece)
          encoded).2.events = connection.events ++ [.emitted _] :=
        events_emit _ encoded
      rw [events]
    · have heeds : Heeds id (emitPieces id ends .continuation rest) after :=
        heeds_emitPieces id ends (Or.inr rfl) rest
      exact heeds.grows
  · split
    · exact List.prefix_refl _
    · exact List.prefix_refl _

end Connection

namespace Server

open Core Connection
open Event (Resets Carries Heeded)

/-- What follows the head of an answer. -/
def sendRest (id : Nat) (response : Response) : Action Unit := do
  sendBody id response.body (Message.carried response.trailers = [])
  sendTrailers id (Message.carried response.trailers)

section Answers

variable {connection : Connection} {id : Nat}

theorem heeds_sendRest
    (waits : Waits connection.core)
    (closed : ClosedTo connection.core id)
    (held : connection.held.isSome = true)
    (response : Response) :
    Heeds id (sendRest id response) connection := by
  obtain ⟨stream, found, _⟩ := closed
  refine heeds_bind ?_ fun _ after _ => ?_
  · rw [sendBody]
    split
    · exact heeds_of_events rfl
    next some => exact heeds_sendData waits ⟨stream, found⟩ held some _
  · rw [sendTrailers]
    split
    · exact heeds_of_events rfl
    · exact heeds_sendHeaders _ _ _

/-- The head of an answer goes out first, and what follows heeds a reset. -/
theorem heeds_rest_of_head
    (waits : Waits connection.core)
    (closed : ClosedTo connection.core id)
    (held : connection.held.isSome = true)
    (response : Response)
    {ends : Bool}
    {headed : Connection}
    (heads : Connection.sendHeaders id (Message.responseFields response) ends
      connection = (.ok (), headed)) :
    Heeds id (sendRest id response) headed := by
  have unended := unended_of_closedTo closed
  have moved := ((plays_sendHeaders (fun _ => unended) _).of_eq heads).steps
    waits
  have heldStill := (held_of_steady
    ((keeps_steady_sendHeaders _ _ _).of_eq heads)).trans held
  exact heeds_sendRest (moved.waits waits) (moved.closedTo closed) heldStill
    response

theorem heeds_answer
    (waits : Waits connection.core)
    (closed : ClosedTo connection.core id)
    (response : Response) :
    Heeds id (together (sendAnswer id response)) connection := by
  refine Heeds.together (heeds_bind (heeds_sendHeaders _ _ _) ?_)
  intro _ headed heads
  exact heeds_rest_of_head (by exact waits) (by exact closed) rfl response heads

theorem carried_answer
    (waits : Waits connection.core)
    (closed : ClosedTo connection.core id)
    (response : Response) :
    ∃ frame, Carries id (.emitted frame) ∧
      connection.events ++ [.emitted frame] <+:
        (together (sendAnswer id response) connection).2.events := by
  obtain ⟨frame, carries, grown⟩ := carried_sendHeaders id
    (Message.responseFields response)
    (response.body = [] ∧ Message.carried response.trailers = [])
    { connection with held := some [] }
  refine ⟨frame, carries, ?_⟩
  rw [events_together]
  exact grows_bind grown fun _ headed heads =>
    (heeds_rest_of_head (by exact waits) (by exact closed) rfl response
      heads).grows

end Answers

/-- Whether answering `id` now heeds a reset of it: where it was reset before,
`respond` fails and emits nothing of a message on it, and where it is reset
meanwhile, `respond` fails and emits nothing more of one. -/
structure Heeding (server : Server) (id : Nat) (response : Response)
    (later : List Event) : Prop where
  events : (respond id response server).2.connection.events =
    server.connection.events ++ later
  before : Dead server.connection.streams id →
    (∃ failure, (respond id response server).1 = .error failure) ∧
      ∀ event ∈ later, ¬Carries id event
  meanwhile : ∀ event ∈ later, Resets id event →
    ∃ failure, (respond id response server).1 = .error failure
  heeded : Heeded id later

/-- Over every run: answering a stream heeds its reset if and only if it was not
reset before. -/
theorem heeding_iff
    (codec : Percent)
    {wire : Wire}
    {server : Server}
    (opens : handshake wire = .ok server)
    (asks : List Ask)
    (id : Nat)
    (response : Response) :
    let now := (run codec server asks).2
    (∃ later, Heeding now id response later) ↔
      id ∉ now.answering ∨ ¬Dead now.connection.streams id := by
  have serving := served_of_handshake codec opens asks
  generalize (run codec server asks).2 = now at serving
  have waits := serving.parted.sound.waits
  constructor
  · rintro ⟨later, heeding⟩
    by_contra neither
    rw [not_or, not_not, not_not] at neither
    obtain ⟨waiting, dead⟩ := neither
    obtain ⟨frame, carries, more, grown⟩ := carried_answer waits
      (serving.kept id waiting) response
    have events := heeding.events
    rw [respond_of_waiting waiting] at events
    have joined : now.connection.events ++ later =
        now.connection.events ++ .emitted frame :: more := by
      rw [← events, List.append_cons]
      exact grown.symm
    have same := List.append_cancel_left joined
    refine (heeding.before dead).2 (.emitted frame) ?_ carries
    rw [same]
    exact List.mem_cons_self
  · intro holds
    by_cases waiting : id ∈ now.answering
    · have live := holds.resolve_left (not_not.mpr waiting)
      obtain ⟨later, grown, made⟩ := heeds_answer waits
        (serving.kept id waiting) response
      have runs := respond_of_waiting waiting response
      refine ⟨later, ?_, fun dead => absurd dead live, ?_, ?_⟩
      · rw [runs]
        exact grown
      · intro event member resets
        rw [runs]
        rcases made with calm | ⟨fails, _⟩
        · exact absurd resets (calm event member)
        · exact fails
      · rcases made with calm | ⟨_, heeded⟩
        · rintro earlier event rest rfl resets
          exact absurd resets
            (calm event (List.mem_append_right _ List.mem_cons_self))
        · exact heeded
    · have runs := respond_of_unknown waiting response
      have none {holds : Event → Prop} : ∀ event ∈ [], holds event :=
        fun _ member => by cases member
      refine ⟨[], ?_, fun _ => ⟨?_, none⟩, none,
        Event.heeded_of_uncarried none⟩
      · rw [runs, List.append_nil]
      · rw [runs]
        exact ⟨_, rfl⟩

/-- A client that asks, and resets its stream before the answer. -/
def impatientWire : Wire where
  incoming := [.octets (preface ++
    (⟨.settings, 0, 0, []⟩ : Frame).encode ++
    (⟨.headers, endStream ||| endHeaders, 1, [0x82, 0x86, 0x84]⟩ :
      Frame).encode ++
    (Frame.reset 1 .cancel).encode)]
  accepts := []
  written := []

instance (streams : Streams) (id : Nat) : Decidable (Dead streams id) :=
  decidable_of_iff (∃ stream ∈ streams[id]?, stream.reset.isSome = true)
    Iff.rfl

/-- An answer without a body on a stream that was reset is written all the
same. -/
theorem not_heeding_of_reset :
    ∃ server, handshake impatientWire = .ok server ∧
      let now := (run .bare server [.nextRequest, .readFrame]).2
      Dead now.connection.streams 1 ∧
        (respond 1 emptyAnswer now).1.isOk = true ∧
        ¬∃ later, Heeding now 1 emptyAnswer later := by
  obtain ⟨server, opens, checked⟩ := exists_of_handshake
    (show (handshake impatientWire).toOption.map (fun server =>
      let now := (run .bare server [.nextRequest, .readFrame]).2
      decide (Dead now.connection.streams 1 ∧
        (respond 1 emptyAnswer now).1.isOk = true)) = some true
      by decide +kernel)
  obtain ⟨dead, answered⟩ := of_decide_eq_true checked
  refine ⟨server, opens, dead, answered, ?_⟩
  rintro ⟨later, heeding⟩
  obtain ⟨⟨failure, fails⟩, _⟩ := heeding.before dead
  rw [fails] at answered
  cases answered

/-- One answered before the reset is read heeds it. -/
theorem heeding_iff_answered :
    ∃ server, handshake impatientWire = .ok server ∧
      let now := (run .bare server [.nextRequest]).2
      1 ∈ now.answering ∧ ∃ later, Heeding now 1 emptyAnswer later := by
  obtain ⟨server, opens, checked⟩ := exists_of_handshake
    (show (handshake impatientWire).toOption.map (fun server =>
      let now := (run .bare server [.nextRequest]).2
      decide (1 ∈ now.answering ∧ ¬Dead now.connection.streams 1)) = some true
      by decide +kernel)
  obtain ⟨waiting, live⟩ := of_decide_eq_true checked
  exact ⟨server, opens, waiting,
    (heeding_iff .bare opens [.nextRequest] 1 emptyAnswer).mpr (Or.inr live)⟩

end Server
end Http2
end XmipNet
