import XmipNet.Http2.Course
import XmipNet.Http2.Items

/-!
# What the record of each stream holds

The record of a stream holds what its own items give, whatever came on the other
streams between them: every frame of the peer's that does not breach the
connection fills the record of its own stream, or leaves it, and every other
record stays as it was.
-/

namespace XmipNet
namespace Http2

open Hpack (Field)

namespace Stream

/-- What a record holds. -/
def held (stream : Stream) : Held where
  head := stream.head
  body := stream.body
  trailers := stream.trailers
  ended := !stream.state.receiving

/-- A block a record takes is one more item of what it holds. -/
theorem held_of_headers
    {stream changed : Stream}
    {fields : List Field}
    {ends : Bool}
    (heads : stream.headers fields ends = .ok changed) :
    changed.held = stream.held.take (.block fields ends) ∧
      stream.held.Fits (.block fields ends) := by
  obtain ⟨receiving, state, _⟩ := headers_eq_ok heads
  have ended : (!changed.state.receiving) =
      (!stream.state.receiving || ends) := by
    rw [state, receiving]
    cases ends with
    | true => rw [if_pos rfl, State.receiving_endedRemotely]; rfl
    | false => rw [if_neg Bool.false_ne_true, receiving]; rfl
  have unended : stream.held.ended = false := by
    rw [held, receiving]
    rfl
  simp only [headers, receiving, not_true_eq_false, if_false] at heads
  split at heads
  next first =>
    split at heads
    next replaced =>
      cases heads
      refine ⟨?_, unended, fun _ _ same => ?_⟩
      · simp only [held, Held.take, replaced, if_true, ← ended]
      · cases same
        exact Or.inl replaced
    next final =>
      cases heads
      have missing : stream.head.isNone = true :=
        first.resolve_right final
      refine ⟨?_, unended, fun _ _ same => ?_⟩
      · simp only [held, Held.take, final, Bool.false_eq_true, if_false,
          missing, if_true, ← ended]
      · cases same
        exact Or.inr (Or.inl (Option.isNone_iff_eq_none.mp missing))
  next second =>
    split at heads
    next asked =>
      cases heads
      rw [not_or] at second
      refine ⟨?_, unended, fun _ _ same => ?_⟩
      · simp only [held, Held.take, second.1, second.2, Bool.false_eq_true,
          if_false, ← ended]
      · cases same
        exact Or.inr (Or.inr asked)
    · cases heads

end Stream

namespace Item

/-- A header block that fails the check of header lists. -/
def Malformed (limit : Nat) (item : Item) : Prop :=
  ∃ fields ends violation, item = .block fields ends ∧
    Message.check fields limit = .error violation

end Item

/-- A record holds what it held, or was reset holding it. -/
def Stays (stream changed : Stream) : Prop :=
  changed.head = stream.head ∧ changed.body = stream.body ∧
    changed.trailers = stream.trailers ∧
      (changed.reset = none →
        stream.reset = none ∧
          changed.state.receiving = stream.state.receiving)

theorem stays_refl (stream : Stream) : Stays stream stream :=
  ⟨rfl, rfl, rfl, fun live => ⟨live, rfl⟩⟩

/-- What the record of a stream tells of the items that came on it: first some
that were malformed, each answered with a reset, then those it holds, and then,
where it was reset, those that were let go. -/
inductive Tells (limit : Nat) (came : List Item) (stream : Stream) : Prop
  | intro (earlier taken late : List Item)
      (split : came = earlier ++ (taken ++ late))
      (malformed : ∀ item ∈ earlier, item.Malformed limit)
      (orderly : Held.Orderly taken)
      (head : stream.head = (Held.of taken).head)
      (body : stream.body = (Held.of taken).body)
      (trailers : stream.trailers = (Held.of taken).trailers)
      (live : stream.reset = none →
        late = [] ∧ stream.state.receiving = !(Held.of taken).ended)

section Tells

variable {limit : Nat} {came : List Item} {stream changed : Stream}

theorem Tells.stays
    (tells : Tells limit came stream)
    (stays : Stays stream changed) :
    Tells limit came changed := by
  obtain ⟨earlier, taken, late, split, malformed, orderly, head, body, trailers,
    live⟩ := tells
  obtain ⟨sameHead, sameBody, sameTrailers, alive⟩ := stays
  refine ⟨earlier, taken, late, split, malformed, orderly, sameHead.trans head,
    sameBody.trans body, sameTrailers.trans trailers, fun none => ?_⟩
  obtain ⟨before, receiving⟩ := alive none
  exact ⟨(live before).1, receiving.trans (live before).2⟩

/-- An item that comes on a record that is reset is let go. -/
theorem Tells.letGo
    (tells : Tells limit came stream)
    (dead : stream.reset ≠ none)
    (item : Item) :
    Tells limit (came ++ [item]) stream := by
  obtain ⟨earlier, taken, late, split, malformed, orderly, head, body, trailers,
    _⟩ := tells
  refine ⟨earlier, taken, late ++ [item], ?_, malformed, orderly, head, body,
    trailers, fun none => absurd none dead⟩
  rw [split]
  simp only [List.append_assoc]

/-- A live record takes an item. -/
theorem Tells.take
    (tells : Tells limit came stream)
    (alive : stream.reset = none)
    {item : Item}
    (fits : stream.held.Fits item)
    (takes : changed.held = stream.held.take item) :
    Tells limit (came ++ [item]) changed := by
  obtain ⟨earlier, taken, late, split, malformed, orderly, head, body, trailers,
    live⟩ := tells
  obtain ⟨rfl, receiving⟩ := live alive
  have whole : stream.held = Held.of taken := by
    rw [Stream.held, head, body, trailers, receiving, Bool.not_not]
  rw [whole] at fits
  rw [whole, ← Held.of_append_singleton] at takes
  have ended : changed.state.receiving =
      !(Held.of (taken ++ [item])).ended := by
    rw [← takes, Stream.held, Bool.not_not]
  refine ⟨earlier, taken ++ [item], [], ?_, malformed, orderly.more fits,
    congrArg Held.head takes, congrArg Held.body takes,
    congrArg Held.trailers takes, fun _ => ⟨rfl, ended⟩⟩
  rw [split]
  simp only [List.append_nil, List.append_assoc]

/-- A stream just opened has only had malformed blocks. -/
theorem tells_new
    (malformed : ∀ item ∈ came, item.Malformed limit)
    (send receive : Nat) :
    Tells limit came (.new send receive) :=
  ⟨came, [], [], by rw [List.append_nil, List.append_nil], malformed, .nothing,
    rfl, rfl, rfl, fun _ => ⟨rfl, rfl⟩⟩

end Tells

namespace Core

/-- How a frame that gives `item` on `id` changes the record of `id`. -/
inductive Fills (core after : Core) (id : Nat) (item : Option Item) :
    Option Stream → Option Stream → Prop
  /-- There is none: the stream was opened before, or the block is malformed. -/
  | absent
      (malformed : after.highest < id → ∀ one, item = some one →
        one.Malformed core.headerListLimit) :
      Fills core after id item none none
  /-- It holds what it held: nothing came on it, or it is reset. -/
  | stays {stream changed : Stream}
      (stays : Stays stream changed)
      (letGo : item = none ∨ changed.reset ≠ none) :
      Fills core after id item (some stream) (some changed)
  /-- It takes the item. -/
  | takes {stream changed : Stream} {one : Item}
      (same : item = some one)
      (live : stream.reset = none)
      (fits : stream.held.Fits one)
      (takes : changed.held = stream.held.take one) :
      Fills core after id item (some stream) (some changed)
  /-- The peer opens it with the item. -/
  | opened {changed : Stream} {one : Item} {send receive : Nat}
      (opens : Opens core id)
      (same : item = some one)
      (fits : (Stream.new send receive).held.Fits one)
      (takes : changed.held = (Stream.new send receive).held.take one) :
      Fills core after id item none (some changed)

section Fills

variable {core after : Core} {id other : Nat} {item : Option Item}

theorem fills_of_nothing
    (nothing : item = none)
    (record : Option Stream) :
    Fills core after id item record record := by
  cases record with
  | none => exact .absent fun _ one same => by cases nothing.symm.trans same
  | some stream => exact .stays (stays_refl stream) (Or.inl nothing)

/-- One record written. -/
theorem fills_of_sets
    {streams changed : Streams}
    {stream : Stream}
    (sets : Sets streams other stream changed)
    (elsewhere : other ≠ id → item = none)
    (own : other = id →
      Fills core after id item streams[id]? (some stream)) :
    Fills core after id item streams[id]? changed[id]? := by
  rw [sets id]
  split
  next same => exact own same
  next different => exact fills_of_nothing (elsewhere different) _

/-- One stream ended by this side. -/
theorem fills_of_reset
    {streams : Streams}
    {code : ErrorCode}
    (elsewhere : other ≠ id → item = none)
    (absent : streams[id]? = none → after.highest < id →
      ∀ one, item = some one → one.Malformed core.headerListLimit) :
    Fills core after id item streams[id]?
      (streams.modify other fun stream =>
        { stream with state := .closed, reset := some code })[id]? := by
  rw [NatMap.getElem?_modify]
  split
  next same =>
    cases same
    cases found : streams[id]? with
    | none => exact .absent (absent found)
    | some stream =>
        exact .stays ⟨rfl, rfl, rfl, fun none => (by cases none)⟩
          (Or.inr (Option.some_ne_none code))
  next different => exact fills_of_nothing (elsewhere different) _

theorem fills_of_sameButSend
    {streams changed : Streams}
    (same : SameButSend streams changed)
    (nothing : item = none) :
    Fills core after id item streams[id]? changed[id]? := by
  have equal := same id
  cases before : streams[id]? with
  | none =>
      rw [before, Option.map_none, eq_comm, Option.map_eq_none_iff] at equal
      rw [equal]
      exact fills_of_nothing nothing none
  | some stream =>
      rw [before, Option.map_some, eq_comm, Option.map_eq_some_iff] at equal
      obtain ⟨record, now, alike⟩ := equal
      rw [now]
      simp only [unsent, Stream.mk.injEq] at alike
      obtain ⟨state, _, _, head, body, trailers, reset⟩ := alike
      refine .stays ⟨head, body, trailers, fun live => ?_⟩ (Or.inl nothing)
      exact ⟨reset.symm.trans live, by rw [state]⟩

/-- A `DATA` on its stream. -/
theorem Extends.fills
    {frame : Frame}
    (carries : Extends frame core after)
    (opened : frame.stream ≤ core.highest)
    (elsewhere : frame.stream ≠ id → item = none)
    (own : frame.stream = id → ∀ content, frame.content = .ok content →
      item = some (.data content (frame.has endStream))) :
    Fills core after id item core.streams[id]? after.streams[id]? := by
  have unopened {later : Core} (same : later.highest = core.highest) :
      later.highest < id → ∀ one, item = some one →
        one.Malformed core.headerListLimit := by
    intro fresh one given
    have different : frame.stream ≠ id := by omega
    cases (elsewhere different).symm.trans given
  have accepted {stream : Stream} {content : List UInt8}
      (accepts : Accepts core frame stream content)
      (changed : Stream)
      (ended : changed.held =
        stream.held.take (.data content (frame.has endStream)))
      (same : frame.stream = id) :
      Fills core after id item core.streams[id]? (some changed) := by
    have fits : stream.held.Fits (.data content (frame.has endStream)) := by
      refine ⟨?_, fun _ _ other => by cases other⟩
      rw [Stream.held, accepts.receiving]
      rfl
    rw [← same, accepts.found]
    exact .takes (own same content accepts.holds) accepts.live fits ended
  cases carries with
  | @letGo stream found dead =>
      by_cases same : frame.stream = id
      · rw [← same, found]
        exact .stays (stays_refl stream)
          (Or.inr (Option.isSome_iff_ne_none.mp dead))
      · exact fills_of_nothing (elsewhere same) _
  | spoiled code shut =>
      exact fills_of_reset elsewhere fun _ => unopened rfl
  | @overBody stream content streams accepts exceeds sets =>
      by_cases same : frame.stream = id
      · have marked : ({ core with streams := streams }.spoil frame.stream
            .cancel).streams[id]? = some
              { stream with
                receive :=
                  { value := stream.receive.value - frame.payload.length }
                state := .closed
                reset := some .cancel } := by
          rw [spoil, log, markReset, NatMap.getElem?_modify, if_pos same]
          exact congrArg _ sets.own
        rw [marked, ← same, accepts.found]
        exact .stays ⟨rfl, rfl, rfl, fun none => (by cases none)⟩
          (Or.inr (Option.some_ne_none _))
      · have kept : ({ core with streams := streams }.spoil frame.stream
            .cancel).streams[id]? = core.streams[id]? := by
          rw [spoil, log, markReset, NatMap.getElem?_modify, if_neg same,
            sets id, if_neg same]
        rw [kept]
        exact fills_of_nothing (elsewhere same) _
  | ended accepts within ends sets =>
      refine fills_of_sets sets elsewhere (accepted accepts _ ?_)
      simp only [Stream.held, Held.take, accepts.receiving, ends,
        State.receiving_endedRemotely]
      rfl
  | grown accepts within stays positive sets =>
      refine fills_of_sets sets elsewhere (accepted accepts _ ?_)
      simp only [Stream.held, Held.take, stays, Bool.or_false]
  | empty accepts within stays none sets =>
      refine fills_of_sets sets elsewhere (accepted accepts _ ?_)
      simp only [Stream.held, Held.take, stays, Bool.or_false]

/-- A whole header block on its stream. -/
theorem Heads.fills
    {fields : List Field}
    {ends : Bool}
    (heads : Heads other fields ends core after)
    (elsewhere : other ≠ id → item = none)
    (own : other = id → item = some (.block fields ends)) :
    Fills core after id item core.streams[id]? after.streams[id]? := by
  have malformedOwn {violation : Violation}
      (fails : Message.check fields core.headerListLimit = .error violation) :
      ∀ one, item = some one → one.Malformed core.headerListLimit := by
    intro one given
    by_cases same : other = id
    · cases (own same).symm.trans given
      exact ⟨fields, ends, violation, rfl, fails⟩
    · cases (elsewhere same).symm.trans given
  cases heads with
  | malformed violation fails =>
      exact fills_of_reset elsewhere fun _ _ => malformedOwn fails
  | @letGo stream checks found dead =>
      by_cases same : other = id
      · rw [← same, found]
        exact .stays (stays_refl stream)
          (Or.inr (Option.isSome_iff_ne_none.mp dead))
      · exact fills_of_nothing (elsewhere same) _
  | headed checks found live heads =>
      refine fills_of_sets (sets_insert _ _ _) elsewhere fun same => ?_
      obtain ⟨takes, fits⟩ := Stream.held_of_headers heads
      rw [← same, found]
      exact .takes (own same) live fits takes
  | @unheaded stream checks found live violation fails =>
      refine fills_of_reset elsewhere fun absent => ?_
      intro _ one given
      by_cases same : other = id
      · rw [same, absent] at found
        cases found
      · cases (elsewhere same).symm.trans given
  | opened checks opens staying fits heads sets =>
      refine fills_of_sets sets elsewhere fun same => ?_
      obtain ⟨takes, fits⟩ := Stream.held_of_headers heads
      cases same
      rw [opens.absent]
      exact .opened opens (own rfl) fits takes
  | passedOver checks opens leaving =>
      by_cases same : other = id
      · cases same
        have there : ((core.reach id).log (.passedOver id)).streams[id]? =
            none := opens.absent
        rw [there, opens.absent]
        refine .absent fun fresh => ?_
        exact absurd fresh (not_lt.mpr (le_max_right _ _))
      · exact fills_of_nothing (elsewhere same) _
  | refused checks opens staying full =>
      refine fills_of_reset elsewhere fun _ fresh one given => ?_
      by_cases same : other = id
      · cases same
        exact absurd fresh (not_lt.mpr (le_max_right _ _))
      · cases (elsewhere same).symm.trans given

/-- A frame's change, from a core that lets the same streams be opened. -/
theorem Fills.of_core
    {earlier : Core}
    {record changed : Option Stream}
    (fills : Fills core after id item record changed)
    (limit : earlier.headerListLimit = core.headerListLimit)
    (opens : Opens core id → Opens earlier id) :
    Fills earlier after id item record changed := by
  cases fills with
  | absent malformed => exact .absent (limit ▸ malformed)
  | stays stays letGo => exact .stays stays letGo
  | takes same live fits takes => exact .takes same live fits takes
  | opened opened same fits takes => exact .opened (opens opened) same fits takes

end Fills

theorem fills_regain
    {core after : Core}
    {length id : Nat}
    {item : Option Item}
    (fills : Fills (core.regain length) after id item
      (core.regain length).streams[id]? after.streams[id]?) :
    Fills core after id item core.streams[id]? after.streams[id]? := by
  rw [regain] at fills
  split at fills
  · exact fills.of_core rfl fun opens =>
      ⟨opens.server, opens.odd, opens.above, opens.absent, opens.seen,
        opens.bounded⟩
  · exact fills

theorem highest_regain
    (core : Core)
    (length : Nat) :
    (core.regain length).highest = core.highest := by
  rw [regain]
  split
  · rfl
  · rfl

end Core

/-- What a sight reads frames by. -/
def Sight.reader (sight : Sight) : Reader where
  decoder := sight.decoder
  continuing := sight.core.continuing

section Took

variable {frame : Frame} {sight after : Sight}

theorem kind_of_assembles
    {block : Nat × List UInt8 × Bool}
    (assembles : sight.core.assembled frame = some block) :
    frame.kind ≠ .data := by
  rcases Core.kind_of_assembled assembles with kind | kind
  · exact fun data => by cases data.symm.trans kind
  · exact fun data => by cases data.symm.trans kind

/-- A frame that was taken moves the decoder and the block that waits as reading
it does. -/
theorem Took.reader
    (took : Took frame sight after) :
    (sight.reader.read frame).1 = after.reader := by
  have others (kind : Kind)
      (same : frame.kind = kind)
      (data : kind ≠ .data)
      (headers : kind ≠ .headers)
      (continuation : kind ≠ .continuation) :
      (sight.reader.read frame).1 = sight.reader := by
    rw [Reader.read_of_other _ (same ▸ data) (same ▸ headers)
      (same ▸ continuation)]
  cases took with
  | @data core kind unbroken room opened carries =>
      rw [(Reader.read_of_data _ kind).1]
      have same : core.continuing = sight.core.continuing := by
        have regained : (sight.core.regain
            frame.payload.length).continuing = sight.core.continuing := by
          rw [Core.regain]
          split <;> rfl
        cases carries <;> exact regained
      exact congrArg (Reader.mk sight.decoder) same.symm
  | waiting assembles onward short =>
      have reads : sight.reader.assembled frame = _ := assembles
      rw [Reader.read_of_waiting (kind_of_assembles assembles) reads onward]
      rfl
  | decoded assembles whole decodes heads =>
      have reads : sight.reader.assembled frame = _ := assembles
      rw [Reader.read_of_decoded (kind_of_assembles assembles) reads whole
        decodes]
      cases heads <;> rfl
  | unheard kind =>
      rcases kind with kind | kind | kind | ⟨code, kind⟩ <;>
        exact others _ kind Kind.noConfusion Kind.noConfusion Kind.noConfusion
  | spoiled code kind =>
      rcases kind with kind | kind <;>
        exact others _ kind Kind.noConfusion Kind.noConfusion Kind.noConfusion
  | reset code kind | settings kind | pinged kind | ponged kind
  | wentAway kind | granted kind =>
      exact others _ kind Kind.noConfusion Kind.noConfusion Kind.noConfusion

/-- A frame that was taken fills the records as its item says. -/
theorem Took.fills
    (took : Took frame sight after)
    (id : Nat) :
    Core.Fills sight.core after.core id (sight.reader.gives frame id)
      sight.core.streams[id]? after.core.streams[id]? := by
  have others (kind : Kind)
      (same : frame.kind = kind)
      (data : kind ≠ .data)
      (headers : kind ≠ .headers)
      (continuation : kind ≠ .continuation) :
      sight.reader.gives frame id = none :=
    Reader.gives_of_other _ (same ▸ data) (same ▸ headers)
      (same ▸ continuation) id
  cases took with
  | @data core kind unbroken room opened carries =>
      obtain ⟨elsewhere, own⟩ := (sight.reader.read_of_data kind).2 id
      refine Core.fills_regain (carries.fills ?_ elsewhere own)
      rw [Core.highest_regain]
      exact opened
  | waiting assembles onward short =>
      have reads : sight.reader.assembled frame = _ := assembles
      refine Core.fills_of_nothing ?_ _
      rw [Reader.gives, Reader.read_of_waiting (kind_of_assembles assembles)
        reads onward]
      rfl
  | decoded assembles whole decodes heads =>
      have reads : sight.reader.assembled frame = _ := assembles
      have given := Reader.read_of_decoded (kind_of_assembles assembles) reads
        whole decodes
      refine (heads.fills (fun other => ?_) fun own => ?_).of_core rfl
        fun opens => ⟨opens.server, opens.odd, opens.above, opens.absent,
          opens.seen, opens.bounded⟩
      · rw [Reader.gives, given]
        exact if_neg other
      · rw [Reader.gives, given]
        exact if_pos own
  | unheard kind =>
      refine Core.fills_of_nothing ?_ _
      rcases kind with kind | kind | kind | ⟨code, kind⟩ <;>
        exact others _ kind Kind.noConfusion Kind.noConfusion Kind.noConfusion
  | spoiled code kind =>
      have nothing : sight.reader.gives frame id = none := by
        rcases kind with kind | kind <;>
          exact others _ kind Kind.noConfusion Kind.noConfusion
            Kind.noConfusion
      refine Core.fills_of_reset (fun _ => nothing) fun _ _ one given => ?_
      cases nothing.symm.trans given
  | reset code kind opened =>
      have nothing := others _ kind Kind.noConfusion Kind.noConfusion
        Kind.noConfusion
      refine Core.fills_of_reset (fun _ => nothing) fun _ _ one given => ?_
      cases nothing.symm.trans given
  | settings kind same | granted kind same =>
      exact Core.fills_of_sameButSend same (others _ kind Kind.noConfusion
        Kind.noConfusion Kind.noConfusion)
  | pinged kind | ponged kind =>
      exact Core.fills_of_nothing (others _ kind Kind.noConfusion
        Kind.noConfusion Kind.noConfusion) _
  | @wentAway last code kind word =>
      have nothing := others _ kind Kind.noConfusion Kind.noConfusion
        Kind.noConfusion
      simp only [NatMap.getElem?_map]
      cases sight.core.streams[id]? with
      | none => exact Core.fills_of_nothing nothing none
      | some stream =>
          simp only [Option.map_some, Connection.passedOverBy]
          split
          · exact .stays ⟨rfl, rfl, rfl, fun none => (by cases none)⟩
              (Or.inl nothing)
          · exact Core.fills_of_nothing nothing _

/-- Taking a frame reads no other. -/
theorem Took.arrivals
    (took : Took frame sight after) :
    Event.arrivals after.core.events = Event.arrivals sight.core.events := by
  cases took with
  | data kind unbroken room opened carries =>
      have regained : Event.arrivals (sight.core.regain
          frame.payload.length).events = Event.arrivals sight.core.events := by
        rw [Core.regain]
        split
        · exact Event.arrivals_log rfl
        · rfl
      cases carries with
      | letGo | ended | empty => exact regained
      | spoiled | overBody | grown => exact (Event.arrivals_log rfl).trans regained
  | decoded assembles whole decodes heads =>
      cases heads with
      | letGo | headed | opened => rfl
      | malformed | unheaded | passedOver | refused => exact Event.arrivals_log rfl
  | spoiled | settings | pinged => exact Event.arrivals_log rfl
  | waiting | unheard | reset | ponged | wentAway | granted => rfl

end Took

/-- What is told of a connection: its reader is where the frames that came lead,
on a stream not yet opened only malformed blocks have come, and every record but
those `exempt` tells what came on its stream. -/
structure Told (exempt : Nat → Prop) (sight : Sight) : Prop where
  synced : (Reader.initial.readAll (Event.arrivals sight.core.events)).1 =
    sight.reader
  fresh : ∀ id, sight.core.highest < id →
    ∀ item ∈ Event.came sight.core.events id,
      item.Malformed sight.core.headerListLimit
  records : ∀ id stream, sight.core.streams[id]? = some stream → ¬exempt id →
    Tells sight.core.headerListLimit (Event.came sight.core.events id) stream

section Told

variable {exempt : Nat → Prop} {sight after : Sight}

theorem Told.mono
    {wider : Nat → Prop}
    (told : Told exempt sight)
    (within : ∀ id, exempt id → wider id) :
    Told wider sight where
  synced := told.synced
  fresh := told.fresh
  records id stream found unexempted :=
    told.records id stream found fun spared => unexempted (within id spared)

/-- What reads nothing and lets every record stay as it was. -/
theorem Told.of_stays
    (told : Told exempt sight)
    (arrivals : Event.arrivals after.core.events =
      Event.arrivals sight.core.events)
    (reader : after.reader = sight.reader)
    (highest : sight.core.highest ≤ after.core.highest)
    (limit : after.core.headerListLimit = sight.core.headerListLimit)
    (stays : ∀ id changed, after.core.streams[id]? = some changed →
      ¬exempt id → ∃ stream, sight.core.streams[id]? = some stream ∧
        Stays stream changed) :
    Told exempt after where
  synced := by rw [arrivals, reader, told.synced]
  fresh id above := by
    rw [limit, Event.came_of_arrivals arrivals]
    exact told.fresh id (highest.trans_lt above)
  records id changed found included := by
    rw [limit, Event.came_of_arrivals arrivals]
    obtain ⟨stream, before, same⟩ := stays id changed found included
    exact (told.records id stream before included).stays same

/-- A frame that was taken. -/
theorem Told.took
    (told : Told exempt sight)
    {frame : Frame}
    (took : Took frame (sight.log (.received frame)) after)
    (level : sight.core.client = false →
      sight.core.highest = sight.core.lastPeer)
    (table : ∀ (id : Nat) stream, sight.core.streams[id]? = some stream →
      id ≤ sight.core.highest)
    (placed : ∀ (id : Nat) stream, after.core.streams[id]? = some stream →
      id ≤ after.core.highest)
    (highest : sight.core.highest ≤ after.core.highest)
    (limit : after.core.headerListLimit = sight.core.headerListLimit) :
    Told exempt after := by
  have arrivals : Event.arrivals after.core.events =
      Event.arrivals sight.core.events ++ [frame] := by
    rw [took.arrivals]
    exact Event.arrivals_append _ _
  have came := Event.came_of_received arrivals told.synced
  have fills (id : Nat) : Core.Fills sight.core after.core id
      (sight.reader.gives frame id) sight.core.streams[id]?
      after.core.streams[id]? :=
    (took.fills id).of_core rfl fun opens =>
      ⟨opens.server, opens.odd, opens.above, opens.absent, opens.seen,
        opens.bounded⟩
  refine ⟨?_, fun id above item member => ?_, fun id changed found included =>
    ?_⟩
  · rw [arrivals, Reader.readAll_append, Reader.readAll_singleton, told.synced]
    exact took.reader
  · rw [came id, List.mem_append, Option.mem_toList] at member
    rw [limit]
    rcases member with before | given
    · exact told.fresh id (highest.trans_lt above) item before
    · have filled := fills id
      generalize there : sight.core.streams[id]? = record at filled
      generalize now : after.core.streams[id]? = later at filled
      cases filled with
      | absent malformed => exact malformed above item given
      | stays | takes =>
          exact absurd (highest.trans_lt above) (not_lt.mpr (table id _ there))
      | opened =>
          exact absurd above (not_lt.mpr (placed id _ now))
  · have filled := fills id
    rw [found] at filled
    rw [limit, came id]
    generalize there : sight.core.streams[id]? = record at filled
    generalize sight.reader.gives frame id = given at filled
    cases filled with
    | stays stays letGo =>
        have tells := (told.records id _ there included).stays stays
        cases given with
        | none =>
            rw [Option.toList_none, List.append_nil]
            exact tells
        | some item =>
            have dead := letGo.resolve_left (Option.some_ne_none item)
            exact tells.letGo dead item
    | takes same live fits takes =>
        cases same
        exact (told.records id _ there included).take live fits takes
    | opened opens same fits takes =>
        cases same
        have above : sight.core.highest < id :=
          level opens.server ▸ opens.above
        exact (tells_new (told.fresh id above) _ _).take rfl fits takes

end Told

namespace Connection

open Core

/-- What every beat of a connection that is not ended over a breach keeps. -/
theorem Beat.told
    {exempt : Nat → Prop}
    {connection after : Connection}
    (beat : Beat connection after)
    (sound : Sound connection.core)
    (level : connection.client = false →
      connection.highest = connection.lastPeer)
    (unbreached : Event.Unbreached after.events)
    (told : Told exempt connection.sight) :
    Told exempt after.sight := by
  have steps := beat.steps sound.waits
  have highest : connection.highest ≤ after.highest := steps.monotone.2.1
  have limit : after.core.headerListLimit = connection.core.headerListLimit :=
    congrArg (fun settings : Settings =>
      settings.maxHeaderListSize.getD usizeMax) steps.localSettings
  cases beat with
  | aside same =>
      rw [same]
      exact told
  | pumped =>
      rcases took_of_pump sound.waits unbreached with
        same | ⟨frame, _, _, took⟩
      · rw [same]
        exact told
      · exact told.took took level sound.placed.table
          (steps.placed sound.placed).table highest limit
  | emitted plain own =>
      rw [sight_emit]
      exact told.of_stays (Event.arrivals_log rfl) rfl le_rfl rfl
        fun id changed found _ => ⟨changed, found, stays_refl changed⟩
  | @sent id stream frame piece bytes =>
      refine told.of_stays (Event.arrivals_log rfl) rfl le_rfl rfl ?_
      intro other changed found _
      have sets := sets_insert connection.streams id
        { stream with
          send := { value := stream.send.value - frame.payload.length } }
      have there := (sets other).symm.trans found
      split at there
      next same =>
        cases same
        cases there
        exact ⟨stream, piece.found, rfl, rfl, rfl, fun live => ⟨live, rfl⟩⟩
      · exact ⟨changed, there, stays_refl changed⟩
  | @endedLocally id unended =>
      refine told.of_stays rfl rfl le_rfl rfl ?_
      intro other changed found _
      have there := (NatMap.getElem?_modify ..).symm.trans found
      split at there
      next same =>
        cases same
        rw [Option.map_eq_some_iff] at there
        obtain ⟨stream, before, rfl⟩ := there
        refine ⟨stream, before, rfl, rfl, rfl, fun live => ⟨live, ?_⟩⟩
        have unended := unended stream before
        cases state : stream.state with
        | halfClosedLocal => exact absurd state unended
        | opened | halfClosedRemote | closed => rfl
      · exact ⟨changed, there, stays_refl changed⟩
  | @ended id code seen refuses =>
      rw [sight_reset]
      refine told.of_stays (Event.arrivals_log rfl) rfl le_rfl rfl ?_
      intro other changed found _
      have there := (NatMap.getElem?_modify ..).symm.trans found
      split at there
      next same =>
        cases same
        rw [Option.map_eq_some_iff] at there
        obtain ⟨stream, before, rfl⟩ := there
        exact ⟨stream, before, rfl, rfl, rfl, fun none => (by cases none)⟩
      · exact ⟨changed, there, stays_refl changed⟩
  | leaving code debug =>
      have same : (goAway code debug connection).2.sight =
          { connection.sight with
            core := { connection.core with goingAway := true }.log
              (.emitted (.goaway connection.lastPeer code
                (Text.octets debug))) } := by
        rw [goAway, Fallible.modify_bind_apply, Fallible.get_bind_apply,
          sight_emit]
        rfl
      rw [same]
      exact told.of_stays (Event.arrivals_log rfl) rfl le_rfl rfl
        fun id changed found _ => ⟨changed, found, stays_refl changed⟩

/-- What happens to a connection whose records are read by nobody: a beat, a
record removed, or a stream opened by a client. -/
inductive Tends : Connection → Connection → Prop
  | beat {connection after : Connection} (beat : Beat connection after) :
      Tends connection after
  | removed (connection : Connection) (id : Nat) :
      Tends connection (connection.remove id)
  | opened {connection : Connection} {id : Nat}
      (asClient : connection.client = true)
      (fresh : connection.highest < id) :
      Tends connection (connection.openStream id)

/-- A connection that has handled frames of any kind in any order. -/
def Tended (client : Bool) (connection : Connection) : Prop :=
  ∃ wire, Relation.ReflTransGen Tends (initial wire client) connection

section Tended

variable {exempt : Nat → Prop} {connection after : Connection} {id : Nat}

theorem Tends.stride
    (tends : Tends connection after) :
    Stride connection after := by
  cases tends with
  | beat beat => exact .beat beat
  | removed id => exact .removed connection id
  | opened asClient fresh => exact .opened asClient fresh

theorem told_remove
    (told : Told exempt connection.sight)
    (id : Nat) :
    Told exempt (connection.remove id).sight := by
  refine told.of_stays rfl rfl le_rfl rfl fun other changed found _ => ?_
  have there := (NatMap.getElem?_erase ..).symm.trans found
  split at there
  · cases there
  · exact ⟨changed, there, stays_refl changed⟩

theorem told_openStream
    (told : Told exempt connection.sight)
    (absent : connection.streams[id]? = none)
    (fresh : connection.highest < id) :
    Told exempt (connection.openStream id).sight where
  synced := told.synced
  fresh other above := told.fresh other ((le_max_left _ _).trans_lt above)
  records other stream found included := by
    have opened : (connection.core.openStream id).streams[other]? =
        some stream := found
    rcases found_of_openStream absent opened with ⟨rfl, rfl⟩ | there
    · exact tells_new (told.fresh other fresh) _ _
    · exact told.records other stream there included

/-- On a server the highest stream opened is the last the client opened. -/
theorem Stride.level
    (stride : Stride connection after)
    (waits : Waits connection.core)
    (level : connection.client = false →
      connection.highest = connection.lastPeer) :
    after.client = false → after.highest = after.lastPeer := by
  cases stride with
  | beat beat =>
      have steps := beat.steps waits
      exact fun server => steps.level (level (steps.client.symm.trans server))
  | emptied | removed => exact level
  | opened asClient => exact fun server => by cases asClient.symm.trans server

theorem Reached.level
    {client : Bool}
    (reached : Reached client connection) :
    connection.client = false → connection.highest = connection.lastPeer := by
  obtain ⟨wire, strides⟩ := reached
  induction strides with
  | refl => exact fun _ => rfl
  | tail before stride inductionHypothesis =>
      have middle : Reached client _ := ⟨wire, before⟩
      exact stride.level middle.sound.waits inductionHypothesis

theorem Tended.reached
    {client : Bool}
    (tended : Tended client connection) :
    Reached client connection := by
  obtain ⟨wire, tends⟩ := tended
  exact ⟨wire, Relation.ReflTransGen.mono (fun _ _ => Tends.stride) _ _ tends⟩

theorem Tends.told
    {client : Bool}
    (tends : Tends connection after)
    (reached : Reached client connection)
    (unbreached : Event.Unbreached after.events)
    (told : Told exempt connection.sight) :
    Told exempt after.sight := by
  cases tends with
  | beat beat => exact beat.told reached.sound reached.level unbreached told
  | removed id => exact told_remove told id
  | opened asClient fresh =>
      exact told_openStream told
        (reached.sound.placed.absent_of_fresh fresh) fresh

theorem told_initial
    (wire : Wire)
    (client : Bool) :
    Told exempt (initial wire client).sight where
  synced := rfl
  fresh _ _ _ member := by cases member
  records id stream found :=
    absurd found (absent_initial wire client id stream)

/-- A connection that has handled frames, none of them a breach of it, tells
what came on each stream. -/
theorem Tended.told
    {client : Bool}
    (tended : Tended client connection)
    (unbreached : Event.Unbreached connection.events) :
    Told exempt connection.sight := by
  obtain ⟨wire, tends⟩ := tended
  induction tends with
  | refl => exact told_initial wire client
  | tail before one inductionHypothesis =>
      have tended : Tended client _ := ⟨wire, before⟩
      have reached := tended.reached
      have shorter := (one.stride.turns reached.sound.waits).events
      exact one.told reached unbreached
        (inductionHypothesis (unbreached.of_prefix shorter))

end Tended

/-- A client that opens stream 1 with an informational block, opens stream 3,
and goes on with stream 1 after `between`. -/
def crossingWire (between : List UInt8) : Wire where
  incoming := [.octets ((⟨.settings, 0, 0, []⟩ : Frame).encode ++
    (⟨.headers, endHeaders, 1, [0x08, 0x03, 0x31, 0x30, 0x30]⟩ :
      Frame).encode ++
    (⟨.headers, endHeaders, 3, [0x82]⟩ : Frame).encode ++ between ++
    (⟨.headers, endHeaders, 1, [0x83]⟩ : Frame).encode ++
    (⟨.data, 0, 3, [7]⟩ : Frame).encode)]
  accepts := []
  written := []

/-- A connection that has read `count` frames. -/
def pumped : Nat → Connection → Connection
  | 0, connection => connection
  | count + 1, connection => pumped count (pump connection).2

theorem tended_pumped
    {client : Bool}
    {connection : Connection}
    (tended : Tended client connection)
    (count : Nat) :
    Tended client (pumped count connection) := by
  induction count generalizing connection with
  | zero => exact tended
  | succ count inductionHypothesis =>
      obtain ⟨wire, tends⟩ := tended
      exact inductionHypothesis ⟨wire, tends.tail (.beat (.pumped connection))⟩

theorem tended_of_start
    {wire : Wire}
    {client : Bool}
    {connection : Connection}
    (starts : start wire client = .ok connection) :
    Tended client connection :=
  ⟨wire, Relation.ReflTransGen.mono (fun _ _ => Tends.beat) _ _
    (beats_start starts)⟩

theorem exists_of_start
    {wire : Wire}
    {client : Bool}
    {holds : Connection → Bool}
    (checks : ((start wire client).toOption.map holds) = some true) :
    ∃ connection, start wire client = .ok connection ∧
      holds connection = true := by
  cases starts : start wire client with
  | error failure =>
      rw [starts] at checks
      cases checks
  | ok connection =>
      rw [starts] at checks
      exact ⟨connection, rfl, Option.some.inj checks⟩

end Connection
end Http2
end XmipNet
