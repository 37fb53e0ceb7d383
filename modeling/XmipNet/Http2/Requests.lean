import XmipNet.Http2.Contents
import XmipNet.Http2.Census
import XmipNet.Http2.Deals
import XmipNet.Http2.Finishing
import XmipNet.Http2.Heeding

/-!
# No request is lost

A stream the client has ended is given to the caller as a request, or it was
reset by one of the sides, unless no head ever came on it. The account is kept
over every deal: whatever came on a stream was reset, or given, or is on a
record, or had no head.
-/

namespace XmipNet
namespace Http2

open Hpack (Field)
open Http (Request)

namespace Item

/-- Whether an item ended its stream. -/
def ends : Item → Bool
  | data _ ends => ends
  | block _ ends => ends

end Item

namespace Held

/-- A stream on which an ending item came has ended. -/
theorem ended_of_mem
    {items : List Item}
    {item : Item}
    (member : item ∈ items)
    (ends : item.ends = true) :
    (of items).ended = true := by
  have step (held : Held) (other : Item) :
      (held.take other).ended = (held.ended || other.ends) := by
    cases other with
    | data content done => rfl
    | block fields done =>
        simp only [take, Item.ends]
        split
        · rfl
        · split <;> rfl
  have fold (held : Held) (rest : List Item) :
      (rest.foldl take held).ended = (held.ended || rest.any Item.ends) := by
    induction rest generalizing held with
    | nil => exact (Bool.or_false _).symm
    | cons first rest inductionHypothesis =>
        rw [List.foldl_cons, inductionHypothesis, step, List.any_cons,
          Bool.or_assoc]
  rw [of, fold, List.any_eq_true.mpr ⟨item, member, ends⟩, Bool.or_true]

end Held

namespace Core

theorem resetSeen_spoil
    (core : Core)
    (id : Nat)
    (code : ErrorCode) :
    Event.ResetSeen (core.spoil id code).events id :=
  Or.inr ⟨code, List.mem_append_right _ (List.mem_singleton_self _)⟩

/-- What becomes of a `DATA`'s stream: it has a record, or it was reset. -/
theorem Extends.settled
    {frame : Frame}
    {core after : Core}
    (carries : Extends frame core after) :
    (∃ stream, after.streams[frame.stream]? = some stream) ∨
      Event.ResetSeen after.events frame.stream := by
  cases carries with
  | letGo found dead => exact Or.inl ⟨_, found⟩
  | spoiled code shut => exact Or.inr (resetSeen_spoil _ _ _)
  | overBody accepts exceeds sets => exact Or.inr (resetSeen_spoil _ _ _)
  | ended accepts within ends sets => exact Or.inl ⟨_, sets.own⟩
  | grown accepts within stays positive sets => exact Or.inl ⟨_, sets.own⟩
  | empty accepts within stays none sets => exact Or.inl ⟨_, sets.own⟩

/-- What becomes of a block's stream: it was reset, or the block is well formed
and the stream has a record, or this side is going away. -/
theorem Heads.settled
    {id : Nat}
    {fields : List Field}
    {ends : Bool}
    {core after : Core}
    (heads : Heads id fields ends core after) :
    Event.ResetSeen after.events id ∨
      (Message.check fields core.headerListLimit = .ok () ∧
        ((∃ stream, after.streams[id]? = some stream) ∨
          core.goingAway = true)) := by
  cases heads with
  | malformed violation fails => exact Or.inl (resetSeen_spoil _ _ _)
  | letGo checks found dead => exact Or.inr ⟨checks, Or.inl ⟨_, found⟩⟩
  | headed checks found live heads =>
      exact Or.inr ⟨checks, Or.inl ⟨_, NatMap.getElem?_insert_self _ _⟩⟩
  | unheaded checks found live violation fails =>
      exact Or.inl (resetSeen_spoil _ _ _)
  | opened checks opens staying fits heads sets =>
      exact Or.inr ⟨checks, Or.inl ⟨_, sets.own⟩⟩
  | passedOver checks opens leaving => exact Or.inr ⟨checks, Or.inr leaving⟩
  | refused checks opens staying full => exact Or.inl (resetSeen_spoil _ _ _)

end Core

/-- An item that came on a stream and did not have it reset is well formed, and
the stream has a record or this side is going away. -/
theorem Took.settled
    {frame : Frame}
    {sight after : Sight}
    (took : Took frame sight after)
    {id : Nat}
    {item : Item}
    (given : sight.reader.gives frame id = some item) :
    Event.ResetSeen after.core.events id ∨
      (¬item.Malformed sight.core.headerListLimit ∧
        ((∃ stream, after.core.streams[id]? = some stream) ∨
          sight.core.goingAway = true)) := by
  have others (kind : Kind)
      (same : frame.kind = kind)
      (data : kind ≠ .data)
      (headers : kind ≠ .headers)
      (continuation : kind ≠ .continuation) : False := by
    rw [Reader.gives_of_other _ (same ▸ data) (same ▸ headers)
      (same ▸ continuation) id] at given
    cases given
  cases took with
  | data kind unbroken room opened carries =>
      obtain ⟨elsewhere, own⟩ := (sight.reader.read_of_data kind).2 id
      by_cases same : frame.stream = id
      · cases same
        rcases carries.settled with there | seen
        · refine Or.inr ⟨?_, Or.inl there⟩
          rintro ⟨fields, ends, violation, rfl, _⟩
          cases holds : frame.content with
          | ok content =>
              cases (own rfl content holds).symm.trans given
          | error violation =>
              rw [Reader.gives, Reader.read, if_pos kind, holds] at given
              cases given
        · exact Or.inl seen
      · cases (elsewhere same).symm.trans given
  | waiting assembles onward short =>
      have reads : sight.reader.assembled frame = _ := assembles
      rw [Reader.gives, Reader.read_of_waiting (kind_of_assembles assembles)
        reads onward] at given
      cases given
  | @decoded other octets ends core fields decoder assembles whole decodes
      heads =>
      have reads : sight.reader.assembled frame = _ := assembles
      rw [Reader.gives, Reader.read_of_decoded (kind_of_assembles assembles)
        reads whole decodes] at given
      simp only [Option.bind_some] at given
      split at given
      next same =>
        cases same
        cases given
        rcases heads.settled with seen | ⟨checks, stands⟩
        · exact Or.inl seen
        · refine Or.inr ⟨?_, stands⟩
          rintro ⟨_, _, violation, same, fails⟩
          cases same
          cases checks.symm.trans fails
      · cases given
  | unheard kind =>
      rcases kind with kind | kind | kind | ⟨code, kind⟩ <;>
        exact (others _ kind Kind.noConfusion Kind.noConfusion
          Kind.noConfusion).elim
  | spoiled code kind =>
      rcases kind with kind | kind <;>
        exact (others _ kind Kind.noConfusion Kind.noConfusion
          Kind.noConfusion).elim
  | reset code kind | settings kind | pinged kind | ponged kind
  | wentAway kind | granted kind =>
      exact (others _ kind Kind.noConfusion Kind.noConfusion
        Kind.noConfusion).elim

namespace Core

/-- A record marked as reset is of a stream one side has reset. -/
def Marked (core : Core) : Prop :=
  ∀ (id : Nat) stream, core.streams[id]? = some stream →
    stream.reset ≠ none → Event.ResetSeen core.events id

theorem Step.marked
    {core after : Core}
    (step : Step core after)
    (placed : Placed core)
    (server : core.client = false)
    (marked : Marked core) :
    Marked after := by
  intro id changed now dead
  cases before : core.streams[id]? with
  | some stream =>
      by_cases live : stream.reset = none
      · rcases step.stays_live placed server before live now with alive | seen
        · exact absurd alive dead
        · exact seen
      · exact (marked id stream before live).mono step.events.subset
  | none =>
      have change := step.change id
      rw [before, now] at change
      cases change with
      | opened opens staying heads =>
          rw [(Stream.headers_eq_ok heads).2.2] at dead
          exact absurd rfl dead

theorem Steps.marked
    {core after : Core}
    (steps : Steps core after)
    (placed : Placed core)
    (server : core.client = false)
    (marked : Marked core) :
    Marked after := by
  induction steps with
  | refl => exact marked
  | tail moved step inductionHypothesis =>
      exact step.marked (Steps.placed moved placed)
        ((Steps.client moved).trans server) inductionHypothesis

/-- A record that was reset stays so. -/
theorem Step.dead
    {core after : Core}
    (step : Step core after)
    {id : Nat}
    (dead : Dead core.streams id) :
    Dead after.streams id := by
  obtain ⟨stream, found, reset⟩ := dead
  have unlive (live : stream.reset = none) : False := by
    rw [live] at reset
    cases reset
  have change := step.change id
  rw [found] at change
  rw [Dead]
  generalize after.streams[id]? = record at change
  cases change with
  | kept => exact ⟨stream, rfl, reset⟩
  | grown grows => exact (unlive grows.live).elim
  | headed live => exact (unlive live).elim
  | ended | reset => exact ⟨_, rfl, rfl⟩
  | passedOver _ live => exact (unlive live).elim
  | windowed same => exact ⟨_, rfl, (same_of_unsent same).2 ▸ reset⟩
  | endedLocally => exact ⟨_, rfl, reset⟩

theorem Steps.dead
    {core after : Core}
    (steps : Steps core after)
    {id : Nat}
    (dead : Dead core.streams id) :
    Dead after.streams id :=
  steps.invariant (motive := fun reached => Dead reached.streams id)
    (fun step => step.dead) dead

/-- A side that is going away has said so. -/
def Left (core : Core) : Prop :=
  core.goingAway = true → Event.goodbyes core.events ≠ []

theorem Step.left
    {core after : Core}
    (step : Step core after)
    (placed : Placed core)
    (left : Core.Left core) :
    Core.Left after := by
  intro leaving
  have grows := step.events
  obtain ⟨added, events⟩ := grows
  have kept (before : Event.goodbyes core.events ≠ []) :
      Event.goodbyes after.events ≠ [] := by
    rw [← events, Event.goodbyes, List.filterMap_append]
    exact List.append_ne_nil_of_left_ne_nil before _
  cases step.parting placed with
  | quiet _ _ _ same => exact kept (left (same ▸ leaving))
  | farewell event logged _ _ named =>
      rw [logged, Event.goodbyes, List.filterMap_append, List.filterMap_cons,
        named]
      exact List.append_ne_nil_of_right_ne_nil _ (List.cons_ne_nil _ _)
  | passes _ _ before => exact kept (left before)

theorem Turn.left
    {core after : Core}
    (turn : Turn core after)
    (placed : Placed core)
    (left : Core.Left core) :
    Core.Left after := by
  cases turn with
  | step step => exact step.left placed left
  | taken | opened => exact left

end Core

namespace Connection

open Core

theorem Reached.left
    {client : Bool}
    {connection : Connection}
    (reached : Reached client connection) :
    Core.Left connection.core := by
  obtain ⟨wire, turns⟩ := reached.turns
  generalize connection.core = core at turns
  induction turns with
  | refl => exact fun leaving => by cases leaving
  | tail before turn inductionHypothesis =>
      exact turn.left (Turns.sound before (sound_initial wire client)).placed
        inductionHypothesis

/-- What a beat adds to what came on a stream: nothing, or an item that had the
stream reset, or one that is well formed and whose stream has a record, unless
this side is going away. -/
theorem Beat.came
    {connection after : Connection}
    (beat : Beat connection after)
    (waits : Waits connection.core)
    {exempt : Nat → Prop}
    (told : Told exempt connection.sight)
    (unbreached : Event.Unbreached after.events)
    (id : Nat) :
    Event.came after.events id = Event.came connection.events id ∨
      ∃ item, Event.came after.events id =
          Event.came connection.events id ++ [item] ∧
        (Event.ResetSeen after.events id ∨
          (¬item.Malformed connection.core.headerListLimit ∧
            ((∃ stream, after.streams[id]? = some stream) ∨
              connection.goingAway = true))) := by
  have same (events : after.events = connection.events) :
      Event.came after.events id = Event.came connection.events id := by
    rw [events]
  have emits {frame : Frame}
      (events : after.events = connection.events ++ [.emitted frame]) :
      Event.came after.events id = Event.came connection.events id :=
    Event.came_of_arrivals (events ▸ Event.arrivals_log rfl) id
  cases beat with
  | aside alike => exact Or.inl (same (congrArg (·.core.events) alike))
  | pumped =>
      rcases took_of_pump waits unbreached with alike | ⟨frame, _, _, took⟩
      · exact Or.inl (same (congrArg (·.core.events) alike))
      · have arrivals : Event.arrivals (pump connection).2.events =
            Event.arrivals connection.events ++ [frame] :=
          took.arrivals.trans (Event.arrivals_append _ _)
        have came := Event.came_of_received arrivals told.synced id
        cases given : connection.sight.reader.gives frame id with
        | none =>
            rw [given, Option.toList_none, List.append_nil] at came
            exact Or.inl came
        | some item =>
            rw [given] at came
            exact Or.inr ⟨item, came, took.settled given⟩
  | emitted plain own =>
      exact Or.inl (emits (events_emit _ _))
  | sent piece bytes => exact Or.inl (emits rfl)
  | endedLocally unended => exact Or.inl (same rfl)
  | ended other seen refuses =>
      exact Or.inl (emits (congrArg Core.events (core_reset _ _ _)))
  | leaving code debug =>
      exact Or.inl (emits (congrArg Core.events (core_goAway _ _ _)))

/-- The account of what came on the streams of a server's connection, the
requests on `delivered` having been given. -/
structure Ledger (connection : Connection) (delivered : List Nat) : Prop where
  told : Told (fun id => id ∈ delivered ∨ Dead connection.streams id)
    connection.sight
  stands : ∀ id, Event.came connection.events id ≠ [] →
    Event.ResetSeen connection.events id ∨ id ∈ delivered ∨
      (∃ stream, connection.streams[id]? = some stream) ∨
        Item.finals (Event.came connection.events id) = []
  formed : ∀ id, ∀ item ∈ Event.came connection.events id,
    item.Malformed connection.core.headerListLimit →
      Event.ResetSeen connection.events id
  headed : ∀ id ∈ delivered,
    Item.finals (Event.came connection.events id) ≠ []
  marked : Marked connection.core

section Ledger

variable {connection after : Connection} {delivered : List Nat} {id : Nat}

theorem goodbyes_of_shorter
    {events later : List Event}
    (grows : events <+: later)
    (staying : Event.goodbyes later = []) :
    Event.goodbyes events = [] := by
  obtain ⟨added, rfl⟩ := grows
  rw [Event.goodbyes, List.filterMap_append] at staying
  exact (List.append_eq_nil_iff.mp staying).1

/-- A beat keeps the account, unless the connection is ended over a breach or
this side has gone away. -/
theorem Ledger.beat
    (ledger : Ledger connection delivered)
    (beat : Beat connection after)
    (reached : Reached false connection)
    (server : connection.client = false)
    (unbreached : Event.Unbreached after.events)
    (staying : Event.goodbyes connection.events = []) :
    Ledger after delivered := by
  have sound := reached.sound
  have steps := beat.steps sound.waits
  have grows := steps.events
  have seen {id : Nat} (before : Event.ResetSeen connection.events id) :
      Event.ResetSeen after.events id := before.mono grows.subset
  have told := beat.told sound reached.level unbreached ledger.told
  have came := beat.came sound.waits ledger.told unbreached
  have limit : after.core.headerListLimit = connection.core.headerListLimit :=
    congrArg (fun settings : Settings =>
      settings.maxHeaderListSize.getD usizeMax) steps.localSettings
  have stays : connection.goingAway = false := by
    rw [← Bool.not_eq_true]
    exact fun leaving => reached.left leaving staying
  refine ⟨told.mono fun id spared => spared.imp_right steps.dead, fun id some => ?_,
    fun id item member malformed => ?_, fun id given => ?_,
    steps.marked sound.placed server ledger.marked⟩
  · rcases came id with same | ⟨item, grown, reset | ⟨_, there | leaving⟩⟩
    · rw [same] at some ⊢
      rcases ledger.stands id some with reset | given | there | headless
      · exact Or.inl (seen reset)
      · exact Or.inr (Or.inl given)
      · obtain ⟨_, found⟩ := there
        exact Or.inr (Or.inr (Or.inl (steps.keeps_record found)))
      · exact Or.inr (Or.inr (Or.inr headless))
    · exact Or.inl reset
    · exact Or.inr (Or.inr (Or.inl there))
    · cases stays.symm.trans leaving
  · rw [limit] at malformed
    rcases came id with same | ⟨new, grown, reset | ⟨formed, _⟩⟩
    · exact seen (ledger.formed id item (same ▸ member) malformed)
    · exact reset
    · rw [grown, List.mem_append, List.mem_singleton] at member
      rcases member with before | rfl
      · exact seen (ledger.formed id item before malformed)
      · exact absurd malformed formed
  · rcases came id with same | ⟨item, grown, _⟩
    · rw [same]
      exact ledger.headed id given
    · rw [grown, Item.finals_append]
      exact List.append_ne_nil_of_left_ne_nil (ledger.headed id given) _

theorem Ledger.beats
    (ledger : Ledger connection delivered)
    (beats : Beats connection after)
    (reached : Reached false connection)
    (server : connection.client = false)
    (unbreached : Event.Unbreached after.events)
    (staying : Event.goodbyes after.events = []) :
    Ledger after delivered := by
  induction beats with
  | refl => exact ledger
  | @tail middle last before beat inductionHypothesis =>
      have reaches := reached.strides (Beats.strides before)
      have serves := (Beats.steps before reached.sound.waits).client.trans server
      have shorter := (beat.steps reaches.sound.waits).events
      have stayed := goodbyes_of_shorter shorter staying
      exact (inductionHypothesis (unbreached.of_prefix shorter) stayed).beat beat
        reaches serves unbreached stayed

/-- A record that says nothing of its stream any more may be let go. -/
theorem Ledger.letGo
    (ledger : Ledger connection delivered)
    {streams : Streams}
    (others : ∀ other, id ≠ other →
      streams[other]? = connection.streams[other]?)
    (gone : streams[id]? = none)
    (spent : Event.came connection.events id ≠ [] →
      Event.ResetSeen connection.events id ∨ id ∈ delivered ∨
        Item.finals (Event.came connection.events id) = []) :
    Ledger { connection with streams := streams } delivered where
  told := by
    have before {other : Nat} {stream : Stream}
        (found : streams[other]? = some stream) :
        id ≠ other ∧ connection.streams[other]? = some stream := by
      by_cases same : id = other
      · cases same
        cases gone.symm.trans found
      · exact ⟨same, (others other same).symm.trans found⟩
    refine ⟨ledger.told.synced, ledger.told.fresh, ?_⟩
    intro other stream found unexempted
    obtain ⟨different, there⟩ := before found
    refine ledger.told.records other stream there fun spared =>
      unexempted (spared.imp_right ?_)
    rintro ⟨record, found, reset⟩
    exact ⟨record, (others other different).trans found, reset⟩
  stands other some := by
    rcases ledger.stands other some with reset | given | ⟨stream, found⟩ | bare
    · exact Or.inl reset
    · exact Or.inr (Or.inl given)
    · by_cases same : id = other
      · cases same
        rcases spent some with reset | given | bare
        · exact Or.inl reset
        · exact Or.inr (Or.inl given)
        · exact Or.inr (Or.inr (Or.inr bare))
      · exact Or.inr (Or.inr (Or.inl
          ⟨stream, (others other same).trans found⟩))
    · exact Or.inr (Or.inr (Or.inr bare))
  formed := ledger.formed
  headed := ledger.headed
  marked other stream found := by
    by_cases same : id = other
    · cases same
      cases gone.symm.trans found
    · exact ledger.marked other stream ((others other same).symm.trans found)

theorem Ledger.remove
    (ledger : Ledger connection delivered)
    (spent : Event.came connection.events id ≠ [] →
      Event.ResetSeen connection.events id ∨ id ∈ delivered ∨
        Item.finals (Event.came connection.events id) = []) :
    Ledger (connection.remove id) delivered := by
  refine ledger.letGo (fun other different => ?_) ?_ spent
  · exact (NatMap.getElem?_erase ..).trans (if_neg different)
  · exact (NatMap.getElem?_erase ..).trans (if_pos rfl)

/-- What a live record whose request was not given tells: the head that came on
its stream, if one did, and whether the client has ended it. -/
theorem Ledger.whole
    (ledger : Ledger connection delivered)
    {stream : Stream}
    (found : connection.streams[id]? = some stream)
    (live : stream.reset = none)
    (ungiven : id ∉ delivered) :
    (stream.head ≠ none →
      Item.finals (Event.came connection.events id) ≠ []) ∧
    (¬Event.ResetSeen connection.events id →
      stream.head =
        (Item.finals (Event.came connection.events id))[0]?.map Prod.fst ∧
      stream.state.receiving =
        !(Held.of (Event.came connection.events id)).ended) := by
  have unexempted : ¬(id ∈ delivered ∨ Dead connection.streams id) := by
    rintro (given | ⟨record, there, reset⟩)
    · exact ungiven given
    · cases there.symm.trans found
      rw [live] at reset
      cases reset
  obtain ⟨earlier, taken, late, split, malformed, orderly, head, _, _, alive⟩ :=
    ledger.told.records id stream found unexempted
  obtain ⟨rfl, receiving⟩ := alive live
  have came : Event.came connection.events id = earlier ++ taken := by
    rw [show Event.came connection.events id = _ from split, List.append_nil]
  rw [orderly.shape.head] at head
  refine ⟨fun headed bare => ?_, fun unreset => ?_⟩
  · rw [came, Item.finals_append] at bare
    rw [head, (List.append_eq_nil_iff.mp bare).2] at headed
    exact headed rfl
  · have none : earlier = [] := by
      cases earlier with
      | nil => rfl
      | cons item rest =>
          refine absurd (ledger.formed id item ?_
            (malformed item List.mem_cons_self)) unreset
          rw [came]
          exact List.mem_cons_self
    rw [came, none, List.nil_append]
    exact ⟨head, receiving⟩

/-- A request is given off its record. -/
theorem Ledger.deliver
    (ledger : Ledger connection delivered)
    {stream : Stream}
    (found : connection.streams[id]? = some stream)
    (live : stream.reset = none)
    (headed : stream.head ≠ none)
    (ungiven : id ∉ delivered) :
    Ledger (connection.setStream id (untaken stream))
      (delivered ++ [id]) := by
  have others {other : Nat} (different : id ≠ other) :
      (connection.streams.insert id (untaken stream))[other]? =
        connection.streams[other]? := NatMap.getElem?_insert_ne different _
  have own : (connection.streams.insert id (untaken stream))[id]? =
      some (untaken stream) := NatMap.getElem?_insert_self _ _
  refine ⟨⟨ledger.told.synced, ledger.told.fresh, ?_⟩, ?_, ledger.formed, ?_, ?_⟩
  · intro other record there unexempted
    have different : id ≠ other := by
      rintro rfl
      exact unexempted (Or.inl
        (List.mem_append_right _ (List.mem_singleton_self _)))
    refine ledger.told.records other record
      ((others different).symm.trans there) ?_
    rintro (given | ⟨dead, now, reset⟩)
    · exact unexempted (Or.inl (List.mem_append_left _ given))
    · exact unexempted (Or.inr ⟨dead, (others different).trans now, reset⟩)
  · intro other some
    rcases ledger.stands other some with reset | given | ⟨record, there⟩ | bare
    · exact Or.inl reset
    · exact Or.inr (Or.inl (List.mem_append_left _ given))
    · by_cases same : id = other
      · cases same
        exact Or.inr (Or.inl
          (List.mem_append_right _ (List.mem_singleton_self _)))
      · exact Or.inr (Or.inr (Or.inl ⟨record, (others same).trans there⟩))
    · exact Or.inr (Or.inr (Or.inr bare))
  · intro other given
    rcases List.mem_append.mp given with before | now
    · exact ledger.headed other before
    · rw [List.mem_singleton.mp now]
      exact (ledger.whole found live ungiven).1 headed
  · intro other record there dead
    by_cases same : id = other
    · cases same
      cases own.symm.trans there
      exact absurd live dead
    · exact ledger.marked other record ((others same).symm.trans there) dead

/-- A malformed request's stream is reset. -/
theorem Ledger.spoil
    (ledger : Ledger connection delivered)
    (id : Nat)
    (stream : Stream)
    (code : ErrorCode) :
    Ledger (reset id code (connection.setStream id (untaken stream))).2
      delivered := by
  have core := core_reset id code (connection.setStream id (untaken stream))
  have sight := sight_reset id code (connection.setStream id (untaken stream))
  generalize (reset id code (connection.setStream id (untaken stream))).2 =
    after at core sight
  have events : after.events =
      connection.events ++ [.emitted (.reset id code)] :=
    congrArg Core.events core
  have limit : after.core.headerListLimit = connection.core.headerListLimit := by
    rw [core]
    rfl
  have arrivals : Event.arrivals after.events =
      Event.arrivals connection.events := events ▸ Event.arrivals_log rfl
  have came (other : Nat) : Event.came after.events other =
      Event.came connection.events other :=
    Event.came_of_arrivals arrivals other
  have seen {other : Nat} (before : Event.ResetSeen connection.events other) :
      Event.ResetSeen after.events other :=
    before.mono (events ▸ List.subset_append_left _ _)
  have now : Event.ResetSeen after.events id :=
    Or.inr ⟨code, events ▸ List.mem_append_right _ (List.mem_singleton_self _)⟩
  have streams : after.streams = (connection.streams.insert id
      (untaken stream)).modify id fun stream =>
        { stream with state := .closed, reset := some code } :=
    congrArg Core.streams core
  have others {other : Nat} (different : id ≠ other) :
      after.streams[other]? = connection.streams[other]? := by
    rw [streams, NatMap.getElem?_modify, if_neg different,
      NatMap.getElem?_insert_ne different]
  have own : ∃ record, after.streams[id]? = some record ∧
      record.reset.isSome = true := by
    refine ⟨{ untaken stream with state := .closed, reset := some code }, ?_,
      rfl⟩
    rw [streams, NatMap.getElem?_modify, if_pos rfl,
      NatMap.getElem?_insert_self]
    rfl
  refine ⟨?_, ?_, ?_, ?_, ?_⟩
  · refine (ledger.told.mono fun other spared => ?_).of_stays arrivals
      (sight ▸ rfl) (congrArg Core.highest core).ge limit
      fun other record there unexempted => ?_
    · by_cases same : id = other
      · exact Or.inr (same ▸ own)
      · refine spared.imp_right ?_
        rintro ⟨record, found, reset⟩
        exact ⟨record, (others same).trans found, reset⟩
    · have different : id ≠ other :=
        fun same => unexempted (Or.inr (same ▸ own))
      exact ⟨record, (others different).symm.trans there, stays_refl record⟩
  · intro other some
    rw [came] at some ⊢
    by_cases same : id = other
    · exact Or.inl (same ▸ now)
    · rcases ledger.stands other some with reset | given | there | bare
      · exact Or.inl (seen reset)
      · exact Or.inr (Or.inl given)
      · rw [others same]
        exact Or.inr (Or.inr (Or.inl there))
      · exact Or.inr (Or.inr (Or.inr bare))
  · intro other item member malformed
    exact seen (ledger.formed other item (came other ▸ member)
      (limit ▸ malformed))
  · intro other given
    rw [came]
    exact ledger.headed other given
  · intro other record there dead
    by_cases same : id = other
    · exact same ▸ now
    · exact seen (ledger.marked other record
        ((others same).symm.trans there) dead)

theorem ledger_initial (wire : Wire) :
    Ledger (initial wire false) [] where
  told := told_initial wire false
  stands _ some := absurd rfl some
  formed _ _ member := by cases member
  headed _ given := by cases given
  marked id stream found := absurd found (absent_initial wire false id stream)

end Ledger

end Connection

namespace Server

open Core Connection

section Deals

variable {codec : Percent} {server after : Server} {delivered : List Nat}
  {given : List (Nat × Request)}

/-- What stands behind a record that a look lets go. -/
theorem spent_of_headless
    (ledger : Ledger server.connection delivered)
    (serving : Serving server delivered)
    {id : Nat}
    {stream : Stream}
    (first : server.ready = some (id, stream))
    (headless : takenHead stream = none) :
    Event.ResetSeen server.connection.events id ∨ id ∈ delivered ∨
      Item.finals (Event.came server.connection.events id) = [] := by
  obtain ⟨found, _, unanswered⟩ := found_of_ready first
  have ungiven : id ∉ delivered :=
    fun member => unanswered (serving.waiting id member stream found)
  by_cases live : stream.reset = none
  · by_cases reset : Event.ResetSeen server.connection.events id
    · exact Or.inl reset
    · have head := ((ledger.whole found live ungiven).2 reset).1
      have none : stream.head = none := by
        rwa [takenHead, live] at headless
      rw [none, eq_comm, Option.map_eq_none_iff, List.getElem?_eq_none_iff,
        Nat.le_zero, List.length_eq_zero_iff] at head
      exact Or.inr (Or.inr head)
  · exact Or.inl (ledger.marked id stream found live)

theorem Serving.ledger_look
    (serving : Serving server delivered)
    (ledger : Ledger server.connection delivered)
    {outcome : Except NetError Look}
    (runs : Server.look codec server = (outcome, after)) :
    Ledger after.connection
      (delivered ++ (Look.given outcome).map Prod.fst) := by
  cases looked_of_look runs with
  | nothing nothing =>
      simp only [Look.given, List.map_nil, List.append_nil]
      exact ledger
  | @headless id stream first headless =>
      simp only [Look.given, List.map_nil, List.append_nil]
      refine ledger.letGo (fun other different => ?_) ?_
        fun _ => spent_of_headless ledger serving first headless
      · exact (NatMap.getElem?_erase ..).trans ((if_neg different).trans
          (NatMap.getElem?_insert_ne different _))
      · exact (NatMap.getElem?_erase ..).trans (if_pos rfl)
  | @request id stream head request first headed reads =>
      obtain ⟨found, _, unanswered⟩ := found_of_ready first
      obtain ⟨live, holds⟩ := live_of_takenHead headed
      refine ledger.deliver found live ?_
        fun member => unanswered (serving.waiting id member stream found)
      rw [holds]
      exact Option.some_ne_none head
  | @malformed id stream head malformed reset first headed fails resets =>
      simp only [Look.given, List.map_nil, List.append_nil]
      have spoiled := ledger.spoil id stream malformed.code
      rw [show Connection.reset id malformed.code
        (server.connection.setStream id (Core.untaken stream)) = _ from resets]
        at spoiled
      exact spoiled.remove fun _ => Or.inl (Or.inr ⟨_, emitted_of_reset resets⟩)
  | @lost id stream head malformed reset failure first headed fails resets =>
      simp only [Look.given, List.map_nil, List.append_nil]
      have spoiled := ledger.spoil id stream malformed.code
      rw [show Connection.reset id malformed.code
        (server.connection.setStream id (Core.untaken stream)) = _ from resets]
        at spoiled
      exact spoiled

/-- Every deal keeps the account, unless the connection is ended over a breach
or the server has gone away. -/
theorem Serving.ledger_deal
    (serving : Serving server delivered)
    (reached : Reached false server.connection)
    (ledger : Ledger server.connection delivered)
    (deal : Deal codec server given after)
    (unbreached : Event.Unbreached after.connection.events)
    (staying : Event.goodbyes after.connection.events = []) :
    Ledger after.connection (delivered ++ given.map Prod.fst) := by
  have waits := serving.parted.sound.waits
  cases deal with
  | looked runs => exact serving.ledger_look ledger runs
  | beat beat =>
      rw [List.map_nil, List.append_nil]
      exact ledger.beats (.single beat) reached serving.serves unbreached staying
  | @answered id reaches waiting beats =>
      rw [List.map_nil, List.append_nil]
      have unbreached : Event.Unbreached reaches.events := unbreached
      have staying : Event.goodbyes reaches.events = [] := staying
      exact (ledger.beats beats reached serving.serves unbreached staying).remove
        fun _ => Or.inr (Or.inl (serving.named id waiting))

theorem Serving.reached_deal
    (serving : Serving server delivered)
    (reached : Reached false server.connection)
    (deal : Deal codec server given after) :
    Reached false after.connection := by
  cases deal with
  | looked runs => exact reached.strides (serving.strides_look runs)
  | beat beat => exact reached.strides (.single (.beat beat))
  | @answered id reaches waiting beats =>
      exact reached.strides ((Beats.strides beats).tail (.removed _ id))

end Deals

theorem start_of_handshake
    {wire : Wire}
    {server : Server}
    (opens : handshake wire = .ok server) :
    ∃ rest, Connection.start rest false = .ok server.connection := by
  rw [handshake] at opens
  split at opens
  · cases opens
  next opening after reads =>
    split at opens
    · cases opens
    · refine ⟨after, ?_⟩
      cases starts : Connection.start after false with
      | error failure =>
          rw [starts] at opens
          cases opens
      | ok connection =>
          rw [starts] at opens
          cases opens
          rfl

/-- Wherever a run of a server has come without a breach of the connection and
without a `GOAWAY` of its own, the account is kept. -/
theorem ledger_of_handshake
    (codec : Percent)
    {wire : Wire}
    {server : Server}
    (opens : handshake wire = .ok server)
    (asks : List Ask)
    (unbreached : Event.Unbreached
      (run codec server asks).2.connection.events)
    (staying : Event.goodbyes
      (run codec server asks).2.connection.events = []) :
    Ledger (run codec server asks).2.connection
      ((run codec server asks).1.map Prod.fst) := by
  have serving := serving_of_handshake opens
  have starts (calm : Event.Unbreached server.connection.events)
      (stays : Event.goodbyes server.connection.events = []) :
      Ledger server.connection [] := by
    obtain ⟨rest, begins⟩ := start_of_handshake opens
    exact (ledger_initial rest).beats (beats_start begins) ⟨rest, .refl⟩ rfl
      calm stays
  have kept := (serving.deals_run codec asks).invariant
    (motive := fun delivered server => Serving server delivered ∧
      Reached false server.connection ∧
      (Event.Unbreached server.connection.events →
        Event.goodbyes server.connection.events = [] →
          Ledger server.connection delivered))
    (fun deal holds => by
      obtain ⟨serving, reached, ledger⟩ := holds
      have served := serving.deal deal
      refine ⟨served.1, serving.reached_deal reached deal,
        fun unbreached staying => ?_⟩
      have shorter := served.2.events
      exact serving.ledger_deal reached
        (ledger (unbreached.of_prefix shorter)
          (goodbyes_of_shorter shorter staying)) deal unbreached staying)
    ⟨serving, reached_of_handshake opens, starts⟩
  exact kept.2.2 unbreached staying

/-- A stream the client has ended: some of its body or a header block that came
on it said so. -/
def EndCame (events : List Event) (id : Nat) : Prop :=
  ∃ item ∈ Event.came events id, item.ends = true

/-- Over every run without a breach of the connection and without a `GOAWAY` of
the server's, once `finished` gives nothing more: a stream the client has ended
was given as a request or reset by one of the sides if and only if a header
block that is not informational came on it, or it was reset. -/
theorem given_or_reset_iff
    (codec : Percent)
    {wire : Wire}
    {server : Server}
    (opens : handshake wire = .ok server)
    (asks : List Ask)
    {after : Server}
    (nothing : finished codec (run codec server asks).2 = (.ok none, after))
    (unbreached : Event.Unbreached after.connection.events)
    (staying : Event.goodbyes after.connection.events = [])
    {id : Nat}
    (ended : EndCame after.connection.events id) :
    id ∈ (run codec server asks).1.map Prod.fst ∨
        Event.ResetSeen after.connection.events id ↔
      Item.finals (Event.came after.connection.events id) ≠ [] ∨
        Event.ResetSeen after.connection.events id := by
  have whole : run codec server (asks ++ [.finished]) =
      ((run codec server asks).1, after) := by
    rw [run_append]
    simp only [run, perform, nothing, given, List.append_nil]
  have ledger := ledger_of_handshake codec opens (asks ++ [.finished])
  have served := served_of_handshake codec opens (asks ++ [.finished])
  rw [whole] at ledger served
  have account := ledger unbreached staying
  constructor
  · rintro (gives | reset)
    · exact Or.inl (account.headed id gives)
    · exact Or.inr reset
  · rintro (headed | reset)
    · by_contra neither
      rw [not_or] at neither
      obtain ⟨ungiven, unreset⟩ := neither
      obtain ⟨item, came, ends⟩ := ended
      rcases account.stands id (List.ne_nil_of_mem came) with
        reset | gives | ⟨stream, found⟩ | bare
      · exact unreset reset
      · exact ungiven gives
      · have live : stream.reset = none := by
          by_contra dead
          exact unreset (account.marked id stream found dead)
        have shut := ((account.whole found live ungiven).2 unreset).2
        rw [Held.ended_of_mem came ends] at shut
        have done : stream.finished = true := by
          rw [Stream.finished, shut]
          exact Bool.or_true _
        have passed := List.find?_eq_none.mp (ready_of_finished nothing)
          (id, stream) (NatMap.mem_toList_iff.mpr found)
        have waiting : id ∈ after.answering := by
          by_contra untaken
          exact passed (decide_eq_true ⟨done, untaken⟩)
        exact ungiven (served.named id waiting)
      · exact headed bare
    · exact Or.inr reset

instance (events : List Event) (id : Nat) : Decidable (EndCame events id) :=
  inferInstanceAs (Decidable (∃ item ∈ Event.came events id, _))

instance (id : Nat) : DecidablePred (Event.Resets id) := fun event =>
  match event with
  | .received frame | .emitted frame =>
      inferInstanceAs (Decidable (frame.kind = .rstStream ∧ frame.stream = id))
  | .passedOver _ | .breached _ => inferInstanceAs (Decidable False)

theorem not_resetSeen
    {events : List Event}
    {id : Nat}
    (calm : ∀ event ∈ events, ¬event.Resets id) :
    ¬Event.ResetSeen events id := by
  rintro (⟨frame, arrived, kind, own⟩ | ⟨code, sent⟩)
  · exact calm _ arrived ⟨kind, own⟩
  · exact calm _ sent ⟨rfl, rfl⟩

/-- A request that was read is given. -/
theorem given_or_reset_iff_asked :
    ∃ server, handshake askingWire = .ok server ∧
      let asks := [.readFrame, .readFrame, .finished]
      EndCame (finished .bare
        (run .bare server asks).2).2.connection.events 1 ∧
        1 ∈ (run .bare server asks).1.map Prod.fst := by
  obtain ⟨server, opens, checked⟩ := exists_of_handshake
    (show (handshake askingWire).toOption.map (fun server =>
      let now := run .bare server [.readFrame, .readFrame, .finished]
      let after := (finished .bare now.2).2
      decide ((finished .bare now.2).1.toOption = some none ∧
        Event.Unbreached after.connection.events ∧
        Event.goodbyes after.connection.events = [] ∧
        EndCame after.connection.events 1 ∧
        Item.finals (Event.came after.connection.events 1) ≠ [] ∧
        ∀ event ∈ after.connection.events, ¬event.Resets 1)) = some true
      by decide +kernel)
  obtain ⟨nothing, unbreached, staying, ended, headed, calm⟩ :=
    of_decide_eq_true checked
  refine ⟨server, opens, ended, ?_⟩
  have account := given_or_reset_iff .bare opens _
    (finished_of_toOption nothing) unbreached staying ended
  exact (account.mpr (Or.inl headed)).resolve_right (not_resetSeen calm)

/-- A client that opens and ends stream 1 with an informational block alone. -/
def headlessWire : Wire where
  incoming := [.octets (preface ++
    (⟨.settings, 0, 0, []⟩ : Frame).encode ++
    (⟨.headers, endStream ||| endHeaders, 1, [0x08, 0x03, 0x31, 0x30, 0x30]⟩ :
      Frame).encode)]
  accepts := []
  written := []

/-- Its stream vanishes: it is neither given nor reset. -/
theorem not_given_or_reset_of_headless :
    ∃ server, handshake headlessWire = .ok server ∧
      let asks := [.readFrame, .readFrame]
      ∃ after, finished .bare (run .bare server asks).2 = (.ok none, after) ∧
        Event.Unbreached after.connection.events ∧
        Event.goodbyes after.connection.events = [] ∧
        EndCame after.connection.events 1 ∧
        after.connection.streams[1]? = none ∧
        ¬(1 ∈ (run .bare server asks).1.map Prod.fst ∨
          Event.ResetSeen after.connection.events 1) := by
  obtain ⟨server, opens, checked⟩ := exists_of_handshake
    (show (handshake headlessWire).toOption.map (fun server =>
      let now := run .bare server [.readFrame, .readFrame]
      let after := (finished .bare now.2).2
      decide ((finished .bare now.2).1.toOption = some none ∧
        Event.Unbreached after.connection.events ∧
        Event.goodbyes after.connection.events = [] ∧
        EndCame after.connection.events 1 ∧
        after.connection.streams[1]? = none ∧
        1 ∉ now.1.map Prod.fst ∧
        ∀ event ∈ after.connection.events, ¬event.Resets 1)) = some true
      by decide +kernel)
  obtain ⟨nothing, unbreached, staying, ended, gone, ungiven, calm⟩ :=
    of_decide_eq_true checked
  refine ⟨server, opens, _, finished_of_toOption nothing, unbreached, staying,
    ended, gone, ?_⟩
  rintro (gives | reset)
  · exact ungiven gives
  · exact not_resetSeen calm reset

end Server

end Http2
end XmipNet
