import XmipNet.Http2.Requests
import XmipNet.Http2.Speech

/-!
# What a listener makes of what it hears

A connection that is not ended over a breach has read every header block that
came to it whole. The record of a stream this side opened before anything came on
it holds what has come on it since, as long as neither side resets it.
-/

namespace XmipNet
namespace Http2

open Hpack (Field)

section Took

variable {frame : Frame} {sight after : Sight}

/-- A frame that was taken and ended a header block had its block read. -/
theorem Took.takes
    (took : Took frame sight after) :
    sight.reader.Takes frame := by
  have others {kind : Kind}
      (same : frame.kind = kind)
      (headers : kind ≠ .headers)
      (continuation : kind ≠ .continuation) :
      sight.reader.Takes frame := by
    intro id octets ends assembles
    rcases Core.kind_of_assembled assembles with block | block
    · exact absurd (same.symm.trans block) headers
    · exact absurd (same.symm.trans block) continuation
  cases took with
  | waiting _ onward =>
      intro id octets ends _ whole
      rw [onward] at whole
      cases whole
  | decoded assembles whole decodes =>
      intro id octets ends again _
      cases assembles.symm.trans again
      exact ⟨_, _, decodes⟩
  | unheard kind =>
      rcases kind with kind | kind | kind | ⟨code, kind⟩ <;>
        exact others kind Kind.noConfusion Kind.noConfusion
  | spoiled code kind =>
      rcases kind with kind | kind <;>
        exact others kind Kind.noConfusion Kind.noConfusion
  | data kind | reset code kind | settings kind | pinged kind | ponged kind
  | wentAway kind | granted kind =>
      exact others kind Kind.noConfusion Kind.noConfusion

end Took

namespace Connection

open Core

/-- What a beat does with the records: it lets every record hold what it held
and hears nothing, or it takes a frame. -/
inductive Attends (connection after : Connection) : Prop
  | still
      (arrivals : Event.arrivals after.events =
        Event.arrivals connection.events)
      (reader : after.sight.reader = connection.sight.reader)
      (stays : ∀ (id : Nat) changed, after.streams[id]? = some changed →
        ∃ stream, connection.streams[id]? = some stream ∧
          Stays stream changed)
  | took {frame : Frame}
      (took : Took frame (connection.sight.log (.received frame)) after.sight)

section Attends

variable {connection after : Connection}

theorem attends_of_sight
    {sight : Sight}
    (same : after.sight = sight)
    (arrivals : Event.arrivals sight.core.events =
      Event.arrivals connection.events)
    (reader : sight.reader = connection.sight.reader)
    (stays : ∀ (id : Nat) changed, sight.core.streams[id]? = some changed →
      ∃ stream, connection.streams[id]? = some stream ∧
        Stays stream changed) :
    Attends connection after := by
  subst same
  exact .still arrivals reader stays

/-- The record of one stream changed, the others left. -/
theorem stays_modify
    {streams : Streams}
    {other : Nat}
    {change : Stream → Stream}
    (keeps : ∀ stream, streams[other]? = some stream →
      Stays stream (change stream))
    (id : Nat)
    (changed : Stream)
    (found : (streams.modify other change)[id]? = some changed) :
    ∃ stream, streams[id]? = some stream ∧ Stays stream changed := by
  rw [NatMap.getElem?_modify] at found
  split at found
  next same =>
    cases same
    rw [Option.map_eq_some_iff] at found
    obtain ⟨stream, before, rfl⟩ := found
    exact ⟨stream, before, keeps stream before⟩
  · exact ⟨changed, found, stays_refl changed⟩

theorem Beat.attends
    (beat : Beat connection after)
    (waits : Waits connection.core)
    (unbreached : Event.Unbreached after.events) :
    Attends connection after := by
  have unchanged (id : Nat) (changed : Stream)
      (found : connection.streams[id]? = some changed) :
      ∃ stream, connection.streams[id]? = some stream ∧
        Stays stream changed :=
    ⟨changed, found, stays_refl changed⟩
  cases beat with
  | aside same => exact attends_of_sight same rfl rfl unchanged
  | pumped =>
      rcases took_of_pump waits unbreached with same | ⟨frame, _, _, took⟩
      · exact attends_of_sight same rfl rfl unchanged
      · exact .took took
  | emitted plain own =>
      exact attends_of_sight (sight_emit _ _) (Event.arrivals_log rfl) rfl
        unchanged
  | @sent id stream frame piece bytes =>
      refine .still (Event.arrivals_log rfl) rfl fun other changed found => ?_
      have there := (sets_insert connection.streams id _ other).symm.trans found
      split at there
      next same =>
        cases same
        cases there
        exact ⟨stream, piece.found, rfl, rfl, rfl, fun live => ⟨live, rfl⟩⟩
      · exact unchanged other changed there
  | endedLocally unended =>
      refine .still rfl rfl (stays_modify fun stream found => ?_)
      refine ⟨rfl, rfl, rfl, fun live => ⟨live, ?_⟩⟩
      have unended := unended stream found
      cases state : stream.state with
      | halfClosedLocal => exact absurd state unended
      | opened | halfClosedRemote | closed => rfl
  | ended id seen refuses =>
      refine attends_of_sight (sight_reset _ _ _) (Event.arrivals_log rfl) rfl
        (stays_modify fun stream _ => ?_)
      exact ⟨rfl, rfl, rfl, fun none => (by cases none)⟩
  | leaving code debug =>
      have same : (connection.goAway code debug).2.sight =
          { connection.sight with
            core := { connection.core with goingAway := true }.log
              (.emitted (.goaway connection.lastPeer code
                (Text.octets debug))) } := by
        rw [goAway, Fallible.modify_bind_apply, Fallible.get_bind_apply,
          sight_emit]
        rfl
      exact attends_of_sight same (Event.arrivals_log rfl) rfl unchanged

end Attends

/-- What a connection heard between two points: nothing, or a frame that it
took. -/
inductive Listened (connection after : Connection) : Prop
  | silence
      (arrivals : Event.arrivals after.events =
        Event.arrivals connection.events)
      (reader : after.sight.reader = connection.sight.reader)
  | took {frame : Frame}
      (took : Took frame (connection.sight.log (.received frame)) after.sight)

section Listened

variable {connection after : Connection}

theorem Stride.listened
    (stride : Stride connection after)
    (waits : Waits connection.core)
    (unbreached : Event.Unbreached after.events) :
    Listened connection after := by
  cases stride with
  | beat beat =>
      cases beat.attends waits unbreached with
      | still arrivals reader => exact .silence arrivals reader
      | took took => exact .took took
  | emptied | removed | opened => exact .silence rfl rfl

end Listened

/-- All that came was read. -/
structure Attentive (connection : Connection) : Prop where
  synced : (Reader.initial.readAll (Event.arrivals connection.events)).1 =
    connection.sight.reader
  legible : Reader.initial.Legible (Event.arrivals connection.events)

theorem Attentive.listened
    {connection after : Connection}
    (attentive : Attentive connection)
    (listened : Listened connection after) :
    Attentive after := by
  cases listened with
  | silence arrivals reader =>
      exact ⟨by rw [arrivals, reader, attentive.synced],
        arrivals ▸ attentive.legible⟩
  | @took frame took =>
      have arrivals : Event.arrivals after.events =
          Event.arrivals connection.events ++ [frame] :=
        (took.arrivals).trans (Event.arrivals_append _ _)
      constructor
      · rw [arrivals, Reader.readAll_append, Reader.readAll_singleton,
          attentive.synced]
        exact took.reader
      · rw [arrivals, Reader.legible_append, attentive.synced]
        exact ⟨attentive.legible, took.takes, trivial⟩

/-- A connection that was not ended over a breach has read all that came. -/
theorem Reached.attentive
    {client : Bool}
    {connection : Connection}
    (reached : Reached client connection)
    (unbreached : Event.Unbreached connection.events) :
    Attentive connection :=
  reached.invariant (motive := Attentive) (fun _ => ⟨rfl, trivial⟩)
    (fun reached stride unbreached attentive =>
      attentive.listened (stride.listened reached.sound.waits unbreached))
    unbreached

/-! ## The record of a stream -/

/-- The record of `id`, where neither side has reset it, holds what came on
it. -/
def Holds (id : Nat) (connection : Connection) : Prop :=
  ∀ stream, connection.streams[id]? = some stream → stream.reset = none →
    stream.held = Held.of (Event.came connection.events id)

section Holds

variable {id : Nat} {connection after : Connection}

/-- A record stays as it was where nothing is heard on its stream. -/
theorem Holds.of_stays
    (holds : Holds id connection)
    (arrivals : Event.arrivals after.events = Event.arrivals connection.events)
    (stays : ∀ changed, after.streams[id]? = some changed →
      ∃ stream, connection.streams[id]? = some stream ∧ Stays stream changed) :
    Holds id after := by
  intro changed found live
  obtain ⟨stream, before, head, body, trailers, alive⟩ := stays changed found
  obtain ⟨still, receiving⟩ := alive live
  have held := holds stream before still
  rw [Event.came_of_arrivals arrivals, ← held, Stream.held, Stream.held, head,
    body, trailers, receiving]

/-- On a client a frame that is taken fills the record of its stream. -/
theorem Holds.took
    (holds : Holds id connection)
    (asClient : connection.client = true)
    (attentive : Attentive connection)
    {frame : Frame}
    (took : Took frame (connection.sight.log (.received frame)) after.sight) :
    Holds id after := by
  have arrivals : Event.arrivals after.events =
      Event.arrivals connection.events ++ [frame] :=
    (took.arrivals).trans (Event.arrivals_append _ _)
  have came := Event.came_of_received arrivals attentive.synced id
  have filled : Fills _ _ id (connection.sight.reader.gives frame id)
    connection.streams[id]? after.streams[id]? := took.fills id
  intro changed found live
  rw [came]
  rw [found] at filled
  generalize there : connection.streams[id]? = record at filled
  generalize connection.sight.reader.gives frame id = given at filled
  cases filled with
  | @stays stream _ stays letGo =>
      obtain ⟨head, body, trailers, alive⟩ := stays
      obtain ⟨still, receiving⟩ := alive live
      have held := holds stream there still
      cases given with
      | none =>
          rw [Option.toList_none, List.append_nil, ← held, Stream.held,
            Stream.held, head, body, trailers, receiving]
      | some item =>
          exact absurd live (letGo.resolve_left (Option.some_ne_none item))
  | @takes stream _ one same still fits takes =>
      cases same
      rw [Option.toList_some, Held.of_append_singleton,
        ← holds stream there still]
      exact takes
  | opened opens =>
      have server : connection.client = false := opens.server
      rw [asClient] at server
      cases server

/-- What every beat of a client that is not ended over a breach keeps. -/
theorem Holds.beat
    (holds : Holds id connection)
    (reached : Reached true connection)
    (beat : Beat connection after)
    (unbreached : Event.Unbreached after.events) :
    Holds id after := by
  have shorter := (beat.steps reached.sound.waits).events
  cases beat.attends reached.sound.waits unbreached with
  | still arrivals reader stays => exact holds.of_stays arrivals (stays id)
  | took took =>
      exact holds.took reached.client
        (reached.attentive (unbreached.of_prefix shorter)) took

theorem Holds.beats
    (holds : Holds id connection)
    (reached : Reached true connection)
    (beats : Beats connection after)
    (unbreached : Event.Unbreached after.events) :
    Holds id after := by
  induction beats with
  | refl => exact holds
  | @tail middle final before beat inductionHypothesis =>
      have still : Reached true middle := reached.strides (Beats.strides before)
      have shorter := (beat.steps still.sound.waits).events
      exact (inductionHypothesis (unbreached.of_prefix shorter)).beat still beat
        unbreached

/-- A stream just opened, on which nothing has come. -/
theorem holds_openStream
    (absent : connection.streams[id]? = none)
    (nothing : Event.came connection.events id = []) :
    Holds id (connection.openStream id) := by
  intro stream found _
  have opened : (connection.openStream id).streams[id]? = some (.new
      connection.remoteSettings.initialWindowSize
      connection.localSettings.initialWindowSize) :=
    NatMap.getElem?_insertIfNew_self absent _
  cases found.symm.trans opened
  have same : Event.came (connection.openStream id).events id = [] := nothing
  rw [same]
  rfl

end Holds

end Connection
end Http2
end XmipNet
