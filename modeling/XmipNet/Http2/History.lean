import XmipNet.Http2.Records

/-!
# What the record of a stream tells of the run behind it

A record says that its stream was ended, reset or refused; the events say what
the peer sent. The invariants here tie the two: a stream that is closed to the
peer and not reset was ended by the peer, a client's stream marked as refused
was refused by the server, and what a connection keeps of a `GOAWAY` was read
off one. They hold over steps and over what the side above takes off the
records.
-/

namespace XmipNet
namespace Http2

open Hpack (Field)

namespace Event

/-- The peer has said that `id` was not processed: it reset it as refused, or
went away naming a stream below it. -/
def RefusalSeen (events : List Event) (id : Nat) : Prop :=
  (∃ frame code, received frame ∈ events ∧ frame.kind = .rstStream ∧
    frame.stream = id ∧ frame.word 0 = some code ∧
      ErrorCode.of code = .refusedStream) ∨
  ∃ frame last, received frame ∈ events ∧ frame.kind = .goaway ∧
    frame.word 0 = some last ∧ last &&& maxStreamId < id

theorem RefusalSeen.mono
    {events later : List Event}
    {id : Nat}
    (seen : RefusalSeen events id)
    (grows : events ⊆ later) :
    RefusalSeen later id := by
  rcases seen with ⟨frame, code, arrived, rest⟩ | ⟨frame, last, arrived, rest⟩
  · exact Or.inl ⟨frame, code, grows arrived, rest⟩
  · exact Or.inr ⟨frame, last, grows arrived, rest⟩

theorem EndSeen.mono
    {events later : List Event}
    {id : Nat}
    (seen : EndSeen events id)
    (grows : events ⊆ later) :
    EndSeen later id := by
  obtain ⟨frame, arrived, rest⟩ := seen
  exact ⟨frame, grows arrived, rest⟩

/-- One side has reset `id`: a `RST_STREAM` on it arrived or was emitted. -/
def ResetSeen (events : List Event) (id : Nat) : Prop :=
  (∃ frame, received frame ∈ events ∧ frame.kind = .rstStream ∧
    frame.stream = id) ∨
  ∃ code, emitted (.reset id code) ∈ events

theorem ResetSeen.mono
    {events later : List Event}
    {id : Nat}
    (seen : ResetSeen events id)
    (grows : events ⊆ later) :
    ResetSeen later id := by
  rcases seen with ⟨frame, arrived, rest⟩ | ⟨code, sent⟩
  · exact Or.inl ⟨frame, grows arrived, rest⟩
  · exact Or.inr ⟨code, grows sent⟩

/-- The peer has gone away. -/
def AwaySeen (events : List Event) : Prop :=
  ∃ frame, received frame ∈ events ∧ frame.kind = .goaway

end Event

namespace Core

/-! ## What is taken off the records -/

/-- A record but for its head and body. -/
def untaken (stream : Stream) : Stream :=
  { stream with head := none, body := [] }

/-- A table some of whose records are gone, or have their heads and bodies taken
off. -/
def Thinned (streams thinned : Streams) : Prop :=
  ∀ (id : Nat) record, thinned[id]? = some record →
    ∃ whole, streams[id]? = some whole ∧ untaken record = untaken whole

/-- A stream opened on `id` by this side. -/
def openStream (core : Core) (id : Nat) : Core :=
  { core with
    highest := max core.highest id
    streams := core.streams.insertIfNew id
      (.new core.remoteSettings.initialWindowSize
        core.localSettings.initialWindowSize) }

/-- What happens to a core: a step, or what the side above does with it, taking
something off its records or, on a client, opening a stream. -/
inductive Turn : Core → Core → Prop
  | step {core after : Core} (step : Step core after) : Turn core after
  | taken (core : Core) {streams : Streams}
      (thinned : Thinned core.streams streams) :
      Turn core { core with streams := streams }
  | opened (core : Core) {id : Nat}
      (asClient : core.client = true)
      (fresh : core.highest < id) :
      Turn core (core.openStream id)

/-- Any number of turns. -/
abbrev Turns : Core → Core → Prop :=
  Relation.ReflTransGen Turn

theorem Turns.invariant
    {motive : Core → Prop}
    (keeps : ∀ {core after : Core},
      Turn core after → motive core → motive after)
    {core after : Core}
    (turns : Turns core after)
    (holds : motive core) :
    motive after := by
  induction turns with
  | refl => exact holds
  | tail _ turn inductionHypothesis => exact keeps turn inductionHypothesis

theorem Steps.turns
    {core after : Core}
    (steps : Steps core after) :
    Turns core after :=
  Relation.ReflTransGen.mono (fun _ _ => Turn.step) core after steps

theorem thinned_erase
    (streams : Streams)
    (id : Nat) :
    Thinned streams (streams.erase id) := by
  intro other record found
  rw [NatMap.getElem?_erase] at found
  split at found
  · cases found
  · exact ⟨record, found, rfl⟩

theorem thinned_untaken
    {streams : Streams}
    {id : Nat}
    {stream : Stream}
    (found : streams[id]? = some stream) :
    Thinned streams (streams.insert id (untaken stream)) := by
  intro other record there
  rw [NatMap.getElem?_insert] at there
  split at there
  next same =>
    cases same
    cases there
    exact ⟨stream, found, rfl⟩
  · exact ⟨record, there, rfl⟩

/-- The events only grow, over turns as over steps. -/
theorem Turns.events
    {core after : Core}
    (turns : Turns core after) :
    core.events <+: after.events := by
  refine turns.invariant
    (motive := fun reached => core.events <+: reached.events) ?_
    (List.prefix_refl _)
  intro reached next turn shorter
  cases turn with
  | step step => exact shorter.trans step.events
  | taken thinned => exact shorter
  | opened asClient fresh => exact shorter

theorem Turns.client
    {core after : Core}
    (turns : Turns core after) :
    after.client = core.client := by
  refine turns.invariant
    (motive := fun reached => reached.client = core.client) ?_ rfl
  intro reached next turn same
  cases turn with
  | step step => exact step.client.trans same
  | taken thinned => exact same
  | opened asClient fresh => exact same

theorem same_of_unsent
    {stream changed : Stream}
    (same : unsent stream = unsent changed) :
    stream.state = changed.state ∧ stream.reset = changed.reset := by
  simp only [unsent, Stream.mk.injEq] at same
  obtain ⟨state, _, _, _, _, _, reset⟩ := same
  exact ⟨state, reset⟩

theorem same_of_untaken
    {stream changed : Stream}
    (same : untaken stream = untaken changed) :
    stream.state = changed.state ∧ stream.reset = changed.reset := by
  simp only [untaken, Stream.mk.injEq] at same
  obtain ⟨state, _, _, _, _, _, reset⟩ := same
  exact ⟨state, reset⟩

/-- A stream the peer has opened and whose record is gone stays gone. -/
theorem Turns.absent_of_reached
    {core after : Core}
    (turns : Turns core after)
    (server : core.client = false)
    {id : Nat}
    (reached : id ≤ core.lastPeer)
    (absent : core.streams[id]? = none) :
    after.streams[id]? = none := by
  refine (turns.invariant (motive := fun later => later.client = false ∧
    id ≤ later.lastPeer ∧ later.streams[id]? = none) ?_
    ⟨server, reached, absent⟩).2.2
  rintro later next turn ⟨server, reached, absent⟩
  cases turn with
  | step step =>
      have steps := Relation.ReflTransGen.single step
      exact ⟨step.client.trans server, reached.trans step.monotone.1,
        Steps.absent_of_reached steps reached absent⟩
  | @taken streams thinned =>
      refine ⟨server, reached, ?_⟩
      cases found : streams[id]? with
      | none => rfl
      | some record =>
          obtain ⟨whole, there, _⟩ := thinned id record found
          rw [absent] at there
          cases there
  | opened asClient fresh =>
      rw [server] at asClient
      cases asClient

/-! ## Where a stream's end comes from -/

/-- A stream closed to the peer and not reset was ended by the peer. -/
def Ends (core : Core) : Prop :=
  ∀ id stream, core.streams[id]? = some stream → stream.reset = none →
    stream.state.receiving = false → Event.EndSeen core.events id

/-- A record that a step leaves open to the peer was so before, and one it
closes to the peer and does not reset, the peer has ended. -/
theorem Change.ends
    {core after : Core}
    {id : Nat}
    {before : Option Stream}
    {stream : Stream}
    (change : Change core after id before (some stream))
    (ends : ∀ whole, before = some whole → whole.reset = none →
      whole.state.receiving = false → Event.EndSeen core.events id)
    (live : stream.reset = none)
    (closed : stream.state.receiving = false) :
    Event.EndSeen core.events id := by
  cases change with
  | kept => exact ends stream rfl live closed
  | @grown whole _ grows =>
      rcases grows.state with same | ⟨_, seen⟩
      · rw [same, grows.receiving] at closed
        cases closed
      · exact seen
  | @headed whole _ fields asked liveBefore heads seen =>
      obtain ⟨receiving, state, _⟩ := Stream.headers_eq_ok heads
      cases asked with
      | true => exact seen rfl
      | false =>
          rw [state, if_neg Bool.false_ne_true, receiving] at closed
          cases closed
  | @opened _ fields asked opens staying heads seen =>
      obtain ⟨receiving, state, _⟩ := Stream.headers_eq_ok heads
      cases asked with
      | true => exact seen rfl
      | false =>
          rw [state, if_neg Bool.false_ne_true, receiving] at closed
          cases closed
  | ended => cases live
  | reset => cases live
  | passedOver => cases live
  | @windowed whole _ same =>
      obtain ⟨state, reset⟩ := same_of_unsent same
      exact ends whole rfl (reset.trans live) (state ▸ closed)
  | endedLocally whole unended =>
      refine ends whole rfl live ?_
      cases state : whole.state with
      | opened =>
          simp only [state] at closed
          cases closed
      | halfClosedLocal => exact absurd state unended
      | halfClosedRemote => rfl
      | closed => rfl

theorem Step.ends
    {core after : Core}
    (step : Step core after)
    (ends : Ends core) :
    Ends after := by
  intro id stream found live closed
  have change := step.change id
  rw [found] at change
  exact (change.ends (ends id) live closed).mono step.events.subset

theorem ends_of_thinned
    {core : Core}
    {streams : Streams}
    (thinned : Thinned core.streams streams)
    (ends : Ends core) :
    Ends { core with streams := streams } := by
  intro id record found live closed
  obtain ⟨whole, there, same⟩ := thinned id record found
  obtain ⟨state, reset⟩ := same_of_untaken same
  exact ends id whole there (reset ▸ live) (state ▸ closed)

/-- A record closed to the peer stays so. -/
theorem Step.stays_closed
    {core after : Core}
    (step : Step core after)
    {id : Nat}
    {stream changed : Stream}
    (found : core.streams[id]? = some stream)
    (closed : stream.state.receiving = false)
    (there : after.streams[id]? = some changed) :
    changed.state.receiving = false := by
  have change := step.change id
  rw [found, there] at change
  cases change with
  | kept => exact closed
  | grown grows =>
      rw [grows.receiving] at closed
      cases closed
  | headed live heads seen =>
      rw [(Stream.headers_eq_ok heads).1] at closed
      cases closed
  | ended => rfl
  | reset => rfl
  | passedOver => exact closed
  | windowed same =>
      obtain ⟨state, _⟩ := same_of_unsent same
      exact state ▸ closed
  | endedLocally =>
      cases state : stream.state <;> simp_all [State.endedLocally,
        State.receiving]

/-! ## Where a reset comes from -/

/-- A stream of a client's that is marked as refused, the server has refused. -/
def Refusals (core : Core) : Prop :=
  core.client = true → ∀ id stream, core.streams[id]? = some stream →
    stream.reset = some .refusedStream → Event.RefusalSeen core.events id

theorem Step.refusals
    {core after : Core}
    (step : Step core after)
    (refusals : Refusals core) :
    Refusals after := by
  intro asClient id stream found refused
  rw [step.client] at asClient
  have grows := step.events.subset
  have change := step.change id
  rw [found] at change
  cases before : core.streams[id]? with
  | none =>
      rw [before] at change
      cases change with
      | opened opens =>
          have server := opens.server
          rw [asClient] at server
          cases server
  | some whole =>
      rw [before] at change
      cases change with
      | kept => exact (refusals asClient id stream before refused).mono grows
      | grown grows =>
          rw [grows.reset] at refused
          cases refused
      | headed live heads seen =>
          obtain ⟨_, _, rest⟩ := Stream.headers_eq_ok heads
          rw [rest] at refused
          exact absurd (live.symm.trans refused) (by simp)
      | ended _ logged refuses =>
          injection refused with code
          exact absurd code (refuses asClient)
      | @reset _ frame code arrived kind onStream word =>
          injection refused with refused
          exact Or.inl ⟨frame, code, grows arrived, kind, onStream, word, refused⟩
      | @passedOver _ frame last live arrived kind word above own =>
          exact Or.inr ⟨frame, last, grows arrived, kind, word, above⟩
      | windowed same =>
          obtain ⟨_, reset⟩ := same_of_unsent same
          exact (refusals asClient id whole before
            (reset.trans refused)).mono grows
      | endedLocally =>
          exact (refusals asClient id whole before refused).mono grows

theorem refusals_of_thinned
    {core : Core}
    {streams : Streams}
    (thinned : Thinned core.streams streams)
    (refusals : Refusals core) :
    Refusals { core with streams := streams } := by
  intro asClient id record found refused
  obtain ⟨whole, there, same⟩ := thinned id record found
  obtain ⟨_, reset⟩ := same_of_untaken same
  exact refusals asClient id whole there (reset ▸ refused)

/-- On a server a live record stays live until one side resets its stream. -/
theorem Step.stays_live
    {core after : Core}
    (step : Step core after)
    (placed : Placed core)
    (server : core.client = false)
    {id : Nat}
    {stream changed : Stream}
    (found : core.streams[id]? = some stream)
    (live : stream.reset = none)
    (there : after.streams[id]? = some changed) :
    changed.reset = none ∨ Event.ResetSeen after.events id := by
  have change := step.change id
  rw [found, there] at change
  cases change with
  | kept => exact Or.inl live
  | grown grows => exact Or.inl grows.reset
  | headed _ heads seen =>
      obtain ⟨_, _, rest⟩ := Stream.headers_eq_ok heads
      rw [rest]
      exact Or.inl live
  | @ended _ code logged refuses =>
      refine Or.inr (Or.inr ⟨code, ?_⟩)
      rw [logged]
      exact List.mem_append_right _ (List.mem_singleton_self _)
  | @reset _ frame code arrived kind onStream word =>
      exact Or.inr (Or.inl
        ⟨frame, step.events.subset arrived, kind, onStream⟩)
  | passedOver _ live arrived kind word above own =>
      rw [server, placed.odd server id stream found] at own
      cases own
  | windowed same =>
      obtain ⟨_, reset⟩ := same_of_unsent same
      exact Or.inl (reset ▸ live)
  | endedLocally => exact Or.inl live

/-! ## Where a `GOAWAY` comes from -/

/-- What is kept of the peer's `GOAWAY` was read off one. -/
def Departed (core : Core) : Prop :=
  core.goaway ≠ none → Event.AwaySeen core.events

theorem Step.departed
    {core after : Core}
    (step : Step core after)
    (departed : Departed core) :
    Departed after := by
  cases step with
  | @wentAway frame last code arrived kind word =>
      exact fun _ => ⟨frame, arrived, kind⟩
  | _ =>
      intro away
      obtain ⟨frame, arrived, kind⟩ := departed away
      first
        | exact ⟨frame, arrived, kind⟩
        | exact ⟨frame, List.mem_append_left _ arrived, kind⟩

/-! ## All of it over whole runs -/

/-- What holds of the core of every connection. -/
structure Sound (core : Core) : Prop where
  waits : Waits core
  placed : Placed core
  ends : Ends core
  refusals : Refusals core
  departed : Departed core

theorem placed_of_thinned
    {core : Core}
    {streams : Streams}
    (thinned : Thinned core.streams streams)
    (placed : Placed core) :
    Placed { core with streams := streams } where
  last := placed.last
  table id record found := by
    obtain ⟨whole, there, _⟩ := thinned id record found
    exact placed.table id whole there
  peers server id record found := by
    obtain ⟨whole, there, _⟩ := thinned id record found
    exact placed.peers server id whole there
  odd server id record found := by
    obtain ⟨whole, there, _⟩ := thinned id record found
    exact placed.odd server id whole there
  settled server id record found := by
    obtain ⟨whole, there, _⟩ := thinned id record found
    exact placed.settled server id whole there
  bounded := placed.bounded

/-- The record of a stream this side has just opened, or another. -/
theorem found_of_openStream
    {core : Core}
    {id other : Nat}
    {stream : Stream}
    (absent : core.streams[id]? = none)
    (found : (core.openStream id).streams[other]? = some stream) :
    (other = id ∧ stream = .new core.remoteSettings.initialWindowSize
      core.localSettings.initialWindowSize) ∨
    core.streams[other]? = some stream := by
  by_cases same : id = other
  · cases same
    have new : (core.openStream id).streams[id]? = some (.new
        core.remoteSettings.initialWindowSize
        core.localSettings.initialWindowSize) :=
      NatMap.getElem?_insertIfNew_self absent _
    exact Or.inl ⟨rfl, Option.some.inj (found.symm.trans new)⟩
  · exact Or.inr ((NatMap.getElem?_insertIfNew_ne same _).symm.trans found)

theorem Placed.absent_of_fresh
    {core : Core}
    (placed : Placed core)
    {id : Nat}
    (fresh : core.highest < id) :
    core.streams[id]? = none := by
  cases found : core.streams[id]? with
  | none => rfl
  | some stream =>
      have within := placed.table id stream found
      omega

/-- A stream that this side opens is open to the peer and not reset. -/
theorem Sound.opened
    {core : Core}
    (sound : Sound core)
    {id : Nat}
    (asClient : core.client = true)
    (fresh : core.highest < id) :
    Sound (core.openStream id) := by
  have absent := sound.placed.absent_of_fresh fresh
  have notServer : ¬core.client = false := by
    rw [asClient]
    exact Bool.true_eq_false.mp
  refine ⟨sound.waits, ?_, ?_, ?_, sound.departed⟩
  · exact
      { last := sound.placed.last.trans (le_max_left _ _)
        table := fun other stream found => by
          rcases found_of_openStream absent found with ⟨rfl, _⟩ | there
          · exact le_max_right _ _
          · exact (sound.placed.table other stream there).trans
              (le_max_left _ _)
        peers := fun server => absurd server notServer
        odd := fun server => absurd server notServer
        settled := fun server => absurd server notServer
        bounded := sound.placed.bounded }
  · intro other stream found live shut
    rcases found_of_openStream absent found with ⟨_, rfl⟩ | there
    · cases shut
    · exact sound.ends other stream there live shut
  · intro _ other stream found refused
    rcases found_of_openStream absent found with ⟨_, rfl⟩ | there
    · cases refused
    · exact sound.refusals asClient other stream there refused

theorem Turn.sound
    {core after : Core}
    (turn : Turn core after)
    (sound : Sound core) :
    Sound after := by
  cases turn with
  | step step =>
      exact
        { waits := step.waits sound.waits
          placed := step.placed sound.placed
          ends := step.ends sound.ends
          refusals := step.refusals sound.refusals
          departed := step.departed sound.departed }
  | taken thinned =>
      exact
        { waits := sound.waits
          placed := placed_of_thinned thinned sound.placed
          ends := ends_of_thinned thinned sound.ends
          refusals := refusals_of_thinned thinned sound.refusals
          departed := sound.departed }
  | opened asClient fresh => exact sound.opened asClient fresh

theorem Turns.sound
    {core after : Core}
    (turns : Turns core after)
    (sound : Sound core) :
    Sound after :=
  turns.invariant Turn.sound sound

end Core

namespace Connection

theorem absent_initial
    (wire : Wire)
    (client : Bool)
    (id : Nat)
    (stream : Stream) :
    (initial wire client).core.streams[id]? ≠ some stream := by
  have absent : (initial wire client).core.streams[id]? = none :=
    NatMap.getElem?_empty id
  rw [absent]
  exact (Option.some_ne_none stream).symm

/-- A connection starts sound. -/
theorem sound_initial
    (wire : Wire)
    (client : Bool) :
    Core.Sound (initial wire client).core where
  waits _ waiting := by cases waiting
  placed :=
    { last := le_refl _
      table := fun id _ found => absurd found (absent_initial wire client id _)
      peers := fun _ id _ found =>
        absurd found (absent_initial wire client id _)
      odd := fun _ id _ found => absurd found (absent_initial wire client id _)
      settled := fun _ id _ found =>
        absurd found (absent_initial wire client id _)
      bounded := Nat.zero_le _ }
  ends id _ found := absurd found (absent_initial wire client id _)
  refusals _ id _ found := absurd found (absent_initial wire client id _)
  departed away := absurd rfl away

end Connection
end Http2
end XmipNet
