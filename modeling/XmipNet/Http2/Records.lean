import XmipNet.Http2.Core

/-!
# What a step does to the record of one stream

A step changes at most one record, or every record in one way. `Change` says,
for one stream, how its record before a step and after it are related and why,
and the invariants about records are proved by its cases.
-/

namespace XmipNet
namespace Http2
namespace Core

open Hpack (Field)

/-- How a step changes the record of `id`. -/
inductive Change (core after : Core) (id : Nat) :
    Option Stream → Option Stream → Prop
  | kept (record : Option Stream) : Change core after id record record
  /-- A body grew. -/
  | grown {stream changed : Stream} (grows : Grows core id stream changed) :
      Change core after id (some stream) (some changed)
  /-- A header block arrived. -/
  | headed {stream changed : Stream} {fields : List Field} {ends : Bool}
      (live : stream.reset = none)
      (heads : stream.headers fields ends = .ok changed)
      (seen : ends = true → Event.EndSeen core.events id) :
      Change core after id (some stream) (some changed)
  /-- The peer opened it. -/
  | opened {changed : Stream} {fields : List Field} {ends : Bool}
      (opens : Opens core id)
      (staying : core.goingAway = false)
      (heads : (Stream.new core.remoteSettings.initialWindowSize
        core.localSettings.initialWindowSize).headers fields ends = .ok changed)
      (seen : ends = true → Event.EndSeen core.events id)
      (reached : after.lastPeer = id)
      (raised : after.highest = max core.highest id)
      (fits : core.openCount < core.mostStreams) :
      Change core after id none (some changed)
  /-- This side ended it. -/
  | ended (stream : Stream) {code : ErrorCode}
      (logged : after.events =
        core.events ++ [.emitted (.reset id code)])
      (refuses : core.client = true → code ≠ .refusedStream) :
      Change core after id (some stream)
        (some { stream with state := .closed, reset := some code })
  /-- The peer ended it. -/
  | reset (stream : Stream) {frame : Frame} {code : Nat}
      (arrived : .received frame ∈ core.events)
      (kind : frame.kind = .rstStream)
      (onStream : frame.stream = id)
      (word : frame.word 0 = some code) :
      Change core after id (some stream)
        (some { stream with state := .closed, reset := some (.of code) })
  /-- The peer's `GOAWAY` passed it over. -/
  | passedOver (stream : Stream) {frame : Frame} {last : Nat}
      (live : stream.reset = none)
      (arrived : .received frame ∈ core.events)
      (kind : frame.kind = .goaway)
      (word : frame.word 0 = some last)
      (above : last &&& maxStreamId < id)
      (own : decide (id % 2 = 1) = core.client) :
      Change core after id (some stream)
        (some { stream with reset := some .refusedStream })
  /-- Its send window moved. -/
  | windowed {stream changed : Stream} (same : unsent stream = unsent changed) :
      Change core after id (some stream) (some changed)
  /-- This side ended its half. -/
  | endedLocally (stream : Stream)
      (unended : stream.state ≠ .halfClosedLocal) :
      Change core after id (some stream)
        (some { stream with state := stream.state.endedLocally })

/-- A record written at `id` changes that one alone. -/
theorem change_insert
    {core after : Core}
    {id : Nat}
    {stream : Stream}
    {streams : Streams}
    (change : Change core after id streams[id]? (some stream))
    (other : Nat) :
    Change core after other streams[other]? (streams.insert id stream)[other]? := by
  rw [NatMap.getElem?_insert]
  split
  next same =>
    cases same
    exact change
  · exact .kept _

/-- A record modified at `id` changes that one alone. -/
theorem change_modify
    {core after : Core}
    {id : Nat}
    {streams : Streams}
    {alter : Stream → Stream}
    (change : ∀ stream, streams[id]? = some stream →
      Change core after id (some stream) (some (alter stream)))
    (other : Nat) :
    Change core after other streams[other]? (streams.modify id alter)[other]? := by
  rw [NatMap.getElem?_modify]
  split
  next same =>
    cases same
    cases found : streams[id]? with
    | none => exact .kept _
    | some stream => exact change stream found
  · exact .kept _

theorem change_of_sameButSend
    {core after : Core}
    {streams others : Streams}
    (same : SameButSend streams others)
    (id : Nat) :
    Change core after id streams[id]? others[id]? := by
  have equal := same id
  cases before : streams[id]? with
  | none =>
      rw [before, Option.map_none, eq_comm, Option.map_eq_none_iff] at equal
      rw [equal]
      exact .kept _
  | some stream =>
      rw [before, Option.map_some, eq_comm, Option.map_eq_some_iff] at equal
      obtain ⟨changed, now, same⟩ := equal
      rw [now]
      exact .windowed same.symm

/-- What one step does to the record of one stream. -/
theorem Step.change
    {core after : Core}
    (step : Step core after)
    (id : Nat) :
    Change core after id core.streams[id]? after.streams[id]? := by
  cases step with
  | received frame => exact .kept _
  | emitted plain => exact .kept _
  | ended other code seen refuses =>
      refine change_modify (fun stream _ => ?_) id
      exact .ended stream rfl refuses
  | goingAway code debug => exact .kept _
  | breached violation payload same settings applied =>
      exact change_of_sameButSend same id
  | continuing continuing seen => exact .kept _
  | receive bounded => exact .kept _
  | grown grows =>
      refine change_insert ?_ id
      rw [grows.found]
      exact .grown grows
  | headed found live heads seen =>
      refine change_insert ?_ id
      rw [found]
      exact .headed live heads seen
  | @opened other changed fields ends opens staying heads seen fits =>
      by_cases same : other = id
      · cases same
        simp only [opens.absent, NatMap.getElem?_insert_self]
        exact .opened opens staying heads seen rfl rfl fits
      · simp only [NatMap.getElem?_insert_ne same,
          NatMap.getElem?_insertIfNew_ne same]
        exact .kept _
  | passedOver opens leaving => exact .kept _
  | refused opens staying => exact .kept _
  | reset arrived kind word =>
      refine change_modify (fun stream _ => ?_) id
      exact .reset stream arrived kind rfl word
  | @wentAway frame last code arrived kind word =>
      simp only [NatMap.getElem?_map]
      cases core.streams[id]? with
      | none => exact .kept _
      | some stream =>
          simp only [Option.map_some, Connection.passedOverBy]
          split
          next exceeds =>
            exact .passedOver stream exceeds.2.2 arrived kind word exceeds.1
              exceeds.2.1
          · exact .kept _
  | @settings payload settings streams applies shifts =>
      have same := sameButSend_shiftEach
        ((settings.initialWindowSize : Int) -
          core.remoteSettings.initialWindowSize)
        (listed_toList core.streams)
      rw [shifts] at same
      exact change_of_sameButSend same id
  | grantedConnection kind onConnection holds grants => exact .kept _
  | grantedStream kind onStream opened holds found grants =>
      refine change_insert ?_ id
      rw [found]
      exact .windowed rfl
  | sent kind onStream found live sized takes takesStream =>
      refine change_insert ?_ id
      rw [found]
      exact .windowed rfl
  | endedLocally other unended =>
      refine change_modify (fun stream found => ?_) id
      exact .endedLocally stream (unended stream found)

/-! ## How far streams have been opened -/

/-- How far streams have been opened never goes back, nor does going away. -/
theorem Step.monotone
    {core after : Core}
    (step : Step core after) :
    core.lastPeer ≤ after.lastPeer ∧ core.highest ≤ after.highest ∧
      (core.goingAway = true → after.goingAway = true) := by
  cases step with
  | opened opens => exact ⟨opens.above.le, le_max_left _ _, id⟩
  | passedOver opens => exact ⟨opens.above.le, le_max_left _ _, id⟩
  | refused opens => exact ⟨opens.above.le, le_max_left _ _, id⟩
  | goingAway => exact ⟨le_refl _, le_refl _, fun _ => rfl⟩
  | _ => exact ⟨le_refl _, le_refl _, id⟩

theorem Steps.monotone
    {core after : Core}
    (steps : Steps core after) :
    core.lastPeer ≤ after.lastPeer ∧ core.highest ≤ after.highest ∧
      (core.goingAway = true → after.goingAway = true) := by
  refine steps.invariant (motive := fun reached =>
    core.lastPeer ≤ reached.lastPeer ∧ core.highest ≤ reached.highest ∧
      (core.goingAway = true → reached.goingAway = true)) ?_
    ⟨le_refl _, le_refl _, id⟩
  rintro reached next step ⟨last, highest, leaving⟩
  obtain ⟨nextLast, nextHighest, nextLeaving⟩ := step.monotone
  exact ⟨last.trans nextLast, highest.trans nextHighest, nextLeaving ∘ leaving⟩

theorem Step.localSettings
    {core after : Core}
    (step : Step core after) :
    after.localSettings = core.localSettings := by
  cases step <;> rfl

theorem Steps.localSettings
    {core after : Core}
    (steps : Steps core after) :
    after.localSettings = core.localSettings := by
  induction steps with
  | refl => rfl
  | tail _ step inductionHypothesis =>
      exact step.localSettings.trans inductionHypothesis

/-- Where the highest stream opened is the last the peer opened it stays so. -/
theorem Steps.level
    {core after : Core}
    (steps : Steps core after)
    (level : core.highest = core.lastPeer) :
    after.highest = after.lastPeer := by
  induction steps with
  | refl => exact level
  | tail _ step inductionHypothesis =>
      cases step with
      | opened opens | passedOver opens | refused opens =>
          exact max_eq_right (inductionHypothesis ▸ opens.above.le)
      | _ => exact inductionHypothesis

/-- Every record is of a stream that was opened: no higher than the highest
opened and, on a server, than the last the peer opened. -/
structure Placed (core : Core) : Prop where
  last : core.lastPeer ≤ core.highest
  table : ∀ id stream, core.streams[id]? = some stream → id ≤ core.highest
  peers : core.client = false → ∀ id stream, core.streams[id]? = some stream →
    id ≤ core.lastPeer
  odd : core.client = false → ∀ id stream, core.streams[id]? = some stream →
    id % 2 = 1
  settled : core.client = false → ∀ (id : Nat) stream,
    core.streams[id]? = some stream → core.settingsSeen = true
  bounded : core.lastPeer ≤ maxStreamId

/-- A record after a step was there before, or its stream has just been
opened. -/
theorem Step.present
    {core after : Core}
    (step : Step core after)
    {id : Nat}
    {stream : Stream}
    (found : after.streams[id]? = some stream) :
    (∃ before, core.streams[id]? = some before) ∨
      (Opens core id ∧ core.goingAway = false ∧ after.lastPeer = id ∧
        after.highest = max core.highest id) := by
  have change := step.change id
  rw [found] at change
  cases before : core.streams[id]? with
  | some record => exact Or.inl ⟨record, rfl⟩
  | none =>
      rw [before] at change
      cases change with
      | opened opens staying heads seen reached raised =>
          exact Or.inr ⟨opens, staying, reached, raised⟩

theorem Step.placed
    {core after : Core}
    (step : Step core after)
    (placed : Placed core) :
    Placed after := by
  obtain ⟨lastGrows, highestGrows, _⟩ := step.monotone
  refine ⟨?_, ?_, ?_, ?_, ?_, ?_⟩
  · cases step with
    | opened opens => exact le_max_right _ _
    | passedOver opens => exact le_max_right _ _
    | refused opens => exact le_max_right _ _
    | _ => exact placed.last
  · intro id stream found
    rcases step.present found with
      ⟨before, there⟩ | ⟨_, _, _, raised⟩
    · exact (placed.table id before there).trans highestGrows
    · omega
  · intro server id stream found
    rcases step.present found with
      ⟨before, there⟩ | ⟨_, _, reached, _⟩
    · exact (placed.peers (step.client ▸ server) id before there).trans lastGrows
    · omega
  · intro server id stream found
    rcases step.present found with
      ⟨before, there⟩ | ⟨opens, _⟩
    · exact placed.odd (step.client ▸ server) id before there
    · exact opens.odd
  · intro server id stream found
    rcases step.present found with
      ⟨before, there⟩ | ⟨opens, _⟩
    · exact step.settingsSeen
        (placed.settled (step.client ▸ server) id before there)
    · exact step.settingsSeen opens.seen
  · cases step with
    | opened opens => exact opens.bounded
    | passedOver opens => exact opens.bounded
    | refused opens => exact opens.bounded
    | _ => exact placed.bounded

theorem Steps.placed
    {core after : Core}
    (steps : Steps core after)
    (placed : Placed core) :
    Placed after :=
  steps.invariant Step.placed placed

/-- A stream the peer has opened and whose record is gone stays gone. -/
theorem Steps.absent_of_reached
    {core after : Core}
    (steps : Steps core after)
    {id : Nat}
    (reached : id ≤ core.lastPeer)
    (absent : core.streams[id]? = none) :
    after.streams[id]? = none := by
  induction steps with
  | refl => exact absent
  | @tail middle after moved step inductionHypothesis =>
      cases found : after.streams[id]? with
      | none => rfl
      | some stream =>
          rcases step.present found with
            ⟨before, there⟩ | ⟨opens, _⟩
          · rw [inductionHypothesis] at there
            cases there
          · have above := opens.above
            have last := (Steps.monotone moved).1
            omega

/-- No step removes a record. -/
theorem Step.keeps_record
    {core after : Core}
    (step : Step core after)
    {id : Nat}
    {stream : Stream}
    (found : core.streams[id]? = some stream) :
    ∃ changed, after.streams[id]? = some changed := by
  have change := step.change id
  rw [found] at change
  cases now : after.streams[id]? with
  | some changed => exact ⟨changed, rfl⟩
  | none =>
      rw [now] at change
      cases change

theorem Steps.keeps_record
    {core after : Core}
    (steps : Steps core after)
    {id : Nat}
    {stream : Stream}
    (found : core.streams[id]? = some stream) :
    ∃ changed, after.streams[id]? = some changed :=
  steps.invariant
    (motive := fun reached => ∃ changed, reached.streams[id]? = some changed)
    (fun step ⟨_, there⟩ => step.keeps_record there) ⟨stream, found⟩

end Core
end Http2
end XmipNet
