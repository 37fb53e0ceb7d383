import XmipNet.Http2.History

/-!
# What a `GOAWAY` promises

A `GOAWAY` names the last stream this side will process, and a client resends
every one above it. The invariants here say what the `GOAWAY`s of a connection
name: the last stream the peer had opened, which nothing but a block passed over
moves once the first has been sent, and no record above what any of them named.
-/

namespace XmipNet
namespace Http2

namespace Frame

/-- The last stream a `GOAWAY` names. -/
def lastStream (frame : Frame) : Option Nat :=
  (frame.word 0).map (· &&& maxStreamId)

theorem lastStream_goaway
    {last : Nat}
    (bounded : last ≤ maxStreamId)
    (code : ErrorCode)
    (debug : List UInt8) :
    (goaway last code debug).lastStream = some last := by
  have mask : maxStreamId = 2 ^ 31 - 1 := rfl
  have same : last &&& maxStreamId = last := by
    rw [mask, Nat.and_two_pow_sub_one_of_lt_two_pow]
    omega
  have fits : last < 256 ^ 4 := by omega
  have holds : 0 + 4 ≤ (goaway last code debug).payload.length := by
    simp only [goaway, List.length_append, BigEndian.length_write]
    omega
  have opens : ((goaway last code debug).payload.drop 0).take 4 =
      BigEndian.write 4 last := by
    simp only [goaway, same, List.drop_zero, List.append_assoc]
    exact List.take_left' (BigEndian.length_write 4 last)
  rw [lastStream, word, if_pos holds, opens, BigEndian.read_write_of_lt fits,
    Option.map_some, same]

end Frame

namespace Event

/-- The last stream that a `GOAWAY` of this side's names. -/
def farewell : Event → Option Nat
  | emitted frame => if frame.kind = .goaway then frame.lastStream else none
  | _ => none

/-- The stream whose block was passed over. -/
def passed : Event → Option Nat
  | passedOver id => some id
  | _ => none

/-- The last streams named, in order. -/
def goodbyes (events : List Event) : List Nat :=
  events.filterMap farewell

/-- The streams passed over, in order. -/
def passedOvers (events : List Event) : List Nat :=
  events.filterMap passed

/-- No `GOAWAY` takes back a refusal: what they name never increases, and none
reaches a stream that was passed over. -/
structure Honest (events : List Event) : Prop where
  lasts : (goodbyes events).Pairwise fun earlier later => later ≤ earlier
  spares : ∀ last ∈ goodbyes events, ∀ id ∈ passedOvers events, last < id

/-- No `GOAWAY` comes after a block that was passed over. -/
def Final (events : List Event) : Prop :=
  events.Pairwise fun earlier later =>
    earlier.passed ≠ none → later.farewell = none

instance (events : List Event) : Decidable (Final events) :=
  inferInstanceAs (Decidable (events.Pairwise _))

end Event

namespace Core

open Event

/-- Events that neither say goodbye nor pass a block over. -/
def Quiet (events : List Event) : Prop :=
  ∀ event ∈ events, event.farewell = none ∧ event.passed = none

theorem quiet_nil : Quiet [] :=
  fun _ member => by cases member

theorem quiet_singleton
    {event : Event}
    (unspoken : event.farewell = none)
    (taken : event.passed = none) :
    Quiet [event] := by
  intro other member
  rw [List.mem_singleton.mp member]
  exact ⟨unspoken, taken⟩

/-- How a step parts from the peer: not at all, with a `GOAWAY`, or by passing a
block over. -/
inductive Parting (core after : Core) : Prop
  | quiet (added : List Event) (quiet : Quiet added)
      (logged : after.events = core.events ++ added)
      (leaving : after.goingAway = core.goingAway)
      (last : core.goingAway = true → after.lastPeer = core.lastPeer)
  | farewell (event : Event)
      (logged : after.events = core.events ++ [event])
      (leaving : after.goingAway = true)
      (last : after.lastPeer = core.lastPeer)
      (named : event.farewell = some core.lastPeer)
      (unpassed : event.passed = none)
      (streams : after.streams = core.streams)
  | passes (id : Nat)
      (logged : after.events = core.events ++ [.passedOver id])
      (left : core.goingAway = true)
      (leaving : after.goingAway = true)
      (above : core.lastPeer < id)
      (last : after.lastPeer = id)

theorem farewell_of_kind
    {frame : Frame}
    (kind : frame.kind ≠ .goaway) :
    (emitted frame).farewell = none :=
  if_neg kind

theorem Step.parting
    {core after : Core}
    (step : Step core after)
    (placed : Placed core) :
    Parting core after := by
  have silent : ∀ {event : Event}, event.farewell = none →
      event.passed = none → Quiet [event] := quiet_singleton
  cases step with
  | received frame =>
      exact .quiet _ (silent rfl rfl) rfl rfl fun _ => rfl
  | emitted plain =>
      exact .quiet _ (silent (farewell_of_kind plain.2.2) rfl) rfl rfl
        fun _ => rfl
  | ended id code seen refuses =>
      have kind : (Frame.reset id code).kind ≠ .goaway := by
        rw [Frame.reset]
        exact Kind.noConfusion
      exact .quiet _ (silent (farewell_of_kind kind) rfl) rfl rfl fun _ => rfl
  | goingAway code debug =>
      refine .farewell _ rfl rfl rfl ?_ rfl rfl
      rw [Event.farewell, if_pos (by rfl)]
      exact Frame.lastStream_goaway placed.bounded code debug
  | breached violation payload same settings applied =>
      exact .quiet _ (silent rfl rfl) rfl rfl fun _ => rfl
  | opened opens staying heads seen =>
      refine .quiet [] quiet_nil (List.append_nil _).symm rfl fun leaving => ?_
      rw [staying] at leaving
      cases leaving
  | passedOver opens leaving =>
      exact .passes _ rfl leaving leaving opens.above rfl
  | refused opens staying =>
      refine .quiet [] quiet_nil (List.append_nil _).symm rfl fun leaving => ?_
      rw [staying] at leaving
      cases leaving
  | grantedConnection kind onConnection holds grants =>
      exact .quiet _ (silent rfl rfl) rfl rfl fun _ => rfl
  | grantedStream kind onStream opened holds found grants =>
      exact .quiet _ (silent rfl rfl) rfl rfl fun _ => rfl
  | @sent id stream frame _ _ kind onStream found live sized takes takesStream =>
      refine .quiet _ (silent (farewell_of_kind ?_) rfl) rfl rfl fun _ => rfl
      rw [kind]
      exact Kind.noConfusion
  | _ => exact .quiet [] quiet_nil (List.append_nil _).symm rfl fun _ => rfl

/-- What the `GOAWAY`s of a connection and the blocks it passed over have to do
with how far the peer has opened streams. -/
structure Farewells (core : Core) : Prop where
  leaving : goodbyes core.events ≠ [] → core.goingAway = true
  below : ∀ last ∈ goodbyes core.events, last ≤ core.lastPeer
  passed : ∀ id ∈ passedOvers core.events, id ≤ core.lastPeer
  standing : passedOvers core.events = [] →
    ∀ last ∈ goodbyes core.events, last = core.lastPeer
  late : core.events.Pairwise fun earlier later =>
    ∀ id ∈ earlier.passed, ∀ last ∈ later.farewell, id ≤ last
  final : Final core.events →
    (∀ last ∈ goodbyes core.events, ∀ other ∈ goodbyes core.events,
      last = other) ∧
    ∀ last ∈ goodbyes core.events, ∀ id ∈ passedOvers core.events, last < id

theorem farewells_append_quiet
    {added : List Event}
    (quiet : Quiet added)
    (events : List Event) :
    goodbyes (events ++ added) = goodbyes events := by
  have none : added.filterMap Event.farewell = [] :=
    List.filterMap_eq_nil_iff.mpr fun event member => (quiet event member).1
  rw [goodbyes, List.filterMap_append, none, List.append_nil, goodbyes]

theorem passedOvers_append_quiet
    {added : List Event}
    (quiet : Quiet added)
    (events : List Event) :
    passedOvers (events ++ added) = passedOvers events := by
  have none : added.filterMap Event.passed = [] :=
    List.filterMap_eq_nil_iff.mpr fun event member => (quiet event member).2
  rw [passedOvers, List.filterMap_append, none, List.append_nil, passedOvers]

theorem passedOvers_eq_nil_of_final
    {events : List Event}
    {event : Event}
    {last : Nat}
    (final : Final (events ++ [event]))
    (named : event.farewell = some last) :
    passedOvers events = [] := by
  rw [passedOvers, List.filterMap_eq_nil_iff]
  intro earlier member
  by_contra passed
  have silent := (List.pairwise_append.mp final).2.2 earlier member event
    (List.mem_singleton_self _) passed
  rw [silent] at named
  cases named

theorem Farewells.quiet
    {core after : Core}
    (farewells : Farewells core)
    {added : List Event}
    (quiet : Quiet added)
    (logged : after.events = core.events ++ added)
    (leaving : after.goingAway = core.goingAway)
    (last : core.goingAway = true → after.lastPeer = core.lastPeer)
    (grows : core.lastPeer ≤ after.lastPeer) :
    Farewells after := by
  have said := farewells_append_quiet quiet core.events
  have exceeds := passedOvers_append_quiet quiet core.events
  rw [← logged] at said exceeds
  refine ⟨?_, ?_, ?_, ?_, ?_, ?_⟩
  · rw [said, leaving]
    exact farewells.leaving
  · rw [said]
    exact fun last member => (farewells.below last member).trans grows
  · rw [exceeds]
    exact fun id member => (farewells.passed id member).trans grows
  · rw [said, exceeds]
    intro none other member
    have left := farewells.leaving (List.ne_nil_of_mem member)
    exact (farewells.standing none other member).trans (last left).symm
  · rw [logged, List.pairwise_append]
    refine ⟨farewells.late, ?_, ?_⟩
    · refine List.pairwise_of_forall_mem_list fun earlier member later _ => ?_
      rw [(quiet earlier member).2]
      exact fun _ absent => by cases absent
    · intro earlier _ later member _ _
      rw [(quiet later member).1]
      exact fun _ absent => by cases absent
  · rw [said, exceeds, logged]
    exact fun final => farewells.final (List.pairwise_append.mp final).1

theorem Step.farewells
    {core after : Core}
    (step : Step core after)
    (placed : Placed core)
    (before : Farewells core) :
    Farewells after := by
  have grows := step.monotone.1
  cases step.parting placed with
  | quiet added quiet logged leaving last =>
      exact before.quiet quiet logged leaving last grows
  | farewell event logged leaving last named unpassed streams =>
      have said : goodbyes after.events =
          goodbyes core.events ++ [core.lastPeer] := by
        rw [logged, goodbyes, List.filterMap_append]
        simp [named, goodbyes]
      have exceeds : passedOvers after.events = passedOvers core.events := by
        rw [logged, passedOvers, List.filterMap_append]
        simp [unpassed, passedOvers]
      have standing : passedOvers core.events = [] →
          ∀ other ∈ goodbyes after.events, other = core.lastPeer := by
        rw [said]
        intro none other member
        rcases List.mem_append.mp member with earlier | now
        · exact before.standing none other earlier
        · exact List.mem_singleton.mp now
      refine ⟨fun _ => leaving, ?_, ?_, ?_, ?_, ?_⟩
      · rw [said, last]
        intro other member
        rcases List.mem_append.mp member with earlier | now
        · exact before.below other earlier
        · exact (List.mem_singleton.mp now).le
      · rw [exceeds, last]
        exact before.passed
      · rw [exceeds, last]
        exact standing
      · rw [logged, List.pairwise_append]
        refine ⟨before.late, List.pairwise_singleton _ _, ?_⟩
        intro earlier member later now id passes other names
        rw [List.mem_singleton.mp now, named] at names
        cases names
        exact before.passed id (List.mem_filterMap.mpr ⟨earlier, member, passes⟩)
      · intro final
        rw [logged] at final
        have none := passedOvers_eq_nil_of_final final named
        refine ⟨fun other member another also => ?_, ?_⟩
        · exact (standing none other member).trans
            (standing none another also).symm
        · rw [exceeds, none]
          exact fun _ _ _ absent => by cases absent
  | passes id logged left leaving above last =>
      have said : goodbyes after.events = goodbyes core.events := by
        rw [logged, goodbyes, List.filterMap_append]
        exact List.append_nil _
      have exceeds : passedOvers after.events = passedOvers core.events ++ [id] := by
        rw [logged, passedOvers, List.filterMap_append]
        rfl
      refine ⟨fun _ => leaving, ?_, ?_, ?_, ?_, ?_⟩
      · rw [said]
        exact fun other member => (before.below other member).trans grows
      · rw [exceeds]
        intro other member
        rcases List.mem_append.mp member with earlier | now
        · exact (before.passed other earlier).trans grows
        · rw [last]
          exact (List.mem_singleton.mp now).le
      · rw [exceeds]
        intro none
        simp at none
      · rw [logged, List.pairwise_append]
        refine ⟨before.late, List.pairwise_singleton _ _, ?_⟩
        intro earlier member later now other _ named names
        rw [List.mem_singleton.mp now] at names
        cases names
      · intro final
        rw [logged] at final
        obtain ⟨one, spares⟩ := before.final (List.pairwise_append.mp final).1
        rw [said, exceeds]
        refine ⟨one, fun other member stream passes => ?_⟩
        rcases List.mem_append.mp passes with earlier | now
        · exact spares other member stream earlier
        · rw [List.mem_singleton.mp now]
          exact (before.below other member).trans_lt above

/-- The `GOAWAY`s of a connection are honest exactly where none comes after a
block that was passed over. -/
theorem Farewells.honest_iff
    {core : Core}
    (farewells : Farewells core) :
    Honest core.events ↔ Final core.events := by
  constructor
  · intro honest
    refine farewells.late.imp_of_mem fun {earlier later} early tardy order => ?_
    intro passed
    by_contra named
    obtain ⟨id, passes⟩ := Option.ne_none_iff_exists'.mp passed
    obtain ⟨last, names⟩ := Option.ne_none_iff_exists'.mp named
    have least := order id passes last names
    have most := honest.spares last
      (List.mem_filterMap.mpr ⟨later, tardy, names⟩) id
      (List.mem_filterMap.mpr ⟨earlier, early, passes⟩)
    omega
  · intro final
    obtain ⟨one, spares⟩ := farewells.final final
    refine ⟨List.pairwise_of_forall_mem_list fun last member other also => ?_,
      spares⟩
    exact (one other also last member).le

/-- No record of a server's is above what any of its `GOAWAY`s named. -/
def Covered (core : Core) : Prop :=
  core.client = false → ∀ last ∈ goodbyes core.events,
    ∀ id stream, core.streams[id]? = some stream → id ≤ last

theorem Step.covered
    {core after : Core}
    (step : Step core after)
    (placed : Placed core)
    (before : Farewells core)
    (covered : Covered core) :
    Covered after := by
  intro server last named id stream found
  rw [step.client] at server
  have said : goodbyes after.events = goodbyes core.events ∨
      after.streams = core.streams ∧
        goodbyes after.events = goodbyes core.events ++ [core.lastPeer] := by
    cases step.parting placed with
    | quiet added quiet logged =>
        rw [logged]
        exact Or.inl (farewells_append_quiet quiet _)
    | farewell event logged leaving last named unpassed streams =>
        refine Or.inr ⟨streams, ?_⟩
        rw [logged, goodbyes, List.filterMap_append]
        simp [named, goodbyes]
    | passes id logged =>
        refine Or.inl ?_
        rw [logged, goodbyes, List.filterMap_append]
        exact List.append_nil _
  rcases said with same | ⟨streams, more⟩
  · rw [same] at named
    rcases step.present found with
      ⟨before, there⟩ | ⟨_, staying, _⟩
    · exact covered server last named id before there
    · have left := before.leaving (List.ne_nil_of_mem named)
      rw [staying] at left
      cases left
  · rw [streams] at found
    rw [more] at named
    rcases List.mem_append.mp named with earlier | now
    · exact covered server last earlier id stream found
    · rw [List.mem_singleton.mp now]
      exact placed.peers server id stream found

/-- What holds of the core of every connection, its farewells included. -/
structure Parted (core : Core) : Prop where
  sound : Sound core
  farewells : Farewells core
  covered : Covered core

theorem Turn.parted
    {core after : Core}
    (turn : Turn core after)
    (parted : Parted core) :
    Parted after := by
  have sound := turn.sound parted.sound
  cases turn with
  | step step =>
      exact ⟨sound, step.farewells parted.sound.placed parted.farewells,
        step.covered parted.sound.placed parted.farewells parted.covered⟩
  | taken thinned =>
      refine ⟨sound, ⟨parted.farewells.leaving, parted.farewells.below,
        parted.farewells.passed, parted.farewells.standing,
        parted.farewells.late, parted.farewells.final⟩, ?_⟩
      intro server last named id record found
      obtain ⟨whole, there, _⟩ := thinned id record found
      exact parted.covered server last named id whole there
  | opened asClient fresh =>
      refine ⟨sound, ⟨parted.farewells.leaving, parted.farewells.below,
        parted.farewells.passed, parted.farewells.standing,
        parted.farewells.late, parted.farewells.final⟩, fun server => ?_⟩
      exact absurd (asClient.symm.trans server) Bool.true_eq_false.mp

theorem Turns.parted
    {core after : Core}
    (turns : Turns core after)
    (parted : Parted core) :
    Parted after :=
  turns.invariant Turn.parted parted

end Core

namespace Connection

theorem parted_initial
    (wire : Wire)
    (client : Bool) :
    Core.Parted (initial wire client).core where
  sound := sound_initial wire client
  farewells :=
    { leaving := fun some => absurd rfl some
      below := fun _ member => by cases member
      passed := fun _ member => by cases member
      standing := fun _ _ member => by cases member
      late := List.Pairwise.nil
      final := fun _ => ⟨fun _ member => (by cases member),
        fun _ member => (by cases member)⟩ }
  covered _ _ member := by cases member

end Connection
end Http2
end XmipNet
