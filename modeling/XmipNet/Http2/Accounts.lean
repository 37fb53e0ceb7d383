import XmipNet.Http2.Course

/-!
# Every octet received is given back

The peer may send what the windows allow, and every `DATA` is given back to them
as it is taken: between two frames the connection's window stands where it
started, and so does that of every stream the peer may still send on. What was
given back is read off the events, as the peer reads it off the frames.
-/

namespace XmipNet
namespace Http2

open Hpack (Field)

namespace Frame

/-- The octets a `WINDOW_UPDATE` gives back. -/
def increment (frame : Frame) : Nat :=
  (frame.word 0).getD 0 &&& maxStreamId

theorem increment_windowUpdate
    (stream : Nat)
    {octets : Nat}
    (bounded : octets ≤ maxStreamId) :
    (windowUpdate stream octets).increment = octets := by
  have mask : maxStreamId = 2 ^ 31 - 1 := rfl
  have same : octets &&& maxStreamId = octets := by
    rw [mask, Nat.and_two_pow_sub_one_of_lt_two_pow]
    omega
  have fits : octets < 256 ^ 4 := by omega
  have payload : (windowUpdate stream octets).payload =
      BigEndian.write 4 octets := congrArg (BigEndian.write 4) same
  have length := BigEndian.length_write 4 octets
  have word : (windowUpdate stream octets).word 0 = some octets := by
    rw [Frame.word, payload, length, if_pos (le_refl _), List.drop_zero,
      List.take_of_length_le length.le, BigEndian.read_write_of_lt fits]
  rw [increment, word, Option.getD_some, same]

end Frame

namespace Event

/-- The octets a frame of the peer's takes from the connection's window. -/
def octets : Event → Nat
  | received frame => if frame.kind = .data then frame.payload.length else 0
  | _ => 0

/-- The octets a frame of the peer's takes from the window of `id`. -/
def octetsOn (id : Nat) : Event → Nat
  | received frame =>
      if frame.kind = .data ∧ frame.stream = id then frame.payload.length else 0
  | _ => 0

/-- The octets a frame of this side's gives back to `id`, 0 for the
connection. -/
def regained (id : Nat) : Event → Nat
  | emitted frame =>
      if frame.kind = .windowUpdate ∧ frame.stream = id then
        frame.increment
      else
        0
  | _ => 0

/-- What the events weigh together. -/
def total (weigh : Event → Nat) (events : List Event) : Nat :=
  (events.map weigh).sum

@[simp] theorem total_append
    (weigh : Event → Nat)
    (events : List Event)
    (event : Event) :
    total weigh (events ++ [event]) = total weigh events + weigh event := by
  simp [total]

/-- An event that neither takes from a window of this side's nor gives back. -/
structure Weightless (event : Event) : Prop where
  octets : event.octets = 0
  octetsOn : ∀ id, event.octetsOn id = 0
  regained : ∀ id, event.regained id = 0

theorem weightless_received
    {frame : Frame}
    (kind : frame.kind ≠ .data) :
    Weightless (received frame) where
  octets := if_neg kind
  octetsOn _ := if_neg fun both => kind both.1
  regained _ := rfl

theorem weightless_emitted
    {frame : Frame}
    (kind : frame.kind ≠ .windowUpdate) :
    Weightless (emitted frame) where
  octets := rfl
  octetsOn _ := rfl
  regained _ := if_neg fun both => kind both.1

theorem weightless_passedOver (id : Nat) : Weightless (passedOver id) where
  octets := rfl
  octetsOn _ := rfl
  regained _ := rfl

theorem weightless_reset
    (id : Nat)
    (code : ErrorCode) :
    Weightless (emitted (.reset id code)) :=
  weightless_emitted Kind.noConfusion

end Event

namespace Core

open Event (total Weightless)

/-! ## Records with no more to give back -/

/-- A record that holds no more than another and is open to the peer only where
the other is, with the same window. -/
structure Lesser (stream whole : Stream) : Prop where
  body : stream.body.length ≤ whole.body.length
  window : stream.reset = none → stream.state.receiving = true →
    whole.reset = none ∧ whole.state.receiving = true ∧
      stream.receive = whole.receive

/-- A table of no more records, none with more to give back. -/
def Lessened (streams lessened : Streams) : Prop :=
  ∀ (id : Nat) stream, lessened[id]? = some stream →
    ∃ whole, streams[id]? = some whole ∧ Lesser stream whole

theorem lesser_refl (stream : Stream) : Lesser stream stream :=
  ⟨le_refl _, fun live receiving => ⟨live, receiving, rfl⟩⟩

theorem lessened_modify
    (streams : Streams)
    (id : Nat)
    {change : Stream → Stream}
    (lesser : ∀ stream, Lesser (change stream) stream) :
    Lessened streams (streams.modify id change) := by
  intro other stream found
  rw [NatMap.getElem?_modify] at found
  split at found
  next same =>
    cases same
    obtain ⟨whole, there, rfl⟩ := Option.map_eq_some_iff.mp found
    exact ⟨whole, there, lesser whole⟩
  · exact ⟨stream, found, lesser_refl stream⟩

theorem lessened_markReset
    (core : Core)
    (id : Nat)
    (code : ErrorCode) :
    Lessened core.streams (core.markReset id code).streams :=
  lessened_modify core.streams id fun _ => ⟨le_refl _, fun live => by cases live⟩

theorem lesser_endedLocally (stream : Stream) :
    Lesser { stream with state := stream.state.endedLocally } stream :=
  ⟨le_refl _, fun live receiving =>
    ⟨live, State.receiving_endedLocally _ receiving, rfl⟩⟩

theorem lessened_of_sameButSend
    {streams others : Streams}
    (same : SameButSend streams others) :
    Lessened streams others := by
  intro id stream found
  have equal := same id
  rw [found, Option.map_some, Option.map_eq_some_iff] at equal
  obtain ⟨whole, there, alike⟩ := equal
  simp only [unsent, Stream.mk.injEq] at alike
  obtain ⟨state, _, receive, _, body, _, reset⟩ := alike
  refine ⟨whole, there, body ▸ le_refl _, fun live receiving => ?_⟩
  exact ⟨reset.trans live, state ▸ receiving, receive.symm⟩

theorem lessened_passedOver
    (streams : Streams)
    (client : Bool)
    (last : Nat) :
    Lessened streams (streams.map (Connection.passedOverBy client last)) := by
  intro id stream found
  rw [NatMap.getElem?_map] at found
  obtain ⟨whole, there, rfl⟩ := Option.map_eq_some_iff.mp found
  refine ⟨whole, there, ?_⟩
  rw [Connection.passedOverBy]
  split
  · exact ⟨le_refl _, fun live => by cases live⟩
  · exact lesser_refl whole

theorem lessened_erase
    (streams : Streams)
    (id : Nat) :
    Lessened streams (streams.erase id) := by
  intro other stream found
  rw [NatMap.getElem?_erase] at found
  split at found
  · cases found
  · exact ⟨stream, found, lesser_refl stream⟩

/-- One record written that holds no more than it did. -/
theorem lessened_sets
    {streams changed : Streams}
    {id : Nat}
    {stream whole : Stream}
    (found : streams[id]? = some whole)
    (lesser : Lesser stream whole)
    (sets : Sets streams id stream changed) :
    Lessened streams changed := by
  intro other record there
  rw [sets other] at there
  split at there
  next same =>
    cases same
    cases there
    exact ⟨whole, found, lesser⟩
  · exact ⟨record, there, lesser_refl record⟩

/-! ## The accounts of a connection -/

/-- What holds of the record of `id`: its body is no longer than is read, and
where the peer may still send on it, its window stands where it started and what
was taken on it was given back. -/
structure Kept (events : List Event) (id : Nat) (stream : Stream) : Prop where
  positive : 0 < id
  body : stream.body.length ≤ maxBody
  window : stream.reset = none → stream.state.receiving = true →
    stream.receive.value = defaultWindow ∧
      total (Event.regained id) events = total (Event.octetsOn id) events

/-- The accounts of a connection between two frames. -/
structure Accounts (core : Core) : Prop where
  ours : core.localSettings = .ours
  reach : core.client = false → core.highest ≤ core.lastPeer
  receive : core.receive.value = defaultWindow
  regained : total (Event.regained 0) core.events =
    total Event.octets core.events
  untouched : ∀ id, core.highest < id →
    total (Event.octetsOn id) core.events = 0 ∧
      total (Event.regained id) core.events = 0
  records : ∀ id stream, core.streams[id]? = some stream →
    Kept core.events id stream
  pending : ∀ waiting, core.continuing = some waiting →
    waiting.block.length ≤ maxBlock

theorem Kept.lesser
    {events : List Event}
    {id : Nat}
    {stream whole : Stream}
    (kept : Kept events id whole)
    (lesser : Lesser stream whole) :
    Kept events id stream where
  positive := kept.positive
  body := lesser.body.trans kept.body
  window live receiving := by
    obtain ⟨alive, receives, same⟩ := lesser.window live receiving
    rw [same]
    exact kept.window alive receives

theorem Kept.log
    {events : List Event}
    {id : Nat}
    {stream : Stream}
    (kept : Kept events id stream)
    {event : Event}
    (weightless : Weightless event) :
    Kept (events ++ [event]) id stream where
  positive := kept.positive
  body := kept.body
  window live receiving := by
    rw [Event.total_append, Event.total_append, weightless.regained,
      weightless.octetsOn]
    exact kept.window live receiving

/-- An event that takes nothing and gives nothing back leaves the accounts. -/
theorem Accounts.log
    {core : Core}
    (accounts : Accounts core)
    {event : Event}
    (weightless : Weightless event) :
    Accounts (core.log event) where
  ours := accounts.ours
  reach := accounts.reach
  receive := accounts.receive
  regained := by
    simp only [Core.log, Event.total_append, weightless.regained,
      weightless.octets]
    exact accounts.regained
  untouched id above := by
    simp only [Core.log, Event.total_append, weightless.regained,
      weightless.octetsOn]
    exact accounts.untouched id above
  records id stream found := (accounts.records id stream found).log weightless
  pending := accounts.pending

/-- Records that hold no more leave the accounts. -/
theorem Accounts.lessen
    {core : Core}
    (accounts : Accounts core)
    {streams : Streams}
    (lessened : Lessened core.streams streams) :
    Accounts { core with streams := streams } :=
  { accounts with
    records := fun id stream found => by
      obtain ⟨whole, there, lesser⟩ := lessened id stream found
      exact (accounts.records id whole there).lesser lesser }

theorem Accounts.spoil
    {core : Core}
    (accounts : Accounts core)
    (id : Nat)
    (code : ErrorCode) :
    Accounts (core.spoil id code) :=
  (accounts.lessen (lessened_markReset core id code)).log
    (Event.weightless_reset id code)

theorem lesser_of_headers
    {stream changed : Stream}
    {fields : List Field}
    {ends : Bool}
    (heads : stream.headers fields ends = .ok changed) :
    Lesser changed stream := by
  obtain ⟨receiving, _, kept⟩ := Stream.headers_eq_ok heads
  rw [kept]
  exact ⟨le_refl _, fun live _ => ⟨live, receiving, rfl⟩⟩

/-- A stream the peer opens, or is told it has opened too many, moves how far
streams have been opened. -/
theorem Accounts.reaches
    {core : Core}
    (accounts : Accounts core)
    {id : Nat}
    (opens : Opens core id) :
    Accounts (core.reach id) :=
  { accounts with
    reach := fun server => by
      have below := accounts.reach server
      have above := opens.above
      exact max_le (below.trans above.le) (le_refl id)
    untouched := fun other above =>
      accounts.untouched other ((le_max_left _ _).trans_lt above) }

/-- A stream nobody has opened yet gets a record with the window this side
announced. -/
theorem Accounts.opens
    {core : Core}
    (accounts : Accounts core)
    {id : Nat}
    (fresh : core.highest < id)
    {stream : Stream}
    (body : stream.body = [])
    (receive : stream.receive.value = core.localSettings.initialWindowSize)
    {streams : Streams}
    (sets : Sets core.streams id stream streams) :
    Accounts { core with streams := streams } :=
  { accounts with
    records := fun other record there => by
      rw [sets other] at there
      split at there
      next same =>
        cases same
        cases there
        obtain ⟨taken, regained⟩ := accounts.untouched id fresh
        refine ⟨Nat.zero_lt_of_lt fresh, ?_, fun _ _ => ⟨?_, ?_⟩⟩
        · rw [body]
          exact Nat.zero_le _
        · rw [receive, accounts.ours]
          rfl
        · rw [taken, regained]
      · exact accounts.records other record there }

/-! ## A `DATA` -/

/-- The accounts but for the record of `id`. -/
structure Others (core : Core) (id : Nat) : Prop where
  ours : core.localSettings = .ours
  reach : core.client = false → core.highest ≤ core.lastPeer
  receive : core.receive.value = defaultWindow
  regained : total (Event.regained 0) core.events =
    total Event.octets core.events
  untouched : ∀ other, core.highest < other →
    total (Event.octetsOn other) core.events = 0 ∧
      total (Event.regained other) core.events = 0
  records : ∀ other stream, other ≠ id → core.streams[other]? = some stream →
    Kept core.events other stream
  pending : ∀ waiting, core.continuing = some waiting →
    waiting.block.length ≤ maxBlock

theorem Others.accounts
    {core : Core}
    {id : Nat}
    (others : Others core id)
    (own : ∀ stream, core.streams[id]? = some stream →
      Kept core.events id stream) :
    Accounts core :=
  { others with
    records := fun other stream found => by
      by_cases same : other = id
      · cases same
        exact own stream found
      · exact others.records other stream same found }

/-- The record of `id` may be written as it may. -/
theorem Others.write
    {core : Core}
    {id : Nat}
    (others : Others core id)
    {streams : Streams}
    (same : ∀ other, other ≠ id → streams[other]? = core.streams[other]?) :
    Others { core with streams := streams } id :=
  { others with
    records := fun other stream different found =>
      others.records other stream different (same other different ▸ found) }

/-- The stream is ended, and its record with it. -/
theorem Others.spoil
    {core : Core}
    {id : Nat}
    (others : Others core id)
    (own : ∀ stream, core.streams[id]? = some stream →
      0 < id ∧ stream.body.length ≤ maxBody)
    (code : ErrorCode) :
    Accounts (core.spoil id code) := by
  have marked : Others (core.markReset id code) id := by
    refine others.write fun other different => ?_
    rw [NatMap.getElem?_modify, if_neg (Ne.symm different)]
  refine Accounts.log (marked.accounts fun stream found => ?_)
    (Event.weightless_reset id code)
  have there : (core.streams.modify id _)[id]? = some stream := found
  rw [NatMap.getElem?_modify, if_pos rfl] at there
  obtain ⟨whole, before, rfl⟩ := Option.map_eq_some_iff.mp there
  obtain ⟨positive, body⟩ := own whole before
  exact ⟨positive, body, fun live => by cases live⟩

/-- A length read under a frame size this side may announce is given back
whole. -/
theorem incrementOf_of_le
    {length : Nat}
    (sized : length ≤ maxFrameSizeLimit) :
    Connection.incrementOf length = length := by
  rw [Connection.incrementOf, if_pos]
  exact sized.trans_lt (by decide)

theorem increment_giveBack
    (id : Nat)
    {length : Nat}
    (sized : length ≤ maxFrameSizeLimit) :
    (Frame.windowUpdate id (Connection.incrementOf length)).increment =
      length := by
  rw [incrementOf_of_le sized, Frame.increment_windowUpdate]
  exact sized.trans (by decide)

theorem regained_giveBack
    (id other : Nat)
    {length : Nat}
    (sized : length ≤ maxFrameSizeLimit) :
    Event.regained other
        (.emitted (.windowUpdate id (Connection.incrementOf length))) =
      if id = other then length else 0 := by
  simp only [Event.regained, increment_giveBack id sized]
  exact if_congr (and_iff_right rfl) rfl rfl

/-- Giving octets back to the connection's window changes that window and the
events alone. -/
theorem regain_eq
    (core : Core)
    (length : Nat) :
    core.regain length =
      { core with
        receive := (core.regain length).receive
        events := (core.regain length).events } := by
  rw [regain]
  split
  · rfl
  · rfl

theorem receive_regain
    (core : Core)
    {length : Nat}
    (sized : length ≤ maxFrameSizeLimit) :
    (core.regain length).receive.value = core.receive.value := by
  rw [regain]
  split
  · simp only [incrementOf_of_le sized]
    omega
  · rfl

theorem total_regain
    (core : Core)
    {length : Nat}
    (sized : length ≤ maxFrameSizeLimit)
    (id : Nat) :
    total Event.octets (core.regain length).events =
        total Event.octets core.events ∧
      total (Event.octetsOn id) (core.regain length).events =
        total (Event.octetsOn id) core.events ∧
      total (Event.regained id) (core.regain length).events =
        total (Event.regained id) core.events +
          (if 0 = id then length else 0) := by
  rw [regain]
  split
  next positive =>
    refine ⟨?_, ?_, ?_⟩
    · rw [Core.log, Event.total_append]
      rfl
    · rw [Core.log, Event.total_append]
      rfl
    · rw [Core.log, Event.total_append, regained_giveBack 0 id sized]
  next none =>
    have zero : length = 0 := Nat.eq_zero_of_not_pos none
    rw [zero, ite_self]
    exact ⟨rfl, rfl, rfl⟩

/-- What a `DATA` and its octets given back to the connection add to the
accounts. -/
theorem total_taken
    (core : Core)
    {frame : Frame}
    (kind : frame.kind = .data)
    (sized : frame.payload.length ≤ maxFrameSizeLimit)
    (id : Nat) :
    let after := (core.log (.received frame)).regain frame.payload.length
    total Event.octets after.events =
        total Event.octets core.events + frame.payload.length ∧
      total (Event.octetsOn id) after.events =
        total (Event.octetsOn id) core.events +
          (if frame.stream = id then frame.payload.length else 0) ∧
      total (Event.regained id) after.events =
        total (Event.regained id) core.events +
          (if 0 = id then frame.payload.length else 0) := by
  obtain ⟨octets, octetsOn, regained⟩ :=
    total_regain (core.log (.received frame)) sized id
  have taken : Event.octets (.received frame) = frame.payload.length :=
    if_pos kind
  have takenOn : Event.octetsOn id (.received frame) =
      if frame.stream = id then frame.payload.length else 0 :=
    if_congr (and_iff_right kind) rfl rfl
  refine ⟨octets.trans ?_, octetsOn.trans ?_, regained.trans ?_⟩
  · rw [Core.log, Event.total_append, taken]
  · rw [Core.log, Event.total_append, takenOn]
  · rw [Core.log, Event.total_append]
    rfl

/-- What a `DATA` took from the connection's window is given back to it, and is
on the account of its stream alone. -/
theorem Accounts.regains
    {core : Core}
    (accounts : Accounts core)
    {frame : Frame}
    (kind : frame.kind = .data)
    (sized : frame.payload.length ≤ maxFrameSizeLimit)
    (opened : frame.stream ≤ core.highest) :
    Others ((core.log (.received frame)).regain frame.payload.length)
      frame.stream := by
  have totals := total_taken core kind sized
  have receive := receive_regain (core.log (.received frame)) sized
  rw [regain_eq] at totals receive ⊢
  refine
    { ours := accounts.ours
      reach := accounts.reach
      receive := receive.trans accounts.receive
      regained := ?_
      untouched := fun other above => ?_
      records := fun other stream different found => ?_
      pending := accounts.pending }
  · obtain ⟨octets, _, regained⟩ := totals 0
    rw [regained, octets, if_pos rfl, accounts.regained]
  · obtain ⟨_, octetsOn, regained⟩ := totals other
    have elsewhere : frame.stream ≠ other := by
      rintro rfl
      exact absurd opened (not_le.mpr above)
    rw [octetsOn, regained, if_neg elsewhere,
      if_neg (Nat.zero_lt_of_lt above).ne]
    exact accounts.untouched other above
  · have kept := accounts.records other stream found
    obtain ⟨_, octetsOn, regained⟩ := totals other
    refine ⟨kept.positive, kept.body, fun live receiving => ?_⟩
    rw [octetsOn, regained, if_neg (Ne.symm different), if_neg kept.positive.ne]
    exact kept.window live receiving

/-- Octets given back to a stream are on the account of that stream alone. -/
theorem Others.giveBack
    {core : Core}
    {id : Nat}
    (others : Others core id)
    (positive : 0 < id)
    (opened : id ≤ core.highest)
    {length : Nat}
    (sized : length ≤ maxFrameSizeLimit) :
    Others (core.log
      (.emitted (.windowUpdate id (Connection.incrementOf length)))) id := by
  have given (other : Nat) (different : id ≠ other) :
      Event.regained other
        (.emitted (.windowUpdate id (Connection.incrementOf length))) = 0 := by
    rw [regained_giveBack id other sized, if_neg different]
  refine { others with regained := ?_, untouched := ?_, records := ?_ }
  · rw [Core.log, Event.total_append, Event.total_append,
      given 0 positive.ne', others.regained]
    rfl
  · intro other above
    rw [Core.log, Event.total_append, Event.total_append,
      given other (opened.trans_lt above).ne]
    exact others.untouched other above
  · intro other stream different found
    have kept := others.records other stream different found
    refine ⟨kept.positive, kept.body, fun live receiving => ?_⟩
    rw [Core.log, Event.total_append, Event.total_append,
      given other (Ne.symm different)]
    exact kept.window live receiving

/-- A `DATA` leaves the accounts whole, whatever becomes of it. -/
theorem Accounts.extends
    {core after : Core}
    (accounts : Accounts core)
    {frame : Frame}
    (kind : frame.kind = .data)
    (sized : frame.payload.length ≤ maxFrameSizeLimit)
    (opened : frame.stream ≤ core.highest)
    (carries : Extends frame
      ((core.log (.received frame)).regain frame.payload.length) after) :
    Accounts after := by
  have others := accounts.regains kind sized opened
  obtain ⟨_, octetsOn, regained⟩ := total_taken core kind sized frame.stream
  have same := regain_eq (core.log (.received frame)) frame.payload.length
  generalize (core.log (.received frame)).regain frame.payload.length = middle
    at others octetsOn regained same carries
  have streams : middle.streams = core.streams := by rw [same]; rfl
  have own (stream : Stream)
      (found : middle.streams[frame.stream]? = some stream) :
      Kept core.events frame.stream stream :=
    accounts.records _ stream (streams ▸ found)
  cases carries with
  | @letGo stream found dead =>
      refine others.accounts fun record there => ?_
      have kept := own record there
      refine ⟨kept.positive, kept.body, fun live => ?_⟩
      rw [found] at there
      cases there
      rw [live] at dead
      cases dead
  | spoiled code shut =>
      exact others.spoil (fun stream found =>
        ⟨(own stream found).positive, (own stream found).body⟩) code
  | @overBody stream content streams accepts exceeds sets =>
      refine (others.write sets.others).spoil (fun record there => ?_) .cancel
      cases sets.own.symm.trans there
      exact ⟨(own stream accepts.found).positive,
        (own stream accepts.found).body⟩
  | @ended stream content streams accepts within ends sets =>
      refine (others.write sets.others).accounts fun record there => ?_
      cases sets.own.symm.trans there
      refine ⟨(own stream accepts.found).positive, ?_, fun _ receiving => ?_⟩
      · exact (List.length_append ▸ within :)
      · rw [State.receiving_endedRemotely] at receiving
        cases receiving
  | @grown stream content streams accepts within stays positive sets =>
      have kept := own stream accepts.found
      have highest : frame.stream ≤ middle.highest := by rw [same]; exact opened
      have given := (others.write sets.others).giveBack kept.positive highest
        sized
      refine given.accounts fun record there => ?_
      cases sets.own.symm.trans there
      refine ⟨kept.positive, List.length_append ▸ within,
        fun live receiving => ?_⟩
      obtain ⟨value, equal⟩ := kept.window live receiving
      constructor
      · simp only [incrementOf_of_le sized, value]
        omega
      · rw [Core.log, Event.total_append, Event.total_append,
          regained_giveBack _ _ sized, if_pos rfl]
        simp only [octetsOn, regained, equal, if_pos, if_neg kept.positive.ne]
        rfl
  | @empty stream content streams accepts within stays none sets =>
      refine (others.write sets.others).accounts fun record there => ?_
      cases sets.own.symm.trans there
      have kept := own stream accepts.found
      refine ⟨kept.positive, List.length_append ▸ within,
        fun live receiving => ?_⟩
      obtain ⟨value, equal⟩ := kept.window live receiving
      refine ⟨value, ?_⟩
      simp only [octetsOn, regained, equal, none, ite_self]

/-! ## The other frames -/

/-- A header block leaves the accounts whole, whatever becomes of it. -/
theorem Accounts.heads
    {core after : Core}
    (accounts : Accounts core)
    {id : Nat}
    {fields : List Field}
    {ends : Bool}
    (heads : Heads id fields ends core after) :
    Accounts after := by
  cases heads with
  | malformed violation fails => exact accounts.spoil id violation.code
  | letGo checks found dead => exact accounts
  | headed checks found live heads =>
      exact accounts.lessen (lessened_sets found (lesser_of_headers heads)
        (sets_insert _ _ _))
  | unheaded checks found live violation fails =>
      exact accounts.spoil id violation.code
  | @opened changed streams checks opens staying fits heads sets =>
      obtain ⟨_, _, kept⟩ := Stream.headers_eq_ok heads
      have fresh := (accounts.reach opens.server).trans_lt opens.above
      have given : Accounts { core with streams := streams } :=
        accounts.opens fresh (by rw [kept]; rfl) (by rw [kept]; rfl) sets
      exact
        { given with
          reach := (accounts.reaches opens).reach
          untouched := (accounts.reaches opens).untouched }
  | passedOver checks opens leaving =>
      exact (accounts.reaches opens).log (Event.weightless_passedOver id)
  | refused checks opens staying full =>
      exact (accounts.reaches opens).spoil id .refusedStream

/-- Taking a frame leaves the accounts whole. -/
theorem Accounts.took
    {sight after : Sight}
    (accounts : Accounts sight.core)
    {frame : Frame}
    (sized : frame.payload.length ≤ maxFrameSizeLimit)
    (took : Took frame (sight.log (.received frame)) after) :
    Accounts after.core := by
  have logged (kind : frame.kind ≠ .data) :
      Accounts (sight.core.log (.received frame)) :=
    accounts.log (Event.weightless_received kind)
  have blocks {block : Nat × List UInt8 × Bool}
      (assembles : (sight.core.log (.received frame)).assembled frame =
        some block) :
      Accounts (sight.core.log (.received frame)) := by
    rcases kind_of_assembled assembles with kind | kind
    · exact logged (by rw [kind]; decide)
    · exact logged (by rw [kind]; decide)
  cases took with
  | data kind unbroken room opened carries =>
      exact accounts.extends kind sized opened carries
  | waiting assembles onward short =>
      exact { blocks assembles with pending := by rintro _ ⟨⟩; exact short }
  | decoded assembles whole decodes heads =>
      have whole : Accounts
          { sight.core.log (.received frame) with continuing := none } :=
        { blocks assembles with pending := fun _ waits => by cases waits }
      exact whole.heads heads
  | unheard kind =>
      refine logged fun data => ?_
      rw [data] at kind
      simp at kind
  | spoiled code kind =>
      refine Accounts.spoil (logged fun data => ?_) frame.stream code
      rw [data] at kind
      simp at kind
  | reset code kind opened =>
      exact (logged (by rw [kind]; decide)).lessen
        (lessened_markReset _ frame.stream code)
  | settings kind same =>
      have given := (logged (by rw [kind]; decide)).lessen
        (lessened_of_sameButSend same)
      have seen : Event.Weightless (.emitted ⟨.settings, ack, 0, []⟩) :=
        Event.weightless_emitted Kind.noConfusion
      exact { given.log seen with }
  | pinged kind asks =>
      exact (logged (by rw [kind]; decide)).log
        (Event.weightless_emitted Kind.noConfusion)
  | ponged kind acknowledges => exact logged (by rw [kind]; decide)
  | @wentAway last code kind word =>
      have given := (logged (by rw [kind]; decide)).lessen
        (lessened_passedOver _ sight.core.client (last &&& maxStreamId))
      exact { given with }
  | granted kind same =>
      have given := (logged (by rw [kind]; decide)).lessen
        (lessened_of_sameButSend same)
      exact { given with }

end Core

namespace Connection

open Core
open Event (total)

/-! ## Whole runs -/

theorem accounts_initial
    (wire : Wire)
    (client : Bool) :
    Accounts (initial wire client).core where
  ours := rfl
  reach _ := le_refl _
  receive := rfl
  regained := rfl
  untouched _ _ := ⟨rfl, rfl⟩
  records id stream found := by
    rw [show (initial wire client).core.streams[id]? = none from
      NatMap.getElem?_empty id] at found
    cases found
  pending _ waits := by cases waits

/-- A beat that does not end the connection over a breach leaves the accounts
whole. -/
theorem accounts_beat
    {connection after : Connection}
    (accounts : Accounts connection.core)
    (waits : Waits connection.core)
    (beat : Beat connection after)
    (unbreached : Event.Unbreached after.events) :
    Accounts after.core := by
  cases beat with
  | aside same =>
      have cores : after.core = connection.core := congrArg Sight.core same
      rw [cores]
      exact accounts
  | pumped =>
      rcases took_of_pump waits unbreached with same | ⟨frame, _, sized, took⟩
      · have cores := congrArg Sight.core same
        rw [show (pump connection).2.core = connection.core from cores]
        exact accounts
      · have ours : connection.localSettings = .ours := accounts.ours
        rw [ours] at sized
        have kept : Accounts connection.sight.core := accounts
        exact kept.took (sized.trans (by decide)) took
  | emitted plain own =>
      rw [core_emit]
      exact accounts.log (Event.weightless_emitted own)
  | @sent id stream frame piece bytes =>
      have kind := piece.kind
      have same := sameButSend_insert piece.found
        { value := stream.send.value - frame.payload.length }
      have given := (accounts.lessen (lessened_of_sameButSend same)).log
        (Event.weightless_emitted (by rw [kind]; decide))
      exact { given with }
  | endedLocally unended =>
      exact accounts.lessen (lessened_modify _ _ lesser_endedLocally)
  | ended id seen refuses =>
      rw [core_reset]
      exact accounts.spoil id _
  | leaving code debug =>
      rw [core_goAway]
      have said : Event.Weightless (.emitted
          (.goaway connection.lastPeer code (Text.octets debug))) :=
        Event.weightless_emitted Kind.noConfusion
      exact { accounts.log said with }

theorem accounts_stride
    {connection after : Connection}
    (accounts : Accounts connection.core)
    (sound : Sound connection.core)
    (stride : Stride connection after)
    (unbreached : Event.Unbreached after.events) :
    Accounts after.core := by
  cases stride with
  | beat beat => exact accounts_beat accounts sound.waits beat unbreached
  | @emptied id stream found done =>
      have lesser : Lesser (untaken stream) stream :=
        ⟨Nat.zero_le _, fun live receiving => ⟨live, receiving, rfl⟩⟩
      exact accounts.lessen (lessened_sets found lesser (sets_insert _ _ _))
  | removed id => exact accounts.lessen (lessened_erase _ id)
  | @opened id asClient fresh =>
      have sets := sets_insertIfNew (sound.placed.absent_of_fresh fresh)
        (.new connection.remoteSettings.initialWindowSize
          connection.localSettings.initialWindowSize)
      have given := accounts.opens fresh rfl rfl sets
      exact
        { given with
          reach := fun server => by cases asClient.symm.trans server
          untouched := fun other above =>
            accounts.untouched other ((le_max_left _ _).trans_lt above) }

theorem Reached.accounts
    {client : Bool}
    {connection : Connection}
    (reached : Reached client connection)
    (unbreached : Event.Unbreached connection.events) :
    Accounts connection.core :=
  Reached.invariant (motive := fun connection => Accounts connection.core)
    (fun wire => accounts_initial wire client)
    (fun reached stride unbreached accounts =>
      accounts_stride accounts reached.sound stride unbreached)
    reached unbreached

/-- Every octet received has been given back. The payload of every `DATA` on a
stream the peer may still send on was accepted on it: one that is not ends the
stream. What the windows hold is enough for any frame that is read. -/
structure Balanced (connection : Connection) : Prop where
  receive : connection.receive.value = defaultWindow
  regained : total (Event.regained 0) connection.events =
    total Event.octets connection.events
  streams : ∀ (id : Nat) stream, connection.streams[id]? = some stream →
    stream.reset = none → stream.state.receiving = true →
      stream.receive.value = connection.localSettings.initialWindowSize ∧
        total (Event.regained id) connection.events =
          total (Event.octetsOn id) connection.events
  bodies : ∀ (id : Nat) stream, connection.streams[id]? = some stream →
    stream.body.length ≤ maxBody
  pending : ∀ waiting, connection.continuing = some waiting →
    waiting.block.length ≤ maxBlock
  takes : ∀ length, length ≤ connection.localSettings.maxFrameSize →
    ∃ taken, connection.receive.take length = .ok taken ∧
      (0 < length →
        taken.grant (incrementOf length) = .ok connection.receive)
  grants : ∀ (id : Nat) stream, connection.streams[id]? = some stream →
    stream.reset = none → stream.state.receiving = true →
      ∀ length, length ≤ connection.localSettings.maxFrameSize →
        ∃ taken, stream.receive.take length = .ok taken ∧
          (0 < length → taken.grant (incrementOf length) = .ok stream.receive)

/-- A window at its first size takes any frame and has it given back. -/
theorem exists_take
    {window : Window}
    (value : window.value = defaultWindow)
    {length : Nat}
    (sized : length ≤ Settings.ours.maxFrameSize) :
    ∃ taken, window.take length = .ok taken ∧
      (0 < length → taken.grant (incrementOf length) = .ok window) := by
  have small : length ≤ 16384 := sized
  have wide : window.value = 65535 := value
  have whole : incrementOf length = length :=
    incrementOf_of_le (small.trans (by decide))
  have most : maxStreamId = 0x7fffffff := rfl
  refine ⟨{ value := window.value - length }, ?_, fun positive => ?_⟩
  · rw [Window.take_eq_ok_iff]
    exact ⟨by omega, rfl⟩
  · rw [whole, Window.grant_eq_ok_iff]
    refine ⟨positive, ?_, ?_⟩
    · simp only [wide, most]
      omega
    · simp only
      omega

/-- Wherever a run has come without a breach of the connection, every octet
received has been given back. -/
theorem Reached.balanced
    {client : Bool}
    {connection : Connection}
    (reached : Reached client connection)
    (unbreached : Event.Unbreached connection.events) :
    Balanced connection := by
  have accounts := reached.accounts unbreached
  have ours : connection.localSettings = .ours := accounts.ours
  have window : Settings.ours.initialWindowSize = defaultWindow := rfl
  refine
    { receive := accounts.receive
      regained := accounts.regained
      streams := fun id stream found live receiving => ?_
      bodies := fun id stream found => (accounts.records id stream found).body
      pending := accounts.pending
      takes := fun length sized => ?_
      grants := fun id stream found live receiving length sized => ?_ }
  · rw [ours, window]
    exact (accounts.records id stream found).window live receiving
  · rw [ours] at sized
    exact exists_take accounts.receive sized
  · rw [ours] at sized
    obtain ⟨value, _⟩ := (accounts.records id stream found).window live receiving
    exact exists_take value sized

end Connection

namespace Server

open Connection

/-- A client that opens a stream and sends padded octets on it. -/
def paddedWire : Wire where
  incoming := [.octets (preface ++
    (⟨.settings, 0, 0, []⟩ : Frame).encode ++
    (⟨.headers, endHeaders, 1, [0x82, 0x86, 0x84]⟩ : Frame).encode ++
    (⟨.data, padded, 1, [2, 7, 0, 0]⟩ : Frame).encode)]
  accepts := []
  written := []

/-- The octets of a padded frame are given back, the padding too. -/
theorem balanced_of_padded :
    ∃ server, handshake paddedWire = .ok server ∧
      let now := (run .bare server
        [.readFrame, .readFrame, .readFrame]).2.connection
      Event.total Event.octets now.events = 4 ∧
        now.streams[1]?.map Stream.body = some [7] ∧ Balanced now := by
  obtain ⟨server, opens, checked⟩ := exists_of_handshake
    (show (handshake paddedWire).toOption.map (fun server =>
      let now := (run .bare server
        [.readFrame, .readFrame, .readFrame]).2.connection
      decide (Event.total Event.octets now.events = 4 ∧
        now.streams[1]?.map Stream.body = some [7] ∧
        Event.Unbreached now.events)) = some true by decide +kernel)
  obtain ⟨taken, body, unbreached⟩ := of_decide_eq_true checked
  exact ⟨server, opens, taken, body,
    (reached_run .bare opens _).balanced unbreached⟩

end Server
end Http2
end XmipNet
