import XmipNet.Http2.Receive

/-!
# What handling a frame leaves as it was

Handling a frame reads nothing more off the connection underneath, and neither
half ever changes which side it is or what it announced. What is left to read
therefore shrinks with every frame read, which is why the loops that read until
something happens end.
-/

namespace XmipNet

namespace Wire

/-- What one arrival costs to read: the read, and one for every octet. -/
def costOf : Arrival → Nat
  | .octets bytes => bytes.length + 1
  | .failed _ => 1

/-- How much a list of arrivals leaves to read. -/
def left (incoming : List Arrival) : Nat :=
  (incoming.map costOf).sum

/-- How much there is left to read. -/
def remaining (wire : Wire) : Nat :=
  left wire.incoming

@[simp] theorem incoming_writeAll
    (wire : Wire)
    (bytes : List UInt8) :
    (wire.writeAll bytes).2.incoming = wire.incoming := by
  rw [writeAll]
  split <;> rfl

@[simp] theorem incoming_flush (wire : Wire) :
    wire.flush.2.incoming = wire.incoming :=
  wire.incoming_writeAll []

/-- A failed write is one of the script's, and what is left of the script is
the script's end. -/
theorem script_of_writeAll
    {script : List Acceptance}
    {wire : Wire}
    (scripted : wire.accepts <:+ script)
    (bytes : List UInt8) :
    (wire.writeAll bytes).2.accepts <:+ script ∧
      Fallible.FailsAs (fun error => ∃ after, .failed after error ∈ script)
        (wire.writeAll bytes).1 := by
  rw [writeAll]
  split
  next none => exact ⟨scripted, Fallible.failsAs_ok ()⟩
  next rest accepts =>
    rw [accepts] at scripted
    exact ⟨(List.suffix_cons _ _).trans scripted, Fallible.failsAs_ok ()⟩
  next after error rest accepts =>
    rw [accepts] at scripted
    exact ⟨(List.suffix_cons _ _).trans scripted,
      Fallible.failsAs_error ⟨after, scripted.subset List.mem_cons_self⟩⟩

/-- Reading leaves the writes alone. -/
theorem accepts_readExact
    (wire : Wire)
    (needed : Nat) :
    (wire.readExact needed).2.accepts = wire.accepts := by
  rw [readExact, read]
  rcases fill wire.incoming needed [] with ⟨_ | _ | _, incoming⟩ <;> rfl

theorem left_cons
    (arrival : Arrival)
    (rest : List Arrival) :
    left (arrival :: rest) = costOf arrival + left rest := by
  simp [left]

/-- Filling a buffer never adds to what is left, and takes from it where the
buffer was not empty and some was left. -/
theorem left_fill
    (incoming : List Arrival)
    (needed : Nat)
    (bytes : List UInt8) :
    left (fill incoming needed bytes).2 ≤ left incoming ∧
      (0 < needed → incoming ≠ [] →
        left (fill incoming needed bytes).2 < left incoming) := by
  induction incoming generalizing needed bytes with
  | nil =>
      cases needed with
      | zero => exact ⟨Nat.le_refl _, fun positive => absurd positive (by omega)⟩
      | succ needed => exact ⟨Nat.le_refl _, fun _ some => absurd rfl some⟩
  | cons arrival rest inductionHypothesis =>
      cases needed with
      | zero =>
          rw [fill]
          exact ⟨Nat.le_refl _, fun positive => absurd positive (by omega)⟩
      | succ needed =>
          have strict : left (fill (arrival :: rest) (needed + 1) bytes).2 <
              left (arrival :: rest) := by
            rw [left_cons]
            cases arrival with
            | failed error =>
                have less := (inductionHypothesis (needed + 1) bytes).1
                rw [fill, costOf]
                split
                · omega
                · simp only
                  omega
            | octets piece =>
                have less := (inductionHypothesis (needed + 1 - piece.length)
                  (bytes ++ piece)).1
                rw [fill, costOf]
                split
                · simp only
                  omega
                · split
                  · omega
                  · simp only [left_cons, costOf, List.length_drop]
                    omega
          exact ⟨Nat.le_of_lt strict, fun _ _ => strict⟩

theorem remaining_readExact
    (wire : Wire)
    (needed : Nat) :
    (wire.readExact needed).2.remaining ≤ wire.remaining := by
  have less : (wire.read needed).2.remaining ≤ wire.remaining :=
    (left_fill wire.incoming needed []).1
  rw [readExact]
  split
  next runs => rwa [runs] at less
  next runs => rwa [runs] at less
  next runs => rwa [runs] at less

end Wire

namespace Http2

namespace Event

/-- The frame of an event that is the emission of one. -/
def frame : Event → Option Frame
  | emitted frame => some frame
  | received _ | passedOver _ | breached _ => none

/-- The frames emitted, in order. -/
def sent (events : List Event) : List Frame :=
  events.filterMap frame

@[simp] theorem sent_append
    (events later : List Event) :
    sent (events ++ later) = sent events ++ sent later :=
  List.filterMap_append

theorem sent_singleton (event : Event) :
    sent [event] = event.frame.toList := by
  cases event <;> rfl

end Event

namespace Frame

/-- A frame that carries nothing of a message: neither a header block's nor a
body's. -/
def Control (frame : Frame) : Prop :=
  frame.kind ≠ .data ∧ frame.kind ≠ .headers ∧ frame.kind ≠ .continuation

theorem control_windowUpdate (stream increment : Nat) :
    (windowUpdate stream increment).Control :=
  ⟨Kind.noConfusion, Kind.noConfusion, Kind.noConfusion⟩

theorem control_settings (flags : UInt8) :
    Control ⟨.settings, flags, 0, []⟩ :=
  ⟨Kind.noConfusion, Kind.noConfusion, Kind.noConfusion⟩

theorem control_ping (payload : List UInt8) (acknowledges : Bool) :
    (ping payload acknowledges).Control :=
  ⟨Kind.noConfusion, Kind.noConfusion, Kind.noConfusion⟩

theorem control_reset (stream : Nat) (code : ErrorCode) :
    (reset stream code).Control :=
  ⟨Kind.noConfusion, Kind.noConfusion, Kind.noConfusion⟩

theorem control_goaway (last : Nat) (code : ErrorCode) (debug : List UInt8) :
    (goaway last code debug).Control :=
  ⟨Kind.noConfusion, Kind.noConfusion, Kind.noConfusion⟩

end Frame

/-- A frame is read off what has come, and leaves the writes alone. -/
theorem Frame.read_eq
    (wire : Wire)
    (maxSize : Nat) :
    Frame.read wire maxSize =
      let bare : Wire :=
        { incoming := wire.incoming, accepts := [], written := [] }
      ((Frame.read bare maxSize).1,
        { wire with incoming := (Frame.read bare maxSize).2.incoming }) := by
  simp only [Frame.read, Wire.read, Wire.readExact]
  rcases Wire.fill wire.incoming headerLen [] with ⟨filled, rest⟩
  cases filled with
  | closed bytes =>
      simp only
      split <;> rfl
  | failed error => rfl
  | whole header =>
      simp only
      split
      · rfl
      · rcases Wire.fill rest (BigEndian.read (header.take 3)) [] with
          ⟨_ | _ | _, left⟩ <;> rfl

/-- A frame that was read leaves less to read. -/
theorem Frame.remaining_read
    {wire after : Wire}
    {maxSize : Nat}
    {frame : Frame}
    (reads : Frame.read wire maxSize = (.ok (some frame), after)) :
    after.remaining < wire.remaining := by
  rw [Frame.read] at reads
  split at reads
  · split at reads <;> cases reads
  · cases reads
  next header next runs =>
    have some : wire.incoming ≠ [] := by
      intro none
      rw [Wire.read, none] at runs
      cases runs
    have less : next.remaining < wire.remaining := by
      have strict : (wire.read headerLen).2.remaining < wire.remaining :=
        (Wire.left_fill wire.incoming headerLen []).2 (by decide) some
      rwa [runs] at strict
    simp only at reads
    split at reads
    · cases reads
    · split at reads
      · cases reads
      next payload final rest =>
        cases reads
        have more := Wire.remaining_readExact next
          (BigEndian.read (header.take 3))
        rw [rest] at more
        exact Nat.lt_of_le_of_lt more less

namespace Connection

open Fallible
open Hpack (Field)

/-- What only reading changes, and what neither half does: what is left to read,
which side this is, what it announced and whether it holds its frames. -/
def fixed (connection : Connection) : List Arrival × Bool × Settings × Bool :=
  (connection.wire.incoming, connection.client, connection.localSettings,
    connection.held.isSome)

theorem keeps_fixed_onWire
    {α : Type}
    {use : Wire → Except NetError α × Wire}
    (writes : ∀ wire, (use wire).2.incoming = wire.incoming) :
    Keeps fixed (onWire use) := by
  intro connection
  simp only [fixed, onWire, writes]

theorem keeps_fixed_writeAll
    (doing : String)
    (bytes : List UInt8) :
    Keeps fixed (writeAll doing bytes) :=
  keeps_fixed_onWire fun wire => wire.incoming_writeAll bytes

theorem keeps_fixed_flush (doing : String) :
    Keeps fixed (flush doing) :=
  keeps_fixed_onWire fun wire => wire.incoming_flush

theorem keeps_fixed_emit (frame : Frame) : Keeps fixed (emit frame) := by
  intro connection
  rw [emit, modify_bind_apply, get_bind_apply]
  cases held : connection.held with
  | some bytes =>
      simp only [modify_apply, fixed, log, held, Option.isSome]
  | none =>
      have logged : (connection.log (.emitted frame)).held = none := held
      simp only [logged]
      refine keeps_bind (keeps_fixed_onWire fun wire => ?_)
        (fun _ => keeps_fixed_flush _) (connection.log (.emitted frame))
      exact wire.incoming_writeAll _

theorem keeps_fixed_release : Keeps fixed release := by
  intro connection
  rw [release, get_bind_apply]
  rcases held : connection.held with _ | _ | ⟨octet, bytes⟩
  · rfl
  · rfl
  · simp only [modify_bind_apply]
    refine (keeps_bind (keeps_fixed_writeAll _ _) (fun _ => keeps_fixed_flush _)
      { connection with held := some [] }).trans ?_
    simp only [fixed, held, Option.isSome]

/-- What the connection underneath and the side above see of a connection, and
what was emitted. -/
def outer (connection : Connection) :
    Wire × Bool × Settings × Option (List UInt8) × List Frame :=
  (connection.wire, connection.client, connection.localSettings,
    connection.held, Event.sent connection.events)

/-- Only a frame emitted is seen from outside among the events. -/
theorem outer_log
    {event : Event}
    (unsent : event.frame = none)
    (connection : Connection) :
    outer (connection.log event) = outer connection := by
  simp only [outer, log, Event.sent_append, Event.sent_singleton, unsent,
    Option.toList_none, List.append_nil]

/-- A change inside the connection, or a frame emitted that carries nothing of a
message. -/
inductive Emission : Connection → Connection → Prop
  | inside {connection after : Connection}
      (same : outer after = outer connection) :
      Emission connection after
  | emitted (connection : Connection) {frame : Frame}
      (control : frame.Control) :
      Emission connection (emit frame connection).2

/-- What handling a frame does inside the connection or to the encoder, or a
frame it emits. -/
inductive Touch : Connection → Connection → Prop
  | inside {connection after : Connection}
      (same : outer after = outer connection)
      (encoder : after.encoder = connection.encoder) :
      Touch connection after
  | resized {connection after : Connection} {size : Nat}
      (same : outer after = outer connection)
      (within : size ≤ encoderTable)
      (resizes : after.encoder = connection.encoder.resize size) :
      Touch connection after
  | emitted (connection : Connection) {frame : Frame}
      (control : frame.Control) :
      Touch connection (emit frame connection).2

theorem Touch.emission
    {connection after : Connection}
    (touch : Touch connection after) :
    Emission connection after := by
  cases touch with
  | inside same encoder => exact .inside same
  | resized same within resizes => exact .inside same
  | emitted control => exact .emitted connection control

theorem touches_emit
    {frame : Frame}
    (control : frame.Control) :
    Runs Touch (emit frame) :=
  fun connection => .single (.emitted connection control)

theorem touches_answer
    {frame : Frame}
    (control : frame.Control) :
    Runs Touch (answer frame) :=
  runs_mapError (touches_emit control) lost

theorem touches_data (frame : Frame) : Runs Touch (data frame) := by
  refine runs_bind ?_ fun _ => runs_bind ?_ fun _ => ?_
  · refine runs_bind runs_get fun _ => runs_bind (runs_lift _) fun _ => ?_
    exact runs_modify fun _ => .inside rfl rfl
  · rw [giveBack]
    split
    · refine runs_bind (touches_answer (Frame.control_windowUpdate _ _))
        fun _ => runs_bind runs_get fun _ => runs_bind (runs_lift _) fun _ => ?_
      exact runs_modify fun _ => .inside rfl rfl
    · exact runs_pure _
  · refine runs_bind runs_get fun connection => ?_
    split
    · exact runs_fail _
    · split
      · exact runs_fail _
      · split
        · exact runs_pure _
        · split
          · exact runs_fail _
          · refine runs_bind (runs_lift _) fun _ =>
              runs_bind (runs_modify ?_) fun _ =>
                runs_bind (runs_lift _) fun _ => ?_
            · exact fun _ => .inside rfl rfl
            · split
              · exact runs_fail _
              · split
                · exact runs_modify fun _ => .inside rfl rfl
                · split
                  · refine runs_bind (runs_modify ?_) fun _ =>
                      runs_bind (runs_lift _) fun _ =>
                        runs_bind (runs_modify ?_) fun _ =>
                          touches_answer (Frame.control_windowUpdate _ _)
                    · exact fun _ => .inside rfl rfl
                    · exact fun _ => .inside rfl rfl
                  · exact runs_modify fun _ => .inside rfl rfl

theorem touches_headersOnRecord
    (id : Nat)
    (stream : Stream)
    (fields : List Field)
    (ends : Bool) :
    Runs Touch (headersOnRecord id stream fields ends) := by
  refine runs_bind (runs_lift _) fun _ => ?_
  exact runs_modify fun _ => .inside rfl rfl

theorem touches_openByPeer
    (id : Nat)
    (fields : List Field)
    (ends : Bool) :
    Runs Touch (openByPeer id fields ends) := by
  refine runs_bind (runs_modify ?_) fun _ => runs_bind runs_get
    fun connection => ?_
  · exact fun _ => .inside rfl rfl
  · split
    · exact runs_modify fun _ => .inside (outer_log rfl _) rfl
    · split
      · exact runs_fail _
      · refine runs_bind (runs_modify ?_) fun _ => runs_bind runs_get
          fun opened => ?_
        · exact fun _ => .inside rfl rfl
        · split
          · exact touches_headersOnRecord _ _ _ _
          · exact runs_pure _

theorem touches_block
    (id : Nat)
    (octets : List UInt8)
    (ends whole : Bool) :
    Runs Touch (block id octets ends whole) := by
  rw [block]
  split
  · exact runs_fail _
  · split
    · exact runs_modify fun _ => .inside rfl rfl
    · refine runs_bind (fun _ => .single (.inside rfl rfl)) fun _ => runs_bind runs_get
        fun _ => runs_bind (runs_lift _) fun _ => runs_bind runs_get
          fun connection => ?_
      split
      · split
        · exact runs_pure _
        · exact touches_headersOnRecord _ _ _ _
      · split
        · exact runs_fail _
        · exact touches_openByPeer _ _ _

theorem touches_continuation (frame : Frame) :
    Runs Touch (continuation frame) := by
  refine runs_bind runs_get fun connection => ?_
  split
  · exact runs_fail _
  · refine runs_bind (runs_modify ?_) fun _ => touches_block _ _ _ _
    exact fun _ => .inside rfl rfl

theorem touches_settings (frame : Frame) : Runs Touch (settings frame) := by
  rw [settings]
  split
  · split
    · exact runs_fail _
    · exact runs_pure _
  · refine runs_bind runs_get fun _ => runs_bind ?_ fun _ =>
      runs_bind runs_get fun _ => runs_bind ?_ fun _ =>
        runs_bind (runs_modify ?_) fun _ =>
          touches_answer (Frame.control_settings ack)
    · exact fun _ => .single (.inside rfl rfl)
    · exact fun _ => .single (.inside rfl rfl)
    · exact fun _ => .resized rfl (min_le_right _ encoderTable) rfl

theorem touches_windowUpdate (frame : Frame) :
    Runs Touch (windowUpdate frame) := by
  refine runs_bind (runs_lift _) fun _ => runs_bind runs_get
    fun connection => ?_
  split
  · refine runs_bind (runs_lift _) fun _ => ?_
    exact runs_modify fun _ => .inside rfl rfl
  · split
    · exact runs_fail _
    · split
      · exact runs_pure _
      · refine runs_bind (runs_lift _) fun _ => ?_
        exact runs_modify fun _ => .inside rfl rfl

theorem touches_dispatch (frame : Frame) :
    Runs Touch (dispatch frame) := by
  rw [dispatch]
  split
  · exact touches_data frame
  · exact runs_bind (runs_lift _) fun _ => touches_block _ _ _ _
  · exact touches_continuation frame
  · split
    · exact runs_fail _
    · exact runs_pure _
  · exact runs_pure _
  · refine runs_bind (runs_lift _) fun _ => runs_bind runs_get
      fun _ => ?_
    split
    · exact runs_fail _
    · exact runs_modify fun _ => .inside rfl rfl
  · exact touches_settings frame
  · exact runs_fail _
  · rw [pingFrame]
    split
    · exact runs_fail _
    · split
      · exact runs_modify fun _ => .inside rfl rfl
      · exact touches_answer (Frame.control_ping _ _)
  · rw [goawayFrame]
    split
    · exact runs_modify fun _ => .inside rfl rfl
    · exact runs_fail _
  · exact touches_windowUpdate frame

/-- Handling a frame touches the connection underneath by emitting alone. -/
theorem touches_handle (frame : Frame) : Runs Touch (handle frame) := by
  refine runs_bind runs_get fun connection => ?_
  split
  · exact runs_fail _
  · split
    · exact runs_fail _
    · split
      · exact runs_fail _
      · exact touches_dispatch frame

theorem touches_reset
    (id : Nat)
    (code : ErrorCode) :
    Runs Touch (reset id code) := by
  refine runs_bind (runs_modify ?_) fun _ =>
    touches_emit (Frame.control_reset id code)
  exact fun _ => .inside rfl rfl

theorem touches_goAway
    (code : ErrorCode)
    (debug : String) :
    Runs Touch (goAway code debug) := by
  refine runs_bind (runs_modify ?_) fun _ => runs_bind runs_get
    fun _ => touches_emit (Frame.control_goaway _ _ _)
  exact fun _ => .inside rfl rfl

theorem touches_fail
    {α : Type}
    (violation : Violation) :
    Runs Touch (fail violation : Action α) := by
  refine runs_bind (runs_modify ?_) fun _ =>
    runs_bind (runs_attempt (touches_goAway _ _)) fun _ => runs_fail _
  exact fun _ => .inside (outer_log rfl _) rfl

theorem touches_take (frame : Frame) : Runs Touch (take frame) := by
  refine runs_bind (runs_modify ?_) fun _ =>
    runs_bind (runs_attempt (touches_handle frame)) fun handled => ?_
  · exact fun _ => .inside (outer_log rfl _) rfl
  · match handled with
    | .ok _ => exact runs_pure _
    | .error (.connection violation) => exact touches_fail violation
    | .error (.stream id violation) => exact touches_reset id _

/-! ## What is seen of it from outside -/

theorem emits_of_touches
    {ε α : Type}
    {action : Fallible Connection ε α}
    (touches : Runs Touch action) :
    Runs Emission action :=
  touches.mono fun _ _ => Touch.emission

theorem emits_handle (frame : Frame) : Runs Emission (handle frame) :=
  emits_of_touches (touches_handle frame)

theorem emits_reset
    (id : Nat)
    (code : ErrorCode) :
    Runs Emission (reset id code) :=
  emits_of_touches (touches_reset id code)

theorem emits_goAway
    (code : ErrorCode)
    (debug : String) :
    Runs Emission (goAway code debug) :=
  emits_of_touches (touches_goAway code debug)

theorem emits_fail
    {α : Type}
    (violation : Violation) :
    Runs Emission (fail violation : Action α) :=
  emits_of_touches (touches_fail violation)

theorem emits_take (frame : Frame) : Runs Emission (take frame) :=
  emits_of_touches (touches_take frame)

/-- Emitting reads nothing. -/
theorem keeps_fixed_of_emits
    {ε α : Type}
    {action : Fallible Connection ε α}
    (emits : Runs Emission action) :
    Keeps fixed action := by
  intro connection
  refine emits.invariant
    (motive := fun after => fixed after = fixed connection) ?_ rfl
  intro reached after emission same
  cases emission with
  | inside inside =>
      simp only [outer, Prod.mk.injEq] at inside
      obtain ⟨wire, client, settings, held, _⟩ := inside
      simp only [fixed, wire, client, settings, held] at same ⊢
      exact same
  | emitted control => exact (keeps_fixed_emit _ reached).trans same

/-- What not even reading changes: which side this is, what it announced and
whether it holds its frames. -/
def steady (connection : Connection) : Bool × Settings × Bool :=
  (connection.client, connection.localSettings, connection.held.isSome)

theorem Keeps.steady
    {α : Type}
    {action : Action α}
    (keeps : Keeps fixed action) :
    Keeps Connection.steady action :=
  keeps.map Prod.snd

theorem keeps_steady_pump : Keeps Connection.steady pump := by
  refine keeps_bind (fun _ => rfl) fun outcome => ?_
  rcases outcome with (failure | violation) | (_ | frame)
  · exact keeps_fail _
  · exact Keeps.steady (keeps_fixed_of_emits (emits_fail violation))
  · exact keeps_pure _
  · exact keeps_bind (Keeps.steady (keeps_fixed_of_emits (emits_take frame)))
      fun _ => keeps_pure _

/-- What `pump` does by what the read gives. -/
theorem pump_apply (connection : Connection) :
    pump connection =
      match Frame.read connection.wire connection.localSettings.maxFrameSize with
      | (.ok none, wire) => (.ok false, { connection with wire })
      | (.error (.net failure), wire) =>
          (.error failure, { connection with wire })
      | (.error (.violation violation), wire) =>
          fail violation { connection with wire }
      | (.ok (some frame), wire) =>
          match take frame { connection with wire } with
          | (.ok _, after) => (.ok true, after)
          | (.error failure, after) => (.error failure, after) := by
  rw [pump, bind_apply, readFrame]
  rcases Frame.read connection.wire connection.localSettings.maxFrameSize with
    ⟨(failure | violation) | (_ | frame), wire⟩
  · rfl
  · rfl
  · rfl
  · change (take frame >>= fun _ => pure true) { connection with wire } = _
    simp only [bind_apply]
    rcases take frame { connection with wire } with ⟨_ | _, after⟩ <;> rfl

/-- Every frame read leaves less to read. -/
theorem remaining_pump
    {connection after : Connection}
    (reads : pump connection = (.ok true, after)) :
    after.wire.remaining < connection.wire.remaining := by
  rw [pump_apply] at reads
  split at reads
  · cases reads
  · cases reads
  · rw [fail, modify_bind_apply, bind_apply, attempt_apply] at reads
    cases reads
  next frame wire read =>
    have kept := keeps_fixed_of_emits (emits_take frame) { connection with wire }
    split at reads
    next runs =>
      cases reads
      rw [runs] at kept
      have incoming := congrArg Prod.fst kept
      have less := Frame.remaining_read read
      rw [Wire.remaining] at less ⊢
      simp only [fixed] at incoming
      rw [incoming]
      exact less
    · cases reads

end Connection
end Http2
end XmipNet
