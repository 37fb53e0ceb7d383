import XmipNet.Http2.Frames

/-!
# Where a failure marked as aborted comes from

A caller sends a request again where it failed with the kind
`ConnectionAborted`. Over a connection underneath that never fails with that
kind itself, neither emitting nor reading a frame fails with it: a breach of the
peer's has no kind, and an end that came too soon has another.
-/

namespace XmipNet

namespace Wire

/-- No failure of the connection underneath has the kind `ConnectionAborted`. -/
structure Unaborted (wire : Wire) : Prop where
  reads : ∀ error, .failed error ∈ wire.incoming →
    error.kind ≠ .connectionAborted
  writes : ∀ after error, .failed after error ∈ wire.accepts →
    error.kind ≠ .connectionAborted

/-- Every failure of the connection underneath is of one of `kinds`. -/
structure FailsWithin (kinds : Set ErrorKind) (wire : Wire) : Prop where
  reads : ∀ error, .failed error ∈ wire.incoming → error.kind ∈ kinds
  writes : ∀ after error, .failed after error ∈ wire.accepts →
    error.kind ∈ kinds

theorem FailsWithin.unaborted
    {kinds : Set ErrorKind}
    {wire : Wire}
    (within : wire.FailsWithin kinds)
    (spared : .connectionAborted ∉ kinds) :
    wire.Unaborted where
  reads error member aborted :=
    spared (aborted ▸ within.reads error member)
  writes after error member aborted :=
    spared (aborted ▸ within.writes after error member)

theorem Unaborted.writeAll
    {wire : Wire}
    (unaborted : wire.Unaborted)
    (bytes : List UInt8) :
    (wire.writeAll bytes).2.Unaborted ∧
      ∀ error, (wire.writeAll bytes).1 = .error error →
        error.kind ≠ .connectionAborted := by
  obtain ⟨left, fails⟩ := script_of_writeAll List.suffix_rfl bytes
  refine ⟨⟨?_, fun after error member =>
    unaborted.writes after error (left.subset member)⟩, fun error failed => ?_⟩
  · rw [incoming_writeAll]
    exact unaborted.reads
  · obtain ⟨after, member⟩ := fails error failed
    exact unaborted.writes after error member

/-- What is left to read fails only as it did before, and so does a fill. -/
theorem failures_of_fill
    (incoming : List Arrival)
    (needed : Nat)
    (bytes : List UInt8) :
    (∀ error, .failed error ∈ (fill incoming needed bytes).2 →
      .failed error ∈ incoming) ∧
    ∀ error, (fill incoming needed bytes).1 = .failed error →
      .failed error ∈ incoming := by
  induction incoming generalizing needed bytes with
  | nil =>
      cases needed with
      | zero => exact ⟨fun _ member => member, fun _ failed => by cases failed⟩
      | succ needed =>
          exact ⟨fun _ member => member, fun _ failed => by cases failed⟩
  | cons arrival rest inductionHypothesis =>
      cases needed with
      | zero => exact ⟨fun _ member => member, fun _ failed => by cases failed⟩
      | succ needed =>
          cases arrival with
          | failed met =>
              rw [fill]
              split
              · obtain ⟨left, fails⟩ := inductionHypothesis (needed + 1) bytes
                exact ⟨fun error member =>
                  List.mem_cons_of_mem _ (left error member),
                  fun error failed =>
                    List.mem_cons_of_mem _ (fails error failed)⟩
              · refine ⟨fun _ => List.mem_cons_of_mem _, ?_⟩
                rintro _ ⟨⟩
                exact List.mem_cons_self
          | octets piece =>
              rw [fill]
              split
              · exact ⟨fun _ => List.mem_cons_of_mem _,
                  fun _ failed => by cases failed⟩
              · split
                · obtain ⟨left, fails⟩ := inductionHypothesis
                    (needed + 1 - piece.length) (bytes ++ piece)
                  exact ⟨fun error member =>
                    List.mem_cons_of_mem _ (left error member),
                    fun error failed =>
                      List.mem_cons_of_mem _ (fails error failed)⟩
                · refine ⟨fun error member => ?_, fun _ failed => by cases failed⟩
                  rcases List.mem_cons.mp member with same | later
                  · cases same
                  · exact List.mem_cons_of_mem _ later

theorem Unaborted.read
    {wire : Wire}
    (unaborted : wire.Unaborted)
    (needed : Nat) :
    (wire.read needed).2.Unaborted ∧
      ∀ error, (wire.read needed).1 = .failed error →
        error.kind ≠ .connectionAborted := by
  obtain ⟨left, fails⟩ := failures_of_fill wire.incoming needed []
  exact ⟨⟨fun error member => unaborted.reads error (left error member),
    unaborted.writes⟩, fun error failed =>
      unaborted.reads error (fails error failed)⟩

theorem Unaborted.readExact
    {wire : Wire}
    (unaborted : wire.Unaborted)
    (needed : Nat) :
    (wire.readExact needed).2.Unaborted ∧
      ∀ error, (wire.readExact needed).1 = .error error →
        error.kind ≠ .connectionAborted := by
  obtain ⟨still, fails⟩ := unaborted.read needed
  rw [Wire.readExact]
  split
  next reads =>
    rw [reads] at still
    exact ⟨still, fun _ failed => by cases failed⟩
  next reads =>
    rw [reads] at still
    refine ⟨still, ?_⟩
    rintro _ ⟨⟩
    exact ErrorKind.noConfusion
  next error after reads =>
    rw [reads] at still fails
    refine ⟨still, ?_⟩
    rintro _ ⟨⟩
    exact fails error rfl

end Wire

namespace Http2

theorem Frame.unaborted_read
    {wire : Wire}
    (unaborted : wire.Unaborted)
    (maxSize : Nat) :
    (Frame.read wire maxSize).2.Unaborted ∧
      ∀ failure, (Frame.read wire maxSize).1 = .error (.net failure) →
        failure.io ≠ some .connectionAborted := by
  obtain ⟨still, fails⟩ := unaborted.read headerLen
  rw [Frame.read]
  split
  next reads =>
    rw [reads] at still
    split
    · exact ⟨still, fun _ failed => by cases failed⟩
    · refine ⟨still, ?_⟩
      rintro _ ⟨⟩ aborted
      cases aborted
  next error after reads =>
    rw [reads] at still fails
    refine ⟨still, ?_⟩
    rintro _ ⟨⟩ aborted
    exact fails error rfl (Option.some.inj aborted)
  next header after reads =>
    rw [reads] at still
    simp only
    split
    · exact ⟨still, fun _ failed => by cases failed⟩
    · obtain ⟨stillLater, failsLater⟩ :=
        still.readExact (BigEndian.read (header.take 3))
      split
      next error final rest =>
        rw [rest] at stillLater failsLater
        refine ⟨stillLater, ?_⟩
        rintro _ ⟨⟩ aborted
        exact failsLater error rfl (Option.some.inj aborted)
      next rest =>
        rw [rest] at stillLater
        exact ⟨stillLater, fun _ failed => by cases failed⟩

namespace Connection

open Fallible
open Hpack (Field)

/-- Over a connection underneath that never fails as aborted, `action` leaves it
so, and fails as aborted only where `blame` holds. -/
def Blameless {α : Type} (blame : Connection → Prop) (action : Action α)
    (connection : Connection) : Prop :=
  Ensures action connection (fun _ after => after.wire.Unaborted)
    (fun failure after => after.wire.Unaborted ∧
      (failure.io = some .connectionAborted → blame after))

section Blameless

variable {α β : Type} {blame : Connection → Prop} {connection : Connection}

theorem Blameless.of_ok
    {action : Action α}
    {value : α}
    {after : Connection}
    (blameless : Blameless blame action connection)
    (runs : action connection = (.ok value, after)) :
    after.wire.Unaborted :=
  ensures_of_ok blameless runs

theorem Blameless.of_error
    {action : Action α}
    {failure : NetError}
    {after : Connection}
    (blameless : Blameless blame action connection)
    (runs : action connection = (.error failure, after)) :
    after.wire.Unaborted ∧
      (failure.io = some .connectionAborted → blame after) := by
  rwa [Blameless, Ensures, runs] at blameless

/-- Whatever its outcome, the connection underneath is left as it fails. -/
theorem Blameless.unaborted
    {action : Action α}
    (blameless : Blameless blame action connection) :
    (action connection).2.wire.Unaborted := by
  rcases runs : action connection with ⟨_ | _, after⟩
  · exact (blameless.of_error runs).1
  · exact blameless.of_ok runs

theorem blameless_bind
    {first : Action α}
    {next : α → Action β}
    (blameless : Blameless blame first connection)
    (goes : ∀ value after, first connection = (.ok value, after) →
      after.wire.Unaborted → Blameless blame (next value) after) :
    Blameless blame (first >>= next) connection := by
  rw [Blameless, ensures_bind, Ensures]
  split
  next value after runs =>
    exact goes value after runs (blameless.of_ok runs)
  next failure after runs => exact blameless.of_error runs

/-- A failure without a kind is not marked as aborted. -/
theorem blameless_fail
    (unaborted : connection.wire.Unaborted)
    {failure : NetError}
    (kindless : failure.io = none) :
    Blameless blame (Fallible.fail failure : Action α) connection := by
  refine ⟨unaborted, fun aborted => ?_⟩
  rw [kindless] at aborted
  cases aborted

theorem blameless_onWire
    {use : Wire → Except NetError α × Wire}
    (unaborted : (use connection.wire).2.Unaborted)
    (fails : ∀ failure, (use connection.wire).1 = .error failure →
      failure.io ≠ some .connectionAborted) :
    Blameless blame (onWire use) connection := by
  rw [Blameless, Ensures, onWire]
  split
  next runs =>
    rw [← (Prod.mk.inj runs).2]
    exact unaborted
  next failure after runs =>
    simp only [Prod.mk.injEq] at runs
    obtain ⟨failed, rfl⟩ := runs
    exact ⟨unaborted, fun aborted => absurd aborted (fails failure failed)⟩

theorem blameless_writeAll
    (unaborted : connection.wire.Unaborted)
    (doing : String)
    (bytes : List UInt8) :
    Blameless blame (writeAll doing bytes) connection := by
  obtain ⟨still, fails⟩ := unaborted.writeAll bytes
  refine blameless_onWire still fun failure failed => ?_
  cases outcome : (connection.wire.writeAll bytes).1 with
  | ok _ =>
      rw [outcome] at failed
      cases failed
  | error error =>
      rw [outcome] at failed
      cases failed
      exact fun aborted => fails error outcome (Option.some.inj aborted)

theorem blameless_flush
    (unaborted : connection.wire.Unaborted)
    (doing : String) :
    Blameless blame (flush doing) connection :=
  blameless_writeAll unaborted doing []

theorem blameless_emit
    (unaborted : connection.wire.Unaborted)
    (frame : Frame) :
    Blameless blame (emit frame) connection := by
  refine blameless_bind unaborted fun _ logged runs _ => ?_
  cases runs
  refine blameless_bind unaborted fun _ current runs _ => ?_
  cases runs
  cases (connection.log (.emitted frame)).held with
  | some bytes => exact unaborted
  | none =>
      have writes : Blameless blame (writeAll "writing a frame" frame.encode)
          (connection.log (.emitted frame)) :=
        blameless_writeAll (by exact unaborted) _ _
      exact blameless_bind writes fun _ _ _ still => blameless_flush still _

theorem blameless_release
    (unaborted : connection.wire.Unaborted) :
    Blameless blame release connection := by
  refine blameless_bind unaborted fun _ current runs _ => ?_
  cases runs
  split
  · exact unaborted
  · exact unaborted
  · refine blameless_bind unaborted fun _ emptied runs _ => ?_
    cases runs
    exact blameless_bind (blameless_writeAll (by exact unaborted) _ _)
      fun _ _ _ still => blameless_flush still _

/-- What touches the connection underneath by emitting alone leaves it as it
fails. -/
theorem unaborted_of_emits
    {ε : Type}
    {action : Fallible Connection ε α}
    (emits : Runs Emission action)
    (unaborted : connection.wire.Unaborted) :
    (action connection).2.wire.Unaborted := by
  refine emits.invariant
    (motive := fun after => after.wire.Unaborted) ?_ unaborted
  intro reached after emission still
  cases emission with
  | inside same =>
      have wire : after.wire = reached.wire := congrArg Prod.fst same
      exact wire ▸ still
  | @emitted frame control =>
      have blameless : Blameless (fun _ => False) (emit frame) reached :=
        blameless_emit still frame
      exact blameless.unaborted

theorem blameless_breach
    (unaborted : connection.wire.Unaborted)
    (violation : Violation) :
    Blameless blame (fail violation : Action α) connection := by
  refine blameless_bind unaborted fun _ logged runs _ => ?_
  cases runs
  have logged : (connection.log (.breached violation)).wire.Unaborted :=
    unaborted
  have still := unaborted_of_emits
    (emits_goAway violation.code violation.message) logged
  exact blameless_bind (by exact still)
    fun _ _ _ after => blameless_fail after rfl

theorem blameless_reset
    (unaborted : connection.wire.Unaborted)
    (id : Nat)
    (code : ErrorCode) :
    Blameless blame (reset id code) connection := by
  refine blameless_bind unaborted fun _ marked runs _ => ?_
  cases runs
  exact blameless_emit (by exact unaborted) _

theorem blameless_take
    (unaborted : connection.wire.Unaborted)
    (frame : Frame) :
    Blameless blame (take frame) connection := by
  have logged : (connection.log (.received frame)).wire.Unaborted := unaborted
  have still := unaborted_of_emits (emits_handle frame) logged
  refine blameless_bind unaborted fun _ current runs _ => ?_
  cases runs
  refine blameless_bind (by exact still) fun handled after runs calm => ?_
  rcases handled with (violation | ⟨id, violation⟩) | _
  · exact blameless_breach calm violation
  · exact blameless_reset calm id _
  · exact calm

/-- Reading and handling a frame does not fail as aborted. -/
theorem blameless_pump
    (unaborted : connection.wire.Unaborted) :
    Blameless blame pump connection := by
  obtain ⟨still, fails⟩ := Frame.unaborted_read unaborted
    connection.localSettings.maxFrameSize
  refine blameless_bind (by exact still) fun outcome after runs calm => ?_
  have read : (Frame.read connection.wire
      connection.localSettings.maxFrameSize).1 = outcome :=
    Except.ok.inj (Prod.mk.inj runs).1
  rcases outcome with (failure | violation) | (_ | frame)
  · exact ⟨calm, fun aborted => absurd aborted (fails failure read)⟩
  · exact blameless_breach calm violation
  · exact calm
  · exact blameless_bind (blameless_take calm frame) fun _ _ _ done => done

end Blameless

end Connection
end Http2
end XmipNet
