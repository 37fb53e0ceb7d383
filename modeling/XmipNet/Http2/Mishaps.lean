import XmipNet.Http2.Course

/-!
# What can go wrong under a call

Between two points of a run a read of the connection underneath can fail, and so
can a write, and the peer can breach the connection. Whatever of this fails an
action is found again between the points where the action began and ended, in
what was left to read, in what became of the writes and in the events.
-/

namespace XmipNet
namespace Http2

/-- One frame read off what is left to read, or not. -/
def Reads (maxSize : Nat) (incoming rest : List Arrival) : Prop :=
  ∃ wire : Wire, wire.incoming = incoming ∧
    (Frame.read wire maxSize).2.incoming = rest

namespace Connection

open Core
open Fallible (bind_apply modify_bind_apply attempt_apply get_bind_apply Runs)

/-- How one point of a run leads to another. -/
structure Leads (connection after : Connection) : Prop where
  settings : after.localSettings = connection.localSettings
  reads : Relation.ReflTransGen (Reads connection.localSettings.maxFrameSize)
    connection.wire.incoming after.wire.incoming
  accepts : after.wire.accepts <:+ connection.wire.accepts
  events : connection.events <+: after.events

theorem leads_refl (connection : Connection) : Leads connection connection :=
  ⟨rfl, .refl, List.suffix_refl _, List.prefix_refl _⟩

theorem Leads.trans
    {connection middle after : Connection}
    (first : Leads connection middle)
    (second : Leads middle after) :
    Leads connection after where
  settings := second.settings.trans first.settings
  reads := first.reads.trans (first.settings ▸ second.reads)
  accepts := second.accepts.trans first.accepts
  events := first.events.trans second.events

/-- Between two points of a run a read failed, or a write did, or the connection
was ended over a breach. -/
inductive Upset (connection after : Connection) : Prop
  | unread {wire rest : Wire} {failure : NetError}
      (before : Relation.ReflTransGen
        (Reads connection.localSettings.maxFrameSize)
        connection.wire.incoming wire.incoming)
      (fails : Frame.read wire connection.localSettings.maxFrameSize =
        (.error (.net failure), rest))
      (later : Relation.ReflTransGen
        (Reads connection.localSettings.maxFrameSize)
        rest.incoming after.wire.incoming)
  | unwritten {used : List Acceptance} {acceptance : Acceptance}
      (split : connection.wire.accepts = used ++ after.wire.accepts)
      (member : acceptance ∈ used)
      (fails : acceptance ≠ .taken)
  | breached {later : List Event} {violation : Violation}
      (split : after.events = connection.events ++ later)
      (member : .breached violation ∈ later)

/-- What went wrong inside went wrong. -/
theorem Upset.between
    {start connection after final : Connection}
    (upset : Upset connection after)
    (before : Leads start connection)
    (later : Leads after final)
    (settings : after.localSettings = connection.localSettings) :
    Upset start final := by
  cases upset with
  | unread reads fails rest =>
      have same := before.settings
      have kept := settings.trans same
      rw [same] at reads fails rest
      have further := later.reads
      rw [kept] at further
      exact .unread (before.reads.trans reads) fails (rest.trans further)
  | @unwritten used acceptance split member fails =>
      obtain ⟨earlier, first⟩ := before.accepts
      obtain ⟨more, last⟩ := later.accepts
      have whole : start.wire.accepts =
          (earlier ++ (used ++ more)) ++ final.wire.accepts := by
        rw [← first, split, ← last]
        simp only [List.append_assoc]
      exact .unwritten whole
        (List.mem_append_right _ (List.mem_append_left _ member)) fails
  | @breached added violation split member =>
      obtain ⟨earlier, first⟩ := before.events
      obtain ⟨more, last⟩ := later.events
      have whole : final.events = start.events ++ (earlier ++ (added ++ more)) := by
        rw [← last, split, ← first]
        simp only [List.append_assoc]
      exact .breached whole
        (List.mem_append_right _ (List.mem_append_left _ member))

/-! ## Writing -/

/-- What an action takes of what becomes of the writes; where it fails, a write
did. -/
def Spends {α : Type} (action : Action α) : Prop :=
  ∀ connection, ∃ used,
    connection.wire.accepts = used ++ (action connection).2.wire.accepts ∧
      ((∃ failure, (action connection).1 = .error failure) →
        ∃ acceptance ∈ used, acceptance ≠ .taken)

section Spends

variable {α β : Type}

theorem spends_of_accepts
    {action : Action α}
    (same : ∀ connection,
      (action connection).2.wire.accepts = connection.wire.accepts)
    (fine : ∀ connection failure, (action connection).1 ≠ .error failure) :
    Spends action := by
  intro connection
  refine ⟨[], (same connection).symm, ?_⟩
  rintro ⟨failure, fails⟩
  exact absurd fails (fine connection failure)

theorem spends_bind
    {first : Action α}
    {next : α → Action β}
    (spends : Spends first)
    (goes : ∀ value, Spends (next value)) :
    Spends (first >>= next) := by
  intro connection
  obtain ⟨used, split, met⟩ := spends connection
  rw [bind_apply]
  split
  next value after runs =>
    rw [runs] at split
    obtain ⟨more, rest, further⟩ := goes value after
    refine ⟨used ++ more, ?_, fun fails => ?_⟩
    · rw [split, rest, List.append_assoc]
    · obtain ⟨acceptance, member, failed⟩ := further fails
      exact ⟨acceptance, List.mem_append_right _ member, failed⟩
  next failure after runs =>
    rw [runs] at split met
    exact ⟨used, split, fun _ => met ⟨failure, rfl⟩⟩

theorem spends_writeAll
    (doing : String)
    (bytes : List UInt8) :
    Spends (writeAll doing bytes) := by
  intro connection
  simp only [writeAll, onWire, Wire.writeAll]
  cases connection.wire.accepts with
  | nil => exact ⟨[], rfl, fun fails => by cases fails.choose_spec⟩
  | cons first rest =>
      cases first with
      | taken =>
          exact ⟨[.taken], rfl, fun fails => by cases fails.choose_spec⟩
      | failed after error =>
          exact ⟨[.failed after error], rfl,
            fun _ => ⟨_, List.mem_singleton_self _, Acceptance.noConfusion⟩⟩

theorem spends_flush (doing : String) : Spends (flush doing) :=
  spends_writeAll doing []

theorem spends_modify
    {change : Connection → Connection}
    (same : ∀ connection, (change connection).wire = connection.wire) :
    Spends (Fallible.modify change : Action Unit) :=
  spends_of_accepts (fun connection => congrArg Wire.accepts (same connection))
    fun _ _ fails => by cases fails

theorem spends_get : Spends (Fallible.get : Action Connection) :=
  spends_of_accepts (fun _ => rfl) fun _ _ fails => by cases fails

theorem spends_pure (value : α) : Spends (pure value : Action α) :=
  spends_of_accepts (fun _ => rfl) fun _ _ fails => by cases fails

theorem spends_emit (frame : Frame) : Spends (emit frame) := by
  refine spends_bind (spends_modify fun _ => rfl) fun _ =>
    spends_bind spends_get fun current => ?_
  split
  · exact spends_modify fun _ => rfl
  · exact spends_bind (spends_writeAll "writing a frame" frame.encode)
      fun _ => spends_flush _

theorem spends_release : Spends release := by
  refine spends_bind spends_get fun current => ?_
  split
  · exact spends_pure _
  · exact spends_pure _
  · refine spends_bind (spends_modify fun _ => rfl) fun _ => ?_
    exact spends_bind (spends_writeAll _ _) fun _ => spends_flush _

end Spends

/-- What touches the connection underneath by emitting alone leads on. -/
theorem accepts_of_emits
    {ε α : Type}
    {action : Fallible Connection ε α}
    (emits : Runs Emission action)
    (connection : Connection) :
    (action connection).2.wire.accepts <:+ connection.wire.accepts := by
  refine emits.invariant (motive := fun after =>
    after.wire.accepts <:+ connection.wire.accepts) ?_ (List.suffix_refl _)
  intro reached after emission fewer
  cases emission with
  | inside same =>
      have wire : after.wire = reached.wire := congrArg Prod.fst same
      rw [wire]
      exact fewer
  | @emitted frame control =>
      obtain ⟨used, split, _⟩ := spends_emit frame reached
      exact List.IsSuffix.trans ⟨used, split.symm⟩ fewer

theorem leads_of_emits
    {ε α : Type}
    {action : Fallible Connection ε α}
    (emits : Runs Emission action)
    (connection : Connection)
    (steps : Steps connection.core (action connection).2.core) :
    Leads connection (action connection).2 := by
  have kept := keeps_fixed_of_emits emits connection
  simp only [fixed, Prod.mk.injEq] at kept
  obtain ⟨incoming, _, settings, _⟩ := kept
  refine ⟨settings, ?_, accepts_of_emits emits connection, steps.events⟩
  rw [incoming]

/-! ## Reading -/

/-- The peer closed the connection between two points of a run. -/
def ClosedBetween (connection after : Connection) : Prop :=
  ∃ wire rest, Relation.ReflTransGen
      (Reads connection.localSettings.maxFrameSize)
      connection.wire.incoming wire.incoming ∧
    Frame.read wire connection.localSettings.maxFrameSize = (.ok none, rest) ∧
    Relation.ReflTransGen (Reads connection.localSettings.maxFrameSize)
      rest.incoming after.wire.incoming

theorem breached_of_failing
    {α : Type}
    (violation : Violation)
    (connection : Connection) :
    connection.events ++ [.breached violation] <+:
      (fail violation connection : Except NetError α × Connection).2.events :=
  (moves_goAway violation.code violation.message
    (connection.log (.breached violation))).events

theorem upset_of_breached
    {connection middle after : Connection}
    {violation : Violation}
    (before : connection.events <+: middle.events)
    (breached : middle.events ++ [.breached violation] <+: after.events) :
    Upset connection after := by
  obtain ⟨earlier, first⟩ := before
  obtain ⟨later, last⟩ := breached
  have split : after.events =
      connection.events ++ (earlier ++ .breached violation :: later) := by
    rw [← last, ← first]
    simp only [List.append_assoc, List.singleton_append]
  exact .breached split (List.mem_append_right _ List.mem_cons_self)

theorem upset_of_spends
    {α : Type}
    {action : Action α}
    (spends : Spends action)
    {connection after : Connection}
    {failure : NetError}
    (fails : action connection = (.error failure, after)) :
    Upset connection after := by
  obtain ⟨used, split, met⟩ := spends connection
  rw [fails] at split met
  obtain ⟨acceptance, member, failed⟩ := met ⟨failure, rfl⟩
  exact .unwritten split member failed

/-- Handling a frame only adds to the events. -/
theorem events_handle
    {frame : Frame}
    (bounded : frame.stream ≤ maxStreamId)
    {connection : Connection}
    (waits : Waits connection.core) :
    connection.events <+:
      (handle frame (connection.log (.received frame))).2.events := by
  have handles := handles_handle bounded waits .refl
  rcases runs : handle frame (connection.log (.received frame)) with
    ⟨outcome, after⟩
  rw [Handles, Fallible.Ensures, runs] at handles
  rcases outcome with (violation | ⟨id, violation⟩) | _
  · obtain ⟨core, steps, payload, settings, streams, _, _, same⟩ := handles
    have events : after.events = core.events := congrArg Core.events same
    rw [events]
    exact Steps.events steps
  · exact Steps.events handles.1
  · exact Steps.events handles

theorem leads_handle
    {frame : Frame}
    (bounded : frame.stream ≤ maxStreamId)
    {connection : Connection}
    (waits : Waits connection.core) :
    Leads connection (handle frame (connection.log (.received frame))).2 := by
  have kept := keeps_fixed_of_emits (emits_handle frame)
    (connection.log (.received frame))
  simp only [fixed, Prod.mk.injEq] at kept
  obtain ⟨incoming, _, settings, _⟩ := kept
  refine ⟨settings, ?_, ?_, events_handle bounded waits⟩
  · rw [incoming]
    exact .refl
  · exact accepts_of_emits (emits_handle frame)
      (connection.log (.received frame))

theorem settings_of_emits
    {ε α : Type}
    {action : Fallible Connection ε α}
    (emits : Runs Emission action)
    (connection : Connection) :
    (action connection).2.localSettings = connection.localSettings :=
  congrArg (fun view => view.2.2.1) (keeps_fixed_of_emits emits connection)

/-- Taking a frame fails only where something went wrong. -/
theorem upset_of_take
    {frame : Frame}
    (bounded : frame.stream ≤ maxStreamId)
    {connection after : Connection}
    (waits : Waits connection.core)
    {failure : NetError}
    (fails : take frame connection = (.error failure, after)) :
    Upset connection after := by
  have leads := leads_handle bounded waits
  rw [take, modify_bind_apply, bind_apply, attempt_apply] at fails
  rcases runs : handle frame (connection.log (.received frame)) with
    ⟨outcome, handled⟩
  rw [runs] at fails leads
  rcases outcome with (violation | ⟨id, violation⟩) | _
  · have breached := breached_of_failing (α := Unit) violation handled
    rw [show fail violation handled = _ from fails] at breached
    exact upset_of_breached leads.events breached
  · have resets : reset id violation.code handled = (.error failure, after) :=
      fails
    have spends : Spends (reset id violation.code) :=
      spends_bind (spends_modify fun _ => rfl) fun _ => spends_emit _
    have settings := settings_of_emits (emits_reset id violation.code) handled
    rw [resets] at settings
    exact (upset_of_spends spends resets).between leads (leads_refl after)
      settings
  · cases fails

theorem accepts_read
    (wire : Wire)
    (maxSize : Nat) :
    (Frame.read wire maxSize).2.accepts = wire.accepts := by
  have first (needed : Nat) (wire : Wire) :
      (wire.read needed).2.accepts = wire.accepts := rfl
  have exact (needed : Nat) (wire : Wire) :
      (wire.readExact needed).2.accepts = wire.accepts := by
    have same := first needed wire
    rw [Wire.readExact]
    split
    next runs => rwa [runs] at same
    next runs => rwa [runs] at same
    next runs => rwa [runs] at same
  have header := first headerLen wire
  rw [Frame.read]
  split
  next runs =>
    rw [runs] at header
    split
    · exact header
    · exact header
  next runs => rwa [runs] at header
  next octets after runs =>
    rw [runs] at header
    have payload := exact (BigEndian.read (octets.take 3)) after
    simp only
    split
    · exact header
    · split
      next reads =>
        rw [reads] at payload
        exact payload.trans header
      next reads =>
        rw [reads] at payload
        exact payload.trans header

/-- A frame read off the connection underneath leads on. -/
theorem leads_read
    {connection : Connection}
    {outcome : Except Frame.ReadFailure (Option Frame)}
    {wire : Wire}
    (read : Frame.read connection.wire connection.localSettings.maxFrameSize =
      (outcome, wire)) :
    Leads connection { connection with wire } := by
  have accepts := accepts_read connection.wire
    connection.localSettings.maxFrameSize
  rw [read] at accepts
  refine ⟨rfl, .single ⟨connection.wire, rfl, ?_⟩, ?_, List.prefix_refl _⟩
  · rw [read]
  · exact ⟨[], accepts⟩

/-- What an action came to: it led on, and failed only where something went
wrong. -/
structure Fares {α : Type} (connection : Connection)
    (result : Except NetError α × Connection) : Prop where
  leads : Leads connection result.2
  upset : ∀ failure, result.1 = .error failure → Upset connection result.2

/-- Reading and handling a frame fails only where something went wrong. -/
theorem fares_pump
    {connection : Connection}
    (waits : Waits connection.core) :
    Fares connection (pump connection) := by
  rw [pump_apply]
  split
  next wire read => exact ⟨leads_read read, fun _ fails => by cases fails⟩
  next failure wire read =>
    exact ⟨leads_read read, fun _ _ => .unread .refl read .refl⟩
  next violation wire read =>
    have leads := leads_read read
    have breached := breached_of_failing (α := Bool) violation
      { connection with wire }
    have failing := leads_of_emits (emits_fail (α := Bool) violation)
      { connection with wire } (moves_fail violation _)
    exact ⟨leads.trans failing,
      fun _ _ => upset_of_breached leads.events breached⟩
  next frame wire read =>
    have leads := leads_read read
    have bounded := Frame.stream_of_read (congrArg Prod.fst read)
    have still : Waits { connection with wire }.core := waits
    have taking := leads_of_emits (emits_take frame) { connection with wire }
      (moves_take bounded still)
    split
    next runs =>
      rw [runs] at taking
      exact ⟨leads.trans taking, fun _ fails => by cases fails⟩
    next failure after runs =>
      rw [runs] at taking
      have upset := (upset_of_take bounded still runs).between leads
        (leads_refl after) taking.settings
      exact ⟨leads.trans taking, fun _ _ => upset⟩

/-- Reading is at an end only where the peer closed the connection. -/
theorem closed_of_pump
    {connection after : Connection}
    (ends : pump connection = (.ok false, after)) :
    ClosedBetween connection after := by
  rw [pump_apply] at ends
  split at ends
  next wire read =>
    cases ends
    exact ⟨connection.wire, wire, .refl, read, .refl⟩
  · cases ends
  · cases congrArg Prod.fst ends
  · split at ends
    · cases ends
    · cases ends

/-- A wait fails only where something went wrong. -/
theorem fares_pumpUntil
    (done : Connection → Bool)
    {connection : Connection}
    (waits : Waits connection.core) :
    Fares connection (pumpUntil done connection) := by
  rw [pumpUntil]
  fun_induction pumpFrom done connection with
  | case1 connection holds =>
      exact ⟨leads_refl connection, fun _ fails => by cases fails⟩
  | case2 connection undone failure after reads =>
      have fares := fares_pump waits
      rw [reads] at fares
      exact ⟨fares.leads, fun _ _ => fares.upset failure rfl⟩
  | case3 connection undone after reads =>
      have fares := fares_pump waits
      rw [reads] at fares
      exact ⟨fares.leads, fun _ fails => by cases fails⟩
  | case4 connection undone after reads inductionHypothesis =>
      have fares := fares_pump waits
      have moved := moves_pump waits
      rw [Moves, reads] at moved
      rw [reads] at fares
      have further := inductionHypothesis (moved.waits waits)
      refine ⟨fares.leads.trans further.leads, fun failure fails => ?_⟩
      exact (further.upset failure fails).between fares.leads
        (leads_refl _) further.leads.settings

theorem leads_of_spends
    {α : Type}
    {action : Action α}
    (spends : Spends action)
    (fixes : Fallible.Keeps fixed action)
    (keeps : Fallible.Keeps sight action)
    (connection : Connection) :
    Leads connection (action connection).2 := by
  have kept := fixes connection
  simp only [fixed, Prod.mk.injEq] at kept
  obtain ⟨incoming, _, settings, _⟩ := kept
  obtain ⟨used, split, _⟩ := spends connection
  have events : (action connection).2.events = connection.events :=
    congrArg (fun sight => sight.core.events) (keeps connection)
  refine ⟨settings, ?_, ⟨used, split.symm⟩, ?_⟩
  · rw [incoming]
  · rw [events]

theorem fares_release (connection : Connection) :
    Fares connection (release connection) := by
  refine ⟨leads_of_spends spends_release keeps_fixed_release
    keeps_sight_release connection, fun failure fails => ?_⟩
  exact upset_of_spends spends_release (Prod.ext fails rfl)

/-- A stall leads on, and fails where something went wrong or the peer closed
the connection. -/
theorem fares_stall
    {connection after : Connection}
    (waits : Waits connection.core)
    {outcome : Except NetError Unit}
    (stalls : stall connection = (outcome, after)) :
    Leads connection after ∧
      ∀ failure, outcome = .error failure →
        Upset connection after ∨ ClosedBetween connection after := by
  have counted : Leads connection
      { connection with stalls := connection.stalls + 1 } :=
    ⟨rfl, .refl, List.suffix_refl _, List.prefix_refl _⟩
  have releasing := fares_release
    { connection with stalls := connection.stalls + 1 }
  have still {released : Connection}
      (same : released.sight = connection.sight) : Waits released.core := by
    rw [show released.core = connection.core from congrArg Sight.core same]
    exact waits
  cases stalled_of_stall stalls with
  | @unwritten failure released releases same =>
      rw [releases] at releasing
      refine ⟨counted.trans releasing.leads, fun _ _ => Or.inl ?_⟩
      exact (releasing.upset failure rfl).between counted (leads_refl after)
        releasing.leads.settings
  | @broken failure released read releases same reads =>
      have fares := fares_pump (still same)
      rw [releases] at releasing
      rw [reads] at fares
      have before := counted.trans releasing.leads
      refine ⟨before.trans fares.leads, fun _ _ => Or.inl ?_⟩
      exact (fares.upset failure rfl).between before (leads_refl after)
        fares.leads.settings
  | closed releases same reads =>
      have fares := fares_pump (still same)
      rw [releases] at releasing
      rw [reads] at fares
      have before := counted.trans releasing.leads
      refine ⟨before.trans fares.leads, fun _ _ => Or.inr ?_⟩
      obtain ⟨wire, rest, reaches, read, further⟩ := closed_of_pump reads
      rw [before.settings] at reaches read further
      exact ⟨wire, rest, before.reads.trans reaches, read, further⟩
  | read releases same reads =>
      have fares := fares_pump (still same)
      rw [releases] at releasing
      rw [reads] at fares
      exact ⟨(counted.trans releasing.leads).trans fares.leads,
        fun _ fails => by cases fails⟩

end Connection
end Http2
end XmipNet
