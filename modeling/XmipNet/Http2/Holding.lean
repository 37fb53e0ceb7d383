import XmipNet.Http2.Send
import XmipNet.Http2.Simulation

/-!
# Frames held and written as one

Inside `together` a frame is held where it would be written and flushed at once.
Two runs of one computation, one holding its frames and one not, are compared
side by side: as long as every write goes through they have the same outcome and
the same connection, and what the one has written and holds is what the other
has written.
-/

namespace XmipNet

namespace Wire

/-- From one script of what becomes of the writes to what is left of it, every
write went through. -/
def Accepted (before after : List Acceptance) : Prop :=
  ∃ used, before = used ++ after ∧ ∀ acceptance ∈ used, acceptance = .taken

theorem accepted_refl (accepts : List Acceptance) :
    Accepted accepts accepts :=
  ⟨[], rfl, fun _ member => absurd member List.not_mem_nil⟩

/-- Where every write of a run went through, so did those of its parts. -/
theorem Accepted.split
    {before between after : List Acceptance}
    (accepted : Accepted before after)
    (first : between <:+ before)
    (second : after <:+ between) :
    Accepted before between ∧ Accepted between after := by
  obtain ⟨earlier, rfl⟩ := first
  obtain ⟨later, rfl⟩ := second
  obtain ⟨used, same, taken⟩ := accepted
  rw [← List.append_assoc] at same
  have whole := List.append_cancel_right same
  refine ⟨⟨earlier, rfl, ?_⟩, ⟨later, rfl, ?_⟩⟩
  · intro acceptance member
    exact taken acceptance (whole ▸ List.mem_append_left _ member)
  · intro acceptance member
    exact taken acceptance (whole ▸ List.mem_append_right _ member)

theorem accepts_writeAll
    (wire : Wire)
    (bytes : List UInt8) :
    (wire.writeAll bytes).2.accepts <:+ wire.accepts := by
  rw [writeAll]
  split
  next none =>
    rw [none]
  next rest taken =>
    rw [taken]
    exact List.suffix_cons _ _
  next rest failed =>
    rw [failed]
    exact List.suffix_cons _ _

/-- A write that went through. -/
theorem writeAll_of_accepted
    (wire : Wire)
    (bytes : List UInt8)
    (accepted : Accepted wire.accepts (wire.writeAll bytes).2.accepts) :
    wire.writeAll bytes =
      (.ok (),
        { wire with
          accepts := (wire.writeAll bytes).2.accepts
          written := wire.written ++ bytes }) := by
  rw [writeAll] at accepted ⊢
  split
  next none =>
    rw [none]
  next rest script => rfl
  next after error rest script =>
    rw [script] at accepted
    obtain ⟨used, same, taken⟩ := accepted
    have alone : used = [.failed after error] := by
      have whole : [Acceptance.failed after error] ++ rest = used ++ rest :=
        same
      exact (List.append_cancel_right whole).symm
    have failed := taken (.failed after error)
      (alone ▸ List.mem_singleton.mpr rfl)
    cases failed

end Wire

namespace Http2

open Hpack (Field)

namespace Event

/-- Every breach among `events` was announced by a `GOAWAY` among them. -/
def Announced (events : List Event) : Prop :=
  ∀ violation, .breached violation ∈ events →
    ∃ last, Frame.goaway last violation.code (Text.octets violation.message) ∈
      sent events

theorem Announced.append
    {events later : List Event}
    (announced : Announced events)
    (also : Announced later) :
    Announced (events ++ later) := by
  intro violation member
  rw [sent_append]
  rcases List.mem_append.mp member with earlier | after
  · obtain ⟨last, told⟩ := announced violation earlier
    exact ⟨last, List.mem_append_left _ told⟩
  · obtain ⟨last, told⟩ := also violation after
    exact ⟨last, List.mem_append_right _ told⟩

theorem announced_nil : Announced [] :=
  fun _ member => absurd member List.not_mem_nil

end Event

namespace Connection

open Fallible
open Wire (Accepted)

/-- A connection but for what it holds and what it has written. -/
def bare (connection : Connection) : Connection :=
  { connection with
    held := none
    wire := { connection.wire with accepts := [], written := [] } }

/-- What a run did to the writes: it used some of the script, and, where those
went through, what is written and held has grown by the frames emitted. -/
structure Follows (before after : Connection) : Prop where
  uses : after.wire.accepts <:+ before.wire.accepts
  grows : ∃ later, after.events = before.events ++ later ∧
    Event.Announced later ∧
    (Accepted before.wire.accepts after.wire.accepts →
      after.wire.written ++ after.held.getD [] =
        before.wire.written ++ before.held.getD [] ++
          (Event.sent later).flatMap Frame.encode)

/-- A run that did nothing to the writes. -/
theorem follows_of_log
    {before after : Connection}
    (wire : after.wire = before.wire)
    (held : after.held = before.held)
    (later : List Event)
    (events : after.events = before.events ++ later)
    (silent : Event.sent later = [])
    (unbreached : ∀ violation, .breached violation ∉ later) :
    Follows before after := by
  refine ⟨?_, later, events, fun violation member =>
    absurd member (unbreached violation), fun _ => ?_⟩
  · rw [wire]
  · rw [wire, held, silent, List.flatMap_nil, List.append_nil]

theorem follows_of_same
    {before after : Connection}
    (wire : after.wire = before.wire)
    (held : after.held = before.held)
    (events : after.events = before.events) :
    Follows before after :=
  follows_of_log wire held []
    (events.trans (List.append_nil _).symm) rfl
    (fun _ => List.not_mem_nil)

theorem Follows.trans
    {before between after : Connection}
    (first : Follows before between)
    (second : Follows between after) :
    Follows before after := by
  obtain ⟨earlier, events, announced, tally⟩ := first.grows
  obtain ⟨later, moreEvents, moreAnnounced, moreTally⟩ := second.grows
  refine ⟨second.uses.trans first.uses, earlier ++ later, ?_,
    announced.append moreAnnounced, fun accepted => ?_⟩
  · rw [moreEvents, events, List.append_assoc]
  · obtain ⟨before, after⟩ := accepted.split first.uses second.uses
    rw [moreTally after, tally before, Event.sent_append, List.flatMap_append,
      List.append_assoc]

/-- Two connections alike but that the first holds what the second has
written. -/
structure Alike (holding plain : Connection) : Prop where
  same : bare holding = bare plain
  holds : holding.held.isSome = true
  unheld : plain.held = none
  octets : plain.wire.written = holding.wire.written ++ holding.held.getD []

/-- From two connections that are alike `action` does the same, as long as the
writes go through. -/
def AgreesAt {ε α : Type} (action : Fallible Connection ε α)
    (holding plain : Connection) : Prop :=
  Alike holding plain →
    Accepted holding.wire.accepts (action holding).2.wire.accepts →
    Accepted plain.wire.accepts (action plain).2.wire.accepts →
    (action holding).1 = (action plain).1 ∧
      Alike (action holding).2 (action plain).2

/-- A computation that does the same whether it holds its frames or not. -/
structure Agrees {ε α : Type} (action : Fallible Connection ε α) : Prop where
  follows : ∀ connection, Follows connection (action connection).2
  agree : ∀ {holding plain : Connection}, AgreesAt action holding plain

section Rules

variable {ε δ α β : Type}

/-- A computation that sees and changes the bare connection alone. -/
theorem agrees_inside
    {action : Fallible Connection ε α}
    (outcome : ∀ connection,
      (action (bare connection)).1 = (action connection).1)
    (change : ∀ connection,
      bare (action (bare connection)).2 = bare (action connection).2)
    (outside : ∀ connection, (action connection).2.wire = connection.wire ∧
      (action connection).2.held = connection.held)
    (follows : ∀ connection, Follows connection (action connection).2) :
    Agrees action where
  follows := follows
  agree := by
    intro holding plain alike _ _
    obtain ⟨wire, held⟩ := outside holding
    obtain ⟨plainWire, plainHeld⟩ := outside plain
    refine ⟨?_, ?_, ?_, ?_, ?_⟩
    · rw [← outcome holding, ← outcome plain, alike.same]
    · rw [← change holding, ← change plain, alike.same]
    · rw [held]
      exact alike.holds
    · rw [plainHeld]
      exact alike.unheld
    · rw [held, wire, plainWire]
      exact alike.octets

/-- As `agrees_inside`, where nothing is logged. -/
theorem agrees_unlogged
    {action : Fallible Connection ε α}
    (outcome : ∀ connection,
      (action (bare connection)).1 = (action connection).1)
    (change : ∀ connection,
      bare (action (bare connection)).2 = bare (action connection).2)
    (same : ∀ connection, (action connection).2.wire = connection.wire ∧
      (action connection).2.held = connection.held ∧
        (action connection).2.events = connection.events) :
    Agrees action := by
  refine agrees_inside outcome change (fun connection => ?_) fun connection => ?_
  · exact ⟨(same connection).1, (same connection).2.1⟩
  · obtain ⟨wire, held, events⟩ := same connection
    exact follows_of_same wire held events

theorem agrees_lift
    (outcome : Except ε α) :
    Agrees (lift outcome : Fallible Connection ε α) :=
  agrees_unlogged (fun _ => rfl) (fun _ => rfl) fun _ => ⟨rfl, rfl, rfl⟩

theorem agrees_pure
    (value : α) :
    Agrees (pure value : Fallible Connection ε α) :=
  agrees_lift (.ok value)

theorem agrees_fail
    (error : ε) :
    Agrees (Fallible.fail error : Fallible Connection ε α) :=
  agrees_lift (.error error)

/-- A change of the bare connection that logs nothing. -/
theorem agrees_modify
    {change : Connection → Connection}
    (bares : ∀ connection,
      bare (change (bare connection)) = bare (change connection))
    (same : ∀ connection, (change connection).wire = connection.wire ∧
      (change connection).held = connection.held ∧
        (change connection).events = connection.events) :
    Agrees (modify change : Fallible Connection ε Unit) :=
  agrees_unlogged (fun _ => rfl) bares same

/-- An event that is neither an emission nor a breach. -/
theorem agrees_log
    {event : Event}
    (silent : event.frame = none)
    (unbreached : ∀ violation, event ≠ .breached violation) :
    Agrees (modify fun connection => connection.log event :
      Fallible Connection ε Unit) := by
  refine agrees_inside (fun _ => rfl) (fun _ => rfl) (fun _ => ⟨rfl, rfl⟩)
    fun connection => ?_
  refine follows_of_log rfl rfl [event] rfl ?_ ?_
  · rw [Event.sent_singleton, silent]
    rfl
  · intro violation member
    exact unbreached violation (List.mem_singleton.mp member).symm

theorem follows_bind
    {first : Fallible Connection ε α}
    {next : α → Fallible Connection ε β}
    (follows : ∀ value connection,
      Follows connection (next value connection).2)
    (connection : Connection) :
    Follows (first connection).2 ((first >>= next) connection).2 := by
  rw [bind_apply]
  split
  next value after runs =>
    rw [runs]
    exact follows value after
  next runs =>
    rw [runs]
    exact follows_of_same rfl rfl rfl

/-- A computation that agrees goes on with one that does where it left. -/
theorem agreesAt_bind
    {first : Fallible Connection ε α}
    {next : α → Fallible Connection ε β}
    {holding plain : Connection}
    (agrees : Agrees first)
    (follows : ∀ value connection,
      Follows connection (next value connection).2)
    (goes : ∀ {value : α} {between other : Connection},
      first holding = (.ok value, between) →
        AgreesAt (next value) between other) :
    AgreesAt (first >>= next) holding plain := by
  intro alike accepted plainAccepted
  obtain ⟨before, after⟩ := accepted.split (agrees.follows holding).uses
    (follows_bind follows holding).uses
  obtain ⟨plainBefore, plainAfter⟩ :=
    plainAccepted.split (agrees.follows plain).uses
      (follows_bind follows plain).uses
  obtain ⟨outcome, reached⟩ := agrees.agree alike before plainBefore
  rw [bind_apply] at after plainAfter ⊢
  rw [bind_apply _ _ plain]
  rcases runs : first holding with ⟨_ | value, between⟩ <;>
    rcases plainRuns : first plain with ⟨_ | plainValue, plainBetween⟩ <;>
    rw [runs, plainRuns] at outcome reached <;>
    rw [runs] at after <;>
    rw [plainRuns] at plainAfter <;>
    cases outcome
  · exact ⟨rfl, reached⟩
  · exact goes runs reached after plainAfter

theorem agrees_bind
    {first : Fallible Connection ε α}
    {next : α → Fallible Connection ε β}
    (agrees : Agrees first)
    (goes : ∀ value, Agrees (next value)) :
    Agrees (first >>= next) where
  follows connection :=
    (agrees.follows connection).trans
      (follows_bind (fun value => (goes value).follows) connection)
  agree :=
    agreesAt_bind agrees (fun value => (goes value).follows)
      fun _ => (goes _).agree

/-- The state read, where only the bare connection is looked at. -/
theorem agrees_get_bind
    {next : Connection → Fallible Connection ε β}
    (looks : ∀ connection, next (bare connection) = next connection)
    (goes : ∀ connection, Agrees (next connection)) :
    Agrees (Fallible.get >>= next) := by
  refine ⟨fun connection => (goes connection).follows connection, ?_⟩
  intro holding plain alike accepted plainAccepted
  have same : next holding = next plain := by
    rw [← looks holding, ← looks plain, alike.same]
  rw [get_bind_apply] at accepted plainAccepted ⊢
  rw [get_bind_apply]
  rw [same] at accepted ⊢
  exact (goes plain).agree alike accepted plainAccepted

theorem agrees_mapError
    {action : Fallible Connection ε α}
    (agrees : Agrees action)
    (convert : ε → δ) :
    Agrees (mapError convert action) := by
  refine ⟨agrees.follows, fun alike accepted plainAccepted => ?_⟩
  obtain ⟨outcome, reached⟩ := agrees.agree alike accepted plainAccepted
  refine ⟨?_, reached⟩
  rw [mapError, mapError, outcome]

theorem agrees_attempt
    {action : Fallible Connection ε α}
    (agrees : Agrees action) :
    Agrees (attempt action : Fallible Connection δ (Except ε α)) := by
  refine ⟨agrees.follows, fun alike accepted plainAccepted => ?_⟩
  obtain ⟨outcome, reached⟩ := agrees.agree alike accepted plainAccepted
  refine ⟨?_, reached⟩
  rw [attempt_apply, attempt_apply, outcome]

end Rules

/-! ## The writes -/

/-- Octets written and flushed. -/
def put (doing ending : String) (bytes : List UInt8) : Action Unit := do
  writeAll doing bytes
  flush ending

theorem accepts_writeAll
    (doing : String)
    (bytes : List UInt8)
    (connection : Connection) :
    (writeAll doing bytes connection).2.wire.accepts <:+
      connection.wire.accepts :=
  connection.wire.accepts_writeAll bytes

theorem writeAll_of_accepted
    {doing : String}
    {bytes : List UInt8}
    {connection : Connection}
    (accepted : Accepted connection.wire.accepts
      (writeAll doing bytes connection).2.wire.accepts) :
    writeAll doing bytes connection =
      (.ok (),
        { connection with
          wire :=
            { connection.wire with
              accepts := (writeAll doing bytes connection).2.wire.accepts
              written := connection.wire.written ++ bytes } }) := by
  have writes := connection.wire.writeAll_of_accepted bytes accepted
  have outcome := congrArg Prod.fst writes
  have wire := congrArg Prod.snd writes
  refine Prod.ext ?_ ?_
  · show (connection.wire.writeAll bytes).1.mapError _ = _
    rw [outcome]
    rfl
  · show { connection with wire := (connection.wire.writeAll bytes).2 } = _
    rw [wire]
    rfl

/-- What follows a write that may have failed. -/
theorem accepts_put_of_writeAll
    (doing ending : String)
    (bytes : List UInt8)
    (connection : Connection) :
    (put doing ending bytes connection).2.wire.accepts <:+
      (writeAll doing bytes connection).2.wire.accepts := by
  rw [put, bind_apply]
  split
  next after runs =>
    rw [runs]
    exact accepts_writeAll ending [] after
  next runs =>
    rw [runs]

theorem accepts_put
    (doing ending : String)
    (bytes : List UInt8)
    (connection : Connection) :
    (put doing ending bytes connection).2.wire.accepts <:+
      connection.wire.accepts :=
  (accepts_put_of_writeAll doing ending bytes connection).trans
    (accepts_writeAll doing bytes connection)

theorem put_of_accepted
    {doing ending : String}
    {bytes : List UInt8}
    (connection : Connection)
    (accepted : Accepted connection.wire.accepts
      (put doing ending bytes connection).2.wire.accepts) :
    put doing ending bytes connection =
      (.ok (),
        { connection with
          wire :=
            { connection.wire with
              accepts := (put doing ending bytes connection).2.wire.accepts
              written := connection.wire.written ++ bytes } }) := by
  obtain ⟨writes, flushes⟩ := accepted.split
    (accepts_writeAll doing bytes connection)
    (accepts_put_of_writeAll doing ending bytes connection)
  have wrote := writeAll_of_accepted writes
  generalize (writeAll doing bytes connection).2.wire.accepts = left
    at wrote flushes
  have runs : put doing ending bytes connection =
      writeAll ending []
        { connection with
          wire :=
            { connection.wire with
              accepts := left
              written := connection.wire.written ++ bytes } } := by
    rw [put, bind_of_ok wrote]
    rfl
  rw [runs] at flushes ⊢
  rw [writeAll_of_accepted flushes]
  simp only [List.append_nil]

/-- Writing leaves what is held and what has happened. -/
theorem keeps_put
    (doing ending : String)
    (bytes : List UInt8) :
    Keeps (fun connection => (connection.held, connection.events))
      (put doing ending bytes) :=
  keeps_bind (fun _ => rfl) fun _ _ => rfl

theorem held_put
    (doing ending : String)
    (bytes : List UInt8)
    (connection : Connection) :
    (put doing ending bytes connection).2.held = connection.held :=
  congrArg Prod.fst (keeps_put doing ending bytes connection)

theorem events_put
    (doing ending : String)
    (bytes : List UInt8)
    (connection : Connection) :
    (put doing ending bytes connection).2.events = connection.events :=
  congrArg Prod.snd (keeps_put doing ending bytes connection)

theorem written_put
    {doing ending : String}
    {bytes : List UInt8}
    {connection : Connection}
    (accepted : Accepted connection.wire.accepts
      (put doing ending bytes connection).2.wire.accepts) :
    (put doing ending bytes connection).2.wire.written =
      connection.wire.written ++ bytes := by
  rw [put_of_accepted _ accepted]

/-- Emitting a frame: held, or written and flushed. -/
theorem emit_apply
    (frame : Frame)
    (connection : Connection) :
    emit frame connection =
      match connection.held with
      | some held =>
          (.ok (),
            { connection.log (.emitted frame) with
              held := some (held ++ frame.encode) })
      | none =>
          put "writing a frame" "flushing a frame" frame.encode
            (connection.log (.emitted frame)) := by
  rw [emit, modify_bind_apply, get_bind_apply]
  cases held : connection.held with
  | some bytes =>
      have logged : (connection.log (.emitted frame)).held = some bytes := held
      rw [logged]
      rfl
  | none =>
      have logged : (connection.log (.emitted frame)).held = none := held
      rw [logged]
      rfl

/-- What is held written: nothing, or all of it. -/
theorem release_apply (connection : Connection) :
    release connection =
      match connection.held with
      | none | some [] => (.ok (), connection)
      | some (octet :: bytes) =>
          put "writing frames" "writing frames" (octet :: bytes)
            { connection with held := some [] } := by
  rw [release, get_bind_apply]
  rcases connection.held with _ | _ | ⟨octet, bytes⟩ <;> rfl

theorem encode_emitted (frame : Frame) :
    (Event.sent [.emitted frame]).flatMap Frame.encode = frame.encode := by
  rw [Event.sent_singleton]
  exact List.flatMap_singleton _ _

theorem announced_emitted (frame : Frame) :
    Event.Announced [.emitted frame] := by
  intro violation member
  cases List.mem_singleton.mp member

theorem follows_emit
    (frame : Frame)
    (connection : Connection) :
    Follows connection (emit frame connection).2 := by
  rw [emit_apply]
  split
  next bytes held =>
    refine ⟨List.suffix_refl _, [.emitted frame], rfl,
      announced_emitted frame, fun _ => ?_⟩
    rw [encode_emitted, held]
    exact (List.append_assoc _ _ _).symm
  next held =>
    refine ⟨accepts_put _ _ _ _, [.emitted frame], events_put _ _ _ _,
      announced_emitted frame, fun accepted => ?_⟩
    rw [written_put accepted, held_put, encode_emitted]
    show connection.wire.written ++ frame.encode ++ connection.held.getD [] = _
    rw [held]
    simp only [Option.getD_none, List.append_nil]

theorem agrees_emit (frame : Frame) : Agrees (emit frame) := by
  refine ⟨follows_emit frame, ?_⟩
  intro holding plain alike _ plainAccepted
  obtain ⟨bytes, held⟩ := Option.isSome_iff_exists.mp alike.holds
  have unheld := alike.unheld
  have octets := alike.octets
  have same : bare (holding.log (.emitted frame)) =
      bare (plain.log (.emitted frame)) :=
    congrArg (fun connection => bare (connection.log (.emitted frame)))
      alike.same
  rw [emit_apply] at plainAccepted ⊢
  rw [emit_apply frame plain]
  simp only [held, unheld] at plainAccepted ⊢
  rw [put_of_accepted (plain.log (.emitted frame)) plainAccepted]
  refine ⟨rfl, same, rfl, unheld, ?_⟩
  rw [held] at octets
  show plain.wire.written ++ frame.encode = _
  rw [octets]
  exact List.append_assoc _ _ _

theorem follows_release (connection : Connection) :
    Follows connection (release connection).2 := by
  rw [release_apply]
  split
  · exact follows_of_same rfl rfl rfl
  · exact follows_of_same rfl rfl rfl
  next octet bytes held =>
    refine ⟨accepts_put _ _ _ _, [], ?_, Event.announced_nil,
      fun accepted => ?_⟩
    · rw [events_put, List.append_nil]
    · rw [written_put accepted, held_put, held]
      simp only [Option.getD_some, List.append_nil, Event.sent,
        List.filterMap_nil, List.flatMap_nil]

theorem agrees_release : Agrees release := by
  refine ⟨follows_release, ?_⟩
  intro holding plain alike accepted _
  have unheld := alike.unheld
  have octets := alike.octets
  obtain ⟨bytes, held⟩ := Option.isSome_iff_exists.mp alike.holds
  rw [release_apply] at accepted ⊢
  rw [release_apply plain]
  cases bytes with
  | nil =>
      simp only [held, unheld]
      exact ⟨trivial, alike⟩
  | cons octet bytes =>
      simp only [held, unheld] at accepted ⊢
      rw [put_of_accepted _ accepted]
      refine ⟨rfl, alike.same, rfl, unheld, ?_⟩
      rw [octets, held]
      simp only [Option.getD_some, List.append_nil]

/-- After a release nothing is held, whatever became of the write. -/
theorem held_release (connection : Connection) :
    (release connection).2.held.getD [] = [] := by
  rw [release_apply]
  split
  next held => rw [held]; rfl
  next held => rw [held]; rfl
  next octet bytes held =>
    rw [held_put]
    rfl

/-- What a read of a frame gives, and what it leaves. -/
theorem readFrame_apply (connection : Connection) :
    readFrame connection =
      let reads := Frame.read (bare connection).wire
        (bare connection).localSettings.maxFrameSize
      (.ok reads.1,
        { connection with
          wire := { connection.wire with incoming := reads.2.incoming } }) := by
  rw [readFrame, Frame.read_eq]
  rfl

theorem agrees_readFrame : Agrees readFrame := by
  refine ⟨fun connection => ?_, ?_⟩
  · rw [readFrame_apply]
    refine ⟨List.suffix_refl _, [], (List.append_nil _).symm,
      Event.announced_nil, fun _ => ?_⟩
    exact (List.append_nil _).symm
  · intro holding plain alike _ _
    rw [readFrame_apply, readFrame_apply plain, alike.same]
    refine ⟨rfl, ?_, alike.holds, alike.unheld, alike.octets⟩
    exact congrArg (fun connection =>
      { connection with
        wire :=
          { connection.wire with
            incoming := (Frame.read (bare plain).wire
              (bare plain).localSettings.maxFrameSize).2.incoming } })
      alike.same

/-! ## Handling a frame -/

theorem agrees_answer (frame : Frame) : Agrees (answer frame) :=
  agrees_mapError (agrees_emit frame) lost

theorem agrees_takeConnection (length : Nat) :
    Agrees (takeConnection length) :=
  agrees_get_bind (fun _ => rfl) fun _ => agrees_bind (agrees_lift _) fun _ =>
    agrees_modify (fun _ => rfl) fun _ => ⟨rfl, rfl, rfl⟩

theorem agrees_giveBack (length : Nat) : Agrees (giveBack length) := by
  rw [giveBack]
  split
  · refine agrees_bind (agrees_answer _) fun _ =>
      agrees_get_bind (fun _ => rfl) fun _ => agrees_bind (agrees_lift _)
        fun _ => ?_
    exact agrees_modify (fun _ => rfl) fun _ => ⟨rfl, rfl, rfl⟩
  · exact agrees_pure _

theorem agrees_setStream
    (id : Nat)
    (stream : Stream) :
    Agrees (modify fun connection => connection.setStream id stream :
      Handler Unit) :=
  agrees_modify (fun _ => rfl) fun _ => ⟨rfl, rfl, rfl⟩

theorem agrees_extendBody
    (frame : Frame)
    (stream : Stream) :
    Agrees (extendBody frame stream) := by
  refine agrees_bind (agrees_setStream _ _) fun _ =>
    agrees_bind (agrees_lift _) fun content => ?_
  split
  · exact agrees_fail _
  · split
    · exact agrees_setStream _ _
    · split
      · exact agrees_bind (agrees_setStream _ _) fun _ =>
          agrees_bind (agrees_lift _) fun _ =>
            agrees_bind (agrees_setStream _ _) fun _ => agrees_answer _
      · exact agrees_setStream _ _

theorem agrees_dataOn (frame : Frame) : Agrees (dataOn frame) := by
  refine agrees_get_bind (fun _ => rfl) fun connection => ?_
  split
  · exact agrees_fail _
  · split
    · exact agrees_fail _
    · split
      · exact agrees_pure _
      · split
        · exact agrees_fail _
        · exact agrees_bind (agrees_lift _) fun _ => agrees_extendBody _ _

theorem agrees_data (frame : Frame) : Agrees (data frame) :=
  agrees_bind (agrees_takeConnection _) fun _ =>
    agrees_bind (agrees_giveBack _) fun _ => agrees_dataOn frame

theorem agrees_headersOnRecord
    (id : Nat)
    (stream : Stream)
    (fields : List Field)
    (ends : Bool) :
    Agrees (headersOnRecord id stream fields ends) :=
  agrees_bind (agrees_lift _) fun _ => agrees_setStream _ _

theorem agrees_openByPeer
    (id : Nat)
    (fields : List Field)
    (ends : Bool) :
    Agrees (openByPeer id fields ends) := by
  refine agrees_bind (agrees_modify (fun _ => rfl) fun _ => ⟨rfl, rfl, rfl⟩)
    fun _ => agrees_get_bind (fun _ => rfl) fun connection => ?_
  split
  · exact agrees_log rfl fun _ => Event.noConfusion
  · split
    · exact agrees_fail _
    · refine agrees_bind (agrees_modify (fun _ => rfl) fun _ => ⟨rfl, rfl, rfl⟩)
        fun _ => agrees_get_bind (fun _ => rfl) fun opened => ?_
      split
      · exact agrees_headersOnRecord _ _ _ _
      · exact agrees_pure _

theorem agrees_fieldsOn
    (id : Nat)
    (fields : List Field)
    (ends : Bool) :
    Agrees (fieldsOn id fields ends) := by
  refine agrees_get_bind (fun _ => rfl) fun connection => ?_
  split
  · split
    · exact agrees_pure _
    · exact agrees_headersOnRecord _ _ _ _
  · split
    · exact agrees_fail _
    · exact agrees_openByPeer _ _ _

theorem agrees_block
    (id : Nat)
    (octets : List UInt8)
    (ends whole : Bool) :
    Agrees (block id octets ends whole) := by
  rw [block]
  split
  · exact agrees_fail _
  · split
    · exact agrees_modify (fun _ => rfl) fun _ => ⟨rfl, rfl, rfl⟩
    · refine agrees_bind (agrees_unlogged (fun _ => rfl) (fun _ => rfl)
        fun _ => ⟨rfl, rfl, rfl⟩) fun _ => ?_
      exact agrees_get_bind (fun _ => rfl) fun _ =>
        agrees_bind (agrees_lift _) fun _ => agrees_fieldsOn _ _ _

theorem agrees_continuation (frame : Frame) :
    Agrees (continuation frame) := by
  refine agrees_get_bind (fun _ => rfl) fun connection => ?_
  split
  · exact agrees_fail _
  · exact agrees_bind (agrees_modify (fun _ => rfl) fun _ => ⟨rfl, rfl, rfl⟩)
      fun _ => agrees_block _ _ _ _

theorem agrees_settings (frame : Frame) : Agrees (settings frame) := by
  rw [settings]
  split
  · split
    · exact agrees_fail _
    · exact agrees_pure _
  · refine agrees_get_bind (fun _ => rfl) fun before => ?_
    refine agrees_bind (agrees_unlogged (fun _ => rfl) (fun _ => rfl)
      fun _ => ⟨rfl, rfl, rfl⟩) fun _ => ?_
    refine agrees_get_bind (fun _ => rfl) fun after => ?_
    refine agrees_bind (agrees_unlogged (fun _ => rfl) (fun _ => rfl)
      fun _ => ⟨rfl, rfl, rfl⟩) fun _ => ?_
    exact agrees_bind (agrees_modify (fun _ => rfl) fun _ => ⟨rfl, rfl, rfl⟩)
      fun _ => agrees_answer _

theorem agrees_windowUpdate (frame : Frame) :
    Agrees (windowUpdate frame) := by
  refine agrees_bind (agrees_lift _) fun _ =>
    agrees_get_bind (fun _ => rfl) fun connection => ?_
  split
  · exact agrees_bind (agrees_lift _) fun _ =>
      agrees_modify (fun _ => rfl) fun _ => ⟨rfl, rfl, rfl⟩
  · split
    · exact agrees_fail _
    · split
      · exact agrees_pure _
      · exact agrees_bind (agrees_lift _) fun _ => agrees_setStream _ _

theorem agrees_rstStream (frame : Frame) : Agrees (rstStream frame) := by
  refine agrees_bind (agrees_lift _) fun _ =>
    agrees_get_bind (fun _ => rfl) fun connection => ?_
  split
  · exact agrees_fail _
  · exact agrees_modify (fun _ => rfl) fun _ => ⟨rfl, rfl, rfl⟩

theorem agrees_dispatch (frame : Frame) : Agrees (dispatch frame) := by
  rw [dispatch]
  split
  · exact agrees_data frame
  · exact agrees_bind (agrees_lift _) fun _ => agrees_block _ _ _ _
  · exact agrees_continuation frame
  · split
    · exact agrees_fail _
    · exact agrees_pure _
  · exact agrees_pure _
  · exact agrees_rstStream frame
  · exact agrees_settings frame
  · exact agrees_fail _
  · rw [pingFrame]
    split
    · exact agrees_fail _
    · split
      · exact agrees_modify (fun _ => rfl) fun _ => ⟨rfl, rfl, rfl⟩
      · exact agrees_answer _
  · rw [goawayFrame]
    split
    · exact agrees_modify (fun _ => rfl) fun _ => ⟨rfl, rfl, rfl⟩
    · exact agrees_fail _
  · exact agrees_windowUpdate frame

theorem agrees_handle (frame : Frame) : Agrees (handle frame) := by
  refine agrees_get_bind (fun _ => rfl) fun connection => ?_
  split
  · exact agrees_fail _
  · split
    · exact agrees_fail _
    · split
      · exact agrees_fail _
      · exact agrees_dispatch frame

theorem agrees_reset
    (id : Nat)
    (code : ErrorCode) :
    Agrees (reset id code) :=
  agrees_bind (agrees_modify (fun _ => rfl) fun _ => ⟨rfl, rfl, rfl⟩)
    fun _ => agrees_emit _

/-- The connection about to tell the peer of a violation. -/
def failing (connection : Connection) (violation : Violation) : Connection :=
  { connection with goingAway := true }.log (.breached violation)

/-- The `GOAWAY` that tells the peer of a violation. -/
def goodbye (connection : Connection) (violation : Violation) : Frame :=
  .goaway connection.lastPeer violation.code (Text.octets violation.message)

theorem fail_apply
    {α : Type}
    (violation : Violation)
    (connection : Connection) :
    (fail violation : Action α) connection =
      (.error violation.toNetError,
        (emit (connection.goodbye violation)
          (connection.failing violation)).2) :=
  rfl

theorem announced_failing
    (connection : Connection)
    (violation : Violation) :
    Event.Announced
      [.breached violation, .emitted (connection.goodbye violation)] := by
  intro other member
  rcases List.mem_cons.mp member with same | later
  · cases same
    exact ⟨connection.lastPeer, List.mem_singleton.mpr rfl⟩
  · cases List.mem_singleton.mp later

theorem follows_fail
    {α : Type}
    (violation : Violation)
    (connection : Connection) :
    Follows connection ((fail violation : Action α) connection).2 := by
  obtain ⟨uses, later, grown, _, tally⟩ := follows_emit
    (connection.goodbye violation) (connection.failing violation)
  have told : later = [.emitted (connection.goodbye violation)] := by
    rw [events_emit] at grown
    exact (List.append_cancel_left grown).symm
  rw [fail_apply]
  refine ⟨uses, _, ?_, announced_failing connection violation, ?_⟩
  · rw [events_emit]
    exact List.append_assoc _ _ _
  · rw [told] at tally
    exact tally

theorem agrees_failing
    {α : Type}
    (violation : Violation) :
    Agrees (fail violation : Action α) := by
  refine ⟨follows_fail violation, ?_⟩
  intro holding plain alike accepted plainAccepted
  have same : bare (holding.failing violation) =
      bare (plain.failing violation) :=
    congrArg (fun connection => bare (connection.failing violation)) alike.same
  have frames : (bare holding).goodbye violation =
      (bare plain).goodbye violation := by
    rw [alike.same]
  have frames : holding.goodbye violation = plain.goodbye violation := frames
  rw [fail_apply] at accepted plainAccepted ⊢
  rw [fail_apply]
  rw [frames] at accepted ⊢
  exact ⟨rfl, ((agrees_emit _).agree
    ⟨same, alike.holds, alike.unheld, alike.octets⟩ accepted plainAccepted).2⟩

theorem agrees_take (frame : Frame) : Agrees (take frame) := by
  refine agrees_bind (agrees_log rfl fun _ => Event.noConfusion) fun _ =>
    agrees_bind (agrees_attempt (agrees_handle frame)) fun handled => ?_
  rcases handled with (violation | ⟨id, violation⟩) | _
  · exact agrees_failing violation
  · exact agrees_reset id _
  · exact agrees_pure _

theorem agrees_pump : Agrees pump := by
  refine agrees_bind agrees_readFrame fun outcome => ?_
  rcases outcome with (failure | violation) | (_ | frame)
  · exact agrees_fail _
  · exact agrees_failing violation
  · exact agrees_pure _
  · exact agrees_bind (agrees_take frame) fun _ => agrees_pure _

/-! ## Sending -/

theorem agrees_emitPieces
    (id : Nat)
    (ends : Bool)
    (kind : Kind)
    (pieces : List (List UInt8)) :
    Agrees (emitPieces id ends kind pieces) := by
  induction pieces generalizing kind with
  | nil => exact agrees_pure _
  | cons piece rest inductionHypothesis =>
      exact agrees_bind (agrees_emit _) fun _ => inductionHypothesis _

theorem agrees_endLocally
    (ends : Bool)
    (id : Nat) :
    Agrees (if ends then modify fun connection => connection.endLocally id
      else pure () : Action Unit) := by
  split
  · exact agrees_modify (fun _ => rfl) fun _ => ⟨rfl, rfl, rfl⟩
  · exact agrees_pure _

theorem agrees_sendHeaders
    (id : Nat)
    (fields : List Field)
    (ends : Bool) :
    Agrees (sendHeaders id fields ends) := by
  refine agrees_bind (agrees_unlogged (fun _ => rfl) (fun _ => rfl)
    fun _ => ⟨rfl, rfl, rfl⟩) fun block => ?_
  exact agrees_get_bind (fun _ => rfl) fun _ =>
    agrees_bind (agrees_emitPieces _ _ _ _) fun _ => agrees_endLocally ends id

theorem agrees_stall : Agrees stall := by
  refine agrees_bind (agrees_modify (fun _ => rfl) fun _ => ⟨rfl, rfl, rfl⟩)
    fun _ => agrees_bind agrees_release fun _ =>
      agrees_bind agrees_pump fun more => ?_
  split
  · exact agrees_pure _
  · exact agrees_fail _

theorem agrees_takeSend (octets : Nat) : Agrees (takeSend octets) :=
  agrees_get_bind (fun _ => rfl) fun _ => agrees_bind (agrees_lift _) fun _ =>
    agrees_modify (fun _ => rfl) fun _ => ⟨rfl, rfl, rfl⟩

theorem agrees_takeStreamSend (id octets : Nat) :
    Agrees (takeStreamSend id octets) := by
  refine agrees_get_bind (fun _ => rfl) fun connection => ?_
  split
  · exact agrees_pure _
  · exact agrees_bind (agrees_lift _) fun _ =>
      agrees_modify (fun _ => rfl) fun _ => ⟨rfl, rfl, rfl⟩

theorem agrees_sendStep
    (id : Nat)
    (ends : Bool)
    (rest : List UInt8) :
    Agrees (sendStep id ends rest) := by
  refine agrees_get_bind (fun _ => rfl) fun connection =>
    agrees_bind (agrees_lift _) fun available => ?_
  simp only
  split
  · exact agrees_bind agrees_stall fun _ => agrees_pure _
  · exact agrees_bind (agrees_emit _) fun _ =>
      agrees_bind (agrees_takeSend _) fun _ =>
        agrees_bind (agrees_takeStreamSend _ _) fun _ => agrees_pure _

/-- The loop that sends a body by its first turn. -/
theorem sendLoop_eq
    (id : Nat)
    (ends : Bool)
    (rest : List UInt8) :
    sendLoop id ends rest =
      sendStep id ends rest >>= fun left =>
        match left with
        | none => pure ()
        | some later => sendLoop id ends later := by
  funext connection
  show sendFrom id ends rest connection = _
  rw [sendFrom, bind_apply]
  rcases sendStep id ends rest connection with ⟨_ | _ | later, after⟩ <;> rfl

theorem follows_sendLoop
    (id : Nat)
    (ends : Bool)
    (rest : List UInt8)
    (connection : Connection) :
    Follows connection (sendLoop id ends rest connection).2 := by
  show Follows connection (sendFrom id ends rest connection).2
  fun_induction sendFrom id ends rest connection with
  | case1 rest connection failure after runs =>
      have follows := (agrees_sendStep id ends rest).follows connection
      rwa [runs] at follows
  | case2 rest connection after runs =>
      have follows := (agrees_sendStep id ends rest).follows connection
      rwa [runs] at follows
  | case3 rest connection later after runs inductionHypothesis =>
      have follows := (agrees_sendStep id ends rest).follows connection
      rw [runs] at follows
      exact follows.trans inductionHypothesis

theorem agreesAt_sendLoop
    (id : Nat)
    (ends : Bool)
    (rest : List UInt8)
    (holding plain : Connection) :
    AgreesAt (sendLoop id ends rest) holding plain := by
  have follows : ∀ (left : Option (List UInt8)) (connection : Connection),
      Follows connection ((match left with
        | none => pure ()
        | some later => sendLoop id ends later : Action Unit) connection).2 := by
    intro left connection
    cases left with
    | none => exact follows_of_same rfl rfl rfl
    | some later => exact follows_sendLoop id ends later connection
  fun_induction sendFrom id ends rest holding generalizing plain with
  | case1 rest holding failure after runs =>
      rw [sendLoop_eq]
      refine agreesAt_bind (agrees_sendStep id ends rest) follows ?_
      intro value between other ran
      rw [runs] at ran
      cases ran
  | case2 rest holding after runs =>
      rw [sendLoop_eq]
      refine agreesAt_bind (agrees_sendStep id ends rest) follows ?_
      intro value between other ran
      rw [runs] at ran
      cases ran
      exact (agrees_pure ()).agree
  | case3 rest holding later after runs inductionHypothesis =>
      rw [sendLoop_eq]
      refine agreesAt_bind (agrees_sendStep id ends rest) follows ?_
      intro value between other ran
      rw [runs] at ran
      cases ran
      exact inductionHypothesis other

theorem agrees_sendData
    (id : Nat)
    (body : List UInt8)
    (ends : Bool) :
    Agrees (sendData id body ends) :=
  agrees_bind ⟨follows_sendLoop id ends body, agreesAt_sendLoop id ends body _ _⟩
    fun _ => agrees_endLocally ends id

end Connection

/-- A part of what is built: a header block or a body, on its stream. -/
inductive Part
  | headers (id : Nat) (fields : List Field) (ends : Bool)
  | data (id : Nat) (body : List UInt8) (ends : Bool)
  deriving DecidableEq

namespace Part

/-- One part sent. -/
def send : Part → Action Unit
  | headers id fields ends => Connection.sendHeaders id fields ends
  | data id body ends => Connection.sendData id body ends

/-- One part after another, up to the first that fails. -/
def build : List Part → Action Unit
  | [] => pure ()
  | part :: rest => do
      part.send
      build rest

end Part

namespace Connection

open Fallible
open Wire (Accepted)

theorem agrees_build (parts : List Part) : Agrees (Part.build parts) := by
  induction parts with
  | nil => exact agrees_pure _
  | cons part rest inductionHypothesis =>
      refine agrees_bind ?_ fun _ => inductionHypothesis
      cases part with
      | headers id fields ends => exact agrees_sendHeaders id fields ends
      | data id body ends => exact agrees_sendData id body ends

/-! ## Reading with nothing held -/

/-- One thing a build does: a change inside the connection that is no event, a
frame emitted, what is held written, or a frame read and handled, for which
nothing may be held. -/
inductive Passes : Connection → Connection → Prop
  | inside {connection after : Connection}
      (wire : after.wire = connection.wire)
      (held : after.held = connection.held)
      (events : after.events = connection.events) :
      Passes connection after
  | emitted (connection : Connection) (frame : Frame) :
      Passes connection (emit frame connection).2
  | released (connection : Connection) :
      Passes connection (release connection).2
  | pumped (connection : Connection)
      (nothing : connection.held.getD [] = []) :
      Passes connection (pump connection).2

theorem passes_stall : Runs Passes stall := by
  refine runs_bind (runs_modify fun _ => .inside rfl rfl rfl) fun _ connection => ?_
  have writes := Passes.released connection
  have nothing := held_release connection
  rw [bind_apply]
  split
  next after runs =>
    rw [runs] at writes nothing
    have reads := Passes.pumped after nothing
    refine .head writes ?_
    rw [bind_apply]
    split
    next more read ran =>
      rw [ran] at reads
      split
      · exact .single reads
      · exact .single reads
    next ran =>
      rw [ran] at reads
      exact .single reads
  next runs =>
    rw [runs] at writes
    exact .single writes

theorem passes_emitPieces
    (id : Nat)
    (ends : Bool)
    (kind : Kind)
    (pieces : List (List UInt8)) :
    Runs Passes (emitPieces id ends kind pieces) := by
  induction pieces generalizing kind with
  | nil => exact runs_pure _
  | cons piece rest inductionHypothesis =>
      exact runs_bind (fun connection => .single (.emitted connection _))
        fun _ => inductionHypothesis _

theorem passes_endLocally
    (ends : Bool)
    (id : Nat) :
    Runs Passes (if ends then modify fun connection => connection.endLocally id
      else pure () : Action Unit) := by
  split
  · exact runs_modify fun _ => .inside rfl rfl rfl
  · exact runs_pure _

theorem passes_sendHeaders
    (id : Nat)
    (fields : List Field)
    (ends : Bool) :
    Runs Passes (sendHeaders id fields ends) :=
  runs_bind (fun _ => .single (.inside rfl rfl rfl)) fun _ => runs_bind runs_get
    fun _ => runs_bind (passes_emitPieces _ _ _ _) fun _ =>
      passes_endLocally ends id

theorem passes_sendPiece
    (id : Nat)
    (ends : Bool)
    (rest : List UInt8)
    (most : Nat) :
    Runs Passes (sendPiece id ends rest most) := by
  refine runs_bind (fun connection => .single (.emitted connection _))
    fun _ => runs_bind ?_ fun _ => runs_bind ?_ fun _ => runs_pure _
  · exact runs_bind runs_get fun _ => runs_bind (runs_lift _) fun _ =>
      runs_modify fun _ => .inside rfl rfl rfl
  · refine runs_bind runs_get fun connection => ?_
    split
    · exact runs_pure _
    · exact runs_bind (runs_lift _) fun _ => runs_modify fun _ => .inside rfl rfl rfl

theorem passes_sendStep
    (id : Nat)
    (ends : Bool)
    (rest : List UInt8) :
    Runs Passes (sendStep id ends rest) := by
  refine runs_bind runs_get fun connection => runs_bind (runs_lift _)
    fun available => ?_
  simp only
  split
  · exact runs_bind passes_stall fun _ => runs_pure _
  · exact passes_sendPiece id ends rest _

theorem passes_sendLoop
    (id : Nat)
    (ends : Bool)
    (rest : List UInt8) :
    Runs Passes (sendLoop id ends rest) := by
  intro connection
  show Relation.ReflTransGen Passes connection
    (sendFrom id ends rest connection).2
  fun_induction sendFrom id ends rest connection with
  | case1 rest connection failure after runs =>
      have passes := passes_sendStep id ends rest connection
      rwa [runs] at passes
  | case2 rest connection after runs =>
      have passes := passes_sendStep id ends rest connection
      rwa [runs] at passes
  | case3 rest connection later after runs inductionHypothesis =>
      have passes := passes_sendStep id ends rest connection
      rw [runs] at passes
      exact passes.trans inductionHypothesis

/-- A build reads only while nothing is held. -/
theorem passes_build (parts : List Part) : Runs Passes (Part.build parts) := by
  induction parts with
  | nil => exact runs_pure _
  | cons part rest inductionHypothesis =>
      refine runs_bind ?_ fun _ => inductionHypothesis
      cases part with
      | headers id fields ends => exact passes_sendHeaders id fields ends
      | data id body ends =>
          exact runs_bind (passes_sendLoop id ends body) fun _ =>
            passes_endLocally ends id

/-- The same connection over another script of what becomes of its writes. -/
def rescripted (connection : Connection) (accepts : List Acceptance) : Connection :=
  { connection with wire := { connection.wire with accepts } }

/-- The start of a build that holds its frames, beside one that does not. -/
theorem alike_rescripted
    {connection : Connection}
    (unheld : connection.held = none)
    (accepts : List Acceptance) :
    Alike { connection with held := some [] } (connection.rescripted accepts) :=
  ⟨rfl, rfl, unheld, (List.append_nil _).symm⟩

/-- The end of a build that held its frames, beside one that did not. -/
theorem alike_release
    {holding plain : Connection}
    (alike : Alike holding plain)
    (accepted : Accepted holding.wire.accepts
      (release holding).2.wire.accepts) :
    (release holding).1 = .ok () ∧ Alike (release holding).2 plain := by
  have idle : release plain = (.ok (), plain) := by
    rw [release_apply, alike.unheld]
  have plainAccepted : Accepted plain.wire.accepts
      (release plain).2.wire.accepts := by
    rw [idle]
    exact Wire.accepted_refl _
  have agree := agrees_release.agree alike accepted plainAccepted
  rw [idle] at agree
  exact agree

/-- Holding the frames of a build changes nothing but the write boundaries: the
outcome and the connection are those of the build that writes each frame at
once, what is written is what the frames emitted encode to, a `GOAWAY` over a
violation among them, nothing is held afterwards, and every frame is read while
nothing is held. -/
theorem together_build
    (connection : Connection)
    (parts : List Part)
    (accepts : List Acceptance)
    (unheld : connection.held = none)
    (accepted : Accepted connection.wire.accepts
      (together (Part.build parts) connection).2.wire.accepts)
    (plainAccepted : Accepted accepts
      (Part.build parts (connection.rescripted accepts)).2.wire.accepts) :
    let held := together (Part.build parts) connection
    let plain := Part.build parts (connection.rescripted accepts)
    (held.1 = plain.1 ∧ bare held.2 = bare plain.2) ∧
      held.2.wire.written = plain.2.wire.written ∧
      (∃ later, held.2.events = connection.events ++ later ∧
        held.2.wire.written =
          connection.wire.written ++ (Event.sent later).flatMap Frame.encode ∧
        ∀ violation, .breached violation ∈ later →
          ∃ last, Frame.goaway last violation.code
            (Text.octets violation.message) ∈ Event.sent later) ∧
      held.2.held = none ∧
      Relation.ReflTransGen Passes { connection with held := some [] }
        (Part.build parts { connection with held := some [] }).2 := by
  have builds := agrees_build parts
  have follows := builds.follows { connection with held := some [] }
  have passes := passes_build parts { connection with held := some [] }
  rw [together_apply] at accepted ⊢
  simp only at accepted ⊢
  generalize made : Part.build parts { connection with held := some [] } = built
    at accepted follows passes ⊢
  have releases := follows_release built.2
  have nothing := held_release built.2
  obtain ⟨before, after⟩ := accepted.split follows.uses releases.uses
  obtain ⟨outcome, reached⟩ := builds.agree (alike_rescripted unheld accepts)
    (by rw [made]; exact before) plainAccepted
  rw [made] at outcome reached
  obtain ⟨written, ended⟩ := alike_release reached after
  have octets : (Part.build parts (connection.rescripted accepts)).2.wire.written =
      (release built.2).2.wire.written := by
    rw [ended.octets, nothing, List.append_nil]
  obtain ⟨later, events, announced, tally⟩ := (follows.trans releases).grows
  refine ⟨⟨?_, ended.same⟩, octets.symm, ⟨later, events, ?_, announced⟩, trivial,
    passes⟩
  · rw [← outcome, written]
    cases built.1 <;> rfl
  · have total := tally accepted
    rw [nothing] at total
    simp only [List.append_nil, Option.getD_some] at total
    exact total

/-- A client with one octet of its connection's window left, whose peer's
settings and grant are still to be read. -/
def stallingStart : Connection :=
  { (initial
      { incoming := [.octets ((⟨.settings, 0, 0, []⟩ : Frame).encode ++
          (Frame.windowUpdate 0 5).encode)]
        accepts := [.taken, .taken]
        written := [] } true).openStream 1 with
    send := .new 1 }

/-- A head and a body of three octets. -/
def stallingParts : List Part :=
  [.headers 1 [⟨":method", "GET"⟩] false, .data 1 [7, 8, 9] true]

/-- A build that stalls twice writes what it would without holding. -/
theorem together_build_stalling :
    (together (Part.build stallingParts) stallingStart).2.stalls = 2 ∧
      (together (Part.build stallingParts) stallingStart).2.wire.written =
        (Part.build stallingParts (stallingStart.rescripted [])).2.wire.written := by
  have ran : (together (Part.build stallingParts) stallingStart).2.stalls = 2 ∧
      (together (Part.build stallingParts) stallingStart).2.wire.accepts = [] ∧
      (Part.build stallingParts (stallingStart.rescripted [])).2.wire.accepts =
        [] := by
    decide +kernel
  obtain ⟨stalls, accepts, plainAccepts⟩ := ran
  refine ⟨stalls, (together_build stallingStart stallingParts [] rfl ?_ ?_).2.1⟩
  · rw [accepts]
    exact ⟨[.taken, .taken], rfl, by decide⟩
  · rw [plainAccepts]
    exact Wire.accepted_refl []

end Connection
end Http2
end XmipNet
