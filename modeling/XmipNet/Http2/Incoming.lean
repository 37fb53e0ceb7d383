import XmipNet.Http2.Framing
import XmipNet.Http2.InFlight
import XmipNet.Http2.Mishaps

/-!
# The frames of a message as its peer hears them

A connection whose writes go through reads the frames that come, one after
another, and takes each. A `DATA` within its windows grows the body of a record
that stands, a header block in any pieces is put together and heads the record,
and all this side answers is the octets given back.
-/

namespace XmipNet
namespace Http2

open Hpack (Field)
open Wire (Delivers)

namespace Event

/-- A frame that arrived, or octets given back. -/
def Placid : Event → Prop
  | received _ => True
  | emitted frame => frame.kind = .windowUpdate
  | passedOver _ | breached _ => False

end Event

open Core in
/-- A `DATA` that is taken is taken from the connection's window and does on its
stream what `Extends` says. -/
theorem Took.extends
    {frame : Frame}
    {sight after : Sight}
    (took : Took frame sight after)
    (kind : frame.kind = .data) :
    ∃ core, Extends frame (sight.core.regain frame.payload.length) core ∧
      after = { sight with core := core } := by
  have unassembled {block : Nat × List UInt8 × Bool}
      (assembles : sight.core.assembled frame = some block) : False := by
    rcases kind_of_assembled assembles with other | other
    · rw [kind] at other
      cases other
    · rw [kind] at other
      cases other
  cases took with
  | data _ unbroken room opened carries => exact ⟨_, carries, rfl⟩
  | waiting assembles => exact (unassembled assembles).elim
  | decoded assembles => exact (unassembled assembles).elim
  | unheard other => simp [kind] at other
  | spoiled _ other => simp [kind] at other
  | reset _ other => simp [kind] at other
  | settings other => simp [kind] at other
  | pinged other => simp [kind] at other
  | ponged other => simp [kind] at other
  | wentAway other => simp [kind] at other
  | granted other => simp [kind] at other

/-- A header block that goes on is held, and one that is whole is decoded and
does on its stream what `Heads` says. -/
theorem Took.assembles
    {frame : Frame}
    {sight after : Sight}
    (took : Took frame sight after)
    {id : Nat}
    {octets : List UInt8}
    {ends : Bool}
    (assembles : sight.core.assembled frame = some (id, octets, ends)) :
    (frame.has endHeaders = false ∧ after = { sight with
      core := { sight.core with
        continuing := some { stream := id, block := octets, ends } } }) ∨
    (frame.has endHeaders = true ∧ ∃ core fields decoder,
      sight.decoder.decode octets = (.ok fields, decoder) ∧
        Core.Heads id fields ends { sight.core with continuing := none } core ∧
          after = { sight with core := core, decoder := decoder }) := by
  have kind := Core.kind_of_assembled assembles
  cases took with
  | waiting assembled onward short =>
      rw [assembles] at assembled
      cases assembled
      exact Or.inl ⟨onward, rfl⟩
  | decoded assembled whole decodes heads =>
      rw [assembles] at assembled
      cases assembled
      exact Or.inr ⟨whole, _, _, _, decodes, heads, rfl⟩
  | data other => simp [other] at kind
  | unheard other => rcases other with other | other | other | ⟨_, other⟩ <;>
      simp [other] at kind
  | spoiled _ other => rcases other with other | other <;>
      simp [other] at kind
  | reset _ other => simp [other] at kind
  | settings other => simp [other] at kind
  | pinged other => simp [other] at kind
  | ponged other => simp [other] at kind
  | wentAway other => simp [other] at kind
  | granted other => simp [other] at kind

namespace Connection

open Fallible Core

/-! ## Reading one frame after another -/

/-- No write of the connection's fails: what it emits is held, or every write to
come goes through. -/
def Unfailing (connection : Connection) : Prop :=
  connection.held.isSome = true ∨
    ∀ acceptance ∈ connection.wire.accepts, acceptance = .taken

theorem Unfailing.writes
    {connection : Connection}
    (unfailing : Unfailing connection)
    (count : Nat) :
    Writes connection count :=
  unfailing.imp_right fun taken acceptance member =>
    taken acceptance (List.mem_of_mem_take member)

theorem Unfailing.of_suffix
    {connection after : Connection}
    (unfailing : Unfailing connection)
    (held : after.held.isSome = connection.held.isSome)
    (fewer : after.wire.accepts <:+ connection.wire.accepts) :
    Unfailing after :=
  unfailing.imp held.trans fun taken acceptance member =>
    taken acceptance (fewer.subset member)

theorem Unfailing.of_emits
    {ε α : Type}
    {action : Fallible Connection ε α}
    (emits : Runs Emission action)
    {connection : Connection}
    (unfailing : Unfailing connection) :
    Unfailing (action connection).2 :=
  unfailing.of_suffix
    (congrArg (fun view => view.2.2.2) (keeps_fixed_of_emits emits connection))
    (accepts_of_emits emits connection)

/-- A connection that takes the frames that come: the peer's settings have been
seen, no write fails, and the frame size is one that can be announced. -/
structure Hears (connection : Connection) : Prop where
  seen : connection.settingsSeen = true
  unfailing : Unfailing connection
  small : connection.localSettings.maxFrameSize < 2 ^ 24
  waits : Waits connection.core

/-- A frame that breaches nothing is taken. -/
theorem take_of_tolerates
    {connection : Connection}
    (unfailing : Unfailing connection)
    {frame : Frame}
    (tolerates : Tolerates connection frame) :
    (take frame connection).1 = .ok () := by
  rw [Tolerates] at tolerates
  rw [take, modify_bind_apply, bind_apply, attempt_apply]
  have handled : Unfailing
      (handle frame (connection.log (.received frame))).2 :=
    Unfailing.of_emits (emits_handle frame)
      (show Unfailing (connection.log (.received frame)) from unfailing)
  rcases runs : handle frame (connection.log (.received frame)) with
    ⟨outcome, after⟩
  rw [runs] at tolerates handled
  rcases outcome with (violation | ⟨id, violation⟩) | _
  · exact absurd rfl (tolerates violation)
  · have marked : Unfailing (after.markReset id violation.code) := handled
    exact (emit_of_writes (marked.writes 1) _).1
  · rfl

/-- One frame read off what comes, and taken. -/
structure Heard (frame : Frame) (rest : List UInt8)
    (connection after : Connection) : Prop where
  reads : ∃ wire, Frame.read connection.wire
    connection.localSettings.maxFrameSize = (.ok (some frame), wire)
  pumps : pump connection = (.ok true, after)
  took : Took frame (connection.sight.log (.received frame)) after.sight
  unfailing : Unfailing after
  delivers : Delivers after.wire.incoming rest

/-- A frame that comes first and breaches nothing is heard. -/
theorem heard_of_tolerates
    {connection : Connection}
    (hears : Hears connection)
    {frame : Frame}
    (sendable : frame.Sendable connection.localSettings.maxFrameSize)
    {rest : List UInt8}
    (delivers : Delivers connection.wire.incoming (frame.encode ++ rest))
    (tolerates : ∀ wire, wire.accepts = connection.wire.accepts →
      Tolerates { connection with wire } frame) :
    ∃ after, Heard frame rest connection after := by
  obtain ⟨wire, reads, left⟩ :=
    Frame.read_of_delivers hears.small sendable delivers
  have accepts := accepts_read connection.wire
    connection.localSettings.maxFrameSize
  rw [reads] at accepts
  have tolerated := tolerates wire accepts
  have unfailing : Unfailing { connection with wire } :=
    hears.unfailing.of_suffix rfl ⟨[], accepts⟩
  have taken := take_of_tolerates unfailing tolerated
  have bounded : frame.stream ≤ maxStreamId := Nat.le_of_lt_succ sendable.stream
  have reading : Waits { connection with wire }.core := hears.waits
  have took := tolerated.took bounded reading
  have still := Unfailing.of_emits (emits_take frame) unfailing
  have incoming : (take frame { connection with wire }).2.wire.incoming =
      wire.incoming :=
    congrArg Prod.fst
      (keeps_fixed_of_emits (emits_take frame) { connection with wire })
  rcases runs : take frame { connection with wire } with ⟨outcome, after⟩
  rw [runs] at taken took still incoming
  rw [show outcome = .ok () from taken] at runs
  refine ⟨after, ⟨wire, reads⟩, ?_, took, still, ?_⟩
  · rw [pump_apply, reads]
    simp only [runs]
  · rw [show after.wire.incoming = wire.incoming from incoming]
    exact left

theorem Heard.hears
    {frame : Frame}
    {rest : List UInt8}
    {connection after : Connection}
    (heard : Heard frame rest connection after)
    (hears : Hears connection) :
    Hears after := by
  have moved := moves_pump hears.waits
  have kept := keeps_steady_pump connection
  rw [Moves] at moved
  rw [heard.pumps] at moved kept
  have settings : after.localSettings = connection.localSettings :=
    congrArg (fun view => view.2.1) kept
  exact ⟨Steps.settingsSeen moved hears.seen, heard.unfailing,
    settings ▸ hears.small, moved.waits hears.waits⟩

/-- Frames read off what comes and taken, one after another. -/
inductive Hearing : List Frame → Connection → Connection → Prop
  | nil (connection : Connection) : Hearing [] connection connection
  | cons {frame : Frame} {frames : List Frame}
      {connection middle after : Connection}
      (reads : ∃ wire, Frame.read connection.wire
        connection.localSettings.maxFrameSize = (.ok (some frame), wire))
      (pumps : pump connection = (.ok true, middle))
      (later : Hearing frames middle after) :
      Hearing (frame :: frames) connection after

theorem Hearing.append
    {frames more : List Frame}
    {connection middle after : Connection}
    (first : Hearing frames connection middle)
    (second : Hearing more middle after) :
    Hearing (frames ++ more) connection after := by
  induction first with
  | nil => exact second
  | cons reads pumps _ inductionHypothesis =>
      exact .cons reads pumps (inductionHypothesis second)

theorem Heard.hearing
    {frame : Frame}
    {rest : List UInt8}
    {connection after : Connection}
    (heard : Heard frame rest connection after) :
    Hearing [frame] connection after :=
  .cons heard.reads heard.pumps (.nil after)

/-- What hearing a message leaves as it was: what this side announced and the
room it gives, and nothing is answered but the octets given back. -/
structure Attuned (connection after : Connection) : Prop where
  settings : after.localSettings = connection.localSettings
  receive : after.receive.value = connection.receive.value
  events : ∃ later, after.events = connection.events ++ later ∧
    ∀ event ∈ later, event.Placid

theorem Attuned.trans
    {connection middle after : Connection}
    (first : Attuned connection middle)
    (second : Attuned middle after) :
    Attuned connection after := by
  obtain ⟨later, grown, placid⟩ := first.events
  obtain ⟨more, further, calm⟩ := second.events
  refine ⟨second.settings.trans first.settings,
    second.receive.trans first.receive, later ++ more, ?_, ?_⟩
  · rw [further, grown, List.append_assoc]
  · exact List.forall_mem_append.mpr ⟨placid, calm⟩

/-! ## A `DATA` -/

/-- The record of `id` stands: the stream is not reset, and the windows are
windows. -/
structure Stands (connection : Connection) (id : Nat) (stream : Stream) :
    Prop where
  hears : Hears connection
  idle : connection.continuing = none
  placed : id ≠ 0
  bounded : id ≤ maxStreamId
  known : id ≤ connection.highest
  found : connection.streams[id]? = some stream
  live : stream.reset = none
  capped : connection.receive.value ≤ maxStreamId
  cappedOn : stream.receive.value ≤ maxStreamId

/-- A record grown by a `DATA`. -/
structure Grown (frame : Frame) (stream changed : Stream) : Prop where
  same : changed = { stream with
    body := stream.body ++ frame.payload
    state :=
      if frame.has endStream then stream.state.endedRemotely else stream.state
    receive := changed.receive }
  room : frame.has endStream = false →
    changed.receive.value = stream.receive.value
  less : changed.receive.value ≤ stream.receive.value

/-- A `DATA` with room in both windows is tolerated. -/
theorem Stands.tolerates
    {connection : Connection}
    {id : Nat}
    {stream : Stream}
    (stands : Stands connection id stream)
    {frame : Frame}
    (kind : frame.kind = .data)
    (onStream : frame.stream = id)
    (content : frame.content = .ok frame.payload)
    (sized : frame.payload.length ≤ connection.localSettings.maxFrameSize)
    (room : frame.payload.length ≤ connection.receive.value) :
    Tolerates connection frame := by
  have small : frame.payload.length < 2 ^ 32 :=
    (sized.trans_lt stands.hears.small).trans (by decide)
  rw [tolerates_iff_of_data connection kind stands.hears.seen
    (onStream ▸ stands.placed)]
  refine ⟨stands.idle, ?_⟩
  have found (record : Stream)
      (there : (connection.log (.received frame)).streams[frame.stream]? =
        some record) :
      record = stream := by
    rw [onStream] at there
    exact Option.some.inj (there.symm.trans stands.found)
  rw [tolerable_data_iff (connection.log (.received frame)) stands.capped
    (fun record there => found record there ▸ stands.cappedOn) room small]
  have unfailing : Unfailing (connection.log (.received frame)) :=
    stands.hears.unfailing
  refine ⟨onStream ▸ stands.known, fun _ => unfailing.writes 1, ?_⟩
  exact fun record there _ _ _ =>
    ⟨frame.payload, content, fun _ _ _ => unfailing.writes 2⟩

/-- What a `DATA` that its record accepts does. -/
theorem grown_of_extends
    {frame : Frame}
    {core after : Core}
    (carries : Extends frame core after)
    {stream : Stream}
    (found : core.streams[frame.stream]? = some stream)
    (live : stream.reset = none)
    (receiving : stream.state.receiving = true)
    (content : frame.content = .ok frame.payload)
    (small : frame.payload.length < 2 ^ 32)
    (room : frame.payload.length ≤ stream.receive.value)
    (within : stream.body.length + frame.payload.length ≤ maxBody) :
    ∃ changed streams later, Grown frame stream changed ∧
      streams[frame.stream]? = some changed ∧
        after = { core with streams, events := core.events ++ later } ∧
          ∀ event ∈ later, event.Placid := by
  have same {record : Stream} {octets : List UInt8}
      (accepts : Accepts core frame record octets) :
      record = stream ∧ octets = frame.payload :=
    ⟨Option.some.inj (accepts.found.symm.trans found),
      Except.ok.inj (accepts.holds.symm.trans content)⟩
  have whole : incrementOf frame.payload.length = frame.payload.length :=
    if_pos small
  cases carries with
  | letGo there dead =>
      cases there.symm.trans found
      rw [live] at dead
      cases dead
  | spoiled code shut =>
      rcases shut stream found live with closed | short
      · rw [receiving] at closed
        cases closed
      · omega
  | overBody accepts exceeds sets =>
      obtain ⟨rfl, rfl⟩ := same accepts
      omega
  | ended accepts fits ends sets =>
      obtain ⟨rfl, rfl⟩ := same accepts
      refine ⟨_, _, [], ⟨?_, fun stays => ?_, ?_⟩, sets.own, ?_, ?_⟩
      · rw [if_pos ends]
      · rw [ends] at stays
        cases stays
      · simp only
        omega
      · rw [List.append_nil]
      · exact fun _ member => by cases member
  | grown accepts fits stays positive sets =>
      obtain ⟨rfl, rfl⟩ := same accepts
      refine ⟨_, _, _, ⟨?_, fun _ => ?_, ?_⟩, sets.own, rfl, ?_⟩
      · rw [if_neg (by rw [stays]; exact Bool.false_ne_true)]
      · simp only [whole, sub_add_cancel]
      · simp only [whole, sub_add_cancel, le_refl]
      · intro event member
        cases List.mem_singleton.mp member
        exact rfl
  | empty accepts fits stays none sets =>
      obtain ⟨rfl, rfl⟩ := same accepts
      refine ⟨_, _, [], ⟨?_, fun _ => ?_, ?_⟩, sets.own, ?_, ?_⟩
      · rw [if_neg (by rw [stays]; exact Bool.false_ne_true)]
      · rfl
      · exact le_refl _
      · rw [List.append_nil]
      · exact fun _ member => by cases member

/-- The connection's window is given back what a `DATA` took. -/
theorem regain_eq
    (core : Core)
    {length : Nat}
    (small : length < 2 ^ 32) :
    ∃ later, core.regain length =
        { core with events := core.events ++ later } ∧
      ∀ event ∈ later, event.Placid := by
  rw [regain, incrementOf, if_pos small]
  split
  · refine ⟨[.emitted (.windowUpdate 0 length)], ?_, ?_⟩
    · simp only [Core.log, sub_add_cancel]
    · intro event member
      cases List.mem_singleton.mp member
      exact rfl
  · refine ⟨[], ?_, fun _ member => by cases member⟩
    rw [List.append_nil]

/-- A `DATA` with room in both windows grows the body of its record. -/
theorem Stands.data
    {connection : Connection}
    {id : Nat}
    {stream : Stream}
    (stands : Stands connection id stream)
    (receiving : stream.state.receiving = true)
    {frame : Frame}
    (kind : frame.kind = .data)
    (onStream : frame.stream = id)
    (content : frame.content = .ok frame.payload)
    (sized : frame.payload.length ≤ connection.localSettings.maxFrameSize)
    (room : frame.payload.length ≤ connection.receive.value)
    (roomOn : frame.payload.length ≤ stream.receive.value)
    (within : stream.body.length + frame.payload.length ≤ maxBody)
    {rest : List UInt8}
    (delivers : Delivers connection.wire.incoming (frame.encode ++ rest)) :
    ∃ after changed, Heard frame rest connection after ∧
      Stands after id changed ∧ Attuned connection after ∧
        after.decoder = connection.decoder ∧ Grown frame stream changed := by
  have small : frame.payload.length < 2 ^ 32 :=
    (sized.trans_lt stands.hears.small).trans (by decide)
  have sendable : frame.Sendable connection.localSettings.maxFrameSize :=
    ⟨sized, by rw [onStream]; exact Nat.lt_succ_of_le stands.bounded,
      0, by rw [kind]; rfl⟩
  obtain ⟨after, heard⟩ := heard_of_tolerates stands.hears sendable delivers
    fun wire accepts => by
      have reading : Stands { connection with wire } id stream :=
        { stands with
          hears := { stands.hears with
            unfailing := stands.hears.unfailing.of_suffix rfl
              ⟨[], accepts⟩ } }
      exact reading.tolerates kind onStream content sized room
  obtain ⟨core, carries, same⟩ := heard.took.extends kind
  obtain ⟨given, regains, placid⟩ := regain_eq
    (connection.sight.log (.received frame)).core small
  rw [regains] at carries
  obtain ⟨changed, streams, later, grown, own, made, calm⟩ :=
    grown_of_extends carries (onStream ▸ stands.found) stands.live receiving
      content small roomOn within
  have cores : after.core = core := congrArg Sight.core same
  rw [made] at cores
  refine ⟨after, changed, heard, ?_, ?_, ?_, grown⟩
  · exact
      { hears := heard.hears stands.hears
        idle := (congrArg Core.continuing cores).trans stands.idle
        placed := stands.placed
        bounded := stands.bounded
        known := stands.known.trans (congrArg Core.highest cores).ge
        found := by
          have table : after.streams = streams := congrArg Core.streams cores
          rw [table, ← onStream]
          exact own
        live := by
          rw [grown.same]
          exact stands.live
        capped := by
          have receive : after.receive = connection.receive :=
            congrArg Core.receive cores
          rw [receive]
          exact stands.capped
        cappedOn := grown.less.trans stands.cappedOn }
  · refine ⟨congrArg Core.localSettings cores,
      congrArg Window.value (congrArg Core.receive cores),
      [.received frame] ++ given ++ later, ?_, ?_⟩
    · refine (congrArg Core.events cores).trans ?_
      simp only [Sight.log, Core.log, List.append_assoc]
      rfl
    · refine List.forall_mem_append.mpr
        ⟨List.forall_mem_append.mpr ⟨?_, placid⟩, calm⟩
      intro event member
      cases List.mem_singleton.mp member
      exact trivial
  · exact congrArg Sight.decoder same

/-! ## A header block -/

theorem has_endHeaders_pieceFrame
    (id : Nat)
    (kind : Kind)
    (ends last : Bool)
    (piece : List UInt8) :
    (pieceFrame id kind ends last piece).has endHeaders = last := by
  simp only [Frame.has, pieceFrame]
  by_cases asked : kind = .headers ∧ ends = true
  · rw [if_pos asked]
    cases last <;> decide
  · rw [if_neg asked]
    cases last <;> decide

theorem has_endStream_pieceFrame
    (id : Nat)
    (ends last : Bool)
    (piece : List UInt8) :
    (pieceFrame id .headers ends last piece).has endStream = ends := by
  simp only [Frame.has, pieceFrame, true_and]
  cases ends <;> cases last <;> decide

theorem content_pieceFrame
    (id : Nat)
    (ends last : Bool)
    (piece : List UInt8) :
    (pieceFrame id .headers ends last piece).content = .ok piece := by
  refine Frame.content_of_plain ?_ fun _ => ?_
  · simp only [Frame.has, pieceFrame, true_and]
    cases ends <;> cases last <;> decide
  · simp only [Frame.has, pieceFrame, true_and]
    cases ends <;> cases last <;> decide

/-- A block on `id` has come so far as `octets` and goes on with a frame of
`kind`, or begins with it. -/
inductive Halfway (connection : Connection) (id : Nat) (ends : Bool) :
    Kind → List UInt8 → Prop
  | first
      (idle : connection.continuing = none) :
      Halfway connection id ends .headers []
  | onward {octets : List UInt8}
      (waits : connection.continuing =
        some { stream := id, block := octets, ends }) :
      Halfway connection id ends .continuation octets

theorem Halfway.assembled
    {connection : Connection}
    {id : Nat}
    {ends : Bool}
    {kind : Kind}
    {octets : List UInt8}
    (halfway : Halfway connection id ends kind octets)
    (last : Bool)
    (piece : List UInt8) :
    connection.core.assembled (pieceFrame id kind ends last piece) =
        some (id, octets ++ piece, ends) ∧
      connection.interrupts (pieceFrame id kind ends last piece) = false := by
  cases halfway with
  | first idle =>
      refine ⟨?_, ?_⟩
      · rw [Core.assembled]
        simp only [pieceFrame]
        have content := content_pieceFrame id ends last piece
        simp only [pieceFrame] at content
        rw [content]
        simp only [List.nil_append]
        have ended := has_endStream_pieceFrame id ends last piece
        simp only [pieceFrame] at ended
        rw [ended]
      · rw [Connection.interrupts, idle]
  | onward waits =>
      have waiting : connection.core.continuing =
          some { stream := id, block := octets, ends } := waits
      refine ⟨?_, ?_⟩
      · rw [Core.assembled]
        simp only [pieceFrame, waiting, Option.map_some]
      · rw [Connection.interrupts, waits]
        simp [pieceFrame]

/-- What a header block on `id` heads: a record that is not reset, or the one a
stream gets that the peer opens. -/
inductive Expects (core : Core) (id : Nat) : Stream → Prop
  | standing {stream : Stream}
      (placed : id ≠ 0)
      (bounded : id ≤ maxStreamId)
      (known : id ≤ core.highest)
      (found : core.streams[id]? = some stream)
      (live : stream.reset = none) :
      Expects core id stream
  | fresh
      (opens : Opens core id)
      (staying : core.goingAway = false)
      (fits : core.openCount < core.mostStreams) :
      Expects core id (.new core.remoteSettings.initialWindowSize
        core.localSettings.initialWindowSize)

theorem Expects.placed
    {core : Core}
    {id : Nat}
    {stream : Stream}
    (expects : Expects core id stream) :
    (id ≠ 0 ∧ id ≤ maxStreamId) ∧ stream.reset = none := by
  cases expects with
  | standing placed bounded known found live => exact ⟨⟨placed, bounded⟩, live⟩
  | fresh opens =>
      have odd := opens.odd
      exact ⟨⟨by omega, opens.bounded⟩, rfl⟩

/-- The frames before a block is whole leave what it heads. -/
theorem Expects.later
    {core : Core}
    {id : Nat}
    {stream : Stream}
    (expects : Expects core id stream)
    (events : List Event)
    (continuing : Option Continuing) :
    Expects { core with events, continuing } id stream := by
  cases expects with
  | standing placed bounded known found live =>
      exact .standing placed bounded known found live
  | fresh opens staying fits =>
      exact .fresh ⟨opens.server, opens.odd, opens.above, opens.absent,
        opens.seen, opens.bounded⟩ staying fits

/-- A block that its record takes heads it. -/
theorem Expects.headed
    {core after : Core}
    {id : Nat}
    {stream changed : Stream}
    (expects : Expects core id stream)
    {fields : List Field}
    {ends : Bool}
    (heads : Heads id fields ends core after)
    (checks : Message.check fields core.headerListLimit = .ok ())
    (takes : stream.headers fields ends = .ok changed) :
    ∃ streams highest lastPeer,
      after = { core with streams, highest, lastPeer } ∧
        streams[id]? = some changed ∧ id ≤ highest := by
  have checked {violation : Violation}
      (fails : Message.check fields core.headerListLimit = .error violation) :
      False := by
    rw [checks] at fails
    cases fails
  cases expects with
  | standing placed bounded known found live =>
      have absent (opens : Opens core id) : False := by
        rw [opens.absent] at found
        cases found
      cases heads with
      | malformed violation fails => exact (checked fails).elim
      | letGo _ there dead =>
          cases there.symm.trans found
          rw [live] at dead
          cases dead
      | headed _ there _ heads =>
          cases there.symm.trans found
          cases heads.symm.trans takes
          exact ⟨_, core.highest, core.lastPeer, rfl,
            NatMap.getElem?_insert_self _ _, known⟩
      | unheaded _ there _ violation fails =>
          cases there.symm.trans found
          cases fails.symm.trans takes
      | opened _ opens => exact (absent opens).elim
      | passedOver _ opens => exact (absent opens).elim
      | refused _ opens => exact (absent opens).elim
  | fresh opens staying fits =>
      have absent {record : Stream}
          (found : core.streams[id]? = some record) : False := by
        rw [opens.absent] at found
        cases found
      cases heads with
      | malformed violation fails => exact (checked fails).elim
      | letGo _ there => exact (absent there).elim
      | headed _ there => exact (absent there).elim
      | unheaded _ there => exact (absent there).elim
      | opened _ _ _ _ heads sets =>
          cases heads.symm.trans takes
          exact ⟨_, _, id, rfl, sets.own, le_max_right _ _⟩
      | passedOver _ _ leaving =>
          rw [staying] at leaving
          cases leaving
      | refused _ _ _ full => exact absurd fits (not_lt.mpr full)

/-- Another wire under the connection, its writes no worse. -/
theorem Hears.withWire
    {connection : Connection}
    (hears : Hears connection)
    {wire : Wire}
    (accepts : wire.accepts = connection.wire.accepts) :
    Hears { connection with wire } :=
  { hears with unfailing := hears.unfailing.of_suffix rfl ⟨[], accepts⟩ }

theorem Halfway.withWire
    {connection : Connection}
    {id : Nat}
    {ends : Bool}
    {kind : Kind}
    {octets : List UInt8}
    (halfway : Halfway connection id ends kind octets)
    (wire : Wire) :
    Halfway { connection with wire } id ends kind octets := by
  cases halfway with
  | first idle => exact .first idle
  | onward waits => exact .onward waits

theorem Halfway.sendable
    {connection : Connection}
    {id : Nat}
    {ends : Bool}
    {kind : Kind}
    {octets : List UInt8}
    (halfway : Halfway connection id ends kind octets)
    (bounded : id ≤ maxStreamId)
    {maxSize : Nat}
    {piece : List UInt8}
    (sized : piece.length ≤ maxSize)
    (last : Bool) :
    (pieceFrame id kind ends last piece).Sendable maxSize := by
  refine ⟨sized, Nat.lt_succ_of_le bounded, ?_⟩
  cases halfway with
  | first => exact ⟨1, rfl⟩
  | onward => exact ⟨9, rfl⟩

/-- A piece of a block that goes on is held with what came before it. -/
theorem Halfway.heard_onward
    {connection : Connection}
    (hears : Hears connection)
    {id : Nat}
    (placed : id ≠ 0)
    (bounded : id ≤ maxStreamId)
    {ends : Bool}
    {kind : Kind}
    {octets piece : List UInt8}
    (halfway : Halfway connection id ends kind octets)
    (sized : piece.length ≤ connection.localSettings.maxFrameSize)
    (short : (octets ++ piece).length ≤ maxBlock)
    {rest : List UInt8}
    (delivers : Delivers connection.wire.incoming
      ((pieceFrame id kind ends false piece).encode ++ rest)) :
    ∃ after, Heard (pieceFrame id kind ends false piece) rest connection after ∧
      after.sight = { connection.sight with
        core := { connection.core with
          events := connection.events ++
            [.received (pieceFrame id kind ends false piece)]
          continuing :=
            some { stream := id, block := octets ++ piece, ends } } } := by
  have onward := has_endHeaders_pieceFrame id kind ends false piece
  obtain ⟨after, heard⟩ := heard_of_tolerates hears
    (halfway.sendable bounded sized false) delivers fun wire accepts => by
      obtain ⟨assembles, through⟩ :=
        (halfway.withWire wire).assembled false piece
      exact tolerates_of_onward (hears.withWire accepts).seen placed assembles
        through short onward
  refine ⟨after, heard, ?_⟩
  have assembles : (connection.sight.log
      (.received (pieceFrame id kind ends false piece))).core.assembled
        (pieceFrame id kind ends false piece) =
          some (id, octets ++ piece, ends) :=
    (halfway.assembled false piece).1
  rcases heard.took.assembles assembles with ⟨_, same⟩ | ⟨whole, _⟩
  · exact same
  · rw [onward] at whole
    cases whole

/-- The last piece of a block heads the record. -/
theorem Halfway.heard_whole
    {connection : Connection}
    (hears : Hears connection)
    {id : Nat}
    {stream changed : Stream}
    (expects : Expects connection.core id stream)
    {ends : Bool}
    {kind : Kind}
    {octets piece : List UInt8}
    (halfway : Halfway connection id ends kind octets)
    (sized : piece.length ≤ connection.localSettings.maxFrameSize)
    (short : (octets ++ piece).length ≤ maxBlock)
    {fields : List Field}
    {decoder : Hpack.Decoder}
    (decodes : connection.decoder.decode (octets ++ piece) =
      (.ok fields, decoder))
    (checks : Message.check fields connection.headerListLimit = .ok ())
    (takes : stream.headers fields ends = .ok changed)
    (capped : connection.receive.value ≤ maxStreamId)
    (cappedOn : stream.receive.value ≤ maxStreamId)
    {rest : List UInt8}
    (delivers : Delivers connection.wire.incoming
      ((pieceFrame id kind ends true piece).encode ++ rest)) :
    ∃ after, Heard (pieceFrame id kind ends true piece) rest connection after ∧
      Stands after id changed ∧ Attuned connection after ∧
        after.decoder = decoder := by
  obtain ⟨⟨placed, bounded⟩, live⟩ := expects.placed
  have whole := has_endHeaders_pieceFrame id kind ends true piece
  obtain ⟨after, heard⟩ := heard_of_tolerates hears
    (halfway.sendable bounded sized true) delivers fun wire accepts => by
      obtain ⟨assembles, through⟩ :=
        (halfway.withWire wire).assembled true piece
      have trails : Trails { connection with wire }
          (pieceFrame id kind ends true piece) id fields :=
        ⟨⟨_, _, decoder, assembles, short, decodes⟩, whole, through⟩
      refine (tolerates_iff_of_trails (hears.withWire accepts).seen placed
        trails).mpr (Or.inr ?_)
      cases expects with
      | standing _ _ _ found => exact Or.inl ⟨stream, found⟩
      | fresh opens =>
          exact Or.inr ⟨opens.server, opens.odd, opens.above⟩
  have assembles : (connection.sight.log
      (.received (pieceFrame id kind ends true piece))).core.assembled
        (pieceFrame id kind ends true piece) =
          some (id, octets ++ piece, ends) :=
    (halfway.assembled true piece).1
  rcases heard.took.assembles assembles with
    ⟨onward, _⟩ | ⟨_, core, list, moved, decoded, heads, same⟩
  · rw [whole] at onward
    cases onward
  · cases decoded.symm.trans (show connection.sight.decoder.decode _ = _ from
      decodes)
    obtain ⟨streams, highest, lastPeer, made, own, known⟩ :=
      (expects.later (connection.events ++
        [.received (pieceFrame id kind ends true piece)]) none).headed heads
          checks takes
    have cores : after.core = core := congrArg Sight.core same
    rw [made] at cores
    obtain ⟨_, _, kept⟩ := Stream.headers_eq_ok takes
    have table : after.streams = streams := congrArg Core.streams cores
    have receive : after.receive = connection.receive :=
      congrArg Core.receive cores
    refine ⟨after, heard, ?_, ?_, congrArg Sight.decoder same⟩
    · exact
        { hears := heard.hears hears
          idle := congrArg Core.continuing cores
          placed
          bounded
          known := known.trans (congrArg Core.highest cores).ge
          found := table ▸ own
          live := by
            rw [kept]
            exact live
          capped := receive ▸ capped
          cappedOn := by
            rw [kept]
            exact cappedOn }
    · refine ⟨congrArg Core.localSettings cores, congrArg Window.value receive,
        [.received (pieceFrame id kind ends true piece)],
        congrArg Core.events cores, fun event member => ?_⟩
      cases List.mem_singleton.mp member
      exact trivial

/-- The pieces of a block are put together, whatever they were cut into, and
head the record. -/
theorem Halfway.hearing
    {connection : Connection}
    (hears : Hears connection)
    {id : Nat}
    {stream changed : Stream}
    (expects : Expects connection.core id stream)
    {ends : Bool}
    {kind : Kind}
    {octets piece : List UInt8}
    {cut : List (List UInt8)}
    (halfway : Halfway connection id ends kind octets)
    (sized : ∀ other ∈ piece :: cut,
      other.length ≤ connection.localSettings.maxFrameSize)
    (short : (octets ++ (piece :: cut).flatten).length ≤ maxBlock)
    {fields : List Field}
    {decoder : Hpack.Decoder}
    (decodes : connection.decoder.decode (octets ++ (piece :: cut).flatten) =
      (.ok fields, decoder))
    (checks : Message.check fields connection.headerListLimit = .ok ())
    (takes : stream.headers fields ends = .ok changed)
    (capped : connection.receive.value ≤ maxStreamId)
    (cappedOn : stream.receive.value ≤ maxStreamId)
    {rest : List UInt8}
    (delivers : Delivers connection.wire.incoming
      ((blockFrames id ends kind (piece :: cut)).flatMap Frame.encode ++ rest)) :
    ∃ after, Hearing (blockFrames id ends kind (piece :: cut)) connection after ∧
      Stands after id changed ∧ Attuned connection after ∧
        after.decoder = decoder ∧ Delivers after.wire.incoming rest := by
  induction cut generalizing connection kind octets piece with
  | nil =>
      have sizedPiece := sized piece List.mem_cons_self
      simp only [List.flatten_cons, List.flatten_nil, List.append_nil] at short decodes
      simp only [blockFrames, List.isEmpty_nil, List.flatMap_cons,
        List.flatMap_nil, List.append_nil] at delivers ⊢
      obtain ⟨after, heard, stands, attuned, moved⟩ := halfway.heard_whole hears
        expects sizedPiece short decodes checks takes capped cappedOn delivers
      exact ⟨after, heard.hearing, stands, attuned, moved, heard.delivers⟩
  | cons next cut inductionHypothesis =>
      obtain ⟨sizedPiece, others⟩ := List.forall_mem_cons.mp sized
      obtain ⟨⟨placed, bounded⟩, live⟩ := expects.placed
      rw [List.flatten_cons, ← List.append_assoc] at short decodes
      have shorter : (octets ++ piece).length ≤ maxBlock := by
        rw [List.length_append] at short
        omega
      rw [blockFrames] at delivers ⊢
      rw [List.flatMap_cons, List.append_assoc] at delivers
      obtain ⟨middle, heard, same⟩ := halfway.heard_onward hears placed bounded
        sizedPiece shorter delivers
      have cores := congrArg Sight.core same
      have settings : middle.localSettings = connection.localSettings :=
        congrArg Core.localSettings cores
      have receive : middle.receive = connection.receive :=
        congrArg Core.receive cores
      have moved : middle.decoder = connection.decoder :=
        congrArg Sight.decoder same
      have further : Expects middle.core id stream := by
        rw [show middle.core = _ from cores]
        exact expects.later _ _
      obtain ⟨after, hearing, stands, attuned, last, left⟩ :=
        inductionHypothesis (heard.hears hears) further
          (.onward (congrArg Core.continuing cores))
          (by rw [settings]; exact others) short
          (by rw [moved]; exact decodes)
          (by rw [Connection.headerListLimit, settings]; exact checks)
          (receive ▸ capped) heard.delivers
      have before : Attuned connection middle := by
        refine ⟨settings, congrArg Window.value receive, _,
          congrArg Core.events cores, fun event member => ?_⟩
        cases List.mem_singleton.mp member
        exact trivial
      exact ⟨after, .cons heard.reads heard.pumps hearing, stands,
        before.trans attuned, last, left⟩

/-! ## A body -/

/-- A `DATA` on `id` without padding, within both windows and the frame size. -/
structure Fits (connection : Connection) (id : Nat) (stream : Stream)
    (frame : Frame) : Prop where
  kind : frame.kind = .data
  onStream : frame.stream = id
  content : frame.content = .ok frame.payload
  sized : frame.payload.length ≤ connection.localSettings.maxFrameSize
  room : frame.payload.length ≤ connection.receive.value
  roomOn : frame.payload.length ≤ stream.receive.value

theorem Fits.later
    {connection after : Connection}
    {id : Nat}
    {stream changed : Stream}
    {frame : Frame}
    (fits : Fits connection id stream frame)
    (attuned : Attuned connection after)
    (same : changed.receive.value = stream.receive.value) :
    Fits after id changed frame :=
  ⟨fits.kind, fits.onStream, fits.content, attuned.settings ▸ fits.sized,
    attuned.receive ▸ fits.room, same ▸ fits.roomOn⟩

theorem attuned_refl (connection : Connection) :
    Attuned connection connection :=
  ⟨rfl, rfl, [], (List.append_nil _).symm, fun _ member => by cases member⟩

/-- The frames of a body that does not end grow its record by their payloads. -/
theorem Stands.grow
    {connection : Connection}
    {id : Nat}
    {stream : Stream}
    (stands : Stands connection id stream)
    (receiving : stream.state.receiving = true)
    {frames : List Frame}
    (fits : ∀ frame ∈ frames, Fits connection id stream frame)
    (unended : ∀ frame ∈ frames, frame.has endStream = false)
    (within : stream.body.length + (frames.flatMap Frame.payload).length ≤
      maxBody)
    {rest : List UInt8}
    (delivers : Delivers connection.wire.incoming
      (frames.flatMap Frame.encode ++ rest)) :
    ∃ after changed, Hearing frames connection after ∧
      Stands after id changed ∧ Attuned connection after ∧
        after.decoder = connection.decoder ∧
        changed = { stream with
          body := stream.body ++ frames.flatMap Frame.payload
          receive := changed.receive } ∧
        changed.receive.value = stream.receive.value ∧
        Delivers after.wire.incoming rest := by
  induction frames generalizing connection stream with
  | nil =>
      refine ⟨connection, stream, .nil connection, stands,
        attuned_refl connection, rfl, ?_, rfl, delivers⟩
      rw [List.flatMap_nil, List.append_nil]
  | cons frame frames inductionHypothesis =>
      obtain ⟨first, others⟩ := List.forall_mem_cons.mp fits
      obtain ⟨stays, later⟩ := List.forall_mem_cons.mp unended
      rw [List.flatMap_cons, List.length_append] at within
      rw [List.flatMap_cons, List.append_assoc] at delivers
      obtain ⟨middle, grown, heard, standing, attuned, moved, grows⟩ :=
        stands.data receiving first.kind first.onStream first.content
          first.sized first.room first.roomOn (by omega) delivers
      have same := grows.same
      rw [stays, if_neg Bool.false_ne_true] at same
      have receive := grows.room stays
      have body : grown.body = stream.body ++ frame.payload := by rw [same]
      obtain ⟨after, changed, hearing, final, further, last, made, room, left⟩ :=
        inductionHypothesis standing (by rw [same]; exact receiving)
          (fun other member => (others other member).later attuned receive)
          later (by rw [body, List.length_append]; omega) heard.delivers
      refine ⟨after, changed, .cons heard.reads heard.pumps hearing, final,
        attuned.trans further, last.trans moved, ?_, room.trans receive, left⟩
      rw [made, same, List.flatMap_cons, List.append_assoc]

/-- The frames of a body grow its record by their payloads, and the last ends it
where it ends the stream. -/
theorem Stands.body
    {connection : Connection}
    {id : Nat}
    {stream : Stream}
    (stands : Stands connection id stream)
    (receiving : stream.state.receiving = true)
    {earlier : List Frame}
    {last : Frame}
    (fits : ∀ frame ∈ earlier ++ [last], Fits connection id stream frame)
    (unended : ∀ frame ∈ earlier, frame.has endStream = false)
    (within : stream.body.length +
      ((earlier ++ [last]).flatMap Frame.payload).length ≤ maxBody)
    {rest : List UInt8}
    (delivers : Delivers connection.wire.incoming
      ((earlier ++ [last]).flatMap Frame.encode ++ rest)) :
    ∃ after changed, Hearing (earlier ++ [last]) connection after ∧
      Stands after id changed ∧ Attuned connection after ∧
        after.decoder = connection.decoder ∧
        changed = { stream with
          body := stream.body ++ (earlier ++ [last]).flatMap Frame.payload
          state :=
            if last.has endStream then
              stream.state.endedRemotely
            else
              stream.state
          receive := changed.receive } ∧
        Delivers after.wire.incoming rest := by
  obtain ⟨before, final⟩ := List.forall_mem_append.mp fits
  have ending := final last (List.mem_singleton_self last)
  rw [List.flatMap_append, List.flatMap_singleton] at within delivers ⊢
  rw [List.length_append] at within
  rw [List.append_assoc] at delivers
  obtain ⟨middle, grown, hearing, standing, attuned, moved, made, receive,
    left⟩ := stands.grow receiving before unended (by omega) delivers
  have body : grown.body =
      stream.body ++ earlier.flatMap Frame.payload := by
    rw [made]
  have fitting := ending.later attuned receive
  obtain ⟨after, changed, heard, stood, further, kept, grows⟩ :=
    standing.data (by rw [made]; exact receiving) fitting.kind fitting.onStream
      fitting.content fitting.sized fitting.room fitting.roomOn
      (by rw [body, List.length_append]; omega) left
  refine ⟨after, changed, hearing.append heard.hearing, stood,
    attuned.trans further, kept.trans moved, ?_, heard.delivers⟩
  have same := grows.same
  rw [body, List.append_assoc] at same
  rw [same, made]

end Connection
end Http2
end XmipNet
