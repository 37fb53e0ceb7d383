import XmipNet.Http2.Announced
import XmipNet.Http2.Course
import XmipNet.Http2.Limits
import XmipNet.Http2.Outgoing

/-!
# How large the frames of a run are

The peer's settings stay ones it may announce, so a header block is cut into
pieces and a body into `DATA` of less than `2 ^ 24` octets, and what answers the
peer's frames is a few octets, the words of a `GOAWAY` with it. This is upheld
by every action of either side, and so by every run.
-/

namespace XmipNet
namespace Http2

open Hpack (Field)
open Http (Request Response)
open Fallible

namespace Connection

section StaysSized

variable {script : List Acceptance}

theorem staysSized_pumpUntil (done : Connection → Bool) :
    StaysSized script (pumpUntil done) := by
  intro connection sized
  rw [pumpUntil]
  fun_induction pumpFrom done connection with
  | case1 connection met => exact sized
  | case2 connection unmet failure after reads =>
      exact staysSized_pump.of_eq sized reads
  | case3 connection unmet after reads =>
      exact staysSized_pump.of_eq sized reads
  | case4 connection unmet after reads inductionHypothesis =>
      exact inductionHypothesis (staysSized_pump.of_eq sized reads)

/-! ## What is sent -/

theorem length_of_mem_pieces
    {most : Nat}
    {block piece : List UInt8}
    (member : piece ∈ pieces most block) :
    piece.length ≤ most := by
  rw [pieces] at member
  split at member
  · cases List.mem_singleton.mp member
    exact Nat.zero_le _
  · exact length_of_mem_chunks member

theorem staysSized_emitPieces
    (id : Nat)
    (ends : Bool)
    (kind : Kind)
    {cut : List (List UInt8)}
    (short : ∀ piece ∈ cut, piece.length ≤ maxFrameSizeLimit) :
    StaysSized script (emitPieces id ends kind cut) := by
  induction cut generalizing kind with
  | nil => exact upholds_pure _
  | cons piece rest inductionHypothesis =>
      obtain ⟨first, others⟩ := List.forall_mem_cons.mp short
      exact upholds_bind (staysSized_emit (Frame.short_of_le first script))
        fun _ => inductionHypothesis .continuation others

theorem staysSized_endLocally
    (id : Nat)
    (ends : Bool) :
    StaysSized script (if ends then
      modify fun connection => connection.endLocally id
    else
      pure () : Action Unit) := by
  split
  · exact upholds_modify fun _ sized => sized.endLocally id
  · exact upholds_pure _

theorem staysSized_sendHeaders
    (id : Nat)
    (fields : List Field)
    (ends : Bool) :
    StaysSized script (sendHeaders id fields ends) := by
  refine upholds_bind ?_ fun block => upholds_get_bind fun connection sized =>
    upholds_bind ?_ fun _ => staysSized_endLocally id ends
  · exact fun _ sized => { sized with }
  · exact staysSized_emitPieces id ends .headers fun _ member =>
      (length_of_mem_pieces member).trans sized.admitted.mostFrame

theorem staysSized_stall : StaysSized script stall := by
  refine upholds_bind (upholds_modify fun _ sized => { sized with })
    fun _ => upholds_bind staysSized_release
      fun _ => upholds_bind staysSized_pump fun more => ?_
  split
  · exact upholds_pure _
  · exact upholds_fail _

theorem staysSized_takeSend (octets : Nat) :
    StaysSized script (takeSend octets) := by
  refine upholds_get_bind fun connection sized =>
    upholds_lift_bind fun taken takes => upholds_modify fun _ other => ?_
  have taking := eq_ok_of_mapError takes
  obtain ⟨_, left⟩ := Window.take_eq_ok_iff.mp taking
  have most := sized.send
  exact { other with send := show taken.value ≤ maxStreamId by omega }

theorem staysSized_takeStreamSend (id octets : Nat) :
    StaysSized script (takeStreamSend id octets) := by
  refine upholds_get_bind fun connection sized => ?_
  split
  · exact upholds_pure _
  next stream found =>
    refine upholds_lift_bind fun taken takes => upholds_modify fun _ other => ?_
    have taking := eq_ok_of_mapError takes
    obtain ⟨_, left⟩ := Window.take_eq_ok_iff.mp taking
    have capped := sized.streams _ _ found
    have most := capped.send
    exact other.setStream id
      ⟨capped.receive, show taken.value ≤ maxStreamId by omega⟩

theorem staysSized_sendPiece
    (id : Nat)
    (ends : Bool)
    (rest : List UInt8)
    {most : Nat}
    (within : most ≤ maxFrameSizeLimit) :
    StaysSized script (sendPiece id ends rest most) := by
  refine upholds_bind (staysSized_emit (Frame.short_of_le ?_ script))
    fun _ => upholds_bind (staysSized_takeSend _) fun _ =>
      upholds_bind (staysSized_takeStreamSend id _) fun _ => upholds_pure _
  exact (List.length_take_le _ _).trans ((Nat.min_le_right _ _).trans within)

theorem staysSized_sendStep
    (id : Nat)
    (ends : Bool)
    (rest : List UInt8) :
    StaysSized script (sendStep id ends rest) := by
  refine upholds_get_bind fun connection sized =>
    upholds_bind (upholds_lift _) fun available => ?_
  simp only
  split
  · exact upholds_bind staysSized_stall fun _ => upholds_pure _
  · exact staysSized_sendPiece id ends rest
      ((Nat.min_le_left _ _).trans sized.admitted.mostFrame)

theorem staysSized_sendData
    (id : Nat)
    (body : List UInt8)
    (ends : Bool) :
    StaysSized script (sendData id body ends) := by
  refine upholds_bind ?_ fun _ => staysSized_endLocally id ends
  intro connection sized
  rw [sendLoop]
  fun_induction sendFrom id ends body connection with
  | case1 rest connection failure after runs =>
      exact (staysSized_sendStep id ends rest).of_eq sized runs
  | case2 rest connection after runs =>
      exact (staysSized_sendStep id ends rest).of_eq sized runs
  | case3 rest connection later after runs inductionHypothesis =>
      exact inductionHypothesis
        ((staysSized_sendStep id ends rest).of_eq sized runs)

theorem staysSized_together
    {α : Type}
    {build : Action α}
    (stays : StaysSized script build) :
    StaysSized script (together build) := by
  refine upholds_bind (upholds_modify fun _ sized => { sized with })
    fun _ => upholds_bind (upholds_attempt stays) fun made =>
      upholds_bind (upholds_attempt staysSized_release) fun written =>
        upholds_bind (upholds_modify fun _ sized => { sized with })
          fun _ => upholds_bind (upholds_lift _) fun _ => upholds_lift _

theorem staysSized_opening : StaysSized script opening := by
  refine upholds_bind (upholds_get_bind fun connection _ => ?_) fun _ => ?_
  · split
    · exact (confines_writeAll (by decide) _).upholds
    · exact upholds_pure _
  · refine upholds_get_bind fun connection _ =>
      staysSized_emit (Frame.short_of_le ?_ script)
    exact (Settings.length_encode _).2.trans (by decide)

/-- A connection starts within its limits. -/
theorem sized_of_start
    {wire : Wire}
    {client : Bool}
    {connection : Connection}
    (starts : start wire client = .ok connection) :
    Sized wire.accepts connection := by
  have first : Sized wire.accepts (initial wire client) :=
    { scripted := List.suffix_rfl
      ours := rfl
      admitted := Settings.admitted_default
      table := rfl
      filled := Int.natCast_nonneg _
      receive := Int.ofNat_le.mpr (by decide)
      send := Int.ofNat_le.mpr (by decide)
      streams := NatMap.all_empty
      continuing := fun _ waits => nomatch waits
      short := List.forall_mem_nil _ }
  rw [start] at starts
  split at starts
  next opened =>
    cases starts
    exact staysSized_opening.of_eq first opened
  · cases starts

theorem staysSized_ping
    {opaqueData : List UInt8}
    (eight : opaqueData.length = 8) :
    StaysSized script (ping opaqueData) := by
  refine upholds_bind (staysSized_emit (Frame.short_of_le ?_ script)) fun _ =>
    upholds_bind (staysSized_pumpUntil _) fun back => ?_
  · exact eight.le.trans (by decide)
  · split
    · exact upholds_pure _
    · exact upholds_fail _

end StaysSized
end Connection

/-! ## A client's runs -/

namespace Client

open Connection

section StaysSized

variable {script : List Acceptance}

/-- A call keeps its connection within its limits. -/
abbrev StaysSized {α : Type} (script : List Acceptance) (call : Call α) :
    Prop :=
  Upholds (fun client : Client => Sized script client.connection) call

theorem staysSized_onConnection
    {α : Type}
    {action : Action α}
    (stays : Connection.StaysSized script action) :
    StaysSized script (onConnection action) :=
  fun client sized => stays client.connection sized

theorem staysSized_sendRequest
    (id : Nat)
    (fields : List Field)
    (body : List UInt8) :
    Connection.StaysSized script (sendRequest id fields body) := by
  refine upholds_bind (staysSized_sendHeaders _ _ _) fun _ => ?_
  rw [sendBody]
  split
  · exact upholds_pure _
  · exact staysSized_sendData _ _ _

theorem staysSized_receiveAnswer (id : Nat) :
    Connection.StaysSized script (receiveAnswer id) := by
  refine upholds_bind (staysSized_pumpUntil _) fun whole =>
    upholds_get_bind fun connection _ => upholds_bind ?_ fun _ => ?_
  · exact upholds_modify fun _ sized => sized.remove id
  · split
    · exact upholds_lift _
    · exact upholds_fail _

theorem staysSized_exchange
    (id : Nat)
    (fields : List Field)
    (body : List UInt8) :
    Connection.StaysSized script (exchange id fields body) := by
  refine upholds_bind ?_ fun _ => upholds_bind
    (staysSized_together (staysSized_sendRequest id fields body))
      fun _ => staysSized_receiveAnswer id
  exact upholds_modify fun _ sized => sized.openStream id

theorem staysSized_send
    (codec : Percent)
    (request : Request) :
    StaysSized script (send codec request) := by
  refine upholds_get_bind fun client _ => ?_
  split
  · exact upholds_fail _
  · split
    · exact upholds_fail _
    · refine upholds_bind (upholds_modify fun _ sized => sized) fun _ => ?_
      exact staysSized_onConnection (staysSized_exchange _ _ _)

theorem staysSized_ping : StaysSized script ping :=
  upholds_get_bind fun _ _ => staysSized_onConnection
    (Connection.staysSized_ping (BigEndian.length_write 8 _))

theorem staysSized_close : StaysSized script close :=
  upholds_bind (upholds_attempt (staysSized_onConnection (staysSized_goAway _
    (Text.Within.fits (by decide) script)))) fun _ => upholds_pure _

end StaysSized

/-- A client keeps within its limits in every run. -/
theorem sized_run
    (codec : Percent)
    {wire : Wire}
    {scheme : String}
    {client : Client}
    (opens : handshake wire scheme = .ok client)
    (asks : List Ask) :
    Sized wire.accepts (run codec client asks).connection := by
  have started : Sized wire.accepts client.connection := by
    rw [handshake] at opens
    cases starts : Connection.start wire true with
    | error failure =>
        rw [starts] at opens
        cases opens
    | ok connection =>
        rw [starts] at opens
        cases opens
        exact sized_of_start starts
  clear opens
  induction asks generalizing client with
  | nil => exact started
  | cons ask rest inductionHypothesis =>
      have performed :
          Sized wire.accepts (perform codec client ask).connection := by
        cases ask with
        | send request => exact staysSized_send codec request client started
        | ping => exact staysSized_ping client started
        | close => exact staysSized_close client started
      exact inductionHypothesis performed

end Client

/-! ## A server's runs -/

namespace Server

open Connection

section StaysSized

variable {script : List Acceptance}

/-- A call keeps its connection within its limits. -/
abbrev StaysSized {α : Type} (script : List Acceptance) (call : Call α) :
    Prop :=
  Upholds (fun server : Server => Sized script server.connection) call

theorem staysSized_onConnection
    {α : Type}
    {action : Action α}
    (stays : Connection.StaysSized script action) :
    StaysSized script (onConnection action) :=
  fun server sized => stays server.connection sized

theorem staysSized_look (codec : Percent) : StaysSized script (look codec) := by
  refine upholds_get_bind fun server sized => ?_
  split
  · exact upholds_pure _
  next id stream first =>
    have capped := sized.streams _ _ (found_of_ready first).1
    refine upholds_bind (upholds_modify fun _ other => ?_) fun _ => ?_
    · exact other.setStream id ⟨capped.receive, capped.send⟩
    · split
      · split
        · refine upholds_bind (upholds_modify fun _ sized => sized)
            fun _ => upholds_pure _
        · refine upholds_bind (staysSized_onConnection
            (staysSized_reset _ _)) fun _ =>
              upholds_bind (upholds_modify fun _ sized => ?_) fun _ =>
                upholds_pure _
          exact sized.remove id
      · refine upholds_bind (upholds_modify fun _ sized => ?_)
          fun _ => upholds_pure _
        exact sized.remove id

theorem staysSized_finished (codec : Percent) :
    StaysSized script (finished codec) := by
  intro server sized
  rw [finished]
  fun_induction lookFrom codec server with
  | case1 server failure after runs =>
      exact (staysSized_look codec).of_eq sized runs
  | case2 server taken after runs =>
      exact (staysSized_look codec).of_eq sized runs
  | case3 server after runs inductionHypothesis =>
      exact inductionHypothesis ((staysSized_look codec).of_eq sized runs)

theorem staysSized_readFrame : StaysSized script readFrame := by
  refine upholds_get_bind fun server _ => ?_
  split
  · exact upholds_pure _
  · exact staysSized_onConnection staysSized_pump

theorem staysSized_await (codec : Percent) : StaysSized script (await codec) := by
  refine upholds_bind (staysSized_finished codec) fun taken => ?_
  split
  · exact upholds_pure _
  · exact upholds_bind staysSized_readFrame fun _ => upholds_pure _

theorem staysSized_nextRequest (codec : Percent) :
    StaysSized script (nextRequest codec) := by
  intro server sized
  rw [nextRequest]
  fun_induction awaitFrom codec server with
  | case1 server failure after runs =>
      exact (staysSized_await codec).of_eq sized runs
  | case2 server taken after runs =>
      exact (staysSized_await codec).of_eq sized runs
  | case3 server after runs inductionHypothesis =>
      exact inductionHypothesis ((staysSized_await codec).of_eq sized runs)

theorem staysSized_sendAnswer
    (id : Nat)
    (response : Response) :
    Connection.StaysSized script (sendAnswer id response) := by
  refine upholds_bind (staysSized_sendHeaders _ _ _) fun _ =>
    upholds_bind ?_ fun _ => ?_
  · rw [sendBody]
    split
    · exact upholds_pure _
    · exact staysSized_sendData _ _ _
  · rw [sendTrailers]
    split
    · exact upholds_pure _
    · exact staysSized_sendHeaders _ _ _

theorem staysSized_respond
    (id : Nat)
    (response : Response) :
    StaysSized script (respond id response) := by
  refine upholds_get_bind fun server _ => ?_
  split
  · exact upholds_fail _
  · refine upholds_bind (upholds_modify fun _ sized => sized) fun _ =>
      upholds_bind (upholds_attempt (staysSized_onConnection
        (staysSized_together (staysSized_sendAnswer id response))))
          fun _ => upholds_bind (upholds_modify fun _ sized => ?_) fun _ =>
            upholds_lift _
    exact sized.remove id

theorem staysSized_goAway : StaysSized script goAway :=
  staysSized_onConnection (Connection.staysSized_goAway _
    (Text.Within.fits (by decide) script))

theorem staysSized_drain (limit : Nat) :
    Connection.StaysSized script (drain limit) := by
  induction limit with
  | zero => exact upholds_pure _
  | succ limit inductionHypothesis =>
      refine upholds_bind (upholds_attempt staysSized_pump) fun read => ?_
      split
      · exact inductionHypothesis
      · exact upholds_pure _

theorem staysSized_close : StaysSized script close := by
  refine upholds_bind (upholds_get_bind fun server _ => ?_) fun _ =>
    staysSized_onConnection (staysSized_drain _)
  split
  · exact upholds_pure _
  · exact upholds_bind (upholds_attempt staysSized_goAway) fun _ =>
      upholds_pure _

end StaysSized

/-- A server keeps within its limits in every run. -/
theorem sized_run
    (codec : Percent)
    {wire : Wire}
    {server : Server}
    (opens : handshake wire = .ok server)
    (asks : List Ask) :
    Sized wire.accepts (run codec server asks).2.connection := by
  have started : Sized wire.accepts server.connection := by
    rw [handshake] at opens
    split at opens
    · cases opens
    next opening after reads =>
      split at opens
      · cases opens
      · cases starts : Connection.start after false with
        | error failure =>
            rw [starts] at opens
            cases opens
        | ok connection =>
            rw [starts] at opens
            cases opens
            have same := Wire.accepts_readExact wire preface.length
            rw [reads] at same
            exact same ▸ sized_of_start starts
  clear opens
  induction asks generalizing server with
  | nil => exact started
  | cons ask rest inductionHypothesis =>
      have performed :
          Sized wire.accepts (perform codec server ask).2.connection := by
        cases ask with
        | readFrame => exact staysSized_readFrame server started
        | finished => exact staysSized_finished codec server started
        | nextRequest => exact staysSized_nextRequest codec server started
        | respond id response =>
            exact staysSized_respond id response server started
        | goAway => exact staysSized_goAway server started
        | close => exact staysSized_close server started
      exact inductionHypothesis performed

end Server

namespace Settings

/-- Settings announced are the settings applied; whatever payloads come, they
stay ones a peer may announce, so that wherever a run has come a header block is
cut into pieces of some octets, and no frame that is emitted has a length the
wire could not carry. Of a `GOAWAY`, which may repeat what the system says of a
failed write, this holds where that is brief. -/
theorem announced_applied :
    (∀ settings, Worded settings → settings.initialWindowSize ≤ 2 ^ 31 - 1 →
      2 ^ 14 ≤ settings.maxFrameSize → settings.maxFrameSize ≤ 2 ^ 24 - 1 →
      ∀ client, default.apply settings.encode client = (.ok (), settings)) ∧
    (∀ payloads, let settings := default.applyAll payloads
      settings.initialWindowSize ≤ 2 ^ 31 - 1 ∧
        2 ^ 14 ≤ settings.maxFrameSize ∧
        settings.maxFrameSize ≤ 2 ^ 24 - 1) ∧
    (∀ client connection, Connection.Reached client connection →
      connection.remoteSettings.maxFrameSize ≠ 0) ∧
    (∀ codec wire scheme client, Client.handshake wire scheme = .ok client →
      ∀ asks frame,
        .emitted frame ∈ (Client.run codec client asks).connection.events →
        (frame.kind = .goaway → Acceptance.Brief wire.accepts) →
        frame.payload.length < 2 ^ 24) ∧
    ∀ codec wire server, Server.handshake wire = .ok server →
      ∀ asks frame,
        .emitted frame ∈ (Server.run codec server asks).2.connection.events →
        (frame.kind = .goaway → Acceptance.Brief wire.accepts) →
        frame.payload.length < 2 ^ 24 := by
  have among {events : List Event} {frame : Frame}
      (member : .emitted frame ∈ events) : frame ∈ Event.sent events :=
    List.mem_filterMap.mpr ⟨_, member, rfl⟩
  refine ⟨fun settings worded window least most client => ?_,
    fun payloads => ?_, fun client connection reached none => ?_,
    fun codec wire scheme client opens asks frame member => ?_,
    fun codec wire server opens asks frame member => ?_⟩
  · exact apply_encode worded ⟨window, least, most⟩ client
  · have admitted := admitted_default.applyAll payloads
    exact ⟨admitted.window, admitted.leastFrame, admitted.mostFrame⟩
  · have least := reached.admitted.leastFrame
    rw [none] at least
    exact absurd least (by decide)
  · exact (Client.sized_run codec opens asks).short frame (among member)
  · exact (Server.sized_run codec opens asks).short frame (among member)

/-- A server that sends its settings, and a connection underneath that fails as
they are answered. -/
def failingWire : Wire where
  incoming := [.octets (⟨.settings, 0, 0, []⟩ : Frame).encode]
  accepts := List.replicate 5 .taken ++
    [.failed 0 { kind := .connectionAborted, text := "ending" }]
  written := []

theorem brief_failingWire : Acceptance.Brief failingWire.accepts := by
  intro after error member
  rcases List.mem_append.mp member with taken | failed
  · cases List.eq_of_mem_replicate taken
  · cases List.mem_singleton.mp failed
    exact Text.Within.mono (by decide : Text.Within 64 _) (by decide)

/-- Whether this side has told the peer that it is going away. -/
def saysGoodbye (client : Client) : Bool :=
  (Client.run .bare client [.ping]).connection.events.any fun event =>
    event.frame.any fun frame => frame.kind = .goaway

/-- What this side announces is what a client applies, and a server; and what a
client says of a write that failed is no longer than the wire carries. -/
theorem announced_applied_ours :
    (∀ client, default.apply ours.encode client = (.ok (), ours)) ∧
    ∃ client, Client.handshake failingWire "http" = .ok client ∧
      saysGoodbye client = true ∧
      ∀ frame, .emitted frame ∈
          (Client.run .bare client [.ping]).connection.events →
        frame.payload.length < 2 ^ 24 := by
  have runs : ∃ client, Client.handshake failingWire "http" = .ok client ∧
      saysGoodbye client = true :=
    Client.exists_of_handshake (by decide +kernel)
  obtain ⟨client, opens, goodbye⟩ := runs
  refine ⟨?_, client, opens, goodbye, fun frame member => ?_⟩
  · exact announced_applied.1 ours
      ⟨by decide, by rintro streams ⟨⟩; decide, by rintro size ⟨⟩; decide⟩
      (by decide) (by decide) (by decide)
  · exact announced_applied.2.2.2.1 .bare failingWire "http" client opens
      [.ping] frame member fun _ => brief_failingWire

end Settings
end Http2
end XmipNet
