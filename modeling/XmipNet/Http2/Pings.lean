import XmipNet.Http2.Course

/-!
# Whether the connection is still alive

A `PING` proves that the peer is there where its acknowledgement is read after
it was sent. The acknowledgements that have come are kept for the whole life of
a connection and told apart by what they carry, and a client's `PING` carries
the number of its next stream: one that was acknowledged before is not waited
for again.
-/

namespace XmipNet
namespace Http2

namespace Event

/-- After a `PING` carrying `opaqueData` was emitted, its acknowledgement was
read. -/
def AcknowledgedSince (before after : List Event) (opaqueData : List UInt8) :
    Prop :=
  ∃ later frame,
    after = before ++ emitted (.ping opaqueData false) :: later ∧
      received frame ∈ later ∧ frame.kind = .ping ∧ frame.has ack = true ∧
        frame.payload = opaqueData

end Event

namespace Connection

open Core
open Fallible (bind_apply)

/-- A wait for an acknowledgement that has not come ends when it is read. -/
theorem acknowledged_of_pumpFrom
    {opaqueData : List UInt8}
    {connection after : Connection}
    (waits : Waits connection.core)
    (missing : opaqueData ∉ connection.pongs)
    (runs : pumpFrom (fun connection => opaqueData ∈ connection.pongs)
      connection = (.ok true, after)) :
    ∃ later frame, after.events = connection.events ++ later ∧
      .received frame ∈ later ∧ frame.kind = .ping ∧ frame.has ack = true ∧
        frame.payload = opaqueData := by
  fun_induction pumpFrom (fun connection => opaqueData ∈ connection.pongs)
    connection with
  | case1 connection done => exact absurd (of_decide_eq_true done) missing
  | case2 connection undone failure after reads => cases runs
  | case3 connection undone after reads => cases runs
  | case4 connection undone middle reads inductionHypothesis =>
      obtain ⟨frame, _, took⟩ := took_of_pump_true waits reads
      obtain ⟨added, grown⟩ := took.events
      have events : middle.events =
          connection.events ++ .received frame :: added := by
        rw [List.append_cons]
        exact grown.symm
      have still : Waits middle.core :=
        (plays_pump connection).moves waits |>.of_eq reads |>.waits waits
      by_cases come : opaqueData ∈ middle.pongs
      · rcases took.pongs with same | ⟨kind, acknowledges, more⟩
        · exact absurd ((show middle.pongs = connection.pongs from same) ▸ come)
            missing
        · have carried : opaqueData = frame.payload := by
            rw [show middle.pongs = connection.pongs ++ [frame.payload]
              from more, List.mem_append, List.mem_singleton] at come
            exact come.resolve_left missing
          rw [pumpFrom, if_pos (decide_eq_true come)] at runs
          cases runs
          exact ⟨_, frame, events, List.mem_cons_self, kind, acknowledges,
            carried.symm⟩
      · obtain ⟨later, ack, follows, read, rest⟩ :=
          inductionHypothesis still come runs
        refine ⟨.received frame :: added ++ later, ack, ?_,
          List.mem_append_right _ read, rest⟩
        rw [follows, events, List.append_assoc]

theorem pongs_emit
    (frame : Frame)
    (connection : Connection) :
    (emit frame connection).2.pongs = connection.pongs :=
  congrArg Sight.pongs (sight_emit frame connection)

/-- A `PING` whose acknowledgement has not come proves the peer is there. -/
theorem acknowledged_of_ping
    {opaqueData : List UInt8}
    {connection after : Connection}
    (waits : Waits connection.core)
    (missing : opaqueData ∉ connection.pongs)
    (runs : ping opaqueData connection = (.ok (), after)) :
    Event.AcknowledgedSince connection.events after.events opaqueData := by
  have events := events_emit (.ping opaqueData false) connection
  have pongs := pongs_emit (.ping opaqueData false) connection
  have moved := core_emit (.ping opaqueData false) connection
  rw [ping, bind_apply] at runs
  split at runs
  next sent sends =>
    rw [sends] at events pongs moved
    simp only at events pongs moved
    rw [bind_apply, pumpUntil] at runs
    split at runs
    next back waited pumps =>
      cases back with
      | false => cases runs
      | true =>
          cases runs
          have still : Waits sent.core := by
            rw [moved]
            exact fun waiting continues =>
              ⟨(waits waiting continues).bounded, fun ends =>
                ((waits waiting continues).ends ends).append _⟩
          obtain ⟨later, frame, follows, rest⟩ :=
            acknowledged_of_pumpFrom still (pongs ▸ missing) pumps
          refine ⟨later, frame, ?_, rest⟩
          rw [follows, events, List.append_assoc]
          rfl
    · cases runs
  · cases runs

/-- A `PING` whose acknowledgement has come before is not waited for. -/
theorem ping_of_come
    {opaqueData : List UInt8}
    {connection sent : Connection}
    (come : opaqueData ∈ connection.pongs)
    (sends : emit (.ping opaqueData false) connection = (.ok (), sent)) :
    ping opaqueData connection = (.ok (), sent) := by
  have pongs := pongs_emit (.ping opaqueData false) connection
  rw [sends] at pongs
  have still : opaqueData ∈ sent.pongs := pongs ▸ come
  rw [ping, bind_apply, sends]
  simp only
  rw [bind_apply, pumpUntil, pumpFrom, if_pos (decide_eq_true still)]
  rfl

end Connection

namespace Client

open Core Connection

/-- What the client's next `PING` carries. -/
def opaqueData (client : Client) : List UInt8 :=
  BigEndian.write 8 client.next

/-- A `PING` of the client's now comes back only where its acknowledgement is
read after it was emitted. -/
def Lively (client : Client) : Prop :=
  ∀ after, ping client = (.ok (), after) →
    Event.AcknowledgedSince client.connection.events after.connection.events
      client.opaqueData

/-- The client's next `PING` can be written. -/
def Pingable (client : Client) : Prop :=
  (emit (.ping client.opaqueData false) client.connection).1 = .ok ()

theorem ping_eq (client : Client) :
    ping client =
      ((Connection.ping client.opaqueData client.connection).1,
        { client with
          connection :=
            (Connection.ping client.opaqueData client.connection).2 }) :=
  rfl

theorem lively_of_missing
    {client : Client}
    (waits : Waits client.connection.core)
    (missing : client.opaqueData ∉ client.connection.pongs) :
    Lively client := by
  intro after runs
  rw [ping_eq, Prod.mk.injEq] at runs
  obtain ⟨outcome, rfl⟩ := runs
  exact acknowledged_of_ping waits missing (Prod.ext outcome rfl)

theorem not_lively_of_come
    {client : Client}
    (come : client.opaqueData ∈ client.connection.pongs)
    (pingable : Pingable client) :
    ¬Lively client := by
  intro lively
  have pings := ping_of_come come
    (show emit (.ping client.opaqueData false) client.connection =
      (.ok (), _) from Prod.ext pingable rfl)
  have runs := ping_eq client
  rw [pings] at runs
  obtain ⟨later, frame, events, read, _⟩ := lively _ runs
  rw [events_emit, List.append_cancel_left_eq, List.cons.injEq] at events
  rw [← events.2] at read
  cases read

/-- A `PING` that cannot be written does not come back. -/
theorem lively_of_unwritable
    {client : Client}
    (unwritable : ¬Pingable client) :
    Lively client := by
  intro after runs
  rw [ping_eq, Prod.mk.injEq, Connection.ping, Fallible.bind_apply] at runs
  refine absurd ?_ unwritable
  rw [Pingable]
  rcases sends : emit (.ping client.opaqueData false) client.connection with
    ⟨failure | _, sent⟩
  · rw [sends] at runs
    cases runs.1
  · rfl

/-- At every point of every run: a `PING` proves that the peer is there if and
only if no acknowledgement of what it carries has come before, or it cannot be
written at all. -/
theorem lively_iff
    (codec : Percent)
    {wire : Wire}
    {scheme : String}
    {client : Client}
    (opens : handshake wire scheme = .ok client)
    (asks : List Ask) :
    let now := run codec client asks
    Lively now ↔ now.opaqueData ∉ now.connection.pongs ∨ ¬Pingable now := by
  have sound := (reached_run codec opens asks).sound
  constructor
  · intro lively
    by_contra neither
    rw [not_or, not_not, not_not] at neither
    exact not_lively_of_come neither.1 neither.2 lively
  · rintro (missing | unwritable)
    · exact lively_of_missing sound.waits missing
    · exact lively_of_unwritable unwritable

/-- A server that gives its settings and acknowledges one `PING`. -/
def pongWire : Wire where
  incoming := [.octets ((⟨.settings, 0, 0, []⟩ : Frame).encode ++
    (Frame.ping (BigEndian.write 8 1) true).encode)]
  accepts := []
  written := []

theorem pingable_of_isOk
    {client : Client}
    (sends : (emit (.ping client.opaqueData false)
      client.connection).1.isOk = true) :
    Pingable client := by
  rw [Pingable]
  cases sent : (emit (.ping client.opaqueData false) client.connection).1 with
  | error failure =>
      rw [sent] at sends
      cases sends
  | ok _ => rfl

/-- The second of two `PING`s with no request between them comes back although
nothing was read after it. -/
theorem not_lively_of_second_ping :
    ∃ client, handshake pongWire "http" = .ok client ∧
      ¬Lively (run .bare client [.ping]) := by
  obtain ⟨client, opens, checked⟩ := exists_of_handshake
    (show (handshake pongWire "http").toOption.map (fun client =>
      let now := run .bare client [.ping]
      decide (now.opaqueData ∈ now.connection.pongs) &&
        (emit (.ping now.opaqueData false) now.connection).1.isOk) =
        some true by decide +kernel)
  rw [Bool.and_eq_true] at checked
  exact ⟨client, opens, not_lively_of_come (of_decide_eq_true checked.1)
    (pingable_of_isOk checked.2)⟩

/-- The first does only once it was acknowledged. -/
theorem lively_iff_first_ping :
    ∃ client, handshake pongWire "http" = .ok client ∧
      (ping client).1.isOk = true ∧ Lively client := by
  obtain ⟨client, opens, checked⟩ := exists_of_handshake
    (show (handshake pongWire "http").toOption.map (fun client =>
      decide (client.opaqueData ∉ client.connection.pongs) &&
        (ping client).1.isOk) = some true by decide +kernel)
  rw [Bool.and_eq_true] at checked
  exact ⟨client, opens, checked.2,
    (lively_iff .bare opens []).mpr (Or.inl (of_decide_eq_true checked.1))⟩

end Client
end Http2
end XmipNet
