import XmipNet.Http2.Core

/-!
# The code as steps of the core

Every function of both halves of a connection moves the core by steps alone,
whether it succeeds or fails. A breach of the connection may leave the peer's
settings half applied, which the step that logs it allows for.
-/

namespace XmipNet
namespace Http2
namespace Connection

open Fallible Core
open Hpack (Field)

/-- A core whose settings a breach left half applied. -/
def Disturbed (core disturbed : Core) : Prop :=
  ∃ (payload : List UInt8) (settings : Settings) (streams : Streams),
    SameButSend core.streams streams ∧
      (settings = core.remoteSettings ∨
        settings = (core.remoteSettings.apply payload core.client).2) ∧
      disturbed = { core with remoteSettings := settings, streams := streams }

theorem disturbed_refl (core : Core) : Disturbed core core :=
  ⟨[], core.remoteSettings, core.streams, fun _ => rfl, Or.inl rfl, rfl⟩

/-- What a handler leaves when it fails: steps and, for a breach of the whole
connection, a disturbance. A client's breach of one stream is never a
refusal. -/
def Broken (origin : Core) : Breach → Connection → Prop
  | .connection _, after =>
      ∃ core, Steps origin core ∧ Disturbed core after.core
  | .stream _ violation, after =>
      Steps origin after.core ∧
        (origin.client = true → violation.code ≠ .refusedStream)

/-- A handler moves the core from `origin` by steps. -/
def Handles {α : Type} (handler : Handler α) (connection : Connection)
    (origin : Core) : Prop :=
  Ensures handler connection (fun _ after => Steps origin after.core)
    (Broken origin)

theorem broken_connection
    {origin : Core}
    {after : Connection}
    (steps : Steps origin after.core)
    (violation : Violation) :
    Broken origin (.connection violation) after :=
  ⟨after.core, steps, disturbed_refl _⟩

/-- What happens outside the core leaves it. -/
theorem keeps_core_onWire
    {α : Type}
    (use : Wire → Except NetError α × Wire) :
    Keeps core (onWire use) :=
  fun _ => rfl

/-- Emitting logs the frame, whatever becomes of the write. -/
theorem core_emit
    (frame : Frame)
    (connection : Connection) :
    (emit frame connection).2.core =
      connection.core.log (.emitted frame) := by
  rw [emit, modify_bind_apply, get_bind_apply]
  cases (connection.log (.emitted frame)).held with
  | some bytes => rfl
  | none =>
      exact keeps_bind (keeps_core_onWire _) (fun _ => keeps_core_onWire _)
        (connection.log (.emitted frame))

theorem events_emit
    (frame : Frame)
    (connection : Connection) :
    (emit frame connection).2.events = connection.events ++ [.emitted frame] :=
  congrArg Core.events (core_emit frame connection)

theorem ensures_answer
    (frame : Frame)
    (connection : Connection) :
    Ensures (answer frame) connection
      (fun _ after => after.core = connection.core.log (.emitted frame))
      (fun breach after => (∃ violation, breach = .connection violation) ∧
        after.core = connection.core.log (.emitted frame)) := by
  have logged := core_emit frame connection
  rw [answer, ensures_mapError, Ensures]
  split
  next runs =>
    rw [runs] at logged
    exact logged
  next runs =>
    rw [runs] at logged
    exact ⟨⟨_, rfl⟩, logged⟩

/-- Answering a peer is a step. -/
theorem handles_answer
    {frame : Frame}
    (plain : frame.Plain)
    {connection : Connection}
    {origin : Core}
    (steps : Steps origin connection.core) :
    Handles (answer frame) connection origin := by
  apply (ensures_answer frame connection).mono
  · intro _ after moved
    rw [moved]
    exact steps.tail (.emitted _ plain)
  · rintro _ after ⟨⟨violation, rfl⟩, moved⟩
    apply broken_connection
    rw [moved]
    exact steps.tail (.emitted _ plain)

theorem ensures_onConnection
    {α : Type}
    {outcome : Except Violation α}
    {connection : Connection}
    {done : α → Connection → Prop}
    {failed : Breach → Connection → Prop}
    (ofOk : ∀ value, outcome = .ok value → done value connection)
    (ofError : ∀ violation, outcome = .error violation →
      failed (.connection violation) connection) :
    Ensures (onConnection outcome) connection done failed := by
  rw [onConnection, ensures_lift]
  cases outcome with
  | ok value => exact ofOk value rfl
  | error violation => exact ofError violation rfl

theorem ensures_onStream
    {α : Type}
    {id : Nat}
    {outcome : Except Violation α}
    {connection : Connection}
    {done : α → Connection → Prop}
    {failed : Breach → Connection → Prop}
    (ofOk : ∀ value, outcome = .ok value → done value connection)
    (ofError : ∀ violation, outcome = .error violation →
      failed (.stream id violation) connection) :
    Ensures (onStream id outcome) connection done failed := by
  rw [onStream, ensures_lift]
  cases outcome with
  | ok value => exact ofOk value rfl
  | error violation => exact ofError violation rfl

/-- A handler that moves the core goes on with another. -/
theorem handles_bind
    {α β : Type}
    {first : Handler α}
    {next : α → Handler β}
    {connection : Connection}
    {origin : Core}
    (moves : Handles first connection origin)
    (goes : ∀ value after, Steps origin after.core →
      first connection = (.ok value, after) →
        Handles (next value) after origin) :
    Handles (first >>= next) connection origin := by
  rw [Handles, ensures_bind]
  rw [Handles, Ensures] at moves
  rw [Ensures]
  split
  next value after runs =>
    rw [runs] at moves
    exact goes value after moves runs
  next error after runs =>
    rw [runs] at moves
    exact moves

/-- A breach after more steps. -/
theorem Broken.trans
    {first origin : Core}
    (steps : Steps first origin)
    {breach : Breach}
    {after : Connection}
    (broken : Broken origin breach after) :
    Broken first breach after := by
  cases breach with
  | connection violation =>
      obtain ⟨core, moved, disturbed⟩ := broken
      exact ⟨core, steps.trans moved, disturbed⟩
  | stream id violation =>
      refine ⟨steps.trans broken.1, ?_⟩
      rw [← steps.client]
      exact broken.2

/-- As `handles_bind`, with the first part measured from where it starts. -/
theorem handles_bind_from
    {α β : Type}
    {first : Handler α}
    {next : α → Handler β}
    {connection : Connection}
    {origin : Core}
    (moves : Handles first connection connection.core)
    (steps : Steps origin connection.core)
    (goes : ∀ value after, Steps connection.core after.core →
      first connection = (.ok value, after) →
        Handles (next value) after origin) :
    Handles (first >>= next) connection origin := by
  rw [Handles, ensures_bind]
  rw [Handles, Ensures] at moves
  rw [Ensures]
  split
  next value after runs =>
    rw [runs] at moves
    exact goes value after moves runs
  next error after runs =>
    rw [runs] at moves
    exact moves.trans steps

theorem handles_get_bind
    {β : Type}
    {next : Connection → Handler β}
    {connection : Connection}
    {origin : Core}
    (goes : Handles (next connection) connection origin) :
    Handles (Fallible.get >>= next) connection origin :=
  goes

theorem handles_modify_bind
    {β : Type}
    {change : Connection → Connection}
    {next : Unit → Handler β}
    {connection : Connection}
    {origin : Core}
    (goes : Handles (next ()) (change connection) origin) :
    Handles (modify change >>= next) connection origin :=
  goes

theorem handles_fail_connection
    {α : Type}
    {connection : Connection}
    {origin : Core}
    (steps : Steps origin connection.core)
    (violation : Violation) :
    Handles (Fallible.fail (.connection violation) : Handler α) connection
      origin :=
  broken_connection steps violation

theorem handles_fail_stream
    {α : Type}
    {connection : Connection}
    {origin : Core}
    {id : Nat}
    {violation : Violation}
    (steps : Steps origin connection.core)
    (unrefused : violation.code ≠ .refusedStream) :
    Handles (Fallible.fail (.stream id violation) : Handler α) connection
      origin :=
  ⟨steps, fun _ => unrefused⟩

theorem plain_windowUpdate
    (id increment : Nat) :
    (Frame.windowUpdate id increment).Plain := by
  simp [Frame.Plain, Frame.windowUpdate]

/-- A part that may breach the connection and otherwise leaves it. -/
theorem handles_onConnection_bind
    {α β : Type}
    {outcome : Except Violation α}
    {next : α → Handler β}
    {connection : Connection}
    {origin : Core}
    (steps : Steps origin connection.core)
    (goes : ∀ value, outcome = .ok value →
      Handles (next value) connection origin) :
    Handles (onConnection outcome >>= next) connection origin := by
  rw [Handles, ensures_bind]
  exact ensures_onConnection goes
    (fun violation _ => broken_connection steps violation)

/-- A part that may breach one stream and otherwise leaves it. -/
theorem handles_onStream_bind
    {α β : Type}
    {id : Nat}
    {outcome : Except Violation α}
    {next : α → Handler β}
    {connection : Connection}
    {origin : Core}
    (steps : Steps origin connection.core)
    (unrefused : ∀ violation, outcome = .error violation →
      violation.code ≠ .refusedStream)
    (goes : ∀ value, outcome = .ok value →
      Handles (next value) connection origin) :
    Handles (onStream id outcome >>= next) connection origin := by
  rw [Handles, ensures_bind]
  exact ensures_onStream goes
    (fun violation fails => ⟨steps, fun _ => unrefused violation fails⟩)

/-! ## The codes a breach of one stream carries -/

theorem Window.take_unrefused
    {window : Window}
    {octets : Nat}
    {violation : Violation}
    (fails : window.take octets = .error violation) :
    violation.code ≠ .refusedStream := by
  rw [Window.take] at fails
  split at fails
  · cases fails
    exact ErrorCode.noConfusion
  · cases fails

theorem Window.grant_unrefused
    {window : Window}
    {increment : Nat}
    {violation : Violation}
    (fails : window.grant increment = .error violation) :
    violation.code ≠ .refusedStream := by
  rw [Window.grant] at fails
  split at fails
  · cases fails
    exact ErrorCode.noConfusion
  · simp only [Window.shift] at fails
    split at fails
    · cases fails
      exact ErrorCode.noConfusion
    · cases fails

theorem Stream.headers_unrefused
    {stream : Stream}
    {fields : List Field}
    {ends : Bool}
    {violation : Violation}
    (fails : stream.headers fields ends = .error violation) :
    violation.code ≠ .refusedStream := by
  simp only [Stream.headers] at fails
  split at fails
  · cases fails
    exact ErrorCode.noConfusion
  · split at fails
    · split at fails <;> cases fails
    · split at fails
      · cases fails
      · cases fails
        exact ErrorCode.noConfusion

theorem Message.checkNames_unrefused
    {regular : Bool}
    {fields : List Field}
    {violation : Violation}
    (fails : Message.checkNames regular fields = .error violation) :
    violation.code ≠ .refusedStream := by
  induction fields generalizing regular with
  | nil => cases fails
  | cons field rest inductionHypothesis =>
      rw [Message.checkNames] at fails
      split at fails
      · cases fails
        exact ErrorCode.noConfusion
      · split at fails
        · cases fails
          exact ErrorCode.noConfusion
        · exact inductionHypothesis fails

theorem Message.check_unrefused
    {fields : List Field}
    {limit : Nat}
    {violation : Violation}
    (fails : Message.check fields limit = .error violation) :
    violation.code ≠ .refusedStream := by
  simp only [Message.check] at fails
  split at fails
  · cases fails
    exact ErrorCode.noConfusion
  · exact Message.checkNames_unrefused fails

/-! ## A `DATA` -/

theorem handles_takeConnection
    {connection : Connection}
    {origin : Core}
    (steps : Steps origin connection.core)
    (length : Nat) :
    Handles (takeConnection length) connection origin := by
  apply handles_get_bind
  apply handles_onConnection_bind steps
  intro taken takes
  have lower := (Window.take_eq_ok_iff.mp takes).2
  exact steps.tail (.receive _ (Or.inl (by
    show taken.value ≤ connection.receive.value
    omega)))

theorem handles_giveBack
    {connection : Connection}
    {origin : Core}
    (steps : Steps origin connection.core)
    (length : Nat) :
    Handles (giveBack length) connection origin := by
  rw [giveBack]
  split
  · apply handles_bind (handles_answer (plain_windowUpdate _ _) steps)
    intro _ after moved _
    apply handles_get_bind
    apply handles_onConnection_bind moved
    intro granted grants
    obtain ⟨_, within, value⟩ := Window.grant_eq_ok_iff.mp grants
    exact moved.tail (.receive _ (Or.inr (value ▸ within)))
  · exact steps

/-- A record after its receive window was taken or given back. -/
theorem grows_receive
    {core : Core}
    {id : Nat}
    {stream : Stream}
    (found : core.streams[id]? = some stream)
    (live : stream.reset = none)
    (receiving : stream.state.receiving = true)
    {window : Window}
    (bounded : window.value ≤ stream.receive.value ∨
      window.value ≤ maxStreamId)
    (body : List UInt8) :
    Grows core id stream { stream with receive := window, body := body } where
  found := found
  live := live
  receiving := receiving
  head := rfl
  trailers := rfl
  send := rfl
  reset := live
  bounded := bounded
  state := Or.inl rfl

theorem handles_extendBody
    {frame : Frame}
    {connection : Connection}
    {origin : Core}
    {stream : Stream}
    {window : Window}
    (arrived : .received frame ∈ connection.events)
    (kind : frame.kind = .data)
    (found : connection.streams[frame.stream]? = some stream)
    (live : stream.reset = none)
    (receiving : stream.state.receiving = true)
    (lower : window.value ≤ stream.receive.value)
    (steps : Steps origin connection.core) :
    Handles (extendBody frame { stream with receive := window }) connection
      origin := by
  have taken : Steps origin
      (connection.core.setStream frame.stream
        { stream with receive := window }) :=
    steps.tail (.grown _ (grows_receive found live receiving
      (Or.inl lower) stream.body))
  apply handles_modify_bind
  apply handles_onConnection_bind taken
  intro content _
  split
  · exact handles_fail_stream taken ErrorCode.noConfusion
  · have there : ∀ core : Core,
        (core.setStream frame.stream { stream with receive := window
          }).streams[frame.stream]? =
          some { stream with receive := window } :=
      fun _ => NatMap.getElem?_insert_self _ _
    split
    next ends =>
      exact taken.tail (.grown _
        { grows_receive (there _) live receiving (Or.inl (le_refl _))
            (stream.body ++ content) with
          state := Or.inr ⟨rfl, frame, arrived, rfl, ends, Or.inl kind⟩ })
    · have extended := taken.tail (.grown _
        (grows_receive (there connection.core) live receiving
          (Or.inl (le_refl _)) (stream.body ++ content)))
      split
      · apply handles_modify_bind
        apply handles_onConnection_bind extended
        intro granted grants
        obtain ⟨_, within, value⟩ := Window.grant_eq_ok_iff.mp grants
        apply handles_modify_bind
        apply handles_answer (plain_windowUpdate _ _)
        refine extended.tail (.grown _ (grows_receive
          (NatMap.getElem?_insert_self _ _) ?_ ?_
          (Or.inr (value ▸ within)) (stream.body ++ content)))
        · exact live
        · exact receiving
      · exact extended

theorem handles_dataOn
    {frame : Frame}
    {connection : Connection}
    {origin : Core}
    (arrived : .received frame ∈ connection.events)
    (kind : frame.kind = .data)
    (steps : Steps origin connection.core) :
    Handles (dataOn frame) connection origin := by
  apply handles_get_bind
  split
  · exact handles_fail_connection steps _
  · split
    · exact handles_fail_stream steps ErrorCode.noConfusion
    next stream found =>
      split
      · exact steps
      next live =>
        split
        · exact handles_fail_stream steps ErrorCode.noConfusion
        next receiving =>
          apply handles_onStream_bind steps
            (fun _ fails => Window.take_unrefused fails)
          intro taken takes
          have lower := (Window.take_eq_ok_iff.mp takes).2
          exact handles_extendBody arrived kind found (by simpa using live)
            (by simpa using receiving) (by omega) steps

theorem handles_data
    {frame : Frame}
    {connection : Connection}
    {origin : Core}
    (arrived : .received frame ∈ connection.events)
    (kind : frame.kind = .data)
    (steps : Steps origin connection.core) :
    Handles (data frame) connection origin := by
  have later : ∀ {after : Connection}, Steps connection.core after.core →
      .received frame ∈ after.events :=
    fun moved => moved.events.subset arrived
  rw [Handles, data]
  apply handles_bind_from (handles_takeConnection .refl _) steps
  intro _ after moved _
  apply handles_bind_from (handles_giveBack .refl _) (steps.trans moved)
  intro _ final given _
  exact handles_dataOn (later (moved.trans given)) kind
    ((steps.trans moved).trans given)

/-! ## A header block -/

theorem handles_headersOnRecord
    {connection : Connection}
    {origin : Core}
    {id : Nat}
    {stream : Stream}
    (found : connection.streams[id]? = some stream)
    (live : stream.reset = none)
    (fields : List Field)
    {ends : Bool}
    (seen : ends = true → Event.EndSeen connection.events id)
    (steps : Steps origin connection.core) :
    Handles (headersOnRecord id stream fields ends) connection origin := by
  apply handles_onStream_bind steps
    (fun _ fails => Stream.headers_unrefused fails)
  intro changed heads
  exact steps.tail (.headed _ found live heads seen)

theorem handles_openByPeer
    {connection : Connection}
    {origin : Core}
    {id : Nat}
    (opens : Opens connection.core id)
    (fields : List Field)
    {ends : Bool}
    (seen : ends = true → Event.EndSeen connection.events id)
    (steps : Steps origin connection.core) :
    Handles (openByPeer id fields ends) connection origin := by
  apply handles_modify_bind
  apply handles_get_bind
  split
  next leaving => exact steps.tail (.passedOver _ opens leaving)
  next staying =>
    have stays : connection.core.goingAway = false :=
      Bool.eq_false_of_not_eq_true staying
    split
    · refine ⟨steps.tail (.refused _ opens stays), fun asClient => ?_⟩
      have server := opens.server
      rw [steps.client, asClient] at server
      cases server
    next fits =>
      apply handles_modify_bind
      apply handles_get_bind
      have reached : max (max connection.highest id) id =
          max connection.highest id := by omega
      have absent : connection.streams[id]? = none := opens.absent
      simp only [openStream, reached,
        NatMap.getElem?_insertIfNew_self absent, headersOnRecord,
        Stream.headers_new]
      exact steps.tail (.opened _ opens stays (Stream.headers_new _ _ _ _) seen
        (not_le.mp fits))

theorem handles_fieldsOn
    {connection : Connection}
    {origin : Core}
    (settled : connection.settingsSeen = true)
    {id : Nat}
    (bounded : id ≤ maxStreamId)
    (fields : List Field)
    {ends : Bool}
    (seen : ends = true → Event.EndSeen connection.events id)
    (steps : Steps origin connection.core) :
    Handles (fieldsOn id fields ends) connection origin := by
  apply handles_get_bind
  split
  next stream found =>
    split
    · exact steps
    next live =>
      exact handles_headersOnRecord found (by simpa using live) fields seen
        steps
  next absent =>
    split
    · exact handles_fail_connection steps _
    next allowed =>
      simp only [not_or, Bool.not_eq_true, not_le] at allowed
      obtain ⟨server, odd, above⟩ := allowed
      exact handles_openByPeer
        ⟨server, by omega, above, absent, settled, bounded⟩ fields seen steps

theorem core_decodeBlock (octets : List UInt8) :
    Keeps core (decodeBlock octets) :=
  fun _ => rfl

theorem handles_decodeBlock
    {connection : Connection}
    {origin : Core}
    (octets : List UInt8)
    (steps : Steps origin connection.core) :
    Handles (decodeBlock octets) connection origin := by
  simp only [Handles, Ensures, decodeBlock]
  cases (connection.decoder.decode octets).1 with
  | ok fields => exact steps
  | error violation => exact ⟨connection.core, steps, disturbed_refl _⟩

theorem handles_block
    {connection : Connection}
    {origin : Core}
    (settled : connection.settingsSeen = true)
    {id : Nat}
    (bounded : id ≤ maxStreamId)
    (octets : List UInt8)
    {ends : Bool}
    (whole : Bool)
    (seen : ends = true → Event.EndSeen connection.events id)
    (steps : Steps origin connection.core) :
    Handles (block id octets ends whole) connection origin := by
  rw [block]
  split
  · exact handles_fail_connection steps _
  · split
    · refine steps.tail (.continuing _ _ ?_)
      rintro _ ⟨⟩
      exact ⟨bounded, seen⟩
    · apply handles_bind (handles_decodeBlock octets steps)
      intro fields after moved runs
      have same : after.core = connection.core := by
        have kept := core_decodeBlock octets connection
        rwa [runs] at kept
      apply handles_get_bind
      apply handles_onStream_bind moved
        (fun _ fails => Message.check_unrefused fails)
      intro _ _
      have sameEvents : after.events = connection.events :=
        congrArg Core.events same
      exact handles_fieldsOn ((congrArg Core.settingsSeen same).trans settled)
        bounded fields (sameEvents ▸ seen) moved

theorem handles_continuation
    {connection : Connection}
    {origin : Core}
    (settled : connection.settingsSeen = true)
    (waits : Waits connection.core)
    (frame : Frame)
    (steps : Steps origin connection.core) :
    Handles (continuation frame) connection origin := by
  apply handles_get_bind
  split
  · exact handles_fail_connection steps _
  next waiting held =>
    apply handles_modify_bind
    have begun := waits waiting held
    have idle : Steps origin { connection with continuing := none }.core :=
      steps.tail (.continuing connection.core none
        (fun _ absent => by cases absent))
    refine handles_block ?_ begun.bounded _ _ ?_ idle
    · exact settled
    · exact begun.ends

theorem handles_headersFrame
    {frame : Frame}
    {connection : Connection}
    {origin : Core}
    (settled : connection.settingsSeen = true)
    (arrived : .received frame ∈ connection.events)
    (kind : frame.kind = .headers)
    (bounded : frame.stream ≤ maxStreamId)
    (steps : Steps origin connection.core) :
    Handles (headersFrame frame) connection origin := by
  apply handles_onConnection_bind steps
  intro octets _
  exact handles_block settled bounded _ _
    (fun ends => ⟨frame, arrived, rfl, ends, Or.inr kind⟩) steps

/-! ## The frames of the connection and of a stream's end -/

theorem word_of_soleWord
    {frame : Frame}
    {refusal : String}
    {word : Nat}
    (sole : soleWord frame refusal = .ok word) :
    frame.word 0 = some word := by
  rw [soleWord] at sole
  split at sole
  next held =>
    split at sole
    · cases sole
      exact held
    · cases sole
  · cases sole

theorem handles_rstStream
    {frame : Frame}
    {connection : Connection}
    {origin : Core}
    (arrived : .received frame ∈ connection.events)
    (kind : frame.kind = .rstStream)
    (steps : Steps origin connection.core) :
    Handles (rstStream frame) connection origin := by
  apply handles_onConnection_bind steps
  intro code sole
  apply handles_get_bind
  split
  · exact handles_fail_connection steps _
  · exact steps.tail (.reset _ arrived kind (word_of_soleWord sole))

theorem handles_settings
    {frame : Frame}
    {connection : Connection}
    {origin : Core}
    (steps : Steps origin connection.core) :
    Handles (settings frame) connection origin := by
  rw [settings]
  split
  · split
    · exact handles_fail_connection steps _
    · exact steps
  · apply handles_get_bind
    rw [Handles, ensures_bind]
    rcases applied : connection.remoteSettings.apply frame.payload
        connection.client with ⟨outcome, settings⟩
    have settingsApplied : settings =
        (connection.remoteSettings.apply frame.payload connection.client).2 := by
      rw [applied]
    cases outcome with
    | error violation =>
        simp only [Ensures, applySettings, applied]
        exact ⟨connection.core, steps, frame.payload, settings,
          connection.streams, fun _ => rfl, Or.inr settingsApplied, rfl⟩
    | ok _ =>
        simp only [Ensures, applySettings, applied]
        apply handles_get_bind
        rw [Handles, ensures_bind]
        rcases shifted : shiftEach ((settings.initialWindowSize : Int) -
            connection.remoteSettings.initialWindowSize)
            connection.streams.toList connection.streams with ⟨outcome, streams⟩
        have same : SameButSend connection.streams streams := by
          have kept := sameButSend_shiftEach
            ((settings.initialWindowSize : Int) -
              connection.remoteSettings.initialWindowSize)
            (listed_toList connection.streams)
          rwa [shifted] at kept
        cases outcome with
        | error violation =>
            simp only [Ensures, shiftStreams, shifted]
            exact ⟨connection.core, steps, frame.payload, settings, streams,
              same, Or.inr settingsApplied, rfl⟩
        | ok _ =>
            simp only [Ensures, shiftStreams, shifted]
            apply handles_modify_bind
            exact handles_answer (by simp [Frame.Plain])
              (steps.tail (.settings connection.core applied shifted))

theorem handles_pingFrame
    {frame : Frame}
    {connection : Connection}
    {origin : Core}
    (steps : Steps origin connection.core) :
    Handles (pingFrame frame) connection origin := by
  rw [pingFrame]
  split
  · exact handles_fail_connection steps _
  · split
    · exact steps
    · exact handles_answer (by simp [Frame.Plain, Frame.ping]) steps

theorem handles_goawayFrame
    {frame : Frame}
    {connection : Connection}
    {origin : Core}
    (arrived : .received frame ∈ connection.events)
    (kind : frame.kind = .goaway)
    (steps : Steps origin connection.core) :
    Handles (goawayFrame frame) connection origin := by
  rw [goawayFrame]
  split
  next last code word _ =>
    exact steps.tail (.wentAway _ arrived kind word)
  · exact handles_fail_connection steps _

/-- A `WINDOW_UPDATE` is measured from before it was logged: the step that
grants it logs it too. -/
theorem handles_windowUpdate
    {frame : Frame}
    {connection : Connection}
    {origin : Core}
    (kind : frame.kind = .windowUpdate)
    (steps : Steps origin connection.core) :
    Handles (windowUpdate frame) (connection.log (.received frame)) origin := by
  have logged : Steps origin (connection.log (.received frame)).core :=
    steps.tail (.received _ frame)
  apply handles_onConnection_bind logged
  intro word sole
  have holds := word_of_soleWord sole
  apply handles_get_bind
  split
  next zero =>
    apply handles_onConnection_bind logged
    intro granted grants
    exact steps.tail (.grantedConnection _ kind zero holds grants)
  next positive =>
    split
    · exact handles_fail_connection logged _
    next opened =>
      split
      · exact logged
      next stream found =>
        apply handles_onStream_bind logged
          (fun _ fails => Window.grant_unrefused fails)
        intro granted grants
        have within : frame.stream ≤ connection.core.highest := by
          simp only [idle, decide_eq_true_eq, not_lt] at opened
          exact opened
        exact steps.tail
          (.grantedStream _ kind positive within holds found grants)

/-- One frame's handling moves the core by steps from before it arrived. -/
theorem handles_handle
    {frame : Frame}
    (bounded : frame.stream ≤ maxStreamId)
    {connection : Connection}
    {origin : Core}
    (waits : Waits connection.core)
    (steps : Steps origin connection.core) :
    Handles (handle frame) (connection.log (.received frame)) origin := by
  have logged : Steps origin (connection.log (.received frame)).core :=
    steps.tail (.received _ frame)
  have arrived : .received frame ∈ (connection.log (.received frame)).events :=
    List.mem_append_right _ (List.mem_singleton_self _)
  apply handles_get_bind
  split
  · exact handles_fail_connection logged _
  next settled =>
    split
    · exact handles_fail_connection logged _
    · split
      · exact handles_fail_connection logged _
      · have seen : frame.kind ≠ .settings →
            (connection.log (.received frame)).settingsSeen = true := by
          intro other
          by_contra unseen
          exact settled ⟨unseen, other⟩
        have waitsLogged := (Step.received connection.core frame).waits waits
        rw [dispatch]
        split
        next kind => exact handles_data arrived kind logged
        next kind =>
          exact handles_headersFrame (seen (by rw [kind]; decide)) arrived kind
            bounded logged
        next kind =>
          exact handles_continuation (seen (by rw [kind]; decide)) waitsLogged
            frame logged
        · split
          · exact handles_fail_stream logged ErrorCode.noConfusion
          · exact logged
        · exact logged
        next kind => exact handles_rstStream arrived kind logged
        · exact handles_settings logged
        · exact handles_fail_connection logged _
        · exact handles_pingFrame logged
        next kind => exact handles_goawayFrame arrived kind logged
        next kind => exact handles_windowUpdate kind steps

/-! ## The connection's own actions -/

/-- An action moves the core by steps, whatever its outcome. -/
def Moves {α : Type} (action : Action α) (connection : Connection) : Prop :=
  Steps connection.core (action connection).2.core

theorem Moves.of_eq
    {α : Type}
    {action : Action α}
    {connection after : Connection}
    (moves : Moves action connection)
    {outcome : Except NetError α}
    (runs : action connection = (outcome, after)) :
    Steps connection.core after.core := by
  rwa [Moves, runs] at moves

theorem moves_of_keeps
    {α : Type}
    {action : Action α}
    (keeps : Keeps core action)
    (connection : Connection) :
    Moves action connection := by
  rw [Moves, keeps connection]

theorem moves_bind
    {α β : Type}
    {first : Action α}
    {next : α → Action β}
    {connection : Connection}
    (moves : Moves first connection)
    (goes : ∀ value after, first connection = (.ok value, after) →
      Moves (next value) after) :
    Moves (first >>= next) connection := by
  rw [Moves] at moves ⊢
  rw [bind_apply]
  split
  next value after runs =>
    rw [runs] at moves
    exact moves.trans (goes value after runs)
  next error after runs =>
    rwa [runs] at moves

theorem moves_emit
    {frame : Frame}
    (plain : frame.Plain)
    (connection : Connection) :
    Moves (emit frame) connection := by
  rw [Moves, core_emit]
  exact .single (.emitted _ plain)

theorem core_reset
    (id : Nat)
    (code : ErrorCode)
    (connection : Connection) :
    (reset id code connection).2.core =
      (connection.core.markReset id code).log (.emitted (.reset id code)) := by
  rw [reset, modify_bind_apply, core_emit]
  rfl

theorem moves_reset
    {connection : Connection}
    {code : ErrorCode}
    (seen : connection.settingsSeen = true)
    (refuses : connection.client = true → code ≠ .refusedStream)
    (id : Nat) :
    Moves (reset id code) connection := by
  rw [Moves, core_reset]
  exact .single (.ended _ id code seen refuses)

theorem core_goAway
    (code : ErrorCode)
    (debug : String)
    (connection : Connection) :
    (goAway code debug connection).2.core =
      { connection.core with goingAway := true }.log
        (.emitted (.goaway connection.lastPeer code (Text.octets debug))) := by
  rw [goAway, modify_bind_apply, get_bind_apply, core_emit]
  rfl

theorem moves_goAway
    (code : ErrorCode)
    (debug : String)
    (connection : Connection) :
    Moves (goAway code debug) connection := by
  rw [Moves, core_goAway]
  exact .single (.goingAway _ code (Text.octets debug))

/-- A failure logs the breach and goes away. -/
theorem steps_fail
    {α : Type}
    (violation : Violation)
    {core : Core}
    {connection : Connection}
    (disturbed : Disturbed core connection.core) :
    Steps core (fail violation connection : Except NetError α × _).2.core := by
  obtain ⟨payload, settings, streams, same, applied, equal⟩ := disturbed
  have logged : Step core (connection.log (.breached violation)).core := by
    have breached := Step.breached core violation payload same settings applied
    rw [← equal] at breached
    exact breached
  exact (Relation.ReflTransGen.single logged).trans
    (moves_goAway violation.code violation.message
      (connection.log (.breached violation)))

theorem moves_fail
    {α : Type}
    (violation : Violation)
    (connection : Connection) :
    Moves (fail violation : Action α) connection :=
  steps_fail violation (disturbed_refl _)

theorem ensures_applySettings
    (payload : List UInt8)
    (connection : Connection) :
    Ensures (applySettings payload) connection (fun _ _ => True)
      (fun breach _ => ∃ violation, breach = .connection violation) := by
  simp only [Ensures, applySettings]
  cases (connection.remoteSettings.apply payload connection.client).1 with
  | ok _ => trivial
  | error violation => exact ⟨violation, rfl⟩

theorem ensures_shiftStreams
    (delta : Int)
    (connection : Connection) :
    Ensures (shiftStreams delta) connection (fun _ _ => True)
      (fun breach _ => ∃ violation, breach = .connection violation) := by
  simp only [Ensures, shiftStreams]
  cases (shiftEach delta connection.streams.toList connection.streams).1 with
  | ok _ => trivial
  | error violation => exact ⟨violation, rfl⟩

/-- Settings are the whole connection's: no stream is breached by them. -/
theorem ensures_settings
    (frame : Frame)
    (connection : Connection) :
    Ensures (settings frame) connection (fun _ _ => True)
      (fun breach _ => ∃ violation, breach = .connection violation) := by
  rw [settings]
  split
  · split
    · exact ⟨_, rfl⟩
    · trivial
  · simp only [ensures_bind, ensures_get, ensures_modify]
    refine (ensures_applySettings _ _).mono (fun _ _ _ => ?_)
      (fun _ _ breach => breach)
    refine (ensures_shiftStreams _ _).mono (fun _ _ _ => ?_)
      (fun _ _ breach => breach)
    exact (ensures_answer _ _).mono (fun _ _ _ => trivial)
      (fun _ _ broken => broken.1)

theorem settled_of_stream_breach
    {frame : Frame}
    {connection after : Connection}
    {id : Nat}
    {violation : Violation}
    (runs : handle frame connection = (.error (.stream id violation), after)) :
    connection.settingsSeen = true := by
  by_contra unseen
  rw [handle, get_bind_apply] at runs
  split at runs
  · cases runs
  next settled =>
    have kind : frame.kind = .settings := by
      by_contra other
      exact settled ⟨unseen, other⟩
    split at runs
    · cases runs
    · split at runs
      · cases runs
      · rw [dispatch, kind] at runs
        obtain ⟨other, breach⟩ :=
          ensures_of_error (ensures_settings frame connection) runs
        cases breach

/-- Handling one frame, its breach answered, moves the core by steps. -/
theorem moves_take
    {frame : Frame}
    (bounded : frame.stream ≤ maxStreamId)
    {connection : Connection}
    (waits : Waits connection.core) :
    Moves (take frame) connection := by
  have handles := handles_handle bounded waits .refl
  rw [Moves, take, modify_bind_apply, bind_apply, attempt_apply]
  rcases runs : handle frame (connection.log (.received frame)) with
    ⟨outcome, after⟩
  rw [Handles, Ensures, runs] at handles
  rcases outcome with (violation | ⟨id, violation⟩) | _
  · obtain ⟨core, steps, disturbed⟩ := handles
    exact steps.trans (steps_fail violation disturbed)
  · have before : (connection.log (.received frame)).settingsSeen = true :=
      settled_of_stream_breach runs
    have settled : after.settingsSeen = true :=
      handles.1.settingsSeen before
    refine handles.1.trans (moves_reset settled ?_ id)
    intro asClient
    exact handles.2 (handles.1.client.symm.trans asClient)
  · exact handles

theorem keeps_core_readFrame : Keeps core readFrame :=
  fun _ => rfl

theorem bounded_of_readFrame
    {connection after : Connection}
    {frame : Frame}
    (reads : readFrame connection = (.ok (.ok (some frame)), after)) :
    frame.stream ≤ maxStreamId := by
  simp only [readFrame, Prod.mk.injEq, Except.ok.injEq] at reads
  exact Frame.stream_of_read reads.1

/-- Reading and handling one frame moves the core by steps. -/
theorem moves_pump
    {connection : Connection}
    (waits : Waits connection.core) :
    Moves pump connection := by
  apply moves_bind (moves_of_keeps keeps_core_readFrame connection)
  intro outcome after runs
  have same : after.core = connection.core := by
    have kept := keeps_core_readFrame connection
    rwa [runs] at kept
  rcases outcome with (failure | violation) | (_ | frame)
  · exact .refl
  · exact moves_fail violation after
  · exact .refl
  · apply moves_bind
      (moves_take (bounded_of_readFrame runs) (same ▸ waits))
    intro _ _ _
    exact .refl

theorem keeps_core_release : Keeps core release := by
  apply keeps_bind keeps_get
  intro connection
  split
  · exact keeps_pure _
  · exact keeps_pure _
  · refine keeps_bind (keeps_modify ?_) (fun _ => ?_)
    · exact fun _ => rfl
    · exact keeps_bind (keeps_core_onWire _) (fun _ => keeps_core_onWire _)

theorem plain_pieceFrame
    (id : Nat)
    {kind : Kind}
    (block : kind = .headers ∨ kind = .continuation)
    (ends last : Bool)
    (piece : List UInt8) :
    (pieceFrame id kind ends last piece).Plain := by
  rcases block with rfl | rfl <;> simp [Frame.Plain, pieceFrame]

theorem keeps_streams_emit (frame : Frame) :
    Keeps Connection.streams (emit frame) :=
  fun connection => congrArg Core.streams (core_emit frame connection)

theorem keeps_streams_emitPieces
    (id : Nat)
    (ends : Bool)
    (kind : Kind)
    (cut : List (List UInt8)) :
    Keeps Connection.streams (emitPieces id ends kind cut) := by
  induction cut generalizing kind with
  | nil => exact keeps_pure _
  | cons piece rest inductionHypothesis =>
      exact keeps_bind (keeps_streams_emit _)
        fun _ => inductionHypothesis .continuation

theorem plain_settings
    (flags : UInt8)
    (payload : List UInt8) :
    Frame.Plain { kind := .settings, flags, stream := 0, payload } :=
  ⟨Kind.noConfusion, Kind.noConfusion, Kind.noConfusion⟩

/-- Starting a connection moves the core by steps from where it starts. -/
theorem steps_start
    {wire : Wire}
    {client : Bool}
    {connection : Connection}
    (starts : start wire client = .ok connection) :
    Steps (initial wire client).core connection.core := by
  have preface : Keeps core writePreface := by
    refine keeps_bind keeps_get fun _ => ?_
    split
    · exact keeps_core_onWire _
    · exact keeps_pure _
  have moves : Moves opening (initial wire client) := by
    refine moves_bind (moves_of_keeps preface _) fun _ after _ => ?_
    exact moves_bind (moves_of_keeps keeps_get _)
      fun _ _ _ => moves_emit (plain_settings _ _) _
  rw [start] at starts
  split at starts
  next opened =>
    cases starts
    exact moves.of_eq opened
  · cases starts

/-- This side has not ended its half of `id` alone. -/
def Unended (connection : Connection) (id : Nat) : Prop :=
  ∀ stream, connection.streams[id]? = some stream →
    stream.state ≠ .halfClosedLocal

end Connection
end Http2
end XmipNet
