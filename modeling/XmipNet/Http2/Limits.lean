import XmipNet.Http2.Frames
import XmipNet.Http2.Simulation
import XmipNet.Http2.Terse

/-!
# What handling a frame stays within

However the peer's frames follow one another, the windows stay within `2 ^ 31 -
1`, the peer's settings stay ones it may announce, and what is emitted has a
length the wire's 24 bits hold. Only where a write fails does a `GOAWAY` carry
words that are not this side's, and so it is long only where such a failure's
words are.
-/

namespace XmipNet

/-- Writes whose failures say what they have to in 8 MiB. -/
def Acceptance.Brief (script : List Acceptance) : Prop :=
  ∀ after error, .failed after error ∈ script →
    Text.Within (2 ^ 23) error.text

/-- Words that a `GOAWAY` takes where the writes are brief. -/
def Text.Fits (script : List Acceptance) (text : String) : Prop :=
  Acceptance.Brief script → Within (2 ^ 24 - 9) text

theorem Text.Within.fits
    {text : String}
    (few : Within 256 text)
    (script : List Acceptance) :
    Fits script text :=
  fun _ => few.mono (by decide)

namespace Wire

/-- What is said of a failed write fits. -/
theorem fits_fromIo
    {script : List Acceptance}
    {doing : String}
    (few : Text.Within 64 doing)
    {error : IoError}
    (written : ∃ after, .failed after error ∈ script) :
    Text.Fits script (NetError.fromIo doing error).message := by
  intro brief
  obtain ⟨after, member⟩ := written
  exact Text.Within.mono ((few.append
    (by decide : Text.Within 2 ": ")).append (brief after error member))
      (by decide)

end Wire

namespace Http2

open Fallible
open Hpack (Field)

/-- A frame whose length the wire's 24 bits hold; a `GOAWAY`, where the writes
are brief. -/
def Frame.Short (script : List Acceptance) (frame : Frame) : Prop :=
  (frame.kind = .goaway → Acceptance.Brief script) →
    frame.payload.length < 2 ^ 24

theorem Frame.short_of_le
    {frame : Frame}
    (few : frame.payload.length ≤ maxFrameSizeLimit)
    (script : List Acceptance) :
    frame.Short script :=
  fun _ => Nat.lt_of_le_of_lt few (by decide)

theorem Frame.short_goaway
    {script : List Acceptance}
    {debug : String}
    (fits : Text.Fits script debug)
    (last : Nat)
    (code : ErrorCode) :
    (Frame.goaway last code (Text.octets debug)).Short script := by
  intro brief
  have few : (Text.octets debug).length ≤ 2 ^ 24 - 9 := fits (brief rfl)
  simp only [goaway, List.length_append, BigEndian.length_write]
  omega

/-- A stream whose windows are within `2 ^ 31 - 1`. -/
structure Stream.Capped (stream : Stream) : Prop where
  receive : stream.receive.value ≤ maxStreamId
  send : stream.send.value ≤ maxStreamId

theorem Stream.capped_new
    {send receive : Nat}
    (sendFits : send ≤ maxStreamId)
    (receiveFits : receive ≤ maxStreamId) :
    (Stream.new send receive).Capped :=
  ⟨Int.ofNat_le.mpr receiveFits, Int.ofNat_le.mpr sendFits⟩

namespace Connection

open NatMap (All)

/-- What a connection over writes that follow `script` stays within. -/
structure Sized (script : List Acceptance) (connection : Connection) :
    Prop where
  scripted : connection.wire.accepts <:+ script
  ours : connection.localSettings = .ours
  admitted : connection.remoteSettings.Admitted
  table : connection.decoder.limit = Settings.ours.headerTableSize
  filled : 0 ≤ connection.receive.value
  receive : connection.receive.value ≤ maxStreamId
  send : connection.send.value ≤ maxStreamId
  streams : All Stream.Capped connection.streams
  continuing : ∀ waiting, connection.continuing = some waiting →
    waiting.stream ≤ maxStreamId
  short : ∀ frame ∈ Event.sent connection.events, frame.Short script

section Sized

variable {script : List Acceptance} {connection : Connection}

/-- An event that is no frame's emission. -/
theorem Sized.log
    (sized : Sized script connection)
    {event : Event}
    (unsent : event.frame = none) :
    Sized script (connection.log event) := by
  refine { sized with short := ?_ }
  rw [Connection.log, Event.sent_append, Event.sent_singleton, unsent,
    Option.toList_none, List.append_nil]
  exact sized.short

theorem Sized.emitted
    (sized : Sized script connection)
    {frame : Frame}
    (short : frame.Short script) :
    Sized script (connection.log (.emitted frame)) := by
  refine { sized with short := fun other member => ?_ }
  rw [Connection.log, Event.sent_append, Event.sent_singleton] at member
  rcases List.mem_append.mp member with earlier | last
  · exact sized.short other earlier
  · cases List.mem_singleton.mp last
    exact short

theorem Sized.setStream
    (sized : Sized script connection)
    (id : Nat)
    {stream : Stream}
    (capped : stream.Capped) :
    Sized script (connection.setStream id stream) :=
  { sized with streams := sized.streams.insert id capped }

theorem Sized.openStream
    (sized : Sized script connection)
    (id : Nat) :
    Sized script (connection.openStream id) := by
  have fits : connection.localSettings.initialWindowSize ≤ maxStreamId := by
    rw [sized.ours]
    decide
  exact { sized with
    streams := sized.streams.insertIfNew id
      (Stream.capped_new sized.admitted.window fits) }

theorem Sized.remove
    (sized : Sized script connection)
    (id : Nat) :
    Sized script (connection.remove id) :=
  { sized with streams := sized.streams.erase id }

theorem Sized.markReset
    (sized : Sized script connection)
    (id : Nat)
    (code : ErrorCode) :
    Sized script (connection.markReset id code) :=
  { sized with
    streams := sized.streams.modify id
      fun _ capped => ⟨capped.receive, capped.send⟩ }

theorem Sized.endLocally
    (sized : Sized script connection)
    (id : Nat) :
    Sized script (connection.endLocally id) :=
  { sized with
    streams := sized.streams.modify id
      fun _ capped => ⟨capped.receive, capped.send⟩ }

end Sized

/-! ## What is written -/

/-- The words of a failure fit. -/
def FitsFailure (script : List Acceptance) (failure : NetError) : Prop :=
  Text.Fits script failure.message

/-- The words of a breach fit, where the peer is told them. -/
def FitsBreach (script : List Acceptance) : Breach → Prop
  | .connection violation => Text.Fits script violation.message
  | .stream _ _ => True

/-- An action keeps within its limits. -/
abbrev StaysSized {ε α : Type} (script : List Acceptance)
    (action : Fallible Connection ε α) : Prop :=
  Upholds (Sized script) action

/-- Handling keeps within its limits, and what it breaks off over is told in
words that fit. -/
abbrev Curbed {α : Type} (script : List Acceptance) (handler : Handler α) :
    Prop :=
  Confines (Sized script) (FitsBreach script) handler

section Curbed

variable {script : List Acceptance} {α β : Type}

theorem confines_writeAll
    {doing : String}
    (few : Text.Within 64 doing)
    (bytes : List UInt8) :
    Confines (Sized script) (FitsFailure script) (writeAll doing bytes) := by
  refine ⟨fun connection sized => ?_, fun connection sized => ?_⟩
  · exact { sized with
      scripted := (Wire.script_of_writeAll sized.scripted bytes).1 }
  · exact failsAs_mapError (Wire.script_of_writeAll sized.scripted bytes).2
      fun _ written => Wire.fits_fromIo few written

theorem confines_emit
    {frame : Frame}
    (short : frame.Short script) :
    Confines (Sized script) (FitsFailure script) (emit frame) := by
  refine confines_bind
    (confines_modify fun _ sized => sized.emitted short) fun _ =>
      confines_get_bind fun connection _ => ?_
  split
  · exact confines_modify fun _ sized => { sized with }
  · exact confines_bind (confines_writeAll (by decide) _)
      fun _ => confines_writeAll (by decide) _

theorem staysSized_emit
    {frame : Frame}
    (short : frame.Short script) :
    StaysSized script (emit frame) :=
  (confines_emit short).upholds

theorem staysSized_release : StaysSized script release := by
  refine upholds_get_bind fun connection _ => ?_
  split
  · exact upholds_pure _
  · exact upholds_pure _
  · refine upholds_bind (upholds_modify fun _ sized => { sized with })
      fun _ => upholds_bind ?_ fun _ => ?_
    · exact (confines_writeAll (by decide) _).upholds
    · exact (confines_writeAll (by decide) _).upholds

theorem curbed_answer
    {frame : Frame}
    (short : frame.Short script) :
    Curbed script (answer frame) :=
  confines_mapError (confines_emit short) fun _ fits => fits

/-! ## What an outcome is told in -/

theorem fitsBreach_of_terse
    {violation : Violation}
    (terse : violation.Terse) :
    FitsBreach script (.connection violation) :=
  Text.Within.fits terse script

theorem curbed_connection
    {violation : Violation}
    (terse : violation.Terse) :
    Curbed script (Fallible.fail (.connection violation) : Handler α) :=
  confines_fail (fitsBreach_of_terse terse)

theorem curbed_stream
    (id : Nat)
    (violation : Violation) :
    Curbed script (Fallible.fail (.stream id violation) : Handler α) :=
  confines_fail trivial

theorem curbed_onConnection_bind
    {outcome : Except Violation α}
    {next : α → Handler β}
    (terse : FailsAs Violation.Terse outcome)
    (goes : ∀ value, outcome = .ok value → Curbed script (next value)) :
    Curbed script (onConnection outcome >>= next) := by
  cases outcome with
  | error violation => exact curbed_connection (terse violation rfl)
  | ok value => exact goes value rfl

theorem curbed_onStream_bind
    {outcome : Except Violation α}
    {next : α → Handler β}
    (id : Nat)
    (goes : ∀ value, outcome = .ok value → Curbed script (next value)) :
    Curbed script (onStream id outcome >>= next) := by
  cases outcome with
  | error violation => exact curbed_stream id violation
  | ok value => exact goes value rfl

theorem curbed_setStream
    (id : Nat)
    {stream : Stream}
    (capped : stream.Capped) :
    Curbed script
      (modify fun connection => connection.setStream id stream) :=
  confines_modify fun _ sized => sized.setStream id capped

/-! ## A body -/

theorem short_windowUpdate (stream increment : Nat) :
    (Frame.windowUpdate stream increment).Short script :=
  Frame.short_of_le (by simp [Frame.windowUpdate, maxFrameSizeLimit]) script

theorem incrementOf_le (length : Nat) : incrementOf length ≤ 2 ^ 32 := by
  rw [incrementOf]
  split
  next small => exact small.le
  · decide

/-- Octets given back to a window that is within its bound. -/
theorem terse_giveBack
    {window : Window}
    (capped : window.value ≤ maxStreamId)
    (length : Nat) :
    FailsAs Violation.Terse (window.grant (incrementOf length)) := by
  have bound : ((maxStreamId : Nat) : Int) = 2 ^ 31 - 1 := rfl
  have few : ((incrementOf length : Nat) : Int) ≤ 2 ^ 32 := by
    exact_mod_cast incrementOf_le length
  exact Window.terse_grant (by omega)

theorem curbed_takeConnection
    {length : Nat}
    (few : length < 10 ^ 20) :
    Curbed script (takeConnection length) := by
  refine confines_get_bind fun connection sized => curbed_onConnection_bind
    (Window.terse_take sized.filled few) fun taken takes => ?_
  obtain ⟨within, left⟩ := Window.take_eq_ok_iff.mp takes
  have most := sized.receive
  exact confines_modify fun _ other => { other with
    filled := show 0 ≤ taken.value by omega
    receive := show taken.value ≤ maxStreamId by omega }

theorem curbed_giveBack (length : Nat) : Curbed script (giveBack length) := by
  rw [giveBack]
  split
  · refine confines_bind (curbed_answer (short_windowUpdate _ _)) fun _ =>
      confines_get_bind fun connection sized => curbed_onConnection_bind
        (terse_giveBack sized.receive length) fun granted grants => ?_
    obtain ⟨_, within, moved⟩ := Window.grant_eq_ok_iff.mp grants
    have filled := sized.filled
    exact confines_modify fun _ other => { other with
      filled := show 0 ≤ granted.value by omega
      receive := moved.trans_le within }
  · exact confines_pure _

theorem curbed_extendBody
    (frame : Frame)
    {stream : Stream}
    (capped : stream.Capped) :
    Curbed script (extendBody frame stream) := by
  refine confines_bind (curbed_setStream _ capped) fun _ =>
    curbed_onConnection_bind frame.terse_content fun content _ => ?_
  split
  · exact curbed_stream _ _
  · simp only
    split
    · exact curbed_setStream _ ⟨capped.receive, capped.send⟩
    · split
      · refine confines_bind
          (curbed_setStream _ ⟨capped.receive, capped.send⟩) fun _ =>
            curbed_onConnection_bind (terse_giveBack capped.receive _)
              fun granted grants => ?_
        obtain ⟨_, within, moved⟩ := Window.grant_eq_ok_iff.mp grants
        exact confines_bind
          (curbed_setStream _ ⟨moved.trans_le within, capped.send⟩)
            fun _ => curbed_answer (short_windowUpdate _ _)
      · exact curbed_setStream _ ⟨capped.receive, capped.send⟩

/-- A number a stream can have, after words. -/
theorem terse_id
    (code : ErrorCode)
    {before : String}
    (few : Text.Within 64 before)
    {id : Nat}
    (bounded : id ≤ maxStreamId) :
    Violation.Terse ⟨code, before ++ toString id⟩ :=
  Violation.terse_last code few (Nat.lt_of_le_of_lt bounded (by decide))

theorem curbed_dataOn
    {frame : Frame}
    (bounded : frame.stream ≤ maxStreamId) :
    Curbed script (dataOn frame) := by
  refine confines_get_bind fun connection sized => ?_
  split
  · exact curbed_connection (terse_id _ (by decide) bounded)
  · split
    · exact curbed_stream _ _
    next stream found =>
      split
      · exact confines_pure _
      · split
        · exact curbed_stream _ _
        · refine curbed_onStream_bind _ fun taken takes => ?_
          obtain ⟨_, left⟩ := Window.take_eq_ok_iff.mp takes
          have capped := sized.streams _ _ found
          have most := capped.receive
          exact curbed_extendBody frame
            ⟨show taken.value ≤ maxStreamId by omega, capped.send⟩

theorem curbed_data
    {frame : Frame}
    (bounded : frame.stream ≤ maxStreamId)
    (few : frame.payload.length < 10 ^ 20) :
    Curbed script (data frame) :=
  confines_bind (curbed_takeConnection few) fun _ =>
    confines_bind (curbed_giveBack _) fun _ => curbed_dataOn bounded

/-! ## A header block -/

theorem curbed_decodeBlock (octets : List UInt8) :
    Curbed script (decodeBlock octets) := by
  have terse {connection : Connection} (sized : Sized script connection) :
      FailsAs Violation.Terse (connection.decoder.decode octets).1 ∧
        (connection.decoder.decode octets).2.limit =
          connection.decoder.limit :=
    Hpack.Decoder.terse_decode (lt_of_eq_of_lt sized.table (by decide)) octets
  refine ⟨fun connection sized => ?_, fun connection sized => ?_⟩
  · exact { sized with table := (terse sized).2.trans sized.table }
  · exact failsAs_mapError (terse sized).1 fun _ => fitsBreach_of_terse

theorem curbed_headersOnRecord
    (id : Nat)
    {stream : Stream}
    (capped : stream.Capped)
    (fields : List Field)
    (ends : Bool) :
    Curbed script (headersOnRecord id stream fields ends) := by
  refine curbed_onStream_bind id fun changed heads => ?_
  rw [(Stream.headers_eq_ok heads).2.2]
  exact curbed_setStream id ⟨capped.receive, capped.send⟩

theorem curbed_openByPeer
    (id : Nat)
    (fields : List Field)
    (ends : Bool) :
    Curbed script (openByPeer id fields ends) := by
  refine confines_bind (confines_modify fun _ sized => { sized with })
    fun _ => confines_get_bind fun connection _ => ?_
  split
  · exact confines_modify fun _ sized => sized.log rfl
  · split
    · exact curbed_stream _ _
    · refine confines_bind (confines_modify fun _ sized => sized.openStream id)
        fun _ => confines_get_bind fun opened sized => ?_
      split
      next stream found =>
        exact curbed_headersOnRecord id (sized.streams _ _ found) fields ends
      · exact confines_pure _

theorem curbed_fieldsOn
    {id : Nat}
    (bounded : id ≤ maxStreamId)
    (fields : List Field)
    (ends : Bool) :
    Curbed script (fieldsOn id fields ends) := by
  refine confines_get_bind fun connection sized => ?_
  split
  next stream found =>
    split
    · exact confines_pure _
    · exact curbed_headersOnRecord id (sized.streams _ _ found) fields ends
  · split
    · exact curbed_connection (terse_id _ (by decide) bounded)
    · exact curbed_openByPeer id fields ends

theorem curbed_block
    {id : Nat}
    (bounded : id ≤ maxStreamId)
    (octets : List UInt8)
    (ends whole : Bool) :
    Curbed script (block id octets ends whole) := by
  rw [block]
  split
  · exact curbed_connection (by decide)
  · split
    · refine confines_modify fun _ sized => { sized with
        continuing := ?_ }
      rintro waiting ⟨⟩
      exact bounded
    · exact confines_bind (curbed_decodeBlock octets) fun fields =>
        confines_get_bind fun connection _ => curbed_onStream_bind id
          fun _ _ => curbed_fieldsOn bounded fields ends

theorem curbed_continuation (frame : Frame) :
    Curbed script (continuation frame) := by
  refine confines_get_bind fun connection sized => ?_
  split
  · exact curbed_connection (by decide)
  next waiting held =>
    refine confines_bind (confines_modify fun _ other => { other with
      continuing := ?_ }) fun _ =>
        curbed_block (sized.continuing waiting held) _ _ _
    rintro _ ⟨⟩

/-! ## The other frames -/

theorem curbed_rstStream (frame : Frame) : Curbed script (rstStream frame) := by
  refine curbed_onConnection_bind (terse_soleWord frame (by decide))
    fun code _ => confines_get_bind fun connection _ => ?_
  split
  · exact curbed_connection (by decide)
  · exact confines_modify fun _ sized => sized.markReset _ _

theorem curbed_applySettings
    {payload : List UInt8}
    (few : payload.length < 10 ^ 20) :
    Curbed script (applySettings payload) := by
  refine ⟨fun connection sized => ?_, fun connection sized => ?_⟩
  · exact { sized with admitted := sized.admitted.apply payload _ }
  · exact failsAs_mapError (Settings.terse_apply _ few _)
      fun _ => fitsBreach_of_terse

/-- Windows moved by a change of the peer's initial window stay within their
bound, and the first that would pass it is told in a few octets. -/
theorem capped_shiftEach
    {delta : Int}
    (small : delta ≤ maxStreamId)
    {entries : List (Nat × Stream)}
    (listed : ∀ entry ∈ entries, entry.2.Capped)
    {streams : Streams}
    (capped : All Stream.Capped streams) :
    FailsAs Violation.Terse (shiftEach delta entries streams).1 ∧
      All Stream.Capped (shiftEach delta entries streams).2 := by
  induction entries generalizing streams with
  | nil => exact ⟨failsAs_ok (), capped⟩
  | cons entry rest inductionHypothesis =>
      obtain ⟨id, stream⟩ := entry
      obtain ⟨first, later⟩ := List.forall_mem_cons.mp listed
      have bound : ((maxStreamId : Nat) : Int) = 2 ^ 31 - 1 := rfl
      have most : stream.send.value ≤ maxStreamId := first.send
      rw [shiftEach]
      split
      next violation shifts =>
        exact ⟨failsAs_error
          (Window.terse_shift (by omega) violation shifts), capped⟩
      next send shifts =>
        obtain ⟨within, moved⟩ := Window.shift_eq_ok_iff.mp shifts
        exact inductionHypothesis later (capped.insert id
          ⟨first.receive, moved.trans_le within⟩)

theorem curbed_shiftStreams
    {delta : Int}
    (small : delta ≤ maxStreamId) :
    Curbed script (shiftStreams delta) := by
  have shifted {connection : Connection} (sized : Sized script connection) :
      let moved := shiftEach delta connection.streams.toList connection.streams
      FailsAs Violation.Terse moved.1 ∧ All Stream.Capped moved.2 :=
    capped_shiftEach small (fun entry member => sized.streams entry.1 entry.2
      (NatMap.mem_toList_iff.mp member)) sized.streams
  refine ⟨fun connection sized => ?_, fun connection sized => ?_⟩
  · exact { sized with streams := (shifted sized).2 }
  · exact failsAs_mapError (shifted sized).1 fun _ => fitsBreach_of_terse

theorem curbed_settings
    {frame : Frame}
    (few : frame.payload.length < 10 ^ 20) :
    Curbed script (settings frame) := by
  rw [settings]
  split
  · split
    · exact curbed_connection (by decide)
    · exact confines_pure _
  · refine confines_get_bind fun before _ => confines_bind
      (curbed_applySettings few) fun _ => confines_get_bind fun after sized =>
        confines_bind (curbed_shiftStreams ?_) fun _ => confines_bind
          (confines_modify fun _ sized => { sized with }) fun _ =>
            curbed_answer (Frame.short_of_le (Nat.zero_le _) script)
    have most := sized.admitted.window
    omega

theorem curbed_pingFrame (frame : Frame) : Curbed script (pingFrame frame) := by
  rw [pingFrame]
  split
  · exact curbed_connection (by decide)
  next eight =>
    split
    · exact confines_modify fun _ sized => { sized with }
    · refine curbed_answer (Frame.short_of_le ?_ script)
      exact (not_not.mp eight).le.trans (by decide)

theorem curbed_goawayFrame (frame : Frame) :
    Curbed script (goawayFrame frame) := by
  rw [goawayFrame]
  split
  · refine confines_modify fun _ sized => { sized with
      streams := sized.streams.map fun id stream capped => ?_ }
    rw [passedOverBy]
    split
    · exact ⟨capped.receive, capped.send⟩
    · exact capped
  · exact curbed_connection (by decide)

theorem curbed_windowUpdate (frame : Frame) :
    Curbed script (windowUpdate frame) := by
  have bound : ((maxStreamId : Nat) : Int) = 2 ^ 31 - 1 := rfl
  refine curbed_onConnection_bind (terse_soleWord frame (by decide))
    fun word _ => ?_
  have few : word &&& maxStreamId ≤ maxStreamId := Nat.and_le_right
  refine confines_get_bind fun connection sized => ?_
  split
  · have most := sized.send
    refine curbed_onConnection_bind (Window.terse_grant (by omega))
      fun granted grants => ?_
    obtain ⟨_, within, moved⟩ := Window.grant_eq_ok_iff.mp grants
    exact confines_modify fun _ other => { other with
      send := moved.trans_le within }
  · split
    · exact curbed_connection (by decide)
    · split
      · exact confines_pure _
      next stream found =>
        refine curbed_onStream_bind _ fun granted grants => ?_
        obtain ⟨_, within, moved⟩ := Window.grant_eq_ok_iff.mp grants
        exact curbed_setStream _
          ⟨(sized.streams _ _ found).receive, moved.trans_le within⟩

theorem curbed_dispatch
    {frame : Frame}
    (bounded : frame.stream ≤ maxStreamId)
    (few : frame.payload.length < 10 ^ 20) :
    Curbed script (dispatch frame) := by
  rw [dispatch]
  split
  · exact curbed_data bounded few
  · exact curbed_onConnection_bind frame.terse_content
      fun _ _ => curbed_block bounded _ _ _
  · exact curbed_continuation frame
  · split
    · exact curbed_stream _ _
    · exact confines_pure _
  · exact confines_pure _
  · exact curbed_rstStream frame
  · exact curbed_settings few
  · exact curbed_connection (by decide)
  · exact curbed_pingFrame frame
  · exact curbed_goawayFrame frame
  · exact curbed_windowUpdate frame

/-- A frame handled keeps within the limits, and breaks off in words that
fit. -/
theorem curbed_handle
    {frame : Frame}
    (bounded : frame.stream ≤ maxStreamId)
    (few : frame.payload.length < 10 ^ 20) :
    Curbed script (handle frame) := by
  refine confines_get_bind fun connection _ => ?_
  split
  · exact curbed_connection (by decide)
  · split
    · exact curbed_connection (by decide)
    · split
      · exact curbed_connection (Text.Within.mono
          (((Kind.within_debug frame.kind).append
            (by decide : Text.Within 64 _)).append
              (Text.within_toString (Nat.lt_of_le_of_lt bounded (by decide))))
            (by decide))
      · exact curbed_dispatch bounded few

/-! ## What is read -/

theorem staysSized_reset
    (id : Nat)
    (code : ErrorCode) :
    StaysSized script (reset id code) :=
  upholds_bind (upholds_modify fun _ sized => sized.markReset id code)
    fun _ => staysSized_emit
      (Frame.short_of_le (by simp [Frame.reset, maxFrameSizeLimit]) script)

theorem staysSized_goAway
    (code : ErrorCode)
    {debug : String}
    (fits : Text.Fits script debug) :
    StaysSized script (goAway code debug) :=
  upholds_bind (upholds_modify fun _ sized => { sized with }) fun _ =>
    upholds_get_bind fun _ _ => staysSized_emit (Frame.short_goaway fits _ code)

theorem staysSized_fail
    {violation : Violation}
    (fits : Text.Fits script violation.message) :
    StaysSized script (fail violation : Action α) :=
  upholds_bind (upholds_modify fun _ sized => sized.log rfl) fun _ =>
    upholds_bind (upholds_attempt (staysSized_goAway _ fits))
      fun _ => upholds_fail _

theorem staysSized_take
    {frame : Frame}
    (bounded : frame.stream ≤ maxStreamId)
    (few : frame.payload.length < 10 ^ 20) :
    StaysSized script (take frame) := by
  refine upholds_bind (upholds_modify fun _ sized => sized.log rfl) fun _ =>
    upholds_attempt_bind (curbed_handle bounded few) fun outcome fails => ?_
  match outcome with
  | .ok _ => exact upholds_pure _
  | .error (.connection violation) => exact staysSized_fail (fails _ rfl)
  | .error (.stream id violation) => exact staysSized_reset id _

theorem staysSized_pump : StaysSized script pump := by
  intro connection sized
  have most : connection.localSettings.maxFrameSize < 10 ^ 20 := by
    rw [sized.ours]
    decide
  have reading {outcome : Except Frame.ReadFailure (Option Frame)} {wire : Wire}
      (reads : Frame.read connection.wire
        connection.localSettings.maxFrameSize = (outcome, wire)) :
      Sized script { connection with wire } := by
    have same := congrArg (fun read => read.2.accepts)
      (Frame.read_eq connection.wire connection.localSettings.maxFrameSize)
    rw [reads] at same
    exact { sized with scripted := same.symm ▸ sized.scripted }
  rw [pump_apply]
  split
  next wire reads => exact reading reads
  next failure wire reads => exact reading reads
  next violation wire reads =>
    have terse := Frame.terse_read most (congrArg Prod.fst reads)
    exact staysSized_fail (terse.fits script) _ (reading reads)
  next frame wire reads =>
    have takes : StaysSized script (take frame) := staysSized_take
      (Frame.stream_of_read (congrArg Prod.fst reads))
      (Nat.lt_of_le_of_lt (Frame.size_of_read (congrArg Prod.fst reads)) most)
    have held := reading reads
    split
    next runs => exact takes.of_eq held runs
    next runs => exact takes.of_eq held runs

end Curbed
end Connection
end Http2
end XmipNet
