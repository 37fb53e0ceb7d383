import XmipNet.Http2.Accounts

/-!
# What this side sends against what it was given

The peer gives octets to send: a first window for the connection, one for every
stream that its settings move, and what each `WINDOW_UPDATE` adds. What was given
and what was sent are both read off the events, and the windows stand for the
difference between them: a `DATA` that fits the windows is one the peer gave
room for.
-/

namespace XmipNet
namespace Http2

open Hpack (Field)

namespace Event

/-- The octets of a body a frame of this side's takes from the connection. -/
def spent : Event → Nat
  | emitted frame => if frame.kind = .data then frame.payload.length else 0
  | _ => 0

/-- The octets of a body a frame of this side's takes from `id`. -/
def spentOn (id : Nat) : Event → Nat
  | emitted frame =>
      if frame.kind = .data ∧ frame.stream = id then frame.payload.length else 0
  | _ => 0

/-- The octets a frame of the peer's gives to `id`, 0 for the connection. -/
def granted (id : Nat) : Event → Nat
  | received frame =>
      if frame.kind = .windowUpdate ∧ frame.stream = id then
        frame.increment
      else
        0
  | _ => 0

/-- The peer's settings after an event. -/
def announce (client : Bool) (settings : Settings) : Event → Settings
  | received frame =>
      if frame.kind = .settings ∧ frame.has ack = false then
        (settings.apply frame.payload client).2
      else
        settings
  | _ => settings

/-- The peer's settings in force after the events, as a client or a server takes
them. -/
def announced (client : Bool) (events : List Event) : Settings :=
  events.foldl (announce client) .default

@[simp] theorem announced_append
    (client : Bool)
    (events : List Event)
    (event : Event) :
    announced client (events ++ [event]) =
      announce client (announced client events) event := by
  rw [announced, List.foldl_append]
  rfl

theorem admitted_announced
    (client : Bool)
    (events : List Event) :
    (announced client events).Admitted := by
  induction events using List.reverseRecOn with
  | nil => exact Settings.admitted_default
  | append_singleton events event inductionHypothesis =>
      rw [announced_append]
      cases event with
      | received frame =>
          rw [announce]
          split
          · exact inductionHypothesis.apply frame.payload client
          · exact inductionHypothesis
      | emitted | passedOver | breached => exact inductionHypothesis

/-- An event that neither spends nor gives, nor changes the peer's settings. -/
structure Neutral (event : Event) : Prop where
  spent : event.spent = 0
  spentOn : ∀ id, event.spentOn id = 0
  granted : ∀ id, event.granted id = 0
  announce : ∀ client settings, event.announce client settings = settings

theorem neutral_emitted
    {frame : Frame}
    (kind : frame.kind ≠ .data) :
    Neutral (emitted frame) where
  spent := if_neg kind
  spentOn _ := if_neg fun both => kind both.1
  granted _ := rfl
  announce _ _ := rfl

/-- A `DATA` without a payload spends nothing. -/
theorem neutral_empty
    {frame : Frame}
    (empty : frame.payload = []) :
    Neutral (emitted frame) where
  spent := by
    rw [Event.spent, empty]
    split <;> rfl
  spentOn _ := by
    rw [Event.spentOn, empty]
    split <;> rfl
  granted _ := rfl
  announce _ _ := rfl

theorem neutral_reset
    (id : Nat)
    (code : ErrorCode) :
    Neutral (emitted (.reset id code)) :=
  neutral_emitted Kind.noConfusion

theorem neutral_received
    {frame : Frame}
    (update : frame.kind ≠ .windowUpdate)
    (plain : frame.kind = .settings → frame.has ack = true) :
    Neutral (received frame) where
  spent := rfl
  spentOn _ := rfl
  granted _ := if_neg fun both => update both.1
  announce _ _ := by
    refine if_neg fun both => ?_
    rw [plain both.1] at both
    cases both.2

theorem neutral_passedOver (id : Nat) : Neutral (passedOver id) where
  spent := rfl
  spentOn _ := rfl
  granted _ := rfl
  announce _ _ := rfl

/-- The peer had given room for a `DATA` emitted after the events: on the
connection, and for its octets on the stream; and it is of a size the peer
takes. -/
structure Allowed (client : Bool) (before : List Event) (frame : Frame) :
    Prop where
  connection : total spent before + frame.payload.length ≤
    defaultWindow + total (granted 0) before
  stream : frame.payload ≠ [] →
    total (spentOn frame.stream) before + frame.payload.length ≤
      (announced client before).initialWindowSize +
        total (granted frame.stream) before
  sized : frame.payload.length ≤ (announced client before).maxFrameSize

end Event

namespace Core

open Event (total Neutral announced spent spentOn granted)

/-! ## Records with the same to send -/

/-- A table of no more records, each with the send window it had. -/
def SendsKept (streams kept : Streams) : Prop :=
  ∀ (id : Nat) stream, kept[id]? = some stream →
    ∃ whole, streams[id]? = some whole ∧ stream.send = whole.send

theorem sendsKept_refl (streams : Streams) : SendsKept streams streams :=
  fun _ stream found => ⟨stream, found, rfl⟩

theorem sendsKept_modify
    (streams : Streams)
    (id : Nat)
    {change : Stream → Stream}
    (keeps : ∀ stream, (change stream).send = stream.send) :
    SendsKept streams (streams.modify id change) := by
  intro other stream found
  rw [NatMap.getElem?_modify] at found
  split at found
  next same =>
    cases same
    obtain ⟨whole, there, rfl⟩ := Option.map_eq_some_iff.mp found
    exact ⟨whole, there, keeps whole⟩
  · exact ⟨stream, found, rfl⟩

theorem sendsKept_sets
    {streams changed : Streams}
    {id : Nat}
    {stream whole : Stream}
    (found : streams[id]? = some whole)
    (sets : Sets streams id stream changed)
    (keeps : stream.send = whole.send) :
    SendsKept streams changed := by
  intro other record there
  rw [sets other] at there
  split at there
  next same =>
    cases same
    cases there
    exact ⟨whole, found, keeps⟩
  · exact ⟨record, there, rfl⟩

theorem sendsKept_passedOver
    (streams : Streams)
    (client : Bool)
    (last : Nat) :
    SendsKept streams (streams.map (Connection.passedOverBy client last)) := by
  intro id stream found
  rw [NatMap.getElem?_map] at found
  obtain ⟨whole, there, rfl⟩ := Option.map_eq_some_iff.mp found
  refine ⟨whole, there, ?_⟩
  rw [Connection.passedOverBy]
  split <;> rfl

theorem sendsKept_erase
    (streams : Streams)
    (id : Nat) :
    SendsKept streams (streams.erase id) := by
  intro other stream found
  rw [NatMap.getElem?_erase] at found
  split at found
  · cases found
  · exact ⟨stream, found, rfl⟩

/-! ## The purse of a connection -/

/-- What the send window of a record stands for: no more than was given on its
stream and not yet spent. A change of the peer's first window may take it below
zero, by no more than that window. -/
structure Lent (initial : Nat) (events : List Event) (id : Nat)
    (stream : Stream) : Prop where
  owed : stream.send.value + total (spentOn id) events ≤
    initial + total (granted id) events
  least : (initial : Int) ≤ stream.send.value + maxStreamId
  most : stream.send.value ≤ maxStreamId

/-- What a connection may send, and what it has sent, against what it was given,
between two frames. -/
structure Purse (core : Core) : Prop where
  reach : core.client = false → core.highest ≤ core.lastPeer
  settings : core.remoteSettings = announced core.client core.events
  connection : core.send.value + total spent core.events =
    defaultWindow + total (granted 0) core.events
  least : 0 ≤ core.send.value
  most : core.send.value ≤ maxStreamId
  untouched : ∀ id, core.highest < id → total (spentOn id) core.events = 0
  records : ∀ id stream, core.streams[id]? = some stream →
    Lent core.remoteSettings.initialWindowSize core.events id stream

theorem Purse.admitted
    {core : Core}
    (purse : Purse core) :
    core.remoteSettings.Admitted := by
  rw [purse.settings]
  exact Event.admitted_announced _ _

/-- An event that does not count keeps the purse. -/
theorem Purse.log
    {core : Core}
    (purse : Purse core)
    {event : Event}
    (neutral : Neutral event) :
    Purse (core.log event) where
  reach := purse.reach
  settings := by
    simp only [Core.log, Event.announced_append, neutral.announce]
    exact purse.settings
  connection := by
    simp only [Core.log, Event.total_append, neutral.spent, neutral.granted]
    exact purse.connection
  least := purse.least
  most := purse.most
  untouched id above := by
    simp only [Core.log, Event.total_append, neutral.spentOn]
    exact purse.untouched id above
  records id stream found := by
    obtain ⟨owed, least, most⟩ := purse.records id stream found
    refine ⟨?_, least, most⟩
    simp only [Core.log, Event.total_append, neutral.spentOn, neutral.granted]
    exact owed

/-- What the peer gives on a stream that does not take it. -/
theorem Purse.logUpdate
    {core : Core}
    (purse : Purse core)
    {frame : Frame}
    (kind : frame.kind = .windowUpdate)
    (onStream : frame.stream ≠ 0) :
    Purse (core.log (.received frame)) where
  reach := purse.reach
  settings := by
    rw [Core.log, Event.announced_append, Event.announce, if_neg]
    · exact purse.settings
    · simp [kind]
  connection := by
    have nothing : granted 0 (.received frame) = 0 :=
      if_neg fun both => onStream both.2
    rw [Core.log, Event.total_append, Event.total_append, nothing]
    exact purse.connection
  least := purse.least
  most := purse.most
  untouched id above := by
    rw [Core.log, Event.total_append]
    exact purse.untouched id above
  records id stream found := by
    obtain ⟨owed, least, most⟩ := purse.records id stream found
    refine ⟨?_, least, most⟩
    have nothing : spentOn id (.received frame) = 0 := rfl
    rw [Core.log, Event.total_append, Event.total_append, nothing]
    push_cast
    omega

/-- Records with the send windows they had keep the purse. -/
theorem Purse.keep
    {core : Core}
    (purse : Purse core)
    {streams : Streams}
    (kept : SendsKept core.streams streams) :
    Purse { core with streams := streams } :=
  { purse with
    records := fun id stream found => by
      obtain ⟨whole, there, same⟩ := kept id stream found
      obtain ⟨owed, least, most⟩ := purse.records id whole there
      rw [← same] at owed least most
      exact ⟨owed, least, most⟩ }

theorem Purse.mark
    {core : Core}
    (purse : Purse core)
    (id : Nat)
    (code : ErrorCode) :
    Purse (core.markReset id code) :=
  purse.keep (sendsKept_modify core.streams id fun _ => rfl)

theorem Purse.spoil
    {core : Core}
    (purse : Purse core)
    (id : Nat)
    (code : ErrorCode) :
    Purse (core.spoil id code) :=
  (purse.mark id code).log (Event.neutral_reset id code)

theorem Purse.reaches
    {core : Core}
    (purse : Purse core)
    {id : Nat}
    (opens : Opens core id) :
    Purse (core.reach id) :=
  { purse with
    reach := fun server => by
      have below := purse.reach server
      have above := opens.above
      exact max_le (below.trans above.le) (le_refl id)
    untouched := fun other above =>
      purse.untouched other ((le_max_left _ _).trans_lt above) }

/-- A stream nobody has opened yet gets a record with the first window the peer
gives. -/
theorem Purse.opens
    {core : Core}
    (purse : Purse core)
    {id : Nat}
    (fresh : core.highest < id)
    {stream : Stream}
    (send : stream.send.value = core.remoteSettings.initialWindowSize)
    {streams : Streams}
    (sets : Sets core.streams id stream streams) :
    Purse { core with streams := streams } :=
  { purse with
    records := fun other record there => by
      rw [sets other] at there
      split at there
      next same =>
        cases same
        cases there
        have none := purse.untouched id fresh
        have limit := purse.admitted.window
        have lent : Lent core.remoteSettings.initialWindowSize core.events id
            stream := by
          refine ⟨?_, ?_, ?_⟩
          · rw [send, none]
            omega
          · rw [send]
            omega
          · rw [send]
            exact_mod_cast limit
        exact lent
      · exact purse.records other record there }

/-- Octets of this side's own taken and given back keep the purse. -/
theorem Purse.regains
    {core : Core}
    (purse : Purse core)
    (length : Nat) :
    Purse (core.regain length) := by
  rw [regain]
  split
  · have update : Neutral (.emitted
        (.windowUpdate 0 (Connection.incrementOf length))) :=
      Event.neutral_emitted Kind.noConfusion
    exact { purse.log update with }
  · exact purse

/-! ## The frames that move no window of this side's -/

theorem Purse.extends
    {core after : Core}
    (purse : Purse core)
    {frame : Frame}
    (carries : Extends frame core after) :
    Purse after := by
  cases carries with
  | letGo found dead => exact purse
  | spoiled code shut => exact purse.spoil frame.stream code
  | overBody accepts exceeds sets =>
      exact (purse.keep (sendsKept_sets accepts.found sets rfl)).spoil
        frame.stream .cancel
  | ended accepts within ends sets =>
      exact purse.keep (sendsKept_sets accepts.found sets rfl)
  | grown accepts within stays positive sets =>
      exact (purse.keep (sendsKept_sets accepts.found sets rfl)).log
        (Event.neutral_emitted Kind.noConfusion)
  | empty accepts within stays none sets =>
      exact purse.keep (sendsKept_sets accepts.found sets rfl)

theorem Purse.heads
    {core after : Core}
    (purse : Purse core)
    {id : Nat}
    {fields : List Field}
    {ends : Bool}
    (heads : Heads id fields ends core after) :
    Purse after := by
  cases heads with
  | malformed violation fails => exact purse.spoil id violation.code
  | letGo checks found dead => exact purse
  | headed checks found live heads =>
      obtain ⟨_, _, kept⟩ := Stream.headers_eq_ok heads
      have same := congrArg Stream.send kept
      exact purse.keep (sendsKept_sets found (sets_insert _ _ _) same)
  | unheaded checks found live violation fails =>
      exact purse.spoil id violation.code
  | @opened changed streams checks opens staying fits heads sets =>
      obtain ⟨_, _, kept⟩ := Stream.headers_eq_ok heads
      have fresh := (purse.reach opens.server).trans_lt opens.above
      have given : Purse { core with streams := streams } :=
        purse.opens fresh (by rw [kept]; rfl) sets
      exact
        { given with
          reach := (purse.reaches opens).reach
          untouched := (purse.reaches opens).untouched }
  | passedOver checks opens leaving =>
      exact (purse.reaches opens).log (Event.neutral_passedOver id)
  | refused checks opens staying full =>
      exact (purse.reaches opens).spoil id .refusedStream

/-- Taking a frame other than the peer's settings and its updates leaves the
purse. -/
theorem Purse.took
    {sight after : Sight}
    (purse : Purse sight.core)
    {frame : Frame}
    (noSettings : frame.kind ≠ .settings)
    (noUpdate : frame.kind ≠ .windowUpdate)
    (took : Took frame (sight.log (.received frame)) after) :
    Purse after.core := by
  have logged : Purse (sight.core.log (.received frame)) :=
    purse.log (Event.neutral_received noUpdate fun kind =>
      absurd kind noSettings)
  cases took with
  | data kind unbroken room opened carries =>
      exact (logged.regains frame.payload.length).extends carries
  | waiting assembles onward short => exact { logged with }
  | decoded assembles whole decodes heads =>
      have whole : Purse
          { sight.core.log (.received frame) with continuing := none } :=
        { logged with }
      exact whole.heads heads
  | unheard kind => exact logged
  | spoiled code kind => exact logged.spoil frame.stream code
  | reset code kind opened => exact logged.mark frame.stream code
  | settings kind same => exact absurd kind noSettings
  | pinged kind asks =>
      exact logged.log (Event.neutral_emitted Kind.noConfusion)
  | ponged kind acknowledges => exact logged
  | @wentAway last code kind word =>
      have given := logged.keep (sendsKept_passedOver _ sight.core.client
        (last &&& maxStreamId))
      exact { given with }
  | granted kind same => exact absurd kind noUpdate

/-! ## The peer's settings and its updates -/

/-- Every record with its send window moved by `delta`, and not past its
bound. -/
def Shifted (delta : Int) (streams shifted : Streams) : Prop :=
  ∀ (id : Nat) stream, shifted[id]? = some stream →
    ∃ whole, streams[id]? = some whole ∧
      stream.send.value = whole.send.value + delta ∧
        stream.send.value ≤ maxStreamId

theorem of_shiftEach
    {delta : Int}
    {entries : List (Nat × Stream)}
    {streams shifted : Streams}
    (shifts : Connection.shiftEach delta entries streams = (.ok (), shifted))
    {id : Nat}
    {stream : Stream}
    (found : shifted[id]? = some stream) :
    (∃ whole, (id, whole) ∈ entries ∧
      stream.send.value = whole.send.value + delta ∧
        stream.send.value ≤ maxStreamId) ∨
    ((∀ whole, (id, whole) ∉ entries) ∧ streams[id]? = some stream) := by
  induction entries generalizing streams with
  | nil =>
      cases shifts
      exact Or.inr ⟨fun _ => List.not_mem_nil, found⟩
  | cons entry rest inductionHypothesis =>
      obtain ⟨key, record⟩ := entry
      rw [Connection.shiftEach] at shifts
      split at shifts
      · cases shifts
      next send moves =>
        obtain ⟨fits, moved⟩ := Window.shift_eq_ok_iff.mp moves
        rcases inductionHypothesis shifts with
          ⟨whole, listed, same, most⟩ | ⟨unlisted, there⟩
        · exact Or.inl ⟨whole, List.mem_cons_of_mem _ listed, same, most⟩
        · rw [NatMap.getElem?_insert] at there
          split at there
          next equal =>
            cases equal
            cases there
            refine Or.inl ⟨record, List.mem_cons_self, moved, ?_⟩
            rw [moved]
            exact fits
          next other =>
            refine Or.inr ⟨fun whole member => ?_, there⟩
            rcases List.mem_cons.mp member with same | later
            · exact other (Prod.mk.inj same).1.symm
            · exact unlisted whole later

theorem shifted_of_shiftEach
    {delta : Int}
    {streams shifted : Streams}
    (shifts : Connection.shiftEach delta streams.toList streams =
      (.ok (), shifted)) :
    Shifted delta streams shifted := by
  intro id stream found
  rcases of_shiftEach shifts found with
    ⟨whole, listed, same, most⟩ | ⟨unlisted, there⟩
  · exact ⟨whole, NatMap.mem_toList_iff.mp listed, same, most⟩
  · exact absurd (NatMap.mem_toList_iff.mpr there) (unlisted stream)

/-- Settings that are applied move what every stream was given. -/
theorem Purse.announces
    {core : Core}
    (purse : Purse core)
    {frame : Frame}
    (kind : frame.kind = .settings)
    (asks : frame.has ack = false)
    {settings : Settings}
    (applied : (core.remoteSettings.apply frame.payload core.client).2 =
      settings)
    {streams : Streams}
    (shifted : Shifted ((settings.initialWindowSize : Int) -
      core.remoteSettings.initialWindowSize) core.streams streams) :
    Purse { core.log (.received frame) with
      remoteSettings := settings
      streams := streams
      settingsSeen := true } where
  reach := purse.reach
  settings := by
    rw [Core.log, Event.announced_append, Event.announce,
      if_pos ⟨kind, asks⟩, ← purse.settings]
    exact applied.symm
  connection := by
    have nothing : granted 0 (.received frame) = 0 :=
      if_neg fun both => by rw [kind] at both; cases both.1
    rw [Core.log, Event.total_append, Event.total_append, nothing]
    exact purse.connection
  least := purse.least
  most := purse.most
  untouched id above := by
    rw [Core.log, Event.total_append]
    exact purse.untouched id above
  records id stream found := by
    obtain ⟨whole, there, same, most⟩ := shifted id stream found
    obtain ⟨owed, least, _⟩ := purse.records id whole there
    have nothing : granted id (.received frame) = 0 :=
      if_neg fun both => by rw [kind] at both; cases both.1
    have none : spentOn id (.received frame) = 0 := rfl
    have lent : Lent settings.initialWindowSize
        (core.events ++ [.received frame]) id stream := by
      refine ⟨?_, ?_, most⟩
      · rw [Event.total_append, Event.total_append, nothing, none, same]
        push_cast
        omega
      · rw [same]
        omega
    exact lent

/-- What the peer gives to the connection. -/
theorem Purse.grants
    {core : Core}
    (purse : Purse core)
    {frame : Frame}
    (kind : frame.kind = .windowUpdate)
    (onConnection : frame.stream = 0)
    {window : Window}
    (grants : core.send.grant frame.increment = .ok window) :
    Purse { core.log (.received frame) with send := window } where
  reach := purse.reach
  settings := by
    rw [Core.log, Event.announced_append, Event.announce, if_neg]
    · exact purse.settings
    · rw [kind]
      rintro ⟨settings, _⟩
      cases settings
  connection := by
    obtain ⟨_, _, value⟩ := Window.grant_eq_ok_iff.mp grants
    have given : granted 0 (.received frame) = frame.increment :=
      if_pos ⟨kind, onConnection⟩
    have none : spent (.received frame) = 0 := rfl
    have owed := purse.connection
    rw [Core.log, Event.total_append, Event.total_append, given, none, value]
    push_cast
    omega
  least := by
    obtain ⟨_, _, value⟩ := Window.grant_eq_ok_iff.mp grants
    have least := purse.least
    rw [value]
    omega
  most := by
    obtain ⟨_, most, value⟩ := Window.grant_eq_ok_iff.mp grants
    rw [value]
    exact most
  untouched id above := by
    rw [Core.log, Event.total_append]
    exact purse.untouched id above
  records id stream found := by
    obtain ⟨owed, least, most⟩ := purse.records id stream found
    have none : spentOn id (.received frame) = 0 := rfl
    refine ⟨?_, least, most⟩
    rw [Core.log, Event.total_append, Event.total_append, none]
    push_cast
    omega

/-- What the peer gives to a stream that takes it. -/
theorem Purse.grantsOn
    {core : Core}
    (purse : Purse core)
    {frame : Frame}
    (kind : frame.kind = .windowUpdate)
    (onStream : frame.stream ≠ 0)
    {stream : Stream}
    (found : core.streams[frame.stream]? = some stream)
    {window : Window}
    (grants : stream.send.grant frame.increment = .ok window) :
    Purse ((core.log (.received frame)).setStream frame.stream
      { stream with send := window }) := by
  have logged := purse.logUpdate kind onStream
  refine { logged with records := fun other record there => ?_ }
  rw [Core.setStream, NatMap.getElem?_insert] at there
  split at there
  next same =>
    cases same
    cases there
    obtain ⟨_, most, value⟩ := Window.grant_eq_ok_iff.mp grants
    obtain ⟨owed, least, _⟩ := purse.records frame.stream stream found
    have given : granted frame.stream (.received frame) = frame.increment :=
      if_pos ⟨kind, rfl⟩
    have none : spentOn frame.stream (.received frame) = 0 := rfl
    refine ⟨?_, ?_, ?_⟩
    · rw [Core.setStream, Core.log, Event.total_append, Event.total_append,
        given, none, value]
      push_cast
      omega
    · rw [value]
      exact least.trans (by omega)
    · rw [value]
      exact most
  · exact logged.records other record there

end Core

namespace Connection

open Fallible Core
open Event (total Neutral announced spent spentOn granted)

theorem soleWord_eq_ok
    {frame : Frame}
    {refusal : String}
    {word : Nat}
    (sole : soleWord frame refusal = .ok word) :
    frame.word 0 = some word := by
  rw [soleWord] at sole
  split at sole
  next given =>
    split at sole
    · cases sole
      exact given
    · cases sole
  · cases sole

theorem settles_mono
    {α : Type}
    {handler : Handler α}
    {connection : Connection}
    {good better : Sight → Prop}
    (settles : Settles handler connection good)
    (implies : ∀ sight, good sight → better sight) :
    Settles handler connection better :=
  settles.mono (fun _ _ holds => implies _ holds)
    fun _ _ spoils id violation breach =>
      implies _ (spoils id violation breach)

theorem settles_dispatched
    {frame : Frame}
    {connection : Connection}
    {good : Sight → Prop}
    (settles : Settles (dispatch frame) connection good) :
    Settles (handle frame) connection good := by
  apply settles_get_bind
  split
  · exact settles_fail_connection _
  · split
    · exact settles_fail_connection _
    · split
      · exact settles_fail_connection _
      · exact settles

theorem purse_settings
    {frame : Frame}
    (kind : frame.kind = .settings)
    {connection : Connection}
    (purse : Purse connection.core) :
    Settles (settings frame) (connection.log (.received frame))
      fun sight => Purse sight.core := by
  rw [settings]
  split
  next acknowledges =>
    split
    · exact settles_fail_connection _
    · exact purse.log (Event.neutral_received (by rw [kind]; decide)
        fun _ => acknowledges)
  next asks =>
    have unacknowledged := Bool.eq_false_of_not_eq_true asks
    apply settles_get_bind
    rcases applies : connection.remoteSettings.apply frame.payload
      connection.client with ⟨violation | _, settings⟩
    · have runs : applySettings frame.payload (connection.log (.received frame)) =
          (.error (.connection violation),
            { connection.log (.received frame) with
              remoteSettings := settings }) := by
        simp only [applySettings, log, applies]
        rfl
      exact settles_bind_of_breach runs
    · have runs : applySettings frame.payload (connection.log (.received frame)) =
          (.ok (),
            { connection.log (.received frame) with
              remoteSettings := settings }) := by
        simp only [applySettings, log, applies]
        rfl
      refine settles_bind_of_ok runs ?_
      apply settles_get_bind
      rcases shifts : shiftEach ((settings.initialWindowSize : Int) -
          connection.remoteSettings.initialWindowSize)
          connection.streams.toList connection.streams with
        ⟨violation | _, streams⟩
      · have runs : shiftStreams ((settings.initialWindowSize : Int) -
            connection.remoteSettings.initialWindowSize)
            { connection.log (.received frame) with
              remoteSettings := settings } =
              (.error (.connection violation),
                { connection.log (.received frame) with
                  remoteSettings := settings
                  streams }) := by
          simp only [shiftStreams, log, shifts]
          rfl
        exact settles_bind_of_breach runs
      · have runs : shiftStreams ((settings.initialWindowSize : Int) -
            connection.remoteSettings.initialWindowSize)
            { connection.log (.received frame) with
              remoteSettings := settings } =
              (.ok (),
                { connection.log (.received frame) with
                  remoteSettings := settings
                  streams }) := by
          simp only [shiftStreams, log, shifts]
          rfl
        have announced := purse.announces kind unacknowledged
          (congrArg Prod.snd applies) (shifted_of_shiftEach shifts)
        refine settles_bind_of_ok runs ?_
        apply settles_modify_bind
        exact settles_answer (announced.log
          (Event.neutral_emitted Kind.noConfusion))

theorem purse_windowUpdate
    {frame : Frame}
    (kind : frame.kind = .windowUpdate)
    {connection : Connection}
    (purse : Purse connection.core) :
    Settles (windowUpdate frame) (connection.log (.received frame))
      fun sight => Purse sight.core := by
  refine settles_onConnection_bind fun word sole => ?_
  have increment : word &&& maxStreamId = frame.increment := by
    rw [Frame.increment, soleWord_eq_ok sole, Option.getD_some]
  apply settles_get_bind
  simp only [increment]
  split
  next onConnection =>
    refine settles_onConnection_bind fun window grants => ?_
    exact purse.grants kind onConnection grants
  next onStream =>
    split
    · exact settles_fail_connection _
    · split
      · exact purse.logUpdate kind onStream
      next stream found =>
        refine settles_onStream_bind ?_ ?_
        · intro violation fails
          exact (purse.logUpdate kind onStream).spoil frame.stream
            violation.code
        · intro window grants
          exact purse.grantsOn kind onStream found grants

/-- Handling a frame keeps the purse, or it breaches the connection. -/
theorem purse_handle
    {frame : Frame}
    (bounded : frame.stream ≤ maxStreamId)
    {connection : Connection}
    (waits : Waits connection.core)
    (purse : Purse connection.core) :
    Settles (handle frame) (connection.log (.received frame))
      fun sight => Purse sight.core := by
  by_cases settles : frame.kind = .settings
  · have dispatches : dispatch frame = settings frame := by
      rw [dispatch, settles]
    refine settles_dispatched ?_
    rw [dispatches]
    exact purse_settings settles purse
  · by_cases updates : frame.kind = .windowUpdate
    · have dispatches : dispatch frame = windowUpdate frame := by
        rw [dispatch, updates]
      refine settles_dispatched ?_
      rw [dispatches]
      exact purse_windowUpdate updates purse
    · have logged : Waits (connection.log (.received frame)).core :=
        (Step.received connection.core frame).waits waits
      have sight : Purse connection.sight.core := purse
      exact settles_mono (settles_handle bounded logged) fun after took =>
        sight.took settles updates took

/-! ## Whole runs -/

theorem purse_initial
    (wire : Wire)
    (client : Bool) :
    Purse (initial wire client).core where
  reach _ := le_refl _
  settings := rfl
  connection := rfl
  least := Int.natCast_nonneg defaultWindow
  most := Int.ofNat_le.mpr (show defaultWindow ≤ maxStreamId by decide)
  untouched _ _ := rfl
  records id stream found := by
    rw [show (initial wire client).core.streams[id]? = none from
      NatMap.getElem?_empty id] at found
    cases found

/-- A piece of a body is taken from what was given. -/
theorem purse_afterPiece
    {connection : Connection}
    (purse : Purse connection.core)
    {id : Nat}
    (opened : id ≤ connection.highest)
    {stream : Stream}
    {frame : Frame}
    (piece : Piece connection id stream frame)
    (bytes : List UInt8) :
    Purse (afterPiece connection id stream bytes frame).core := by
  have given : ∀ other, granted other (.emitted frame) = 0 := fun _ => rfl
  have taken : spent (.emitted frame) = frame.payload.length :=
    if_pos piece.kind
  have takenOn : spentOn id (.emitted frame) = frame.payload.length :=
    if_pos ⟨piece.kind, piece.onStream⟩
  have takenOff : ∀ other, other ≠ id → spentOn other (.emitted frame) = 0 := by
    intro other different
    refine if_neg fun both => different ?_
    rw [← both.2, piece.onStream]
  have inConnection := piece.inConnection
  have inStream := piece.inStream
  refine
    { reach := purse.reach
      settings := ?_
      connection := ?_
      least := ?_
      most := ?_
      untouched := ?_
      records := ?_ }
  · exact purse.settings.trans
      (Event.announced_append connection.client connection.events
        (.emitted frame)).symm
  · have owed := purse.connection
    have value : connection.core.send.value = connection.send.value := rfl
    simp only [afterPiece, core, log, Event.total_append, taken, given] at owed ⊢
    push_cast
    omega
  · simp only [afterPiece, core]
    omega
  · have most : connection.send.value ≤ maxStreamId := purse.most
    simp only [afterPiece, core]
    omega
  · intro other above
    have below : connection.highest < other := above
    have none := purse.untouched other below
    simp only [afterPiece, core, log, Event.total_append] at none ⊢
    rw [none, takenOff other (by omega)]
  · intro other record there
    have records : (connection.streams.insert id { stream with
        send := { value := stream.send.value - frame.payload.length } })[other]? =
          some record := there
    rw [NatMap.getElem?_insert] at records
    split at records
    next same =>
      cases same
      cases records
      obtain ⟨owed, least, most⟩ := purse.records id stream piece.found
      have limit := purse.admitted.window
      have lent : Lent connection.remoteSettings.initialWindowSize
          (connection.events ++ [.emitted frame]) id { stream with
            send := { value := stream.send.value - frame.payload.length } } := by
        refine ⟨?_, ?_, ?_⟩
        · have before : stream.send.value +
              (total (spentOn id) connection.events : Int) ≤
                connection.remoteSettings.initialWindowSize +
                  total (granted id) connection.events := owed
          rw [Event.total_append, Event.total_append, takenOn, given]
          push_cast
          omega
        · have window : connection.remoteSettings.initialWindowSize ≤
              maxStreamId := limit
          simp only
          omega
        · simp only
          omega
      exact lent
    next different =>
      obtain ⟨owed, least, most⟩ := purse.records other record records
      have lent : Lent connection.remoteSettings.initialWindowSize
          (connection.events ++ [.emitted frame]) other record := by
        refine ⟨?_, least, most⟩
        rw [Event.total_append, Event.total_append,
          takenOff other (fun same => different same.symm), given]
        exact owed
      exact lent

/-- A beat that does not end the connection over a breach keeps the purse. -/
theorem purse_beat
    {connection after : Connection}
    (purse : Purse connection.core)
    (sound : Sound connection.core)
    (beat : Beat connection after)
    (unbreached : Event.Unbreached after.events) :
    Purse after.core := by
  cases beat with
  | aside same =>
      have cores : after.core = connection.core := congrArg Sight.core same
      rw [cores]
      exact purse
  | pumped =>
      rcases take_of_pump unbreached with same | ⟨frame, wire, bounded, _, takes⟩
      · have cores := congrArg Sight.core same
        rw [show (pump connection).2.core = connection.core from cores]
        exact purse
      · have reading : Waits { connection with wire }.core := sound.waits
        have settles := purse_handle bounded reading purse
        rw [takes] at unbreached ⊢
        rcases good_or_breached settles with took | ⟨violation, _, breached⟩
        · exact took
        · exact absurd breached (unbreached violation)
  | emitted plain own =>
      rw [core_emit]
      exact purse.log (Event.neutral_emitted plain.1)
  | @sent id stream frame piece bytes =>
      have opened := sound.placed.table id stream piece.found
      exact purse_afterPiece purse opened piece bytes
  | endedLocally unended =>
      exact purse.keep (sendsKept_modify _ _ fun _ => rfl)
  | ended id seen refuses =>
      rw [core_reset]
      exact purse.spoil id _
  | leaving code debug =>
      rw [core_goAway]
      have said : Neutral (.emitted
          (.goaway connection.lastPeer code (Text.octets debug))) :=
        Event.neutral_emitted Kind.noConfusion
      exact { purse.log said with }

theorem purse_stride
    {connection after : Connection}
    (purse : Purse connection.core)
    (sound : Sound connection.core)
    (stride : Stride connection after)
    (unbreached : Event.Unbreached after.events) :
    Purse after.core := by
  cases stride with
  | beat beat => exact purse_beat purse sound beat unbreached
  | @emptied id stream found done =>
      exact purse.keep (sendsKept_sets found (sets_insert _ _ _) rfl)
  | removed id => exact purse.keep (sendsKept_erase _ id)
  | @opened id asClient fresh =>
      have sets := sets_insertIfNew (sound.placed.absent_of_fresh fresh)
        (.new connection.remoteSettings.initialWindowSize
          connection.localSettings.initialWindowSize)
      have given := purse.opens fresh rfl sets
      exact
        { given with
          reach := fun server => by cases asClient.symm.trans server
          untouched := fun other above =>
            purse.untouched other ((le_max_left _ _).trans_lt above) }

theorem Reached.purse
    {client : Bool}
    {connection : Connection}
    (reached : Reached client connection)
    (unbreached : Event.Unbreached connection.events) :
    Purse connection.core :=
  Reached.invariant (motive := fun connection => Purse connection.core)
    (fun wire => purse_initial wire client)
    (fun reached stride unbreached purse =>
      purse_stride purse reached.sound stride unbreached)
    reached unbreached

end Connection

end Http2
end XmipNet
