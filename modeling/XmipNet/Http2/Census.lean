import XmipNet.Http2.Course

/-!
# How many streams a server holds

A server announces how many streams a client may have open at once and refuses
the next. What it counts are the records that are not closed: a record that a
reset closed stays until it is looked at, so a table can hold more records than
were announced, but never more that are open.
-/

namespace XmipNet
namespace Http2
namespace Core

/-- Whether a record is not closed. -/
def unclosed (stream : Stream) : Bool :=
  stream.state ≠ .closed

/-- The streams whose records are not closed. -/
def openIds (core : Core) : Finset Nat :=
  NatMap.keysWhere core.streams unclosed

theorem card_openIds (core : Core) : core.openIds.card = core.openCount :=
  NatMap.card_keysWhere unclosed

/-- The streams open are no more than announced. -/
def Capped (core : Core) : Prop :=
  core.openCount ≤ core.mostStreams

/-- A record that a step leaves open was so before, or its stream was opened
while there was room for it. -/
theorem Change.unclosed
    {core after : Core}
    {id : Nat}
    {before : Option Stream}
    {stream : Stream}
    (change : Change core after id before (some stream))
    (open_ : stream.state ≠ .closed) :
    (∃ whole, before = some whole ∧ whole.state ≠ .closed) ∨
      (after.lastPeer = id ∧ core.openCount < core.mostStreams) := by
  cases change with
  | kept => exact Or.inl ⟨stream, rfl, open_⟩
  | @grown whole _ grows =>
      refine Or.inl ⟨whole, rfl, fun closed => ?_⟩
      have receiving := grows.receiving
      rw [closed] at receiving
      cases receiving
  | @headed whole _ fields ends live heads seen =>
      refine Or.inl ⟨whole, rfl, fun closed => ?_⟩
      have receiving := (Stream.headers_eq_ok heads).1
      rw [closed] at receiving
      cases receiving
  | opened opens staying heads seen reached raised fits =>
      exact Or.inr ⟨reached, fits⟩
  | ended => exact absurd rfl open_
  | reset => exact absurd rfl open_
  | passedOver whole live arrived kind word above own =>
      exact Or.inl ⟨whole, rfl, open_⟩
  | @windowed whole _ same =>
      obtain ⟨state, _⟩ := same_of_unsent same
      exact Or.inl ⟨whole, rfl, state ▸ open_⟩
  | endedLocally whole unended =>
      refine Or.inl ⟨whole, rfl, fun closed => ?_⟩
      simp only [closed] at open_
      exact open_ rfl

/-- A step opens at most one stream, and none where there is no room. -/
theorem Step.capped
    {core after : Core}
    (step : Step core after)
    (capped : Capped core) :
    Capped after := by
  have moved {id : Nat} (listed : id ∈ after.openIds) :
      id ∈ core.openIds ∨
        (after.lastPeer = id ∧ core.openCount < core.mostStreams) := by
    obtain ⟨stream, found, open_⟩ := NatMap.mem_keysWhere.mp listed
    have change := step.change id
    rw [found] at change
    rcases change.unclosed (of_decide_eq_true open_) with
      ⟨whole, there, before⟩ | fits
    · exact Or.inl (NatMap.mem_keysWhere.mpr
        ⟨whole, there, decide_eq_true before⟩)
    · exact Or.inr fits
  have most : after.mostStreams = core.mostStreams := by
    rw [Core.mostStreams, step.localSettings]
    rfl
  rw [Capped, most, ← card_openIds]
  by_cases fits : core.openCount < core.mostStreams
  · have within : after.openIds ⊆ insert after.lastPeer core.openIds := by
      intro id listed
      rcases moved listed with before | ⟨rfl, _⟩
      · exact Finset.mem_insert_of_mem before
      · exact Finset.mem_insert_self _ _
    calc after.openIds.card
        ≤ (insert after.lastPeer core.openIds).card :=
          Finset.card_le_card within
      _ ≤ core.openIds.card + 1 := Finset.card_insert_le _ _
      _ = core.openCount + 1 := by rw [card_openIds]
      _ ≤ core.mostStreams := fits
  · have within : after.openIds ⊆ core.openIds := fun id listed =>
      (moved listed).resolve_right fun opened => fits opened.2
    calc after.openIds.card
        ≤ core.openIds.card := Finset.card_le_card within
      _ = core.openCount := card_openIds core
      _ ≤ core.mostStreams := capped

theorem capped_of_thinned
    {core : Core}
    {streams : Streams}
    (thinned : Thinned core.streams streams)
    (capped : Capped core) :
    Capped { core with streams := streams } := by
  have within : openIds { core with streams := streams } ⊆ core.openIds := by
    intro id listed
    obtain ⟨stream, found, open_⟩ := NatMap.mem_keysWhere.mp listed
    obtain ⟨whole, there, same⟩ := thinned id stream found
    obtain ⟨state, _⟩ := same_of_untaken same
    refine NatMap.mem_keysWhere.mpr ⟨whole, there, ?_⟩
    rw [Core.unclosed, ← state]
    exact open_
  rw [Capped, ← card_openIds]
  exact (Finset.card_le_card within).trans ((card_openIds core).le.trans capped)

/-- What a server announced and keeps to. -/
structure Keeping (core : Core) : Prop where
  server : core.client = false
  ours : core.localSettings = .ours
  capped : Capped core

/-- Over every run. -/
theorem Turns.keeping
    {core after : Core}
    (turns : Turns core after)
    (keeping : Keeping core) :
    Keeping after := by
  refine turns.invariant ?_ keeping
  rintro before next turn ⟨server, ours, capped⟩
  cases turn with
  | step step =>
      exact ⟨step.client.trans server, step.localSettings.trans ours,
        step.capped capped⟩
  | taken thinned => exact ⟨server, ours, capped_of_thinned thinned capped⟩
  | opened asClient fresh => cases asClient.symm.trans server

theorem keeping_initial (wire : Wire) :
    Keeping (Connection.initial wire false).core where
  server := rfl
  ours := rfl
  capped := Nat.zero_le _

end Core

namespace Connection

open Core

/-- Wherever a server's run has come, the streams open are no more than it
announced. -/
theorem Reached.keeping
    {connection : Connection}
    (reached : Reached false connection) :
    Keeping connection.core := by
  obtain ⟨wire, turns⟩ := reached.turns
  exact turns.keeping (keeping_initial wire)

end Connection

namespace Server

open Core Connection

/-- Where `finished` gives nothing there is nothing left to take. -/
theorem ready_of_finished
    {codec : Percent}
    {server after : Server}
    (runs : finished codec server = (.ok none, after)) :
    after.ready = none := by
  rw [finished] at runs
  fun_induction lookFrom codec server with
  | case1 server failure after looks => cases runs
  | case2 server taken after looks =>
      cases runs
      cases looked_of_look looks with
      | nothing nothing => exact nothing
  | case3 server middle looks inductionHypothesis =>
      exact inductionHypothesis runs

/-- With nothing left to take, a closed record is one being answered. -/
theorem answering_of_closed
    {server : Server}
    (nothing : server.ready = none)
    {id : Nat}
    {stream : Stream}
    (found : server.connection.streams[id]? = some stream)
    (closed : stream.state = .closed) :
    id ∈ server.answering := by
  have passed := List.find?_eq_none.mp nothing (id, stream)
    (NatMap.mem_toList_iff.mpr found)
  have done : stream.finished = true := by
    rw [Stream.finished, closed]
    exact Bool.or_true _
  by_contra untaken
  exact passed (decide_eq_true ⟨done, untaken⟩)

/-- The records a server holds are open, or being answered. -/
theorem size_le
    {server : Server}
    (nothing : server.ready = none) :
    server.connection.streams.size ≤
      server.connection.core.openCount + server.answering.card := by
  have all : (NatMap.keysWhere server.connection.streams
      fun _ => true).card = server.connection.streams.size := by
    rw [NatMap.card_keysWhere, List.filter_true, Std.TreeMap.length_toList]
  have within : NatMap.keysWhere server.connection.streams (fun _ => true) ⊆
      server.connection.core.openIds ∪ server.answering := by
    intro id listed
    obtain ⟨stream, found, _⟩ := NatMap.mem_keysWhere.mp listed
    by_cases closed : stream.state = .closed
    · exact Finset.mem_union_right _ (answering_of_closed nothing found closed)
    · exact Finset.mem_union_left _ (NatMap.mem_keysWhere.mpr
        ⟨stream, found, decide_eq_true closed⟩)
  calc server.connection.streams.size
      ≤ (server.connection.core.openIds ∪ server.answering).card :=
        all ▸ Finset.card_le_card within
    _ ≤ server.connection.core.openIds.card + server.answering.card :=
        Finset.card_union_le _ _
    _ = _ := by rw [card_openIds]

/-- Over every run and at every point of every call the streams that are open
are no more than the server announced, and once `finished` has found nothing
more, the records it holds besides are those being answered. -/
theorem open_within_announced
    (codec : Percent)
    {wire : Wire}
    {server : Server}
    (opens : handshake wire = .ok server)
    (asks : List Ask) :
    let now := (run codec server asks).2
    (∀ connection, Strides now.connection connection →
      connection.localSettings.maxConcurrentStreams = some 100 ∧
        connection.core.openCount ≤ 100) ∧
    ∀ after, finished codec now = (.ok none, after) →
      after.connection.streams.size ≤ 100 + after.answering.card := by
  have reached := reached_run codec opens asks
  have served := served_of_handshake codec opens asks
  have within {connection : Connection}
      (strides : Strides (run codec server asks).2.connection connection) :
      connection.localSettings.maxConcurrentStreams = some 100 ∧
        connection.core.openCount ≤ 100 := by
    have keeping := (reached.strides strides).keeping
    have ours : connection.localSettings = .ours := keeping.ours
    have capped := keeping.capped
    rw [Capped, Core.mostStreams, keeping.ours] at capped
    rw [ours]
    exact ⟨rfl, capped⟩
  refine ⟨fun connection strides => within strides, fun after runs => ?_⟩
  have strides := served.strides_finished codec
  rw [runs] at strides
  exact (size_le (ready_of_finished runs)).trans
    (Nat.add_le_add_right (within strides).2 _)

/-- A client that opens `count` streams and resets each at once. -/
def resettingWire (count : Nat) : Wire where
  incoming :=
    .octets (preface ++ (⟨.settings, 0, 0, []⟩ : Frame).encode) ::
      (List.range count).map fun turn => .octets
        ((⟨.headers, endHeaders, 2 * turn + 1, [0x82]⟩ :
          Frame).encode ++ (Frame.reset (2 * turn + 1) .cancel).encode)
  accepts := []
  written := []

/-- A server that reads and does not look holds a record of each of 101
streams. -/
theorem not_within_announced_of_resets :
    ∃ server, handshake (resettingWire 101) = .ok server ∧
      Settings.ours.maxConcurrentStreams = some 100 ∧
      (run .bare server
        (List.replicate 203 .readFrame)).2.connection.streams.size = 101 := by
  obtain ⟨server, opens, checked⟩ := exists_of_handshake
    (show (handshake (resettingWire 101)).toOption.map (fun server => decide
      ((run .bare server
        (List.replicate 203 .readFrame)).2.connection.streams.size = 101)) =
        some true by decide +kernel)
  exact ⟨server, opens, rfl, of_decide_eq_true checked⟩

theorem finished_of_toOption
    {server : Server}
    (nothing : (finished .bare server).1.toOption = some none) :
    finished .bare server = (.ok none, (finished .bare server).2) := by
  cases looked : (finished .bare server).1 with
  | error failure =>
      rw [looked] at nothing
      cases nothing
  | ok taken =>
      rw [looked] at nothing
      exact Prod.ext (looked.trans (congrArg Except.ok (Option.some.inj nothing)))
        rfl

/-- A server that looks lets such records go. -/
theorem open_within_announced_resets :
    ∃ server, handshake (resettingWire 3) = .ok server ∧
      let now := (run .bare server (List.replicate 7 .readFrame)).2
      now.connection.streams.size = 3 ∧ now.connection.core.openCount ≤ 100 ∧
        (finished .bare now).2.connection.streams.size ≤ 100 := by
  obtain ⟨server, opens, checked⟩ := exists_of_handshake
    (show (handshake (resettingWire 3)).toOption.map (fun server =>
      let now := (run .bare server (List.replicate 7 .readFrame)).2
      decide (now.connection.streams.size = 3 ∧
        (finished .bare now).1.toOption = some none ∧
        (finished .bare now).2.answering = ∅)) = some true
      by decide +kernel)
  obtain ⟨held, nothing, free⟩ := of_decide_eq_true checked
  obtain ⟨within, looked⟩ := open_within_announced .bare opens
    (List.replicate 7 .readFrame)
  have few := looked _ (finished_of_toOption nothing)
  rw [free] at few
  exact ⟨server, opens, held, (within _ .refl).2, few⟩

end Server
end Http2
end XmipNet
