import XmipNet.Http2.Connection
import XmipNet.Source

/-!
# The connection preface, told from a request line

A connection is read until what it sent either is the preface or cannot be, and
then again from its start: the octets read to tell are put back in front of it.
-/

namespace XmipNet
namespace Http2

open Delivering (Delivers)

variable {σ : Type} [Source σ]

theorem length_preface : preface.length = 24 := by
  decide

/-- The refusal of a connection that sent nothing. -/
def sentNothing : NetError :=
  .new "the connection closed before sending anything"

/-- Read on after `got` until what came either is the preface or cannot be:
whether it is, and the octets read. -/
def sniffFrom (got : List UInt8) (state : σ) :
    Except NetError (Bool × List UInt8) × σ :=
  if got.length < preface.length ∧ got.isPrefixOf preface then
    match _reads : Source.read (preface.length - got.length) state with
    | (.ok piece, after) =>
        if _empty : piece = [] then
          if got = [] then
            (.error sentNothing, after)
          else
            (.ok (got = preface, got), after)
        else
          sniffFrom (got ++ piece) after
    | (.error error, after) =>
        if error.kind = .interrupted then
          sniffFrom got after
        else
          (.error (.fromIo "reading the first octets" error), after)
  else
    (.ok (got = preface, got), state)
termination_by Source.size state
decreasing_by
  · exact Source.size_of_read _reads _empty
  · exact Source.size_of_failed _reads

/-- Whether a connection opens with the preface, and the octets read to tell. -/
def sniff : Fallible σ NetError (Bool × List UInt8) :=
  sniffFrom []

/-! ## A connection read again -/

/-- A connection read again from the start: the octets `sniff` took first, from
`next` on, then the connection itself. -/
structure Replayed (σ : Type) where
  first : List UInt8
  next : Nat
  inner : σ

namespace Replayed

/-- `inner`, with `first` put back in front of it. -/
def new (first : List UInt8) (inner : σ) : Replayed σ where
  first
  next := 0
  inner

/-- The octets put back that are still to be read. -/
def left (replayed : Replayed σ) : List UInt8 :=
  replayed.first.drop replayed.next

/-- One read into at most `room` octets. -/
def read (room : Nat) : Fallible (Replayed σ) IoError (List UInt8) :=
  fun replayed =>
    if replayed.next < replayed.first.length then
      let count := min room (replayed.first.length - replayed.next)
      (.ok ((replayed.first.drop replayed.next).take count),
        { replayed with next := replayed.next + count })
    else
      let (outcome, inner) := Source.read room replayed.inner
      (outcome, { replayed with inner })

instance : Delivering (Replayed σ) UInt8 where
  Delivers replayed bytes :=
    ∃ rest, Delivers replayed.inner rest ∧ replayed.left ++ rest = bytes
  unique := by
    rintro replayed _ _ ⟨rest, comes, rfl⟩ ⟨other, again, rfl⟩
    rw [Delivering.unique comes again]
  every bytes := by
    obtain ⟨inner, comes⟩ := Delivering.every (σ := σ) bytes
    exact ⟨new [] inner, bytes, comes, rfl⟩

theorem delivers_new
    (first : List UInt8)
    {inner : σ}
    {rest : List UInt8}
    (delivers : Delivers inner rest) :
    Delivers (new first inner) (first ++ rest) :=
  ⟨rest, delivers, rfl⟩

theorem gives
    {replayed : Replayed σ}
    {bytes : List UInt8}
    (delivers : Delivers replayed bytes)
    (room : Nat) :
    Gives room bytes (read room replayed) := by
  obtain ⟨rest, comes, rfl⟩ := delivers
  rw [read]
  split
  next more =>
    have split (count : Nat) : replayed.left.take count ++
        (replayed.left.drop count ++ rest) = replayed.left ++ rest := by
      rw [← List.append_assoc, List.take_append_drop]
    refine .piece (split _) ?_ ?_ ?_
    · exact (List.length_take_le _ _).trans (Nat.min_le_left _ _)
    · intro positive none
      have lengths := congrArg List.length none
      rw [List.length_take, List.length_drop, List.length_nil] at lengths
      omega
    · refine ⟨rest, comes, ?_⟩
      rw [left, left, List.drop_drop]
  next past =>
    have ended : replayed.left = [] :=
      List.drop_eq_nil_of_le (not_lt.mp past)
    have given := Source.gives comes room
    rw [ended, List.nil_append]
    rcases runs : Source.read room replayed.inner with ⟨outcome, inner⟩
    rw [runs] at given
    cases given with
    | interrupted kind later =>
        exact .interrupted kind
          ⟨rest, later, congrArg (· ++ rest) ended⟩
    | piece split fits ends later =>
        exact .piece split fits ends ⟨_, later, congrArg (· ++ _) ended⟩

instance : Source (Replayed σ) where
  read := read
  size replayed := replayed.left.length + Source.size replayed.inner
  gives := gives
  size_of_read := by
    intro room replayed piece after reads nonempty
    rw [read] at reads
    split at reads
    next more =>
      cases reads
      have positive := List.length_pos_of_ne_nil nonempty
      rw [List.length_take, List.length_drop] at positive
      simp only [left, List.length_drop]
      omega
    next past =>
      rcases runs : Source.read room replayed.inner with ⟨outcome, inner⟩
      rw [runs] at reads
      cases reads
      exact Nat.add_lt_add_left (Source.size_of_read runs nonempty) _
  size_of_failed := by
    intro room replayed error after fails
    rw [read] at fails
    split at fails
    · cases fails
    next past =>
      rcases runs : Source.read room replayed.inner with ⟨outcome, inner⟩
      rw [runs] at fails
      cases fails
      exact Nat.add_lt_add_left (Source.size_of_failed runs) _

end Replayed

/-! ## What is told -/

/-- Octets that are a beginning of what comes, and no longer than the preface,
are the preface where that is a beginning of what comes, once they cannot be
less of it or all has come. -/
theorem eq_preface_iff
    {got rest : List UInt8}
    (short : got.length ≤ preface.length)
    (decided : (got.length < preface.length ∧ got.isPrefixOf preface = true) →
      rest = []) :
    got = preface ↔ preface <+: got ++ rest := by
  constructor
  · rintro rfl
    exact List.prefix_append _ _
  · intro opens
    have begins : got <+: preface :=
      List.prefix_of_prefix_length_le (List.prefix_append got rest) opens short
    by_cases less : got.length < preface.length
    · have ended := decided ⟨less, List.isPrefixOf_iff_prefix.mpr begins⟩
      rw [ended, List.append_nil] at opens
      exact absurd opens.length_le (not_le.mpr less)
    · exact begins.eq_of_length (Nat.le_antisymm short (not_lt.mp less))

/-- What is read to tell is the beginning of what comes. -/
theorem sniffFrom_of_delivers
    {got : List UInt8}
    {state : σ}
    {bytes : List UInt8}
    (delivers : Delivers state bytes)
    (short : got.length ≤ preface.length)
    (something : got ++ bytes ≠ []) :
    ∃ first rest after, sniffFrom got state =
        (.ok (decide (preface <+: got ++ bytes), first), after) ∧
      first ++ rest = got ++ bytes ∧ first.length ≤ preface.length ∧
        Delivers after rest := by
  fun_induction sniffFrom got state generalizing bytes with
  | case1 state after going reads =>
      have given :=
        Source.gives delivers (preface.length - ([] : List UInt8).length)
      rw [reads] at given
      cases given with
      | piece split fits ends left =>
          exact absurd (ends (Nat.sub_pos_of_lt going.1) rfl) something
  | case2 got state going after nonempty reads =>
      have given := Source.gives delivers (preface.length - got.length)
      rw [reads] at given
      cases given with
      | piece split fits ends left =>
          obtain rfl := ends (Nat.sub_pos_of_lt going.1) rfl
          obtain rfl := (List.append_eq_nil_iff.mp split).2
          refine ⟨got, [], after, ?_, rfl, short, left⟩
          rw [decide_eq_decide.mpr (eq_preface_iff short fun _ => rfl)]
  | case3 got state going piece after reads nonempty inductionHypothesis =>
      have given := Source.gives delivers (preface.length - got.length)
      rw [reads] at given
      cases given with
      | @piece _ rest _ split fits ends left =>
          have longer : (got ++ piece).length ≤ preface.length := by
            rw [List.length_append]
            omega
          have whole : got ++ piece ++ rest = got ++ bytes := by
            rw [List.append_assoc, split]
          have told := inductionHypothesis left longer (whole ▸ something)
          rwa [whole] at told
  | case4 got state going error after reads interrupted inductionHypothesis =>
      have given := Source.gives delivers (preface.length - got.length)
      rw [reads] at given
      cases given with
      | interrupted kind left => exact inductionHypothesis left short something
  | case5 got state going error after reads other =>
      have given := Source.gives delivers (preface.length - got.length)
      rw [reads] at given
      cases given with
      | interrupted kind left => exact absurd kind other
  | case6 got state stops =>
      refine ⟨got, bytes, state, ?_, rfl, short, delivers⟩
      have told := @eq_preface_iff got bytes short fun goes =>
        absurd goes stops
      rw [decide_eq_decide.mpr told]

/-- A connection that ended before it sent anything is refused. -/
theorem sniff_nothing
    {state : σ}
    (ended : Delivers state ([] : List UInt8)) :
    (sniff state).1 = .error sentNothing := by
  have all {got : List UInt8} (nothing : got = []) :
      (sniffFrom got state).1 = .error sentNothing := by
    have opens : ([] : List UInt8).length < preface.length ∧
        ([] : List UInt8).isPrefixOf preface = true := by
      decide
    fun_induction sniffFrom got state with
    | case1 state after going reads => rfl
    | case2 got state going after nonempty reads =>
        exact absurd nothing nonempty
    | case3 got state going piece after reads nonempty inductionHypothesis =>
        have given := Source.gives ended (preface.length - got.length)
        rw [reads] at given
        cases given with
        | piece split fits ends left =>
            exact absurd (List.append_eq_nil_iff.mp split).1 nonempty
    | case4 got state going error after reads interrupted inductionHypothesis =>
        have given := Source.gives ended (preface.length - got.length)
        rw [reads] at given
        cases given with
        | interrupted kind left => exact inductionHypothesis left nothing
    | case5 got state going error after reads other =>
        have given := Source.gives ended (preface.length - got.length)
        rw [reads] at given
        cases given with
        | interrupted kind left => exact absurd kind other
    | case6 got state stops =>
        subst nothing
        exact absurd opens stops
  exact all rfl

/-- However a connection splits what it sends, it is told to open with the
preface where it does, no more is taken to tell than the preface has, and read
again, in reads of any sizes, it gives what it sent from the first octet on, and
all of it to the end where the reads have room. -/
theorem sniff_lossless
    {incoming : List Arrival}
    {bytes : List UInt8}
    (delivers : Wire.Delivers incoming bytes)
    (nonempty : bytes ≠ []) :
    ∃ first rest after, sniff incoming =
        (.ok (decide (preface <+: bytes), first), after) ∧
      first ++ rest = bytes ∧ first.length ≤ 24 ∧
      Wire.Delivers after rest ∧
      (∀ rooms : List Nat, ∃ got later final,
        Source.readMany rooms (Replayed.new first after) = (.ok got, final) ∧
          got ++ later = bytes ∧ Delivers final later) ∧
      ∀ rooms : Nat → Nat, (∀ turn, 0 < rooms turn) →
        ∃ final, Source.drain rooms (Replayed.new first after) =
          (.ok bytes, final) ∧ Wire.Delivers final.inner [] := by
  obtain ⟨first, rest, after, told, whole, short, left⟩ :=
    @sniffFrom_of_delivers (List Arrival) _ [] incoming bytes delivers
      (Nat.zero_le _) nonempty
  rw [List.nil_append] at whole told
  have replays : Delivers (Replayed.new first after) bytes :=
    whole ▸ Replayed.delivers_new first left
  refine ⟨first, rest, after, told, whole, length_preface ▸ short, left,
    fun rooms => Source.readMany_of_delivers rooms replays,
    fun rooms positive => ?_⟩
  obtain ⟨final, drains, ended⟩ := Source.drain_reads positive bytes _ replays
  obtain ⟨none, comes, nothing⟩ := ended
  refine ⟨final, drains, ?_⟩
  rwa [(List.append_eq_nil_iff.mp nothing).2] at comes

/-- A preface that came in two reads, an interruption between, and the beginning
of a frame with the second; and a request line that parts from the preface in
its first octet. -/
theorem sniff_lossless_twice :
    let octets := preface ++ [0, 0, 0, 4]
    let interrupted : IoError := { kind := .interrupted, text := "" }
    let incoming : List Arrival :=
      [.octets (octets.take 5), .failed interrupted, .octets (octets.drop 5)]
    let request := Text.octets "GET / HTTP/1.1\r\n\r\n"
    (∃ first after, sniff incoming = (.ok (true, first), after) ∧
      ∃ final, Source.drain (fun turn => turn + 1)
        (Replayed.new first after) = (.ok octets, final)) ∧
    ∃ first after,
      sniff [Arrival.octets request] = (.ok (false, first), after) ∧
      ∃ final, Source.drain (fun turn => turn + 1)
        (Replayed.new first after) = (.ok request, final) := by
  intro octets interrupted incoming request
  constructor
  · obtain ⟨first, rest, after, told, _, _, _, _, again⟩ :=
      sniff_lossless (show Wire.Delivers incoming octets by decide) (by decide)
    obtain ⟨final, drains, _⟩ :=
      again (fun turn => turn + 1) fun turn => Nat.succ_pos turn
    exact ⟨first, after, told, final, drains⟩
  · obtain ⟨first, rest, after, told, _, _, _, _, again⟩ :=
      sniff_lossless (show Wire.Delivers [.octets request] request by decide)
        (by decide)
    obtain ⟨final, drains, _⟩ :=
      again (fun turn => turn + 1) fun turn => Nat.succ_pos turn
    exact ⟨first, after, told, final, drains⟩

end Http2
end XmipNet
