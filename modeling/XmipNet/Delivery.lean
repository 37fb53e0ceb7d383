import XmipNet.Wire
import Mathlib.Tactic.Common

/-!
# What a connection delivers

A connection that ends in order delivers its octets in reads of any sizes, with
interruptions anywhere between. Filling a buffer then depends on the octets
alone: it takes as many as it needs and leaves the rest, or it finds all there
are and the end.
-/

namespace XmipNet
namespace Wire

/-- The octets that come, where nothing fails for good and no read is empty
before the end. -/
def delivered : List Arrival → Option (List UInt8)
  | [] => some []
  | .failed error :: rest =>
      if error.kind = .interrupted then delivered rest else none
  | .octets piece :: rest =>
      if piece = [] then none else (delivered rest).map (piece ++ ·)

/-- The connection delivers `bytes` and ends. -/
def Delivers (incoming : List Arrival) (bytes : List UInt8) : Prop :=
  delivered incoming = some bytes

instance (incoming : List Arrival) (bytes : List UInt8) :
    Decidable (Delivers incoming bytes) :=
  inferInstanceAs (Decidable (delivered incoming = some bytes))

theorem delivers_nil : Delivers [] [] := rfl

theorem delivers_failed_iff
    {error : IoError}
    {rest : List Arrival}
    {bytes : List UInt8} :
    Delivers (.failed error :: rest) bytes ↔
      error.kind = .interrupted ∧ Delivers rest bytes := by
  rw [Delivers, Delivers, delivered]
  by_cases interrupted : error.kind = .interrupted
  · rw [if_pos interrupted, and_iff_right interrupted]
  · rw [if_neg interrupted]
    exact ⟨(fun none => by cases none),
      fun both => absurd both.1 interrupted⟩

theorem delivers_octets_iff
    {piece bytes : List UInt8}
    {rest : List Arrival} :
    Delivers (.octets piece :: rest) bytes ↔
      piece ≠ [] ∧ ∃ later, Delivers rest later ∧ piece ++ later = bytes := by
  rw [Delivers, delivered]
  by_cases empty : piece = []
  · rw [if_pos empty]
    exact ⟨(fun none => by cases none), fun both => absurd empty both.1⟩
  · rw [if_neg empty, Option.map_eq_some_iff, and_iff_right empty]
    exact Iff.rfl

theorem Delivers.append
    {first second : List Arrival}
    {bytes later : List UInt8}
    (delivers : Delivers first bytes)
    (more : Delivers second later) :
    Delivers (first ++ second) (bytes ++ later) := by
  induction first generalizing bytes with
  | nil =>
      obtain rfl := Option.some.inj delivers
      exact more
  | cons arrival rest inductionHypothesis =>
      cases arrival with
      | failed error =>
          obtain ⟨interrupted, delivers⟩ := delivers_failed_iff.mp delivers
          exact delivers_failed_iff.mpr
            ⟨interrupted, inductionHypothesis delivers⟩
      | octets piece =>
          obtain ⟨nonempty, others, comes, rfl⟩ :=
            delivers_octets_iff.mp delivers
          rw [List.append_assoc]
          exact delivers_octets_iff.mpr
            ⟨nonempty, others ++ later, inductionHypothesis comes, rfl⟩

/-- A connection that delivers enough fills a buffer with the first octets and
goes on with the others. -/
theorem fill_of_delivers
    {incoming : List Arrival}
    {bytes : List UInt8}
    (delivers : Delivers incoming bytes)
    {needed : Nat}
    (enough : needed ≤ bytes.length)
    (before : List UInt8) :
    ∃ rest, fill incoming needed before =
        (.whole (before ++ bytes.take needed), rest) ∧
      Delivers rest (bytes.drop needed) := by
  induction incoming generalizing needed bytes before with
  | nil =>
      obtain rfl := Option.some.inj delivers
      obtain rfl := Nat.le_zero.mp enough
      refine ⟨[], ?_, delivers_nil⟩
      rw [fill, List.take_nil, List.append_nil]
  | cons arrival later inductionHypothesis =>
      cases needed with
      | zero =>
          refine ⟨arrival :: later, ?_, delivers⟩
          rw [fill, List.take_zero, List.append_nil]
      | succ needed =>
          cases arrival with
          | failed error =>
              obtain ⟨interrupted, delivers⟩ := delivers_failed_iff.mp delivers
              rw [fill, if_pos interrupted]
              exact inductionHypothesis delivers enough before
          | octets piece =>
              obtain ⟨nonempty, others, comes, rfl⟩ :=
                delivers_octets_iff.mp delivers
              rw [List.length_append] at enough
              rw [fill, if_neg nonempty]
              by_cases whole : piece.length ≤ needed + 1
              · rw [if_pos whole]
                obtain ⟨rest, fills, left⟩ := inductionHypothesis comes
                  (by omega : needed + 1 - piece.length ≤ others.length)
                  (before ++ piece)
                refine ⟨rest, ?_, ?_⟩
                · rw [fills, List.take_append, List.take_of_length_le whole,
                    List.append_assoc]
                · rw [List.drop_append, List.drop_eq_nil_of_le whole,
                    List.nil_append]
                  exact left
              · rw [if_neg whole]
                have short : needed + 1 ≤ piece.length := by omega
                refine ⟨.octets (piece.drop (needed + 1)) :: later, ?_, ?_⟩
                · rw [List.take_append_of_le_length short]
                · rw [List.drop_append_of_le_length short]
                  refine delivers_octets_iff.mpr ⟨?_, others, comes, rfl⟩
                  rw [ne_eq, List.drop_eq_nil_iff]
                  omega

/-- A connection that delivers less ends with all of it read. -/
theorem fill_of_delivers_short
    {incoming : List Arrival}
    {bytes : List UInt8}
    (delivers : Delivers incoming bytes)
    {needed : Nat}
    (short : bytes.length < needed)
    (before : List UInt8) :
    fill incoming needed before = (.closed (before ++ bytes), []) := by
  induction incoming generalizing needed bytes before with
  | nil =>
      obtain rfl := Option.some.inj delivers
      cases needed with
      | zero => exact absurd short (Nat.not_lt_zero _)
      | succ needed => rw [fill, List.append_nil]
  | cons arrival later inductionHypothesis =>
      cases needed with
      | zero => exact absurd short (Nat.not_lt_zero _)
      | succ needed =>
          cases arrival with
          | failed error =>
              obtain ⟨interrupted, delivers⟩ := delivers_failed_iff.mp delivers
              rw [fill, if_pos interrupted]
              exact inductionHypothesis delivers short before
          | octets piece =>
              obtain ⟨nonempty, others, comes, rfl⟩ :=
                delivers_octets_iff.mp delivers
              rw [List.length_append] at short
              rw [fill, if_neg nonempty, if_pos (by omega),
                inductionHypothesis comes (by omega), List.append_assoc]

theorem readExact_of_delivers
    {wire : Wire}
    {bytes : List UInt8}
    (delivers : Delivers wire.incoming bytes)
    {needed : Nat}
    (enough : needed ≤ bytes.length) :
    ∃ after, wire.readExact needed = (.ok (bytes.take needed), after) ∧
      Delivers after.incoming (bytes.drop needed) := by
  obtain ⟨rest, fills, left⟩ := fill_of_delivers delivers enough []
  refine ⟨{ wire with incoming := rest }, ?_, left⟩
  rw [readExact, read, fills]
  rfl

theorem readExact_of_delivers_short
    {wire : Wire}
    {bytes : List UInt8}
    (delivers : Delivers wire.incoming bytes)
    {needed : Nat}
    (short : bytes.length < needed) :
    (wire.readExact needed).1 = .error unexpectedEof := by
  rw [readExact, read, fill_of_delivers_short delivers short []]

end Wire
end XmipNet
