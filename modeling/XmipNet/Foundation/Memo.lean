import XmipNet.Foundation.Transcript
import Mathlib.Data.List.Nodup

/-!
# Answers that are kept

A memo keeps what was told of each key it was asked for, up to so many keys, and
starts again where they are more. In every run an answer that is not what is told
just then was told of the same key before.
-/

namespace XmipNet

/-- What was told of the keys that were asked for, the latest first. -/
structure Memo (κ ν : Type) where
  kept : List (κ × ν)
  deriving DecidableEq, Repr

namespace Memo

open Transcript (transcript)

variable {κ ν ε : Type}

/-- A memo nothing was asked of. -/
def empty : Memo κ ν := ⟨[]⟩

/-- The answer for `key`, where `told` is what is told of it just now; at most
`most` are kept. -/
def ask [DecidableEq κ]
    (most : Nat)
    (key : κ)
    (told : Except ε ν)
    (memo : Memo κ ν) : Except ε ν × Memo κ ν :=
  match memo.kept.lookup key, told with
  | some value, _ => (.ok value, memo)
  | none, .error error => (.error error, memo)
  | none, .ok value =>
      (.ok value,
        ⟨(key, value) :: if most ≤ memo.kept.length then [] else memo.kept⟩)

/-- One question, with what is told of its key just then. -/
def act [DecidableEq κ] (most : Nat) (call : κ × Except ε ν) (memo : Memo κ ν) :
    Except ε ν × Memo κ ν :=
  memo.ask most call.1 call.2

/-- A question and its answer. -/
abbrev Entry (κ ν ε : Type) := (κ × Except ε ν) × Except ε ν

/-- What is kept was told in one of the questions before, no key twice, and no
more than there is room for. -/
structure Sound (most : Nat) (asked : List (Entry κ ν ε)) (memo : Memo κ ν) :
    Prop where
  told : ∀ key value, (key, value) ∈ memo.kept →
    ((key, .ok value), .ok value) ∈ asked
  once : (memo.kept.map Prod.fst).Nodup
  few : memo.kept.length ≤ most

/-- An answer is what is told of its key just then, or was told before. -/
def Told (asked : List (Entry κ ν ε)) (entry : Entry κ ν ε) : Prop :=
  entry.2 = entry.1.2 ∨
    ∃ value, entry.2 = .ok value ∧
      ((entry.1.1, .ok value), .ok value) ∈ asked

section Ask

variable {most : Nat} {asked : List (Entry κ ν ε)} {memo : Memo κ ν}

theorem sound_empty (most : Nat) :
    Sound most ([] : List (Entry κ ν ε)) (empty : Memo κ ν) where
  told _ _ member := by cases member
  once := List.nodup_nil
  few := Nat.zero_le most

/-- What was sound stays so however many questions follow. -/
theorem Sound.mono
    (sound : Sound most asked memo)
    {more : List (Entry κ ν ε)}
    (within : asked ⊆ more) :
    Sound most more memo where
  told key value member := within (sound.told key value member)
  once := sound.once
  few := sound.few

/-- What was told of a key that is not kept can be. -/
theorem Sound.keep
    (sound : Sound most asked memo)
    (positive : 0 < most)
    {key : κ}
    {value : ν}
    (missing : ∀ entry ∈ memo.kept, entry.1 ≠ key)
    (told : ((key, .ok value), .ok value) ∈ asked) :
    Sound most asked
      ⟨(key, value) :: if most ≤ memo.kept.length then [] else memo.kept⟩ := by
  by_cases full : most ≤ memo.kept.length
  · rw [if_pos full]
    refine ⟨fun other kept member => ?_, List.nodup_singleton key, positive⟩
    cases List.mem_singleton.mp member
    exact told
  · rw [if_neg full]
    refine ⟨fun other kept member => ?_, ?_, Nat.not_le.mp full⟩
    · rcases List.mem_cons.mp member with same | before
      · cases same
        exact told
      · exact sound.told other kept before
    · refine List.nodup_cons.mpr ⟨fun member => ?_, sound.once⟩
      obtain ⟨entry, kept, same⟩ := List.mem_map.mp member
      exact missing entry kept same

end Ask

section Run

variable [DecidableEq κ] {most : Nat} {asked : List (Entry κ ν ε)}
  {memo : Memo κ ν}

/-- What a question does: a value that is kept is answered, and what is told of
a key that is not kept is answered and, where it is a value, kept. -/
theorem ask_cases
    (most : Nat)
    (key : κ)
    (told : Except ε ν)
    (memo : Memo κ ν) :
    (∃ value, (key, value) ∈ memo.kept ∧
      memo.ask most key told = (.ok value, memo)) ∨
    (∃ error, told = .error error ∧
      memo.ask most key told = (.error error, memo)) ∨
    ∃ value, told = .ok value ∧ (∀ entry ∈ memo.kept, entry.1 ≠ key) ∧
      memo.ask most key told = (.ok value,
        ⟨(key, value) :: if most ≤ memo.kept.length then [] else memo.kept⟩) := by
  cases found : memo.kept.lookup key with
  | some value =>
      obtain ⟨before, after, split, _⟩ := List.lookup_eq_some_iff.mp found
      have kept : (key, value) ∈ memo.kept :=
        split ▸ List.mem_append_right _ List.mem_cons_self
      exact Or.inl ⟨value, kept, by simp only [Memo.ask, found]⟩
  | none =>
      cases told with
      | error error =>
          exact Or.inr (Or.inl ⟨error, rfl, by simp only [Memo.ask, found]⟩)
      | ok value =>
          refine Or.inr (Or.inr ⟨value, rfl, ?_, by
            simp only [Memo.ask, found]⟩)
          rintro entry member rfl
          have different := List.lookup_eq_none_iff.mp found entry member
          exact bne_iff_ne.mp different rfl

/-- One question is answered as it may be, and keeps the memo sound. -/
theorem Sound.ask
    (sound : Sound most asked memo)
    (positive : 0 < most)
    (call : κ × Except ε ν) :
    Told asked (call, (act most call memo).1) ∧
      Sound most (asked ++ [(call, (act most call memo).1)])
        (act most call memo).2 := by
  obtain ⟨key, told⟩ := call
  have still (entry : Entry κ ν ε) : Sound most (asked ++ [entry]) memo :=
    sound.mono (List.subset_append_left _ _)
  rw [act]
  rcases ask_cases most key told memo with
    ⟨value, kept, answers⟩ | ⟨error, rfl, answers⟩ |
      ⟨value, rfl, missing, answers⟩
  · rw [answers]
    exact ⟨Or.inr ⟨value, rfl, sound.told _ _ kept⟩, still _⟩
  · rw [answers]
    exact ⟨Or.inl rfl, still _⟩
  · rw [answers]
    exact ⟨Or.inl rfl, (still _).keep positive missing
      (List.mem_append_right _ (List.mem_singleton_self _))⟩

/-- In every run each answer is as it may be after those before it. -/
theorem transcript_told
    (positive : 0 < most)
    (calls : List (κ × Except ε ν))
    (sound : Sound most asked memo) :
    Sound most (asked ++ (transcript (act most) calls memo).1)
      (transcript (act most) calls memo).2 ∧
      ∀ before entry after,
        (transcript (act most) calls memo).1 = before ++ entry :: after →
          Told (asked ++ before) entry := by
  induction calls generalizing asked memo with
  | nil =>
      refine ⟨?_, fun before entry after split => ?_⟩
      · rw [transcript, List.append_nil]
        exact sound
      · exact absurd split.symm (List.append_ne_nil_of_right_ne_nil _
          (List.cons_ne_nil _ _))
  | cons call calls inductionHypothesis =>
      obtain ⟨told, after⟩ := sound.ask positive call
      obtain ⟨final, each⟩ := inductionHypothesis after
      rw [List.append_assoc, List.singleton_append] at final
      refine ⟨final, fun before entry rest split => ?_⟩
      rw [transcript] at split
      cases before with
      | nil =>
          obtain ⟨rfl, _⟩ := List.cons.inj split
          rw [List.append_nil]
          exact told
      | cons head before =>
          obtain ⟨rfl, later⟩ := List.cons.inj split
          have tells := each before entry rest later
          rwa [List.append_assoc, List.singleton_append] at tells

end Run

end Memo
end XmipNet
