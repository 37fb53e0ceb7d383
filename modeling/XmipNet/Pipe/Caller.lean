import XmipNet.Foundation.Memo
import XmipNet.Pipe.Stream

/-!
# Who connected

The account of a connection's client is the one its token proves, by the name the
system gives it. A name is kept for the process's life, so a later connection of
the same account is not asked for again; in every run of questions, about
whichever connections, an answer is a name that was given to that very account.
-/

namespace XmipNet
namespace Pipe

open Transcript (map_fst_transcript transcript)

/-- How many names are kept before keeping starts again. -/
def keptNames : Nat := 1024

/-- The names of the accounts that connected. -/
abbrev Names := Memo (List UInt32) String

/-- One question who connected: the connection it is asked of, what the system
says of its client's token and what it names each account just then. -/
structure Question (σ : Type) where
  stream : Stream σ
  token : Except String Token
  accountName : List UInt32 → Except String String

namespace Question

variable {σ : Type} [Source σ]

/-- The client's token, as it lent it. -/
def lent (question : Question σ) : Except String Token :=
  (question.stream.lent question.token).1

/-- The account the connecting process runs as, and the names kept after. -/
def caller (question : Question σ) (names : Names) :
    Except String String × Names :=
  match question.lent with
  | .error why => (.error why, names)
  | .ok token =>
      names.ask keptNames token.account (question.accountName token.account)

/-- What the names are asked, where the client's token is known. -/
def asked (question : Question σ) :
    Option (List UInt32 × Except String String) :=
  question.lent.toOption.map fun token =>
    (token.account, question.accountName token.account)

/-- The names kept after some questions. -/
def after (questions : List (Question σ)) : Names :=
  questions.foldl (fun names question => (question.caller names).2) .empty

/-- An answer: the failure that kept the token from being known, what the system
names the token's account just then, or what it named it before. -/
def Answered
    (before : List (Question σ))
    (question : Question σ)
    (answer : Except String String) : Prop :=
  (∃ why, question.lent = .error why ∧ answer = .error why) ∨
    ∃ token, question.lent = .ok token ∧
      (answer = question.accountName token.account ∨
        ∃ name, answer = .ok name ∧ ∃ earlier ∈ before, ∃ same,
          earlier.lent = .ok same ∧ same.account = token.account ∧
            earlier.accountName token.account = .ok name)

/-- The names kept are those a run of their questions keeps. -/
theorem after_eq
    (questions : List (Question σ)) :
    after questions = (transcript (Memo.act keptNames)
      (questions.filterMap asked) .empty).2 := by
  suffices every : ∀ names : Names,
      questions.foldl (fun names question => (question.caller names).2) names =
        (transcript (Memo.act keptNames) (questions.filterMap asked) names).2
    from every .empty
  intro names
  induction questions generalizing names with
  | nil => rfl
  | cons question questions inductionHypothesis =>
      rw [List.foldl_cons, inductionHypothesis, List.filterMap_cons, asked,
        caller]
      cases question.lent with
      | error why => rfl
      | ok token => rfl

theorem sound_after
    (questions : List (Question σ)) :
    Memo.Sound keptNames
      (transcript (Memo.act keptNames) (questions.filterMap asked) .empty).1
      (after questions) := by
  obtain ⟨sound, _⟩ := Memo.transcript_told (by decide : 0 < keptNames)
    (questions.filterMap asked) (Memo.sound_empty keptNames)
  rw [after_eq]
  exact sound

/-- A name that is kept was given to the account in one of the questions. -/
theorem named_of_mem
    {questions : List (Question σ)}
    {account : List UInt32}
    {name : String}
    (kept : (account, name) ∈ (after questions).kept) :
    ∃ earlier ∈ questions, ∃ token, earlier.lent = .ok token ∧
      token.account = account ∧ earlier.accountName account = .ok name := by
  have told := (sound_after questions).told account name kept
  have among : (account, .ok name) ∈ questions.filterMap asked := by
    rw [← map_fst_transcript (Memo.act keptNames)
      (questions.filterMap asked) .empty]
    exact List.mem_map_of_mem told
  obtain ⟨earlier, member, asks⟩ := List.mem_filterMap.mp among
  rw [asked] at asks
  cases lends : earlier.lent with
  | error why =>
      rw [lends] at asks
      cases asks
  | ok token =>
      rw [lends] at asks
      obtain ⟨same, names⟩ := Prod.mk.inj (Option.some.inj asks)
      subst same
      exact ⟨earlier, member, token, lends, rfl, names⟩

theorem answered_caller
    (before : List (Question σ))
    (question : Question σ) :
    Answered before question (question.caller (after before)).1 := by
  rw [caller]
  cases lends : question.lent with
  | error why => exact Or.inl ⟨why, lends, rfl⟩
  | ok token =>
      refine Or.inr ⟨token, lends, ?_⟩
      rcases Memo.ask_cases keptNames token.account
        (question.accountName token.account) (after before) with
        ⟨name, kept, answers⟩ | ⟨why, told, answers⟩ | ⟨name, told, _, answers⟩
      · obtain ⟨earlier, member, same, lent, account, named⟩ :=
          named_of_mem kept
        exact Or.inr ⟨name, congrArg Prod.fst answers, earlier, member, same,
          lent, account, named⟩
      · exact Or.inl ((congrArg Prod.fst answers).trans told.symm)
      · exact Or.inl ((congrArg Prod.fst answers).trans told.symm)

/-- Where the names never change, keeping them cannot be noticed. -/
theorem Answered.of_constant
    {before : List (Question σ)}
    {question : Question σ}
    {answer : Except String String}
    (answered : Answered before question answer)
    {accountName : List UInt32 → Except String String}
    (earlier : ∀ other ∈ before, other.accountName = accountName)
    (now : question.accountName = accountName) :
    answer = question.lent.bind fun token => accountName token.account := by
  rcases answered with
    ⟨why, lends, rfl⟩ | ⟨token, lends, told | ⟨name, rfl, other, member, same,
      _, account, named⟩⟩
  · rw [lends]
    rfl
  · rw [lends, told, now]
    rfl
  · rw [lends, ← named, earlier other member]
    rfl

/-- Whatever connections are asked about, in whatever order: no more names are
kept than there is room for, no account twice; each answer names the account its
own client's token proves; and where the names never change, it is what the
system names it. -/
theorem callers_answered
    (questions : List (Question σ)) :
    ((after questions).kept.map Prod.fst).Nodup ∧
      (after questions).kept.length ≤ keptNames ∧
      ∀ before question rest, questions = before ++ question :: rest →
        Answered before question (question.caller (after before)).1 ∧
          ∀ accountName, (∀ other ∈ questions, other.accountName = accountName) →
            (question.caller (after before)).1 =
              question.lent.bind fun token => accountName token.account := by
  have sound := sound_after questions
  refine ⟨sound.once, sound.few, fun before question rest split => ?_⟩
  have answered := answered_caller before question
  refine ⟨answered, fun accountName constant => ?_⟩
  rw [split] at constant
  exact answered.of_constant
    (fun other member => constant other (List.mem_append_left _ member))
    (constant question (List.mem_append_right _ List.mem_cons_self))

end Question

end Pipe
end XmipNet
