import Mathlib.Data.List.Basic

/-!
# A handler that remembers

A handler answers one request after another and may remember what it was asked.
What it answers to each is told by the requests before it, in their order.
-/

namespace XmipNet
namespace Handler

variable {ι α β σ : Type}

/-- What a handler remembers after some requests. -/
def remembered (handler : α → σ → β × σ) (memory : σ) (requests : List α) : σ :=
  requests.foldl (fun memory request => (handler request memory).2) memory

/-- What a handler answers to requests that come one after another, each to the
name it came under. -/
def replies (handler : α → σ → β × σ) : σ → List (ι × α) → List (ι × β)
  | _, [] => []
  | memory, (name, request) :: rest =>
      (name, (handler request memory).1) ::
        replies handler (handler request memory).2 rest

variable {handler : α → σ → β × σ} {memory : σ}

/-- A reply is the answer to a request under its name, given what the handler
remembers of those before. -/
theorem mem_replies
    {asked : List (ι × α)}
    {name : ι}
    {reply : β}
    (member : (name, reply) ∈ replies handler memory asked) :
    ∃ front request back, asked = front ++ (name, request) :: back ∧
      reply = (handler request
        (remembered handler memory (front.map Prod.snd))).1 := by
  induction asked generalizing memory with
  | nil => cases member
  | cons entry rest inductionHypothesis =>
      obtain ⟨other, request⟩ := entry
      rcases List.mem_cons.mp member with same | later
      · cases same
        exact ⟨[], request, rest, rfl, rfl⟩
      · obtain ⟨front, asking, back, rfl, same⟩ := inductionHypothesis later
        exact ⟨(other, request) :: front, asking, back, rfl, same⟩

end Handler
end XmipNet
