import XmipNet.Http.Ends
import XmipNet.Http.Kept
import XmipNet.Http.Received
import XmipNet.Slices

/-!
# Connections that are kept

A connection carries another exchange where the answer ended before it did and
the peer keeps it: no option `close` among those its `Connection` fields list,
in HTTP/1.1, or in HTTP/1.0 with the option `keep-alive`. What an exchange says
of its connection looks at one field and at no version.
-/

namespace XmipNet
namespace Http

open Fallible (Reads)
open Head (fields header readHead)

/-- The body of an answer of `status` is everything to the connection's end. -/
def ByEnd (head : List String) (status : Nat) : Prop :=
  answerBody status head = do
    let bytes ← Read.toEnd maxBody
    pure (bytes, [])

/-- The options a field lists. -/
def options (field : Pair) : List String :=
  (Text.split field.2 ',').map fun option => Text.lowercase (Text.trim option)

/-- One of the `Connection` fields lists an option. -/
def Lists (headers : List Pair) (option : String) : Prop :=
  ∃ field ∈ headers, Names field "connection" ∧ option ∈ options field

/-- A status line of HTTP/1 in a minor version. -/
def Speaks (line minor : String) : Prop :=
  ∃ words, line = "HTTP/1." ++ minor ++ " " ++ words

/-- An answer of HTTP/1.1, or of HTTP/1.0 that keeps its connection, and none of
whose `Connection` fields closes it. -/
structure Persists (line : String) (headers : List Pair) : Prop where
  version : Speaks line "1" ∨ Speaks line "0" ∧ Lists headers "keep-alive"
  stays : ¬Lists headers "close"

/-- An answer says that it closes, where a `Connection` field of it lists that or
its version does not keep it, as the whole of its first `Connection` field, or
it ends with the connection. -/
structure Plainly
    (head : List String)
    (line : String)
    (answer : Response) : Prop where
  closing : Lists answer.headers "close" →
    ByEnd head answer.status ∨ closes answer = true
  older : ¬(Speaks line "1" ∨
      Speaks line "0" ∧ Lists answer.headers "keep-alive") →
    ByEnd head answer.status ∨ closes answer = true

/-- A body is everything to the end where nothing frames it. -/
theorem byEnd_iff {head : List String} {status : Nat} :
    ByEnd head status ↔
      bodiless status = false ∧ header head "transfer-encoding" = none ∧
        header head "content-length" = none := by
  constructor
  · intro byEnd
    have all : ∀ bytes : List UInt8, bytes.length ≤ maxBody →
        Reads (answerBody status head) bytes (bytes, []) [] := by
      intro bytes fits
      rw [byEnd]
      exact (Read.toEnd_reads fits).bind (Fallible.reads_pure _ _)
    have none := all [] (Nat.zero_le _)
    have one := all [0] (by decide)
    rw [answerBody] at none one
    cases bare : bodiless status with
    | true =>
        rw [bare, if_pos rfl] at one
        cases (one.unique (Fallible.reads_pure _ _)).1
    | false =>
        rw [bare, if_neg Bool.false_ne_true] at none one
        rcases Body.of_read none with ⟨_, _, _, unchunks⟩ |
          ⟨uncoded, _, _, measured, _⟩
        · exact absurd (unchunkFrom_refuses_nil []) unchunks.not_refuses
        · refine ⟨rfl, uncoded, ?_⟩
          rcases Body.of_read one with ⟨_, coded, _⟩ | ⟨_, _, _, again, _⟩
          · cases uncoded.symm.trans coded
          · refine Option.eq_none_iff_forall_ne_some.mpr fun value states => ?_
            have zero := measured value states
            rw [again value states] at zero
            cases zero
  · rintro ⟨bare, uncoded, unmeasured⟩
    rw [ByEnd, answerBody, bare, if_neg Bool.false_ne_true, Body.read, uncoded,
      unmeasured]
    rfl

/-- A connection is said to carry another exchange where the answer does not end
with it and does not say as its first `Connection` field that it closes. -/
theorem keeps_eq_true_iff
    {head : List String}
    {answer : Response}
    (headers : answer.headers = fields (head.drop 1)) :
    keeps answer = true ↔
      ¬ByEnd head answer.status ∧ closes answer = false := by
  have looks : ∀ name, header head name = answer.headerValue name := by
    intro name
    rw [Response.headerValue, headers]
    exact Head.header_eq_find head name
  have closed : keeps answer = ((bodiless answer.status ||
      (answer.headerValue "content-length").isSome ||
        (answer.headerValue "transfer-encoding").isSome) && !closes answer) :=
    rfl
  rw [closed, Bool.and_eq_true, Bool.not_eq_true']
  refine and_congr_left fun _ => ?_
  rw [byEnd_iff, looks, looks, Bool.or_eq_true, Bool.or_eq_true,
    Option.isSome_iff_ne_none, Option.isSome_iff_ne_none, not_and_or,
    not_and_or, Bool.not_eq_false, or_assoc, or_comm (a := _ ≠ none)]

/-- The head an exchange read its answer from, and what it said of the
connection. -/
theorem of_exchangeKept
    {codec : Percent}
    {request : Request}
    {wire after : Wire}
    {answer : Response}
    {kept : Bool}
    (runs : exchangeKept codec request wire = (.ok (answer, kept), after)) :
    ∃ sent line others between,
      write codec request false wire = (.ok (), sent) ∧
      readHead (.new sent.incoming) = (.ok (line :: others), between) ∧
      statusLine line = some (answer.status, answer.reason) ∧
      answer.headers = fields others ∧ kept = keeps answer := by
  obtain ⟨_, sent, writes, runs⟩ := Fallible.of_bind runs
  obtain ⟨read, final, answers, runs⟩ := Fallible.of_bind runs
  obtain ⟨rfl, rfl⟩ : read = answer ∧ keeps read = kept := by
    cases runs
    exact ⟨rfl, rfl⟩
  have reads : (readResponse (.new sent.incoming)).1 = .ok read :=
    congrArg Prod.fst answers
  obtain ⟨head, between, first, second⟩ := Fallible.of_bind
    (show (readHead >>= answerAfter) (.new sent.incoming) = (.ok read, _) from
      Prod.ext reads rfl)
  cases head with
  | nil => cases second
  | cons line others =>
      refine ⟨sent, line, others, between, writes, first, ?_⟩
      cases states : statusLine line with
      | none =>
          rw [answerAfter_of_not_statusLine states] at second
          cases second
      | some status =>
          rw [answerAfter_of_statusLine states] at second
          obtain ⟨_, _, _, ends⟩ := Fallible.of_bind second
          cases ends
          exact ⟨rfl, rfl, rfl⟩

/-- An answer that closes its connection, as the last of the options it
lists. -/
def closing : Answer where
  response := {
    status := 200, reason := "OK"
    headers := [("Connection", "keep-alive, close"), ("Content-Length", "0")]
    body := [], trailers := [] }
  chunks := none

theorem sound_closing : closing.Sound where
  status := by decide
  reason := by decide
  first := by decide
  headers := List.forall_mem_cons.mpr
    ⟨⟨⟨by decide, by decide, by decide, by decide, by decide⟩, by decide⟩,
      List.forall_mem_singleton.mpr
        ⟨⟨by decide, by decide, by decide, by decide, by decide⟩, by decide⟩⟩
  few := by decide
  framed := ⟨rfl, rfl, by decide⟩
  small := by decide
  trailers := List.forall_mem_nil _
  fewTrailers := by decide

end Http
end XmipNet
