import XmipNet.Http.RoundTrip

/-!
# An empty line where a request is expected

A head of no lines is what comes of a connection that ended and of an empty line
alike, and no request is read of either. So a request is told from a close where
what comes does not open with an empty line, and there only.
-/

namespace XmipNet
namespace Http

open Fallible (Reads Decided times)
open Head (readHead lineOctets Whole)
open Read (trimEol upTo)

/-- Octets that open with an empty line: with its ending, or of a return that
nothing follows. -/
def OpensEmpty (bytes : List UInt8) : Prop :=
  [10] <+: bytes ∨ [13, 10] <+: bytes ∨ bytes = [13]

instance (bytes : List UInt8) : Decidable (OpensEmpty bytes) :=
  inferInstanceAs (Decidable (_ ∨ _ ∨ _))

theorem upTo_of_opensEmpty
    {bytes : List UInt8}
    (opens : OpensEmpty bytes) :
    upTo 10 bytes = [10] ∨ upTo 10 bytes = [13, 10] ∨ upTo 10 bytes = [13] := by
  rcases opens with ⟨rest, rfl⟩ | ⟨rest, rfl⟩ | rfl
  · exact Or.inl (Read.upTo_of_delimiter 10 rest)
  · have absent : (10 : UInt8) ∉ [(13 : UInt8)] := by decide
    have split : [13, 10] ++ rest = [13] ++ 10 :: rest := rfl
    rw [split, Read.upTo_append_of_not_mem absent, Read.upTo_of_delimiter]
    exact Or.inr (Or.inl rfl)
  · exact Or.inr (Or.inr rfl)

theorem nil_or_return
    {content : List UInt8}
    (nothing : (if content.getLast? = some 13 then content.dropLast
      else content) = []) :
    content = [] ∨ content = [13] := by
  split at nothing
  next ends =>
    have split := List.dropLast_append_getLast? 13 ends
    rw [nothing, List.nil_append] at split
    exact Or.inr split.symm
  · exact Or.inl nothing

/-- An empty line is what nothing is left of without a line's ending. -/
theorem opensEmpty_iff (bytes : List UInt8) :
    OpensEmpty bytes ↔ bytes ≠ [] ∧ trimEol (upTo 10 bytes) = [] := by
  constructor
  · intro opens
    constructor
    · rintro rfl
      exact absurd opens (by decide)
    · rcases upTo_of_opensEmpty opens with line | line | line
      all_goals
        rw [line]
        rfl
  · rintro ⟨nonempty, trimmed⟩
    obtain ⟨rest, split⟩ := Read.upTo_isPrefix 10 bytes
    obtain ⟨content, absent, whole | ⟨whole, all⟩⟩ := Read.upTo_cases 10 bytes
    · rw [whole, Read.trimEol_append_lineFeed] at trimmed
      rw [whole, List.append_assoc] at split
      rcases nil_or_return trimmed with rfl | rfl
      · exact Or.inl ⟨rest, split⟩
      · exact Or.inr (Or.inl ⟨rest, split⟩)
    · rw [whole, Read.trimEol_of_not_mem absent] at trimmed
      rcases nil_or_return trimmed with rfl | rfl
      · exact absurd all nonempty
      · exact Or.inr (Or.inr all)

/-! ## Heads of no lines -/

/-- No line is read before a head's end where the connection has ended or an
empty line comes first. -/
theorem readHead_reads_nil_iff (bytes : List UInt8) :
    (∃ rest, Reads readHead bytes [] rest) ↔ bytes = [] ∨ OpensEmpty bytes := by
  constructor
  · rintro ⟨rest, reads⟩
    rw [readHead, Head.readHeadFrom_eq, Read.decided_line.reads_bind_iff
      (Head.decided_afterLine_any Head.maxHeaders [])] at reads
    obtain ⟨read, middle, first, second⟩ := reads
    cases read with
    | none => exact Or.inl (Read.of_line_none first).1
    | some text =>
        refine Or.inr ((opensEmpty_iff bytes).mpr ?_)
        obtain ⟨nonempty, _, _, spells⟩ := Read.of_line first
        refine ⟨nonempty, ?_⟩
        by_cases blank : text = ""
        · rw [← spells, blank]
          rfl
        · rw [Head.maxHeaders, Head.afterLine_more blank] at second
          obtain ⟨more, same, _⟩ := Head.of_readHeadFrom second
          exact absurd same (List.cons_ne_nil _ _).symm
  · rintro (rfl | opens)
    · refine ⟨[], ?_⟩
      rw [readHead, Head.readHeadFrom_eq]
      exact Read.line_reads_none.bind (Fallible.reads_pure [] [])
    · obtain ⟨nonempty, trimmed⟩ := (opensEmpty_iff bytes).mp opens
      refine ⟨bytes.drop (upTo 10 bytes).length, ?_⟩
      have fits : (upTo 10 bytes).length ≤ Read.maxLine := by
        rcases upTo_of_opensEmpty opens with line | line | line
        all_goals
          rw [line]
          decide
      have blank : trimEol (upTo 10 bytes) = Text.octets "" := trimmed
      rw [readHead, Head.readHeadFrom_eq]
      refine (Read.line_reads_of_upTo nonempty fits blank).bind ?_
      rw [Head.afterLine_blank]
      exact Fallible.reads_pure [] _

/-- There is no request where the connection has ended or an empty line comes
first. -/
theorem readRequest_reads_none_iff
    (codec : Percent)
    (bytes : List UInt8) :
    (∃ rest, Reads (readRequest codec) bytes none rest) ↔
      bytes = [] ∨ OpensEmpty bytes := by
  rw [← readHead_reads_nil_iff]
  constructor
  · rintro ⟨rest, reads⟩
    rw [readRequest_eq, Head.decided_readHead.reads_bind_iff
      (decided_requestAfter codec)] at reads
    obtain ⟨head, after, first, second⟩ := reads
    cases head with
    | nil => exact ⟨after, first⟩
    | cons line others =>
        rw [requestAfter, List.head?_cons] at second
        simp only at second
        split at second
        · obtain ⟨result, middle, _, ends⟩ :=
            ((Body.decided_read _ false).reads_bind_iff fun _ =>
              Fallible.decided_pure _).mp second
          cases (ends.unique (Fallible.reads_pure _ _)).1
        · exact absurd (Fallible.refuses_fail _ _) second.not_refuses
  · rintro ⟨rest, reads⟩
    refine ⟨rest, ?_⟩
    rw [readRequest_eq]
    exact reads.bind (Fallible.reads_pure none rest)

theorem decided_readRequest (codec : Percent) : Decided (readRequest codec) :=
  Head.decided_readHead.bind (decided_requestAfter codec)

/-! ## Kept connections -/

/-- Of the octets of a connection kept for `requests`, `position` is what is
left once they have been read. -/
def Reached
    (codec : Percent)
    (bytes : List UInt8)
    (requests : List Request)
    (position : List UInt8) : Prop :=
  Reads (times (readRequest codec) requests.length) bytes (requests.map some)
    position

/-- How a line ends. -/
inductive Ending
  | lineFeed
  | returnLineFeed
  deriving DecidableEq

/-- The octets of a line's ending. -/
def Ending.octets : Ending → List UInt8
  | lineFeed => [10]
  | returnLineFeed => [13, 10]

/-- A request as a client sends it on a kept connection: the octets it is read
from, whatever follows them, after some empty lines. -/
structure Sent (codec : Percent) where
  blank : List Ending
  written : List UInt8
  request : Request
  reads : ∀ rest,
    Reads (readRequest codec) (written ++ rest) (some request) rest

/-- The octets of a request and of the empty lines before it. -/
def Sent.octets {codec : Percent} (sent : Sent codec) : List UInt8 :=
  sent.blank.flatMap Ending.octets ++ sent.written

theorem opensEmpty_of_blank
    {codec : Percent}
    {sent : Sent codec}
    (blank : sent.blank ≠ [])
    (rest : List UInt8) :
    OpensEmpty (sent.octets ++ rest) := by
  rw [Sent.octets]
  cases lines : sent.blank with
  | nil => exact absurd lines blank
  | cons first others =>
      rw [List.flatMap_cons, List.append_assoc, List.append_assoc]
      cases first with
      | lineFeed => exact Or.inl (List.prefix_append _ _)
      | returnLineFeed => exact Or.inr (Or.inl (List.prefix_append _ _))

/-- What a client sends is read request after request where and only where no
empty line comes before one. -/
theorem times_readRequest_iff
    {codec : Percent}
    (sent : List (Sent codec))
    (rest : List UInt8) :
    Reads (times (readRequest codec) sent.length)
        (sent.flatMap Sent.octets ++ rest)
        (sent.map fun each => some each.request) rest ↔
      ∀ each ∈ sent, each.blank = [] := by
  constructor
  · intro reads
    induction sent with
    | nil => exact List.forall_mem_nil _
    | cons each others inductionHypothesis =>
        rw [List.length_cons] at reads
        obtain ⟨value, values, middle, same, first, later⟩ :=
          (decided_readRequest codec).of_times_succ reads
        obtain ⟨rfl, rfl⟩ := List.cons.inj same
        rw [List.flatMap_cons, List.append_assoc] at first
        by_cases blank : each.blank = []
        · rw [Sent.octets, blank, List.flatMap_nil, List.nil_append] at first
          obtain ⟨_, rfl⟩ := first.unique (each.reads _)
          exact List.forall_mem_cons.mpr ⟨blank, inductionHypothesis later⟩
        · obtain ⟨left, none⟩ := (readRequest_reads_none_iff codec _).mpr
            (Or.inr (opensEmpty_of_blank blank _))
          cases (first.unique none).1
  · intro blank
    refine Fallible.times_reads ?_ rest
    intro each member rest
    rw [Sent.octets, blank each member, List.flatMap_nil, List.nil_append]
    exact each.reads rest

/-- A request is told from a close: of any octets there is none only where there
are no octets, and on a kept connection only where it has ended, where no empty
line comes where a request may, and only there; and of requests with empty lines
before some of them, all are read where no empty line is, and only there. -/
theorem close_told_iff (codec : Percent) :
    (∀ bytes, (∀ rest, Reads (readRequest codec) bytes none rest → bytes = []) ↔
      ¬OpensEmpty bytes) ∧
    (∀ bytes, (∀ requests position, Reached codec bytes requests position →
        ∀ rest, Reads (readRequest codec) position none rest →
          position = []) ↔
      ∀ requests position, Reached codec bytes requests position →
        ¬OpensEmpty position) ∧
    ∀ sent : List (Sent codec),
      Reads (times (readRequest codec) sent.length)
          (sent.flatMap Sent.octets)
          (sent.map fun each => some each.request) [] ↔
        ∀ each ∈ sent, each.blank = [] := by
  have told (bytes : List UInt8) :
      (∀ rest, Reads (readRequest codec) bytes none rest → bytes = []) ↔
        ¬OpensEmpty bytes := by
    constructor
    · intro only opens
      obtain ⟨rest, reads⟩ :=
        (readRequest_reads_none_iff codec bytes).mpr (Or.inr opens)
      rw [only rest reads] at opens
      exact absurd opens (by decide)
    · intro closed rest reads
      have either := (readRequest_reads_none_iff codec bytes).mp ⟨rest, reads⟩
      exact either.resolve_right closed
  refine ⟨told, fun bytes => ?_, fun sent => ?_⟩
  · exact forall₂_congr fun requests position =>
      forall_congr' fun _ => told position
  · have all := times_readRequest_iff sent []
    rwa [List.append_nil] at all

/-- A request without headers or a body. -/
def getting : Request where
  method := "GET"
  path := "/"
  query := []
  headers := []
  body := []

theorem reads_getting (rest : List UInt8) :
    Reads (readRequest Percent.bare)
      (Text.octets "GET / HTTP/1.1\r\n\r\n" ++ rest) (some getting) rest := by
  have octets : Text.octets "GET / HTTP/1.1\r\n\r\n" =
      ["GET / HTTP/1.1"].flatMap lineOctets ++ [13, 10] := by
    decide
  have whole : ∀ line ∈ ["GET / HTTP/1.1"], Whole line :=
    List.forall_mem_singleton.mpr ⟨by decide, by decide, by decide⟩
  have head := Head.readHead_reads whole (by decide) rest
  rw [octets, List.append_assoc, readRequest_eq]
  refine head.bind ?_
  exact Fallible.reads_pure _ _

/-- A request after an empty line is taken for a close, alone and on a kept
connection, and is left unread. -/
theorem not_close_told :
    let request := Text.octets "GET / HTTP/1.1\r\n\r\n"
    Reads (times (readRequest Percent.bare) 2)
      (request ++ ([13, 10] ++ request)) [some getting, none] request ∧
    (¬∀ (codec : Percent) (bytes rest : List UInt8),
      Reads (readRequest codec) bytes none rest → bytes = []) ∧
    ¬∀ (codec : Percent) (sent : List (Sent codec)),
      Reads (times (readRequest codec) sent.length) (sent.flatMap Sent.octets)
        (sent.map fun each => some each.request) [] := by
  intro request
  have none : Reads (readRequest Percent.bare) ([13, 10] ++ request) none
      request := by
    have head := Head.readHead_reads (List.forall_mem_nil _) (Nat.zero_le _)
      request
    rw [List.flatMap_nil, List.nil_append] at head
    rw [readRequest_eq]
    exact head.bind (Fallible.reads_pure _ request)
  refine ⟨?_, fun holds => ?_, fun holds => ?_⟩
  · refine (reads_getting _).bind ?_
    refine Reads.bind ?_ (Fallible.reads_pure _ request)
    exact none.bind (Reads.bind (Fallible.reads_pure [] request)
      (Fallible.reads_pure _ request))
  · exact absurd (holds _ _ _ none) (List.cons_ne_nil _ _)
  · have reads := holds Percent.bare
      [⟨[.returnLineFeed], request, getting, reads_getting⟩]
    obtain ⟨value, values, middle, same, first, _⟩ :=
      (decided_readRequest Percent.bare).of_times_succ reads
    obtain ⟨rfl, _⟩ := List.cons.inj same
    have octets : [(⟨[.returnLineFeed], request, getting, reads_getting⟩ :
        Sent Percent.bare)].flatMap Sent.octets = [13, 10] ++ request := by
      rw [List.flatMap_singleton, Sent.octets, List.flatMap_singleton]
      rfl
    rw [octets] at first
    cases (first.unique none).1

end Http
end XmipNet
