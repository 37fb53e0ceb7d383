import XmipNet.Http.Exchange
import XmipNet.Http2.Message

/-!
# The status of an answer, in both versions

Both versions take three octets and hand them to the reader of numbers, which
takes a sign before its digits. What is accepted is three digits and their
number, or a plus sign and two digits.
-/

namespace XmipNet
namespace Status

open Head (readHead)
open Http (statusLine readResponse answerAfter answerBody bodiless)
open Http2.Message (statusOf responseOf pseudo)
open Http2.Hpack (Field)

/-- `text` is three digits. -/
def ThreeDigits (text : String) : Prop :=
  text.toList.length = 3 ∧ ∀ digit ∈ text.toList, digit.isDigit = true

/-- `text` is a plus sign and two digits. -/
def Signed (text : String) : Prop :=
  ∃ first second, text.toList = ['+', first, second] ∧
    first.isDigit = true ∧ second.isDigit = true

/-- The text that a status line has for its status. -/
def statusText (line : String) : Option String :=
  (Text.stripPrefix line "HTTP/1.").bind fun rest =>
    (Text.splitOnce rest ' ').map fun parts =>
      ((Text.splitOnce parts.2 ' ').getD (parts.2, "")).1

/-- The text that fields have for their status: the last counts. -/
def lastStatus (fields : List Field) : Option String :=
  ((fields.filter fun field => field.1 = ":status").getLast?).map Prod.snd

/-- A status is what three digits spell. -/
def Spelled (text : Option String) (status : Nat) : Prop :=
  ∃ digits, text = some digits ∧ ThreeDigits digits ∧
    status = Text.decimal digits.toList

/-! ## What is accepted as a status -/

theorem length_octets_of_ascii
    {text : String}
    (ascii : ∀ character ∈ text.toList, character.toNat < 128) :
    (Text.octets text).length = text.toList.length := by
  rw [Text.octets_eq, Utf8.length_encode_of_ascii ascii]

/-- Three octets that are read as a number are three digits, or a sign and
two. -/
theorem of_statusOf
    {text : String}
    {status : Nat}
    (reads : statusOf text = some status) :
    ThreeDigits text ∧ status = Text.decimal text.toList ∨ Signed text := by
  rw [statusOf, Option.ite_none_right_eq_some] at reads
  obtain ⟨three, reads⟩ := reads
  obtain ⟨digits, written, all, value, _⟩ :=
    Text.parseUnsigned_eq_some_iff.mp reads
  rw [Text.allDigits, decide_eq_true_iff, List.all_eq_true] at all
  have ascii : ∀ digit ∈ digits.toList, digit.toNat < 128 :=
    fun digit member => Text.ascii_of_isDigit (all.2 digit member)
  rcases written with rfl | rfl
  · rw [length_octets_of_ascii ascii] at three
    exact Or.inl ⟨⟨three, all.2⟩, value.symm⟩
  · right
    rw [Text.octets_append, List.length_append,
      length_octets_of_ascii ascii] at three
    have two : digits.toList.length = 2 := by
      have sign : (Text.octets "+").length = 1 := by decide
      omega
    obtain ⟨first, second, spelled⟩ := List.length_eq_two.mp two
    rw [spelled] at all
    refine ⟨first, second, ?_, all.2 _ (by simp), all.2 _ (by simp)⟩
    rw [String.toList_append, spelled]
    rfl

/-- A sign and two digits are read as the number that the digits hold, which no
body follows. -/
theorem statusOf_of_signed
    {text : String}
    (signed : Signed text) :
    ∃ status, statusOf text = some status ∧ bodiless status = true := by
  obtain ⟨first, second, spelled, firstDigit, secondDigit⟩ := signed
  have high := (Text.isDigit_iff first).mp firstDigit
  have low := (Text.isDigit_iff second).mp secondDigit
  have value : Text.decimal [first, second] =
      (0 * 10 + (first.toNat - 48)) * 10 + (second.toNat - 48) := rfl
  have ascii : ∀ character ∈ text.toList, character.toNat < 128 := by
    rw [spelled]
    simp only [List.forall_mem_cons]
    exact ⟨by decide, Text.ascii_of_isDigit firstDigit,
      Text.ascii_of_isDigit secondDigit, List.forall_mem_nil _⟩
  refine ⟨Text.decimal [first, second], ?_, ?_⟩
  · rw [statusOf, if_pos (by rw [length_octets_of_ascii ascii, spelled]; rfl),
      Text.parseUnsigned_eq_some_iff]
    refine ⟨String.ofList [first, second], Or.inr ?_, ?_, ?_, by omega⟩
    · rw [← String.toList_inj, spelled, String.toList_append]
      exact congrArg ('+' :: ·) String.toList_ofList.symm
    · rw [Text.allDigits, decide_eq_true_iff, List.all_eq_true,
        String.toList_ofList, ← String.toList_inj.ne, String.toList_ofList]
      exact ⟨List.cons_ne_nil _ _, by simp [firstDigit, secondDigit]⟩
    · rw [String.toList_ofList]
  · rw [bodiless, decide_eq_true_iff]
    exact Or.inl (by omega)

theorem not_threeDigits_of_signed
    {text : String}
    (signed : Signed text) :
    ¬ThreeDigits text := by
  obtain ⟨first, second, spelled, _⟩ := signed
  intro digits
  have sign := digits.2 '+' (by rw [spelled]; exact List.mem_cons_self)
  cases sign

/-- A status that is accepted is spelled by three digits where it has no
sign. -/
theorem spelled_of_bind
    {text : Option String}
    {status : Nat}
    (reads : text.bind statusOf = some status)
    (unsigned : ¬∃ sign, text = some sign ∧ Signed sign) :
    Spelled text status := by
  obtain ⟨digits, rfl, reads⟩ := Option.bind_eq_some_iff.mp reads
  have three := (of_statusOf reads).resolve_right
    fun signed => unsigned ⟨digits, rfl, signed⟩
  exact ⟨digits, rfl, three⟩

/-! ## The status line -/

theorem statusLine_eq (line : String) :
    (statusLine line).map Prod.fst = (statusText line).bind statusOf := by
  rw [statusLine, statusText]
  cases Text.stripPrefix line "HTTP/1." with
  | none => rfl
  | some rest =>
      simp only [Option.bind_some]
      cases Text.splitOnce rest ' ' with
      | none => rfl
      | some parts =>
          simp only [Option.bind_some, Option.map_some]
          cases (Text.splitOnce parts.2 ' ').getD (parts.2, "") with
          | mk code phrase =>
              simp only [statusOf]
              split
              · cases Text.parseUnsigned 16 code <;> rfl
              · rfl

/-- An answer that is read has the status of its line. -/
theorem status_of_readResponse
    {reader between after : Reader}
    {line : String}
    {rest : List String}
    {response : Http.Response}
    (head : readHead reader = (.ok (line :: rest), between))
    (reads : readResponse reader = (.ok response, after)) :
    (statusText line).bind statusOf = some response.status := by
  rw [Http.readResponse_eq, Fallible.bind_of_ok head] at reads
  rw [← statusLine_eq]
  cases found : statusLine line with
  | none =>
      rw [Http.answerAfter_of_not_statusLine found] at reads
      cases reads
  | some status =>
      rw [Http.answerAfter_of_statusLine found] at reads
      obtain ⟨_, _, _, returns⟩ := Fallible.of_bind reads
      cases returns
      rfl

/-- An answer without a body is read from its head. -/
theorem readResponse_of_bodiless
    {reader between : Reader}
    {line : String}
    {rest : List String}
    {status : Nat}
    (head : readHead reader = (.ok (line :: rest), between))
    (reads : (statusText line).bind statusOf = some status)
    (without : bodiless status = true) :
    ∃ response, readResponse reader = (.ok response, between) := by
  rw [← statusLine_eq] at reads
  obtain ⟨⟨status, phrase⟩, found, rfl⟩ := Option.map_eq_some_iff.mp reads
  rw [Http.readResponse_eq, Fallible.bind_of_ok head,
    Http.answerAfter_of_statusLine found, answerBody, if_pos without]
  exact ⟨_, rfl⟩

/-! ## The fields -/

theorem foldl_status (fields : List Field) :
    fields.foldl
        (fun status field =>
          if field.1 = ":status" then statusOf field.2 else status) none =
      (lastStatus fields).bind statusOf := by
  induction fields using List.reverseRecOn with
  | nil => rfl
  | append_singleton fields field inductionHypothesis =>
      rw [List.foldl_append, List.foldl_cons, List.foldl_nil,
        inductionHypothesis, lastStatus, lastStatus, List.filter_append]
      by_cases named : field.1 = ":status"
      · rw [if_pos named, List.filter_singleton, decide_eq_true named]
        simp
      · rw [if_neg named, List.filter_singleton, decide_eq_false named]
        simp

theorem responseOf_eq_ok_iff
    (fields : List Field)
    (body : List UInt8)
    (trailers : List Field)
    (response : Http.Response) :
    responseOf fields body trailers = .ok response ↔
      ∃ status, (lastStatus fields).bind statusOf = some status ∧
        response = {
          status
          reason := Http.reason status
          headers := fields.filter fun field =>
            field.1 ≠ ":status" ∧ ¬pseudo field
          body
          trailers } := by
  rw [responseOf]
  simp only [foldl_status]
  cases (lastStatus fields).bind statusOf with
  | none => simp
  | some status =>
      simp only [Except.ok.injEq, Option.some.injEq, exists_eq_left']
      exact eq_comm

/-! ## Both -/

/-- Each version accepts only three digits and their number exactly where its
status text is no sign and two digits. -/
theorem spelled_iff
    {reader between : Reader}
    {line : String}
    {rest : List String}
    (head : readHead reader = (.ok (line :: rest), between))
    (fields : List Field) :
    ((∀ response after, readResponse reader = (.ok response, after) →
        Spelled (statusText line) response.status) ↔
      ¬∃ sign, statusText line = some sign ∧ Signed sign) ∧
    ((∀ body trailers response,
        responseOf fields body trailers = .ok response →
        Spelled (lastStatus fields) response.status) ↔
      ¬∃ sign, lastStatus fields = some sign ∧ Signed sign) := by
  refine ⟨⟨?_, ?_⟩, ⟨?_, ?_⟩⟩
  · rintro spelled ⟨sign, text, signed⟩
    obtain ⟨status, reads, without⟩ := statusOf_of_signed signed
    obtain ⟨response, accepted⟩ :=
      readResponse_of_bodiless head (by rw [text]; exact reads) without
    obtain ⟨digits, same, three, _⟩ := spelled response between accepted
    cases text ▸ same
    exact not_threeDigits_of_signed signed three
  · intro unsigned response after accepted
    exact spelled_of_bind (status_of_readResponse head accepted) unsigned
  · rintro spelled ⟨sign, text, signed⟩
    obtain ⟨status, reads, _⟩ := statusOf_of_signed signed
    obtain ⟨digits, same, three, _⟩ := spelled [] [] _
      ((responseOf_eq_ok_iff fields [] [] _).mpr
        ⟨status, by rw [text]; exact reads, rfl⟩)
    cases text ▸ same
    exact not_threeDigits_of_signed signed three
  · intro unsigned body trailers response accepted
    obtain ⟨status, reads, rfl⟩ :=
      (responseOf_eq_ok_iff fields body trailers response).mp accepted
    exact spelled_of_bind reads unsigned

/-- A head of one whole line is read. -/
theorem exists_readHead
    {line : String}
    (whole : Head.Whole line) :
    ∃ between, readHead (.ofOctets (Head.lineOctets line ++ [13, 10])) =
      (.ok [line], between) := by
  have reads := Head.readHead_reads (List.forall_mem_singleton.mpr whole)
    (show 1 ≤ Head.maxHeaders by decide) []
  rw [List.flatMap_singleton, List.append_nil] at reads
  obtain ⟨between, runs, _⟩ := reads _ (Reader.delivers_ofOctets _)
  exact ⟨between, runs⟩

/-- A line and a field of three digits, both accepted. -/
theorem spelled_iff_ok :
    let line := "HTTP/1.1 200 OK"
    let reader := Reader.ofOctets (Head.lineOctets line ++ [13, 10])
    let fields : List Field := [(":status", "200")]
    ((∀ response after, readResponse reader = (.ok response, after) →
        Spelled (statusText line) response.status) ↔
      ¬∃ sign, statusText line = some sign ∧ Signed sign) ∧
    ((∀ body trailers response,
        responseOf fields body trailers = .ok response →
        Spelled (lastStatus fields) response.status) ↔
      ¬∃ sign, lastStatus fields = some sign ∧ Signed sign) := by
  obtain ⟨between, head⟩ := @exists_readHead "HTTP/1.1 200 OK"
    ⟨by decide, by decide, by decide⟩
  exact spelled_iff head _

theorem not_spelled_plus (status : Nat) : ¬Spelled (some "+12") status := by
  rintro ⟨digits, same, three, _⟩
  obtain rfl := Option.some.inj same
  exact absurd (three.2 '+' (by decide)) (by decide)

/-- A plus sign and two digits are accepted by both. -/
theorem not_spelled_signed :
    ¬(∀ reader line rest between,
        readHead reader = (.ok (line :: rest), between) →
        ∀ response after, readResponse reader = (.ok response, after) →
          Spelled (statusText line) response.status) ∧
    ¬∀ fields body trailers response,
        responseOf fields body trailers = .ok response →
        Spelled (lastStatus fields) response.status := by
  constructor
  · intro holds
    obtain ⟨between, head⟩ := @exists_readHead "HTTP/1.1 +12 OK"
      ⟨by decide, by decide, by decide⟩
    have text : statusText "HTTP/1.1 +12 OK" = some "+12" := by decide
    obtain ⟨response, accepted⟩ := readResponse_of_bodiless head
      (show (statusText "HTTP/1.1 +12 OK").bind statusOf = some 12 by decide)
      (by decide)
    have spelled := holds _ _ _ _ head response between accepted
    rw [text] at spelled
    exact not_spelled_plus _ spelled
  · intro holds
    have spelled := holds [(":status", "+12")] [] []
      { status := 12, reason := "Status", headers := [], body := [],
        trailers := [] } (by decide)
    exact not_spelled_plus _ spelled

end Status
end XmipNet
