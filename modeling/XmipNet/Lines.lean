import XmipNet.Read

/-!
# What lines say

Octets read line by line until there are none: the text of each line, its ending
taken off. What the peer sent is told apart from it: lines each with a line feed
or a return and a line feed after it, and a last one without an ending. The two
are the same but for one octet, a return that ends the connection.
-/

namespace XmipNet
namespace Read

open Fallible (Reads)

/-- Read line by line until there is none, `bytes` give `texts`. -/
inductive ReadAll : List UInt8 → List String → Prop
  | ended
      {bytes rest : List UInt8}
      (ends : Reads line bytes none rest) :
      ReadAll bytes []
  | line
      {bytes rest : List UInt8}
      {text : String}
      {texts : List String}
      (reads : Reads line bytes (some text) rest)
      (more : ReadAll rest texts) :
      ReadAll bytes (text :: texts)

/-- A line's ending: a return and a line feed, or a line feed alone after what
does not end in a return. -/
def Ending (text : String) (ending : List UInt8) : Prop :=
  ending = [13, 10] ∨
    ending = [10] ∧ (Text.octets text).getLast? ≠ some 13

/-- `bytes` are `texts`, each with its ending, the last perhaps without one. -/
inductive Said : List UInt8 → List String → Prop
  | ended : Said [] []
  | last
      {text : String}
      (nonempty : text ≠ "")
      (oneLine : '\n' ∉ text.toList) :
      Said (Text.octets text) [text]
  | line
      {text : String}
      {ending rest : List UInt8}
      {texts : List String}
      (oneLine : '\n' ∉ text.toList)
      (ends : Ending text ending)
      (more : Said rest texts) :
      Said (Text.octets text ++ ending ++ rest) (text :: texts)

/-! ## Octets of a text -/

theorem exists_texts
    {text : String}
    {octet : UInt8}
    (ascii : octet.toNat < 128)
    {first rest : List UInt8}
    (same : Text.octets text = first ++ octet :: rest) :
    ∃ earlier later, Text.octets earlier = first ∧ Text.octets later = rest := by
  rw [Text.octets_eq] at same
  obtain ⟨earlier, later, before, after⟩ := Utf8.exists_of_encode_eq ascii same
  refine ⟨String.ofList earlier, String.ofList later, ?_, ?_⟩
  · rw [Text.octets_eq, String.toList_ofList, before]
  · rw [Text.octets_eq, String.toList_ofList, after]

theorem ending_last
    {text : String}
    {ending : List UInt8}
    (ends : Ending text ending) :
    ∃ before, ending = before ++ [10] := by
  rcases ends with rfl | ⟨rfl, _⟩
  · exact ⟨[13], rfl⟩
  · exact ⟨[], rfl⟩

theorem getLast?_line
    {before ending rest : List UInt8}
    (ends : ∃ before, ending = before ++ [10]) :
    (before ++ ending ++ rest).getLast? = some 13 ↔ rest.getLast? = some 13 := by
  obtain ⟨earlier, rfl⟩ := ends
  cases rest with
  | nil =>
      rw [List.append_nil, ← List.append_assoc, List.getLast?_concat]
      exact ⟨(fun same => by cases same), (fun same => by cases same)⟩
  | cons octet rest =>
      rw [List.getLast?_append_of_ne_nil _ (List.cons_ne_nil _ _)]

theorem trimEol_ending
    {text : String}
    {ending : List UInt8}
    (ends : Ending text ending) :
    trimEol (Text.octets text ++ ending) = Text.octets text := by
  rcases ends with rfl | ⟨rfl, open'⟩
  · exact trimEol_crlf _
  · rw [trimEol_append_lineFeed, if_neg open']

theorem upTo_line
    {text : String}
    (oneLine : '\n' ∉ text.toList)
    {ending : List UInt8}
    (ends : Ending text ending)
    (rest : List UInt8) :
    upTo 10 (Text.octets text ++ ending ++ rest) = Text.octets text ++ ending := by
  rcases ends with rfl | ⟨rfl, _⟩
  · exact upTo_crlf oneLine rest
  · have absent : 10 ∉ Text.octets text :=
      mt (Text.lineFeed_mem_octets_iff text).mp oneLine
    rw [List.append_assoc, upTo_append_of_not_mem absent, List.singleton_append,
      upTo_of_delimiter]

/-! ## What is said and read -/

/-- What is said in lines, read line by line, does not end in a return. -/
theorem not_return_of_said
    {bytes : List UInt8}
    {texts : List String}
    (said : Said bytes texts)
    (reads : ReadAll bytes texts) :
    bytes.getLast? ≠ some 13 := by
  induction said with
  | ended => exact fun same => by cases same
  | @last text nonempty oneLine =>
      cases reads with
      | line reads _ =>
          obtain ⟨_, _, _, spells⟩ := of_line reads
          have absent : 10 ∉ Text.octets text :=
            mt (Text.lineFeed_mem_octets_iff text).mp oneLine
          rw [upTo_of_not_mem absent, trimEol_of_not_mem absent] at spells
          intro ends
          rw [if_pos ends] at spells
          have shorter := congrArg List.length spells
          have positive := List.length_pos_iff.mpr
            (mt (Text.octets_eq_nil_iff text).mp nonempty)
          rw [List.length_dropLast] at shorter
          omega
  | @line text ending rest texts oneLine ends more inductionHypothesis =>
      cases reads with
      | @line _ left _ _ reads others =>
          obtain ⟨_, split, _, _⟩ := of_line reads
          rw [upTo_line oneLine ends] at split
          obtain rfl := List.append_cancel_left split
          rw [ne_eq, getLast?_line (ending_last ends)]
          exact inductionHypothesis others

/-- Octets before a line feed are a line and its ending. -/
theorem exists_line
    {text : String}
    (absent : 10 ∉ Text.octets text) :
    ∃ line ending, '\n' ∉ line.toList ∧ Ending line ending ∧
      Text.octets line ++ ending = Text.octets text ++ [10] := by
  by_cases ends : (Text.octets text).getLast? = some 13
  · obtain ⟨before, split⟩ := List.getLast?_eq_some_iff.mp ends
    have ascii : (13 : UInt8).toNat < 128 := by decide
    obtain ⟨line, _, spells, _⟩ := exists_texts ascii split
    refine ⟨line, [13, 10], ?_, Or.inl rfl, ?_⟩
    · rw [← Text.lineFeed_mem_octets_iff, spells]
      rw [split] at absent
      exact fun member => absent (List.mem_append_left _ member)
    · rw [spells, split, List.append_assoc]
      rfl
  · refine ⟨text, [10], ?_, Or.inr ⟨rfl, ends⟩, rfl⟩
    exact mt (Text.lineFeed_mem_octets_iff text).mpr absent

theorem line_reads_said
    {text : String}
    (oneLine : '\n' ∉ text.toList)
    {ending : List UInt8}
    (ends : Ending text ending)
    {rest : List UInt8}
    (fits : (upTo 10 (Text.octets text ++ ending ++ rest)).length ≤ maxLine) :
    Reads line (Text.octets text ++ ending ++ rest) (some text) rest := by
  have whole := upTo_line oneLine ends rest
  obtain ⟨before, feed⟩ := ending_last ends
  have nonempty : Text.octets text ++ ending ++ rest ≠ [] := by
    rw [feed, ← List.append_assoc, List.append_assoc]
    exact List.append_ne_nil_of_right_ne_nil _ (List.cons_ne_nil _ _)
  have reads := line_reads_of_upTo nonempty fits
    (show _ = Text.octets text by rw [whole, trimEol_ending ends])
  rwa [whole, List.drop_left] at reads

/-- What does not end in a return is said in the lines it is read as. -/
theorem exists_said
    {text : String}
    (fits : ∀ rest, rest <:+ Text.octets text →
      (upTo 10 rest).length ≤ maxLine)
    (open' : (Text.octets text).getLast? ≠ some 13) :
    ∃ texts, ReadAll (Text.octets text) texts ∧ Said (Text.octets text) texts := by
  generalize length : (Text.octets text).length = count
  induction count using Nat.strongRecOn generalizing text with
  | ind count inductionHypothesis =>
      have within := fits _ (List.suffix_refl _)
      obtain ⟨content, absent, whole | ⟨whole, all⟩⟩ :=
        upTo_cases 10 (Text.octets text)
      · have split := upTo_append_drop 10 (Text.octets text)
        rw [whole, List.append_assoc, List.singleton_append] at split
        have ascii : (10 : UInt8).toNat < 128 := by decide
        obtain ⟨earlier, later, rfl, left⟩ := exists_texts ascii split.symm
        obtain ⟨line, ending, oneLine, ends, same⟩ := exists_line absent
        have parts : Text.octets text =
            Text.octets line ++ ending ++ Text.octets later := by
          rw [same, left, List.append_assoc]
          exact split.symm
        rw [parts] at within fits open' length ⊢
        have shorter : (Text.octets later).length < count := by
          obtain ⟨before, feed⟩ := ending_last ends
          rw [← length, feed]
          simp only [List.length_append, List.length_singleton]
          omega
        rw [ne_eq, getLast?_line (ending_last ends)] at open'
        obtain ⟨texts, reads, said⟩ := inductionHypothesis _ shorter
          (fun rest suffix => fits rest
            (suffix.trans (List.suffix_append _ _))) open' rfl
        exact ⟨line :: texts, .line (line_reads_said oneLine ends within) reads,
          .line oneLine ends said⟩
      · rw [← all] at absent
        by_cases empty : text = ""
        · subst empty
          exact ⟨[], .ended line_reads_none, .ended⟩
        · have nonempty := mt (Text.octets_eq_nil_iff text).mp empty
          have same : trimEol (upTo 10 (Text.octets text)) =
              Text.octets text := by
            rw [upTo_of_not_mem absent, trimEol_of_not_mem absent,
              if_neg open']
          have reads := line_reads_of_upTo nonempty within same
          rw [upTo_of_not_mem absent, List.drop_length] at reads
          exact ⟨[text], .line reads (.ended line_reads_none),
            .last empty (mt (Text.lineFeed_mem_octets_iff text).mpr absent)⟩

/-- The lines that are read say what was sent, each line feed and the return
before it taken off and nothing else, where and only where what was sent does
not end in a return. -/
theorem readAll_said_iff
    {text : String}
    (fits : ∀ rest, rest <:+ Text.octets text →
      (upTo 10 rest).length ≤ maxLine) :
    (∃ texts, ReadAll (Text.octets text) texts ∧
      Said (Text.octets text) texts) ↔
      (Text.octets text).getLast? ≠ some 13 := by
  constructor
  · rintro ⟨texts, reads, said⟩
    exact not_return_of_said said reads
  · exact exists_said fits

theorem readAll_said_iff_returns :
    ∃ texts, ReadAll (Text.octets "a\r\r\nb\r\n\nc") texts ∧
      Said (Text.octets "a\r\r\nb\r\n\nc") texts := by
  refine (readAll_said_iff fun rest suffix => ?_).mpr (by decide)
  exact Nat.le_trans (upTo_isPrefix 10 rest).length_le
    (Nat.le_trans suffix.length_le (by decide))

/-- A return that ends the connection is taken off the last line. -/
theorem not_readAll_said_return :
    ¬∀ text : String, (∀ rest, rest <:+ Text.octets text →
        (upTo 10 rest).length ≤ maxLine) →
      ∃ texts, ReadAll (Text.octets text) texts ∧
        Said (Text.octets text) texts := by
  intro holds
  have fits : ∀ rest, rest <:+ Text.octets "line\r" →
      (upTo 10 rest).length ≤ maxLine := fun rest suffix =>
    Nat.le_trans (upTo_isPrefix 10 rest).length_le
      (Nat.le_trans suffix.length_le (by decide))
  obtain ⟨texts, reads, said⟩ := holds "line\r" fits
  exact not_return_of_said said reads (by decide)

end Read
end XmipNet
