import XmipNet.Reader
import XmipNet.Words

/-!
# Reading off a connection, under a ceiling

To a delimiter, a line, or the end, never more than the caller will hold. What
each reads is a matter of the octets the connection delivers: the octets up to
the delimiter, the text of a line, everything there is.
-/

namespace XmipNet

open Fallible (Reads Refuses Decided mapError fail)

/-- Refuse a size over a ceiling; `carrier` says what holds that many. -/
def within (size ceiling : Nat) (carrier : String) : Except NetError Unit :=
  if ceiling < size then
    .error (.new s!"{size} bytes is over the {ceiling} {carrier}")
  else
    .ok ()

namespace Read

open Reader (fillBuf readToEnd)

/-- The longest line read, its line ending included. -/
def maxLine : Nat := 64 * 1024

/-- What the octets held give towards a delimiter: how many to take, and whether
the delimiter is the last of them. -/
def upToDelimiter (delimiter : UInt8) (available : List UInt8) : Nat × Bool :=
  match available.findIdx? (· = delimiter) with
  | some place => (place + 1, true)
  | none => (available.length, false)

theorem fst_upToDelimiter_pos
    (delimiter : UInt8)
    {available : List UInt8}
    (nonempty : available ≠ []) :
    0 < (upToDelimiter delimiter available).1 := by
  rw [upToDelimiter]
  split
  · exact Nat.succ_pos _
  · exact List.length_pos_iff.mpr nonempty

theorem fst_upToDelimiter_le
    (delimiter : UInt8)
    (available : List UInt8) :
    (upToDelimiter delimiter available).1 ≤ available.length := by
  rw [upToDelimiter]
  split
  next place found =>
    obtain ⟨inside, _⟩ := List.findIdx?_eq_some_iff_getElem.mp found
    exact inside
  · exact Nat.le_refl _

/-- Append to `into` up to the next `delimiter` or the connection's end, and
answer how many octets past `start` there are; `into` never passes
`ceiling`. -/
def untilFrom
    (delimiter : UInt8)
    (ceiling start : Nat)
    (into : List UInt8)
    (reader : Reader) : Except NetError (Nat × List UInt8) × Reader :=
  match _fills : fillBuf reader with
  | (.error error, after) =>
      if error.kind = .interrupted then
        untilFrom delimiter ceiling start into after
      else
        (.error (.fromIo "reading off a connection" error), after)
  | (.ok available, after) =>
      if _empty : available = [] then
        (.ok (into.length - start, into), after)
      else
        let take := (upToDelimiter delimiter available).1
        let found := (upToDelimiter delimiter available).2
        match within (into.length + take) ceiling
            "Xmip reads to one delimiter" with
        | .error failure => (.error failure, after)
        | .ok () =>
            let taken := into ++ available.take take
            if found then
              (.ok (taken.length - start, taken), after.consume take)
            else
              untilFrom delimiter ceiling start taken (after.consume take)
termination_by reader.size
decreasing_by
  · exact Reader.size_of_fillBuf_error _fills
  · obtain ⟨same, smaller⟩ := Reader.size_of_fillBuf _fills
    have positive := fst_upToDelimiter_pos delimiter _empty
    have short := fst_upToDelimiter_le delimiter available
    have left := Reader.size_consume_add after
      (show (upToDelimiter delimiter available).1 ≤ after.buffered.length by
        rw [same]
        exact short)
    omega

/-- Append to `into` up to the next `delimiter` or the connection's end, and
answer how many octets were appended. -/
def «until»
    (delimiter : UInt8)
    (ceiling : Nat)
    (into : List UInt8) : Reading NetError (Nat × List UInt8) :=
  untilFrom delimiter ceiling into.length into

/-- `raw` without one line ending, CRLF or LF. -/
def trimEol (raw : List UInt8) : List UInt8 :=
  let raw := if raw.getLast? = some 10 then raw.dropLast else raw
  if raw.getLast? = some 13 then raw.dropLast else raw

/-- The next line without its line ending, or none where the connection ended
before it. -/
def line : Reading NetError (Option String) := do
  let (count, raw) ← «until» 10 maxLine []
  if count = 0 then
    pure none
  else
    match Text.fromUtf8 (trimEol raw) with
    | some text => pure (some text)
    | none => fail (.new "a line that is not UTF-8")

/-- Everything up to the connection's end, within `ceiling` octets. -/
def toEnd (ceiling : Nat) : Reading NetError (List UInt8) := do
  let bytes ← mapError (.fromIo "reading a connection to its end")
    (readToEnd (ceiling + 1))
  Fallible.lift (within bytes.length ceiling
    "Xmip reads to a connection's end")
  pure bytes

/-! ## What is read, of the octets delivered -/

/-- The octets up to the first `delimiter` and with it, or all of them. -/
def upTo (delimiter : UInt8) : List UInt8 → List UInt8
  | [] => []
  | octet :: rest =>
      if octet = delimiter then [octet] else octet :: upTo delimiter rest

theorem upTo_isPrefix (delimiter : UInt8) (bytes : List UInt8) :
    upTo delimiter bytes <+: bytes := by
  induction bytes with
  | nil => exact List.prefix_refl []
  | cons octet rest inductionHypothesis =>
      rw [upTo]
      split
      · exact List.prefix_append [octet] rest
      · exact (List.prefix_cons_inj octet).mpr inductionHypothesis

theorem upTo_append_drop (delimiter : UInt8) (bytes : List UInt8) :
    upTo delimiter bytes ++ bytes.drop (upTo delimiter bytes).length = bytes := by
  obtain ⟨rest, split⟩ := upTo_isPrefix delimiter bytes
  have tail : bytes.drop (upTo delimiter bytes).length = rest := by
    conv_lhs => rw [← split]
    rw [List.drop_left' (by rw [split])]
  rw [tail, split]

theorem upTo_eq_nil_iff {delimiter : UInt8} {bytes : List UInt8} :
    upTo delimiter bytes = [] ↔ bytes = [] := by
  cases bytes with
  | nil => exact Iff.rfl
  | cons octet rest =>
      rw [upTo]
      split
      · exact ⟨(fun none => by cases none), (fun none => by cases none)⟩
      · exact ⟨(fun none => by cases none), (fun none => by cases none)⟩

theorem upTo_of_not_mem
    {delimiter : UInt8}
    {bytes : List UInt8}
    (absent : delimiter ∉ bytes) :
    upTo delimiter bytes = bytes := by
  induction bytes with
  | nil => rfl
  | cons octet rest inductionHypothesis =>
      have other := List.ne_of_not_mem_cons absent
      have later := List.not_mem_of_not_mem_cons absent
      rw [upTo, if_neg (Ne.symm other), inductionHypothesis later]

theorem upTo_append_of_not_mem
    {delimiter : UInt8}
    {earlier : List UInt8}
    (absent : delimiter ∉ earlier)
    (rest : List UInt8) :
    upTo delimiter (earlier ++ rest) = earlier ++ upTo delimiter rest := by
  induction earlier with
  | nil => rfl
  | cons octet earlier inductionHypothesis =>
      have other := List.ne_of_not_mem_cons absent
      have later := List.not_mem_of_not_mem_cons absent
      rw [List.cons_append, upTo, if_neg (Ne.symm other),
        inductionHypothesis later, List.cons_append]

theorem upTo_of_delimiter (delimiter : UInt8) (rest : List UInt8) :
    upTo delimiter (delimiter :: rest) = [delimiter] := by
  rw [upTo, if_pos rfl]

/-- Where the octets held have the delimiter, they have all there is to take. -/
theorem upTo_of_found
    {delimiter : UInt8}
    {available : List UInt8}
    {take : Nat}
    (found : upToDelimiter delimiter available = (take, true))
    (rest : List UInt8) :
    upTo delimiter (available ++ rest) = available.take take := by
  rw [upToDelimiter] at found
  split at found
  next place index =>
    cases found
    obtain ⟨inside, holds, others⟩ := List.findIdx?_eq_some_iff_getElem.mp index
    have split : available =
        available.take place ++ delimiter :: available.drop (place + 1) := by
      rw [← of_decide_eq_true holds, ← List.drop_eq_getElem_cons inside,
        List.take_append_drop]
    have absent : delimiter ∉ available.take place := by
      intro member
      obtain ⟨earlier, within, same⟩ := List.mem_take_iff_getElem.mp member
      have before : earlier < place := by omega
      exact others earlier before (decide_eq_true same)
    have take : available.take (place + 1) =
        available.take place ++ [delimiter] := by
      rw [List.take_succ_eq_append_getElem inside, of_decide_eq_true holds]
    rw [take]
    conv_lhs => rw [split]
    rw [List.append_assoc, upTo_append_of_not_mem absent, List.cons_append,
      upTo_of_delimiter]
  · cases found

/-- Where they do not, the octets after them go on. -/
theorem upTo_of_not_found
    {delimiter : UInt8}
    {available : List UInt8}
    {take : Nat}
    (unfound : upToDelimiter delimiter available = (take, false))
    (rest : List UInt8) :
    take = available.length ∧
      upTo delimiter (available ++ rest) =
        available ++ upTo delimiter rest := by
  rw [upToDelimiter] at unfound
  split at unfound
  · cases unfound
  next absent =>
    cases unfound
    refine ⟨rfl, upTo_append_of_not_mem ?_ rest⟩
    intro member
    have none := List.findIdx?_eq_none_iff.mp absent delimiter member
    rw [decide_eq_false_iff_not] at none
    exact none rfl

/-- The octets up to a delimiter are those to take of the ones held and, where
the delimiter is not among them, those up to it after them. -/
theorem upTo_append
    (delimiter : UInt8)
    (available later : List UInt8) :
    upTo delimiter (available ++ later) =
      available.take (upToDelimiter delimiter available).1 ++
        if (upToDelimiter delimiter available).2 then []
        else upTo delimiter later := by
  cases turn : upToDelimiter delimiter available with
  | mk take found =>
      cases found with
      | true =>
          rw [upTo_of_found turn]
          exact (List.append_nil _).symm
      | false =>
          obtain ⟨rfl, split⟩ := upTo_of_not_found turn later
          rw [split, List.take_length]
          rfl

theorem within_eq_ok {size ceiling : Nat} (fits : size ≤ ceiling)
    (carrier : String) :
    within size ceiling carrier = .ok () := by
  rw [within, if_neg (Nat.not_lt.mpr fits)]

theorem within_eq_error
    {size ceiling : Nat}
    (exceeds : ceiling < size)
    (carrier : String) :
    ∃ failure, within size ceiling carrier = .error failure := by
  rw [within, if_pos exceeds]
  exact ⟨_, rfl⟩

theorem le_of_within
    {size ceiling : Nat}
    {carrier : String}
    (fits : within size ceiling carrier = .ok ()) :
    size ≤ ceiling := by
  rw [within] at fits
  split at fits
  · cases fits
  next small => exact Nat.not_lt.mp small

theorem lt_of_within
    {size ceiling : Nat}
    {carrier : String}
    {failure : NetError}
    (exceeds : within size ceiling carrier = .error failure) :
    ceiling < size := by
  rw [within] at exceeds
  split at exceeds
  next large => exact large
  · cases exceeds

/-- The octets held are the first of those delivered, and taking some of them
leaves the others. -/
theorem split_of_fillBuf
    {reader after : Reader}
    {bytes available : List UInt8}
    (delivers : reader.Delivers bytes)
    (fills : fillBuf reader = (.ok available, after)) :
    ∃ later, available ++ later = bytes ∧
      ∀ count ≤ available.length,
        (after.consume count).Delivers ((available ++ later).drop count) := by
  rcases Reader.fillBuf_of_delivers delivers with
    ⟨failure, final, fails, _⟩ | ⟨held, final, gives, same, left, _⟩
  · rw [fills] at fails
    cases fails
  · rw [fills] at gives
    cases gives
    obtain ⟨later, comes, rfl⟩ := left
    refine ⟨later, by rw [same], fun count within => ?_⟩
    rw [← same] at within ⊢
    exact Reader.Delivers.consume ⟨later, comes, rfl⟩ within

/-- Reading to a delimiter takes the octets up to it, or is refused where they
would pass the ceiling. -/
theorem untilFrom_of_delivers
    {delimiter : UInt8}
    {ceiling start : Nat}
    {into : List UInt8}
    {reader : Reader}
    {bytes : List UInt8}
    (delivers : reader.Delivers bytes)
    (room : into.length ≤ ceiling) :
    (into.length + (upTo delimiter bytes).length ≤ ceiling → ∃ after,
      untilFrom delimiter ceiling start into reader =
        (.ok ((into ++ upTo delimiter bytes).length - start,
          into ++ upTo delimiter bytes), after) ∧
        after.Delivers (bytes.drop (upTo delimiter bytes).length)) ∧
    (ceiling < into.length + (upTo delimiter bytes).length →
      ∃ failure after,
        untilFrom delimiter ceiling start into reader =
          (.error failure, after)) := by
  fun_induction untilFrom delimiter ceiling start into reader
      generalizing bytes with
  | case1 into reader error after fills interrupted inductionHypothesis =>
      rcases Reader.fillBuf_of_delivers delivers with
        ⟨other, final, fails, _, left⟩ | ⟨held, final, gives, _⟩
      · rw [fills] at fails
        cases fails
        exact inductionHypothesis left room
      · rw [fills] at gives
        cases gives
  | case2 into reader error after fills other =>
      rcases Reader.fillBuf_of_delivers delivers with
        ⟨failure, final, fails, interrupted, left⟩ | ⟨held, final, gives, _⟩
      · rw [fills] at fails
        cases fails
        exact absurd interrupted other
      · rw [fills] at gives
        cases gives
  | case3 into reader after fills =>
      rcases Reader.fillBuf_of_delivers delivers with
        ⟨failure, final, fails, _⟩ | ⟨held, final, gives, _, left, ends⟩
      · rw [fills] at fails
        cases fails
      · rw [fills] at gives
        cases gives
        obtain rfl := ends rfl
        rw [upTo, List.append_nil, List.length_nil, Nat.add_zero]
        exact ⟨fun _ => ⟨after, rfl, left⟩,
          fun exceeds => absurd room (Nat.not_le.mpr exceeds)⟩
  | case4 into reader available after fills nonempty take failure =>
      rename_i exceeds
      obtain ⟨later, rfl, _⟩ := split_of_fillBuf delivers fills
      have large := lt_of_within exceeds
      refine ⟨fun fits => ?_, fun _ => ⟨failure, after, rfl⟩⟩
      have taken := fst_upToDelimiter_le delimiter available
      rw [upTo_append, List.length_append, List.length_take_of_le taken] at fits
      omega
  | case5 into reader available after fills nonempty take found fits taken =>
      rename_i here
      obtain ⟨later, rfl, left⟩ := split_of_fillBuf delivers fills
      have small := le_of_within fits
      have short := fst_upToDelimiter_le delimiter available
      have whole : upTo delimiter (available ++ later) = available.take take := by
        rw [upTo_append, if_pos here, List.append_nil]
      have length : (available.take take).length = take :=
        List.length_take_of_le short
      rw [whole, length]
      exact ⟨fun _ => ⟨_, rfl, left take short⟩,
        fun exceeds => absurd small (Nat.not_le.mpr exceeds)⟩
  | case6 into reader available after fills nonempty take found fits taken
      notHere =>
      rename_i inductionHypothesis
      obtain ⟨later, rfl, left⟩ := split_of_fillBuf delivers fills
      have small := le_of_within fits
      have turn : upToDelimiter delimiter available = (take, false) :=
        Prod.ext rfl (Bool.eq_false_iff.mpr notHere)
      obtain ⟨all, split⟩ := upTo_of_not_found turn later
      have grown : taken = into ++ available :=
        congrArg (into ++ ·) (by rw [all, List.take_length])
      have goes := left take all.le
      rw [all, List.drop_left] at goes
      rw [all] at small
      have room : taken.length ≤ ceiling := by
        rw [grown, List.length_append]
        exact small
      obtain ⟨reads, refuses⟩ := inductionHypothesis (all ▸ goes) room
      rw [split, List.length_append, ← List.append_assoc, ← grown,
        ← Nat.add_assoc, ← List.length_append, ← grown]
      refine ⟨fun enough => ?_, refuses⟩
      obtain ⟨final, runs, ends⟩ := reads enough
      refine ⟨final, runs, ?_⟩
      rw [List.drop_append, List.drop_eq_nil_of_le (Nat.le_add_right _ _),
        List.nil_append, Nat.add_sub_cancel_left]
      exact ends

theorem until_reads
    {delimiter : UInt8}
    {ceiling : Nat}
    {bytes : List UInt8}
    (fits : (upTo delimiter bytes).length ≤ ceiling) :
    Reads («until» delimiter ceiling []) bytes
      ((upTo delimiter bytes).length, upTo delimiter bytes)
      (bytes.drop (upTo delimiter bytes).length) := by
  intro reader delivers
  refine (untilFrom_of_delivers delivers (Nat.zero_le _)).1 ?_
  rw [List.length_nil, Nat.zero_add]
  exact fits

theorem until_refuses
    {delimiter : UInt8}
    {ceiling : Nat}
    {bytes : List UInt8}
    (exceeds : ceiling < (upTo delimiter bytes).length) :
    Refuses («until» delimiter ceiling []) bytes := by
  intro reader delivers
  refine (untilFrom_of_delivers delivers (Nat.zero_le _)).2 ?_
  rw [List.length_nil, Nat.zero_add]
  exact exceeds

theorem decided_until (delimiter : UInt8) (ceiling : Nat) :
    Decided («until» delimiter ceiling []) := by
  intro bytes
  rcases Nat.lt_or_ge ceiling (upTo delimiter bytes).length with exceeds | fits
  · exact Or.inr (until_refuses exceeds)
  · exact Or.inl ⟨_, _, until_reads fits⟩

/-! ### Lines -/

/-- What is left of a line once it has been read up to its ending. -/
theorem upTo_cases (delimiter : UInt8) (bytes : List UInt8) :
    ∃ content, delimiter ∉ content ∧
      (upTo delimiter bytes = content ++ [delimiter] ∨
        upTo delimiter bytes = content ∧ bytes = content) := by
  induction bytes with
  | nil => exact ⟨[], List.not_mem_nil, Or.inr ⟨rfl, rfl⟩⟩
  | cons octet rest inductionHypothesis =>
      rw [upTo]
      by_cases here : octet = delimiter
      · refine ⟨[], List.not_mem_nil, Or.inl ?_⟩
        rw [if_pos here, here, List.nil_append]
      · obtain ⟨content, absent, ends⟩ := inductionHypothesis
        refine ⟨octet :: content, ?_, ?_⟩
        · exact List.not_mem_cons_of_ne_of_not_mem (Ne.symm here) absent
        · rw [if_neg here]
          rcases ends with whole | ⟨whole, last⟩
          · exact Or.inl (by rw [whole, List.cons_append])
          · exact Or.inr ⟨by rw [whole], by rw [← last]⟩

/-- A line without its ending is what comes before it, less a return. -/
theorem trimEol_append_lineFeed (content : List UInt8) :
    trimEol (content ++ [10]) =
      if content.getLast? = some 13 then content.dropLast else content := by
  simp only [trimEol, List.getLast?_concat, if_true, List.dropLast_concat]

theorem trimEol_crlf (content : List UInt8) :
    trimEol (content ++ [13, 10]) = content := by
  have split : content ++ [13, 10] = (content ++ [13]) ++ [10] := by
    rw [List.append_assoc]
    rfl
  rw [split, trimEol_append_lineFeed, List.getLast?_concat, if_pos rfl,
    List.dropLast_concat]

theorem trimEol_of_not_mem
    {content : List UInt8}
    (absent : 10 ∉ content) :
    trimEol content =
      if content.getLast? = some 13 then content.dropLast else content := by
  have open' : content.getLast? ≠ some 10 := fun ends =>
    absent (List.mem_of_getLast? ends)
  simp only [trimEol, if_neg open']

theorem mem_of_mem_trimReturn
    {content : List UInt8}
    {octet : UInt8}
    (member : octet ∈
      if content.getLast? = some 13 then content.dropLast else content) :
    octet ∈ content := by
  split at member
  · exact List.dropLast_subset content member
  · exact member

/-- A line holds no line feed. -/
theorem not_mem_trimEol_upTo (bytes : List UInt8) :
    10 ∉ trimEol (upTo 10 bytes) := by
  intro member
  obtain ⟨content, absent, whole | ⟨whole, _⟩⟩ := upTo_cases 10 bytes
  · rw [whole, trimEol_append_lineFeed] at member
    exact absent (mem_of_mem_trimReturn member)
  · rw [whole, trimEol_of_not_mem absent] at member
    exact absent (mem_of_mem_trimReturn member)

/-- What `line` makes of the octets up to a line's end. -/
def lineOf (read : Nat × List UInt8) : Reading NetError (Option String) :=
  if read.1 = 0 then
    pure none
  else
    match Text.fromUtf8 (trimEol read.2) with
    | some text => pure (some text)
    | none => fail (.new "a line that is not UTF-8")

theorem line_eq : line = «until» 10 maxLine [] >>= lineOf := rfl

theorem decided_lineOf (read : Nat × List UInt8) : Decided (lineOf read) := by
  rw [lineOf]
  split
  · exact Fallible.decided_pure none
  · split
    · exact Fallible.decided_pure _
    · exact Fallible.decided_fail _

theorem decided_line : Decided line :=
  (decided_until 10 maxLine).bind decided_lineOf

/-- Where the connection has ended there is no line. -/
theorem line_reads_none : Reads line [] none [] := by
  have nothing : Reads («until» 10 maxLine []) [] (0, []) [] :=
    until_reads (Nat.zero_le _)
  exact nothing.bind (Fallible.reads_pure none [])

/-- Octets up to a line's end, within the longest line, are read as the text
they are. -/
theorem line_reads_of_upTo
    {bytes : List UInt8}
    {text : String}
    (nonempty : bytes ≠ [])
    (fits : (upTo 10 bytes).length ≤ maxLine)
    (spells : trimEol (upTo 10 bytes) = Text.octets text) :
    Reads line bytes (some text) (bytes.drop (upTo 10 bytes).length) := by
  have some' : (upTo 10 bytes).length ≠ 0 := fun zero =>
    nonempty (upTo_eq_nil_iff.mp (List.eq_nil_of_length_eq_zero zero))
  have turns : lineOf ((upTo 10 bytes).length, upTo 10 bytes) =
      pure (some text) := by
    simp only [lineOf, if_neg some', spells, Text.fromUtf8_octets]
  rw [line_eq]
  refine (until_reads fits).bind ?_
  rw [turns]
  exact Fallible.reads_pure _ _

theorem upTo_crlf
    {text : String}
    (oneLine : '\n' ∉ text.toList)
    (rest : List UInt8) :
    upTo 10 (Text.octets text ++ [13, 10] ++ rest) =
      Text.octets text ++ [13, 10] := by
  have absent : 10 ∉ Text.octets text ++ [13] := by
    rw [List.mem_append, Text.lineFeed_mem_octets_iff, List.mem_singleton]
    rintro (held | same)
    · exact oneLine held
    · exact absurd same (by decide)
  have split : Text.octets text ++ [13, 10] ++ rest =
      (Text.octets text ++ [13]) ++ 10 :: rest := by
    simp only [List.append_assoc, List.cons_append, List.nil_append]
  rw [split, upTo_append_of_not_mem absent, upTo_of_delimiter,
    List.append_assoc]
  rfl

/-- A text written as a line is read as that line. -/
theorem line_reads
    {text : String}
    (oneLine : '\n' ∉ text.toList)
    (fits : (Text.octets text).length + 2 ≤ maxLine)
    (rest : List UInt8) :
    Reads line (Text.octets text ++ [13, 10] ++ rest) (some text) rest := by
  have whole := upTo_crlf oneLine rest
  have nonempty : Text.octets text ++ [13, 10] ++ rest ≠ [] := by
    rw [List.append_assoc]
    exact List.append_ne_nil_of_right_ne_nil _ (List.cons_ne_nil _ _)
  have short : (upTo 10 (Text.octets text ++ [13, 10] ++ rest)).length ≤
      maxLine := by
    rw [whole, List.length_append]
    exact fits
  have reads := line_reads_of_upTo nonempty short
    (show _ = Text.octets text by rw [whole, trimEol_crlf])
  rw [whole, List.drop_left] at reads
  exact reads

/-- A text too long to be a line is refused. -/
theorem line_refuses
    {text : String}
    (oneLine : '\n' ∉ text.toList)
    (exceeds : maxLine < (Text.octets text).length + 2)
    (rest : List UInt8) :
    Refuses line (Text.octets text ++ [13, 10] ++ rest) := by
  rw [line_eq]
  refine Refuses.bind (until_refuses ?_) _
  rw [upTo_crlf oneLine, List.length_append]
  exact exceeds

/-- What a line that is read was read from. -/
theorem of_line
    {bytes rest : List UInt8}
    {text : String}
    (reads : Reads line bytes (some text) rest) :
    bytes ≠ [] ∧ upTo 10 bytes ++ rest = bytes ∧
      (upTo 10 bytes).length ≤ maxLine ∧
        Text.octets text = trimEol (upTo 10 bytes) := by
  have parts := ((decided_until 10 maxLine).reads_bind_iff decided_lineOf).mp
    reads
  obtain ⟨read, middle, first, second⟩ := parts
  rcases Nat.lt_or_ge maxLine (upTo 10 bytes).length with exceeds | fits
  · exact absurd (until_refuses exceeds) first.not_refuses
  · obtain ⟨rfl, rfl⟩ := first.unique (until_reads fits)
    rw [lineOf] at second
    by_cases nothing : (upTo 10 bytes).length = 0
    · rw [if_pos nothing] at second
      exact absurd (second.unique (Fallible.reads_pure none _)).1 (by simp)
    · rw [if_neg nothing] at second
      cases given : Text.fromUtf8 (trimEol (upTo 10 bytes)) with
      | none =>
          rw [given] at second
          exact absurd (Fallible.refuses_fail _ _) second.not_refuses
      | some found =>
          rw [given] at second
          obtain ⟨same, rfl⟩ := second.unique (Fallible.reads_pure _ _)
          obtain rfl := Option.some.inj same
          refine ⟨?_, upTo_append_drop 10 bytes, fits,
            Text.octets_of_fromUtf8 given⟩
          rintro rfl
          exact nothing rfl

theorem of_line_none
    {bytes rest : List UInt8}
    (reads : Reads line bytes none rest) :
    bytes = [] ∧ rest = [] := by
  have empty : bytes = [] := by
    have parts := ((decided_until 10 maxLine).reads_bind_iff
      decided_lineOf).mp reads
    obtain ⟨read, middle, first, second⟩ := parts
    rcases Nat.lt_or_ge maxLine (upTo 10 bytes).length with exceeds | fits
    · exact absurd (until_refuses exceeds) first.not_refuses
    · obtain ⟨rfl, rfl⟩ := first.unique (until_reads fits)
      rw [lineOf] at second
      by_cases nothing : (upTo 10 bytes).length = 0
      · exact upTo_eq_nil_iff.mp (List.eq_nil_of_length_eq_zero nothing)
      · rw [if_neg nothing] at second
        split at second
        · exact absurd (second.unique (Fallible.reads_pure _ _)).1 (by simp)
        · exact absurd (Fallible.refuses_fail _ _) second.not_refuses
  subst empty
  exact ⟨rfl, (reads.unique line_reads_none).2⟩

/-- A line that is read holds no line feed. -/
theorem oneLine_of_line
    {bytes rest : List UInt8}
    {text : String}
    (reads : Reads line bytes (some text) rest) :
    '\n' ∉ text.toList := by
  obtain ⟨_, _, _, spells⟩ := of_line reads
  rw [← Text.lineFeed_mem_octets_iff, spells]
  exact not_mem_trimEol_upTo bytes

/-- A line takes something off what is delivered. -/
theorem length_lt_of_line
    {bytes rest : List UInt8}
    {text : String}
    (reads : Reads line bytes (some text) rest) :
    rest.length < bytes.length := by
  obtain ⟨nonempty, split, _⟩ := of_line reads
  have taken : upTo 10 bytes ≠ [] := fun none =>
    nonempty (upTo_eq_nil_iff.mp none)
  have positive := List.length_pos_iff.mpr taken
  have lengths := congrArg List.length split
  rw [List.length_append] at lengths
  omega

/-! ### Everything to the end -/

theorem toEnd_reads
    {ceiling : Nat}
    {bytes : List UInt8}
    (fits : bytes.length ≤ ceiling) :
    Reads (toEnd ceiling) bytes bytes [] := by
  have all := (Reader.readToEnd_reads (ceiling + 1) bytes).mapError
    (NetError.fromIo "reading a connection to its end")
  rw [List.take_of_length_le (Nat.le_succ_of_le fits),
    List.drop_eq_nil_of_le (Nat.le_succ_of_le fits)] at all
  refine all.bind ?_
  rw [within_eq_ok fits]
  exact (Fallible.reads_lift () []).bind (Fallible.reads_pure bytes [])

theorem toEnd_refuses
    {ceiling : Nat}
    {bytes : List UInt8}
    (exceeds : ceiling < bytes.length) :
    Refuses (toEnd ceiling) bytes := by
  have first := (Reader.readToEnd_reads (ceiling + 1) bytes).mapError
    (NetError.fromIo "reading a connection to its end")
  refine first.bind_refuses ?_
  obtain ⟨failure, refused⟩ := within_eq_error
    (show ceiling < (bytes.take (ceiling + 1)).length by
      rw [List.length_take]
      omega) "Xmip reads to a connection's end"
  rw [refused]
  exact (Fallible.refuses_lift failure _).bind _

theorem decided_toEnd (ceiling : Nat) : Decided (toEnd ceiling) := by
  intro bytes
  rcases Nat.lt_or_ge ceiling bytes.length with exceeds | fits
  · exact Or.inr (toEnd_refuses exceeds)
  · exact Or.inl ⟨_, _, toEnd_reads fits⟩

end Read
end XmipNet
