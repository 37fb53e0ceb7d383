import XmipNet.Read

/-!
# Any buffered reader

Reading to a delimiter asks three things of a reader: the octets it holds, filled
where there are none; that some of them are taken; and that this ends. Whatever
does these, in pieces of any size and with interruptions anywhere, is read to the
same octets, and what is put together never passes the ceiling.
-/

namespace XmipNet

/-- What reading to a delimiter relies on in a reader. `size` is what the reader
still has to go through; a state that `Delivers` some octets gives them in
pieces, none empty before the end, with interruptions between. -/
class BufRead (σ : Type) where
  fillBuf : Fallible σ IoError (List UInt8)
  consume : σ → Nat → σ
  size : σ → Nat
  Delivers : σ → List UInt8 → Prop
  size_of_error : ∀ {reader after error},
    fillBuf reader = (.error error, after) → size after < size reader
  size_of_consume : ∀ {reader after held count},
    fillBuf reader = (.ok held, after) → 0 < count → count ≤ held.length →
      size (consume after count) < size reader
  fills : ∀ {reader bytes}, Delivers reader bytes →
    (∃ error after, fillBuf reader = (.error error, after) ∧
      error.kind = .interrupted ∧ Delivers after bytes) ∨
    ∃ held after later, fillBuf reader = (.ok held, after) ∧
      held ++ later = bytes ∧ (held = [] → bytes = [] ∧ Delivers after []) ∧
        ∀ count ≤ held.length, Delivers (consume after count) (bytes.drop count)

namespace BufRead

open Read (upTo upToDelimiter)

variable {σ : Type} [BufRead σ]

/-- Append to `into` up to the next `delimiter` or the end, and answer how many
octets past `start` there are; `into` is what was put together, refused or
not. -/
def untilFrom
    (delimiter : UInt8)
    (ceiling start : Nat)
    (into : List UInt8)
    (reader : σ) : Except NetError Nat × List UInt8 × σ :=
  match _fills : fillBuf reader with
  | (.error error, after) =>
      if error.kind = .interrupted then
        untilFrom delimiter ceiling start into after
      else
        (.error (.fromIo "reading off a connection" error), into, after)
  | (.ok available, after) =>
      if _empty : available = [] then
        (.ok (into.length - start), into, after)
      else
        let take := (upToDelimiter delimiter available).1
        let found := (upToDelimiter delimiter available).2
        match within (into.length + take) ceiling
            "Xmip reads to one delimiter" with
        | .error failure => (.error failure, into, after)
        | .ok () =>
            let taken := into ++ available.take take
            if found then
              (.ok (taken.length - start), taken, consume after take)
            else
              untilFrom delimiter ceiling start taken (consume after take)
termination_by size reader
decreasing_by
  · exact size_of_error _fills
  · exact size_of_consume _fills (Read.fst_upToDelimiter_pos delimiter _empty)
      (Read.fst_upToDelimiter_le delimiter available)

/-- Append to `into` up to the next `delimiter` or the end, and answer how many
octets were appended. -/
def «until»
    (delimiter : UInt8)
    (ceiling : Nat)
    (into : List UInt8)
    (reader : σ) : Except NetError Nat × List UInt8 × σ :=
  untilFrom delimiter ceiling into.length into reader

/-! ## The ceiling -/

/-- What is put together never passes the ceiling, whatever the reader does. -/
theorem length_untilFrom_le
    (delimiter : UInt8)
    {ceiling : Nat}
    (start : Nat)
    {into : List UInt8}
    (room : into.length ≤ ceiling)
    (reader : σ) :
    (untilFrom delimiter ceiling start into reader).2.1.length ≤ ceiling := by
  fun_induction untilFrom delimiter ceiling start into reader with
  | case1 into reader error after fills interrupted inductionHypothesis =>
      exact inductionHypothesis room
  | case2 into reader error after fills other => exact room
  | case3 into reader after fills => exact room
  | case4 into reader available after fills nonempty take failure => exact room
  | case5 into reader available after fills nonempty take found fits taken =>
      have small := Read.le_of_within fits
      have short := Read.fst_upToDelimiter_le delimiter available
      rwa [List.length_append, List.length_take_of_le short]
  | case6 into reader available after fills nonempty take found fits taken
      notHere inductionHypothesis =>
      refine inductionHypothesis ?_
      have small := Read.le_of_within fits
      have short := Read.fst_upToDelimiter_le delimiter available
      rwa [List.length_append, List.length_take_of_le short]

/-! ## The octets up to a delimiter -/

theorem split_of_fillBuf
    {reader after : σ}
    {bytes available : List UInt8}
    (delivers : Delivers reader bytes)
    (runs : fillBuf reader = (.ok available, after)) :
    ∃ later, available ++ later = bytes ∧ ∀ count ≤ available.length,
      Delivers (consume after count) ((available ++ later).drop count) := by
  rcases fills delivers with ⟨failure, final, fails, _⟩ |
    ⟨held, final, later, gives, rfl, _, left⟩
  · rw [runs] at fails
    cases fails
  · rw [runs] at gives
    cases gives
    exact ⟨later, rfl, left⟩

/-- What comes is read up to the delimiter, or is refused where that would pass
the ceiling. -/
theorem untilFrom_of_delivers
    (delimiter : UInt8)
    (start : Nat)
    {ceiling : Nat}
    {into : List UInt8}
    {reader : σ}
    {bytes : List UInt8}
    (delivers : Delivers reader bytes)
    (room : into.length ≤ ceiling) :
    (into.length + (upTo delimiter bytes).length ≤ ceiling → ∃ after,
      untilFrom delimiter ceiling start into reader =
        (.ok ((into ++ upTo delimiter bytes).length - start),
          into ++ upTo delimiter bytes, after) ∧
        Delivers after (bytes.drop (upTo delimiter bytes).length)) ∧
    (ceiling < into.length + (upTo delimiter bytes).length →
      ∃ failure grown after,
        untilFrom delimiter ceiling start into reader =
          (.error failure, grown, after)) := by
  fun_induction untilFrom delimiter ceiling start into reader
      generalizing bytes with
  | case1 into reader error after runs interrupted inductionHypothesis =>
      rcases fills delivers with ⟨other, final, fails, _, left⟩ |
        ⟨held, final, later, gives, _⟩
      · rw [runs] at fails
        cases fails
        exact inductionHypothesis left room
      · rw [runs] at gives
        cases gives
  | case2 into reader error after runs other =>
      rcases fills delivers with ⟨failure, final, fails, interrupted, _⟩ |
        ⟨held, final, later, gives, _⟩
      · rw [runs] at fails
        cases fails
        exact absurd interrupted other
      · rw [runs] at gives
        cases gives
  | case3 into reader after runs =>
      rcases fills delivers with ⟨failure, final, fails, _⟩ |
        ⟨held, final, later, gives, _, ends, left⟩
      · rw [runs] at fails
        cases fails
      · rw [runs] at gives
        cases gives
        obtain ⟨rfl, ended⟩ := ends rfl
        rw [upTo, List.append_nil, List.length_nil, Nat.add_zero]
        exact ⟨fun _ => ⟨after, rfl, ended⟩,
          fun exceeds => absurd room (Nat.not_le.mpr exceeds)⟩
  | case4 into reader available after runs nonempty take failure =>
      rename_i exceeds
      obtain ⟨later, rfl, _⟩ := split_of_fillBuf delivers runs
      have large := Read.lt_of_within exceeds
      refine ⟨fun fits => ?_, fun _ => ⟨failure, into, after, rfl⟩⟩
      have taken := Read.fst_upToDelimiter_le delimiter available
      rw [Read.upTo_append, List.length_append, List.length_take_of_le taken]
        at fits
      omega
  | case5 into reader available after runs nonempty take found fits taken =>
      rename_i here
      obtain ⟨later, rfl, left⟩ := split_of_fillBuf delivers runs
      have small := Read.le_of_within fits
      have short := Read.fst_upToDelimiter_le delimiter available
      have whole : upTo delimiter (available ++ later) = available.take take := by
        rw [Read.upTo_append, if_pos here, List.append_nil]
      have length : (available.take take).length = take :=
        List.length_take_of_le short
      rw [whole, length]
      exact ⟨fun _ => ⟨_, rfl, left take short⟩,
        fun exceeds => absurd small (Nat.not_le.mpr exceeds)⟩
  | case6 into reader available after runs nonempty take found fits taken
      notHere =>
      rename_i inductionHypothesis
      obtain ⟨later, rfl, left⟩ := split_of_fillBuf delivers runs
      have small := Read.le_of_within fits
      have turn : upToDelimiter delimiter available = (take, false) :=
        Prod.ext rfl (Bool.eq_false_iff.mpr notHere)
      obtain ⟨all, split⟩ := Read.upTo_of_not_found turn later
      have grown : taken = into ++ available :=
        congrArg (into ++ ·) (by rw [all, List.take_length])
      have goes := left take all.le
      rw [all, List.drop_left] at goes
      rw [all] at small
      have room : taken.length ≤ ceiling := by
        rw [grown, List.length_append]
        exact small
      obtain ⟨reads, refuses⟩ := inductionHypothesis (all ▸ goes) room
      rw [split, List.length_append, ← List.append_assoc, ← grown,
        ← Nat.add_assoc, ← List.length_append, ← grown]
      refine ⟨fun enough => ?_, refuses⟩
      obtain ⟨final, runs, ends⟩ := reads enough
      refine ⟨final, runs, ?_⟩
      rw [List.drop_append, List.drop_eq_nil_of_le (Nat.le_add_right _ _),
        List.nil_append, Nat.add_sub_cancel_left]
      exact ends

/-- Reading to a delimiter succeeds exactly where the octets up to it fit under
the ceiling beside what there was; it then has appended them, reports their
number and leaves the reader at the next octet; and what is put together never
passes the ceiling. -/
theorem until_exact
    (delimiter : UInt8)
    {ceiling : Nat}
    {into : List UInt8}
    (room : into.length ≤ ceiling)
    {reader : σ}
    {bytes : List UInt8}
    (delivers : Delivers reader bytes) :
    ((∃ count, («until» delimiter ceiling into reader).1 = .ok count) ↔
      into.length + (upTo delimiter bytes).length ≤ ceiling) ∧
    (∀ count grown after,
      «until» delimiter ceiling into reader = (.ok count, grown, after) →
        count = (upTo delimiter bytes).length ∧
        grown = into ++ upTo delimiter bytes ∧
        Delivers after (bytes.drop (upTo delimiter bytes).length)) ∧
    («until» delimiter ceiling into reader).2.1.length ≤ ceiling := by
  obtain ⟨reads, refuses⟩ := untilFrom_of_delivers delimiter into.length delivers
    room
  have none : (into ++ upTo delimiter bytes).length - into.length =
      (upTo delimiter bytes).length := by
    rw [List.length_append, Nat.add_sub_cancel_left]
  refine ⟨⟨?_, ?_⟩, ?_, length_untilFrom_le delimiter into.length room reader⟩
  · rintro ⟨count, runs⟩
    by_contra exceeds
    obtain ⟨failure, grown, after, fails⟩ := refuses (Nat.not_le.mp exceeds)
    rw [«until», fails] at runs
    cases runs
  · intro fits
    obtain ⟨after, runs, _⟩ := reads fits
    rw [«until», runs]
    exact ⟨_, rfl⟩
  · intro count grown after runs
    rw [«until»] at runs
    rcases Nat.lt_or_ge ceiling (into.length + (upTo delimiter bytes).length)
      with exceeds | fits
    · obtain ⟨failure, other, final, fails⟩ := refuses exceeds
      rw [fails] at runs
      cases runs
    · obtain ⟨final, given, left⟩ := reads fits
      rw [given] at runs
      cases runs
      exact ⟨none, rfl, left⟩

/-! ## Readers -/

instance : BufRead Reader where
  fillBuf := Reader.fillBuf
  consume := Reader.consume
  size := Reader.size
  Delivers := Reader.Delivers
  size_of_error := Reader.size_of_fillBuf_error
  size_of_consume := by
    intro reader after held count runs positive short
    obtain ⟨same, smaller⟩ := Reader.size_of_fillBuf runs
    have left := Reader.size_consume_add after
      (show count ≤ after.buffered.length by rwa [same])
    omega
  fills := by
    intro reader bytes delivers
    rcases Reader.fillBuf_of_delivers delivers with interrupts |
      ⟨held, after, runs, same, left, ends⟩
    · exact Or.inl interrupts
    · obtain ⟨later, split, takes⟩ := Read.split_of_fillBuf delivers runs
      subst split
      refine Or.inr ⟨held, after, later, runs, rfl, ?_, takes⟩
      intro none
      exact ⟨ends none, by rwa [ends none] at left⟩

theorem untilFrom_of_error
    {delimiter : UInt8}
    {ceiling start : Nat}
    {into : List UInt8}
    {reader after : σ}
    {error : IoError}
    (fails : fillBuf reader = (.error error, after)) :
    untilFrom delimiter ceiling start into reader =
      if error.kind = .interrupted then
        untilFrom delimiter ceiling start into after
      else
        (.error (.fromIo "reading off a connection" error), into, after) := by
  rw [untilFrom]
  split
  next runs =>
    rw [fails] at runs
    cases runs
    rfl
  next runs =>
    rw [fails] at runs
    cases runs

theorem untilFrom_of_ok
    {delimiter : UInt8}
    {ceiling start : Nat}
    {into available : List UInt8}
    {reader after : σ}
    (runs : fillBuf reader = (.ok available, after)) :
    untilFrom delimiter ceiling start into reader =
      if available = [] then
        (.ok (into.length - start), into, after)
      else
        let take := (upToDelimiter delimiter available).1
        match within (into.length + take) ceiling
            "Xmip reads to one delimiter" with
        | .error failure => (.error failure, into, after)
        | .ok () =>
            let taken := into ++ available.take take
            if (upToDelimiter delimiter available).2 then
              (.ok (taken.length - start), taken, consume after take)
            else
              untilFrom delimiter ceiling start taken (consume after take) := by
  rw [untilFrom]
  split
  next fails =>
    rw [runs] at fails
    cases fails
  next gives =>
    rw [runs] at gives
    cases gives
    by_cases empty : available = []
    · rw [dif_pos empty, if_pos empty]
    · rw [dif_neg empty, if_neg empty]

/-- The reader a connection is read through reads to a delimiter as any does. -/
theorem untilFrom_reader
    (delimiter : UInt8)
    (ceiling start : Nat)
    (into : List UInt8)
    (reader : Reader) :
    Read.untilFrom delimiter ceiling start into reader =
      ((untilFrom delimiter ceiling start into reader).1.map fun count =>
          (count, (untilFrom delimiter ceiling start into reader).2.1),
        (untilFrom delimiter ceiling start into reader).2.2) := by
  fun_induction Read.untilFrom delimiter ceiling start into reader with
  | case1 into reader error after fails interrupted inductionHypothesis =>
      have same : fillBuf reader = (.error error, after) := fails
      rw [untilFrom_of_error same, if_pos interrupted]
      exact inductionHypothesis
  | case2 into reader error after fails other =>
      have same : fillBuf reader = (.error error, after) := fails
      rw [untilFrom_of_error same, if_neg other]
      rfl
  | case3 into reader after runs =>
      have same : fillBuf reader = (.ok [], after) := runs
      rw [untilFrom_of_ok same, if_pos rfl]
      rfl
  | case4 into reader available after runs nonempty take failure =>
      rename_i exceeds
      have same : fillBuf reader = (.ok available, after) := runs
      rw [untilFrom_of_ok same, if_neg nonempty]
      simp only [take] at exceeds
      simp only [exceeds]
      rfl
  | case5 into reader available after runs nonempty take found fits taken =>
      rename_i here
      have same : fillBuf reader = (.ok available, after) := runs
      rw [untilFrom_of_ok same, if_neg nonempty]
      simp only [take] at fits
      simp only [found] at here
      simp only [fits, here, if_true]
      rfl
  | case6 into reader available after runs nonempty take found fits taken
      notHere =>
      rename_i inductionHypothesis
      have same : fillBuf reader = (.ok available, after) := runs
      rw [untilFrom_of_ok same, if_neg nonempty, inductionHypothesis]
      simp only [take] at fits
      simp only [found] at notHere
      simp only [fits, if_neg notHere]
      rfl

/-- Reading to a delimiter is what any reader's reading to one is. -/
theorem until_reader
    (delimiter : UInt8)
    (ceiling : Nat)
    (into : List UInt8)
    (reader : Reader) :
    Read.«until» delimiter ceiling into reader =
      ((«until» delimiter ceiling into reader).1.map fun count =>
          (count, («until» delimiter ceiling into reader).2.1),
        («until» delimiter ceiling into reader).2.2) :=
  untilFrom_reader delimiter ceiling into.length into reader

/-- Octets in pieces of any size, with failures between them. -/
structure Pieces where
  arrivals : List Arrival

namespace Pieces

/-- The first piece, as it came. -/
def fillBuf : Fallible Pieces IoError (List UInt8) := fun reader =>
  match reader.arrivals with
  | [] => (.ok [], reader)
  | .failed error :: rest => (.error error, ⟨rest⟩)
  | .octets piece :: _ => (.ok piece, reader)

/-- Take `count` octets off the first piece, which goes where they are all. -/
def consume (reader : Pieces) (count : Nat) : Pieces :=
  match reader.arrivals with
  | .octets piece :: rest =>
      if piece.length ≤ count then ⟨rest⟩
      else ⟨.octets (piece.drop count) :: rest⟩
  | _ => reader

/-- What is left to go through. -/
def size (reader : Pieces) : Nat :=
  (reader.arrivals.map fun
    | .octets piece => piece.length + 1
    | .failed _ => 1).sum

theorem consume_whole
    {piece : List UInt8}
    {count : Nat}
    (whole : piece.length ≤ count)
    (rest : List Arrival) :
    consume ⟨.octets piece :: rest⟩ count = ⟨rest⟩ :=
  if_pos whole

theorem consume_part
    {piece : List UInt8}
    {count : Nat}
    (part : ¬piece.length ≤ count)
    (rest : List Arrival) :
    consume ⟨.octets piece :: rest⟩ count =
      ⟨.octets (piece.drop count) :: rest⟩ :=
  if_neg part

end Pieces

instance : BufRead Pieces where
  fillBuf := Pieces.fillBuf
  consume := Pieces.consume
  size := Pieces.size
  Delivers reader := Wire.Delivers reader.arrivals
  size_of_error := by
    rintro ⟨arrivals⟩ after error runs
    cases arrivals with
    | nil => cases runs
    | cons arrival rest =>
        cases arrival with
        | octets piece => cases runs
        | failed failure =>
            cases runs
            simp only [Pieces.size, List.map_cons, List.sum_cons]
            omega
  size_of_consume := by
    rintro ⟨arrivals⟩ after held count runs positive short
    cases arrivals with
    | nil =>
        cases runs
        exact absurd short (Nat.not_le.mpr positive)
    | cons arrival rest =>
        cases arrival with
        | failed failure => cases runs
        | octets piece =>
            cases runs
            by_cases whole : held.length ≤ count
            · rw [Pieces.consume_whole whole]
              simp only [Pieces.size, List.map_cons, List.sum_cons]
              omega
            · rw [Pieces.consume_part whole]
              simp only [Pieces.size, List.map_cons, List.sum_cons,
                List.length_drop]
              omega
  fills := by
    rintro ⟨arrivals⟩ bytes delivers
    cases arrivals with
    | nil =>
        obtain rfl := Option.some.inj delivers
        refine Or.inr ⟨[], ⟨[]⟩, [], rfl, rfl, fun _ => ⟨rfl, rfl⟩, ?_⟩
        intro count none
        rw [List.drop_nil]
        exact Wire.delivers_nil
    | cons arrival rest =>
        cases arrival with
        | failed error =>
            obtain ⟨interrupted, delivers⟩ := Wire.delivers_failed_iff.mp delivers
            exact Or.inl ⟨error, ⟨rest⟩, rfl, interrupted, delivers⟩
        | octets piece =>
            obtain ⟨nonempty, later, comes, rfl⟩ :=
              Wire.delivers_octets_iff.mp delivers
            refine Or.inr ⟨piece, _, later, rfl, rfl,
              fun none => absurd none nonempty, ?_⟩
            intro count short
            rw [List.drop_append_of_le_length short]
            by_cases whole : piece.length ≤ count
            · rw [Pieces.consume_whole whole, List.drop_eq_nil_of_le whole]
              exact comes
            · rw [Pieces.consume_part whole]
              refine Wire.delivers_octets_iff.mpr ⟨?_, later, comes, rfl⟩
              rw [ne_eq, List.drop_eq_nil_iff]
              exact whole

theorem until_exact_pieces :
    («until» 0 64 [115, 111] (Pieces.mk [.octets [98],
      .failed ⟨.interrupted, ""⟩, .octets [111, 0, 110]])).1 = .ok 3 := by
  have delivers : Delivers (Pieces.mk [.octets [98],
      .failed ⟨.interrupted, ""⟩, .octets [111, 0, 110]]) [98, 111, 0, 110] :=
    show Wire.Delivers _ _ by decide
  have room : ([115, 111] : List UInt8).length ≤ 64 := by decide
  obtain ⟨accepts, gives, _⟩ := until_exact 0 room delivers
  obtain ⟨count, runs⟩ := accepts.mpr (by decide)
  rw [runs, (gives count _ _ (Prod.ext runs rfl)).1]
  rfl

end BufRead
end XmipNet
