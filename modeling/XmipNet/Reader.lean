import XmipNet.Delivery
import XmipNet.Foundation.Reading
import Mathlib.Algebra.Order.Ring.Nat

/-!
# A buffered reader

A connection read through a buffer, as the standard library's `BufReader` reads
one: the octets that have come and are not taken yet, and what the connection
gives next. Octets in memory are a reader whose buffer holds them all.
-/

namespace XmipNet

/-- A connection and the octets of it that are held. -/
structure Reader where
  buffered : List UInt8
  incoming : List Arrival
  deriving DecidableEq, Repr

/-- What reading does, failing with an `ε`. -/
abbrev Reading (ε α : Type) := Fallible Reader ε α

namespace Reader

/-- The octets the buffer has room for. -/
def capacity : Nat := 8192

/-- A reader of a connection, nothing held. -/
def new (incoming : List Arrival) : Reader where
  buffered := []
  incoming

/-- A reader of octets in memory. -/
def ofOctets (octets : List UInt8) : Reader where
  buffered := octets
  incoming := []

/-- What a reader still has to go through. -/
def size (reader : Reader) : Nat :=
  reader.buffered.length +
    (reader.incoming.map fun
      | .octets piece => piece.length + 1
      | .failed _ => 1).sum

/-- One read of the connection into at most `room` octets. -/
def receive (room : Nat) : Reading IoError (List UInt8) := fun reader =>
  match reader.incoming with
  | [] => (.ok [], reader)
  | .failed error :: rest => (.error error, { reader with incoming := rest })
  | .octets piece :: rest =>
      if piece.length ≤ room then
        (.ok piece, { reader with incoming := rest })
      else
        (.ok (piece.take room),
          { reader with incoming := .octets (piece.drop room) :: rest })

/-- The octets held, read from the connection where there are none. -/
def fillBuf : Reading IoError (List UInt8) := fun reader =>
  if reader.buffered = [] then
    match receive capacity reader with
    | (.ok piece, after) => (.ok piece, { after with buffered := piece })
    | (.error error, after) => (.error error, after)
  else
    (.ok reader.buffered, reader)

/-- Take `count` octets off those held. -/
def consume (reader : Reader) (count : Nat) : Reader :=
  { reader with buffered := reader.buffered.drop count }

/-- Read at most `room` octets, past the buffer where it is empty and has no
more room than that. -/
def read (room : Nat) : Reading IoError (List UInt8) := fun reader =>
  if reader.buffered = [] ∧ capacity ≤ room then
    receive room reader
  else
    match fillBuf reader with
    | (.ok held, after) => (.ok (held.take room), after.consume room)
    | (.error error, after) => (.error error, after)

/-! ## What a read leaves to go through -/

theorem size_of_receive
    {room : Nat}
    {reader after : Reader}
    {piece : List UInt8}
    (reads : receive room reader = (.ok piece, after)) :
    after.buffered = reader.buffered ∧
      after.size + piece.length ≤ reader.size := by
  rw [receive] at reads
  split at reads
  · cases reads
    exact ⟨rfl, Nat.le_refl _⟩
  · cases reads
  next whole rest incoming =>
    split at reads
    · cases reads
      refine ⟨rfl, ?_⟩
      simp only [size, incoming, List.map_cons, List.sum_cons]
      omega
    · cases reads
      refine ⟨rfl, ?_⟩
      simp only [size, incoming, List.map_cons, List.sum_cons, List.length_drop,
        List.length_take]
      omega

theorem size_of_receive_error
    {room : Nat}
    {reader after : Reader}
    {error : IoError}
    (fails : receive room reader = (.error error, after)) :
    after.size < reader.size := by
  rw [receive] at fails
  split at fails
  · cases fails
  next failure rest incoming =>
    cases fails
    simp only [size, incoming, List.map_cons, List.sum_cons]
    omega
  · split at fails <;> cases fails

theorem size_of_fillBuf
    {reader after : Reader}
    {held : List UInt8}
    (fills : fillBuf reader = (.ok held, after)) :
    after.buffered = held ∧ after.size ≤ reader.size := by
  rw [fillBuf] at fills
  split at fills
  next empty =>
    split at fills
    next piece final receives =>
      cases fills
      obtain ⟨same, smaller⟩ := size_of_receive receives
      refine ⟨rfl, ?_⟩
      rw [empty] at same
      simp only [size, same, List.length_nil] at smaller ⊢
      omega
    · cases fills
  · cases fills
    exact ⟨rfl, Nat.le_refl _⟩

theorem size_of_fillBuf_error
    {reader after : Reader}
    {error : IoError}
    (fails : fillBuf reader = (.error error, after)) :
    after.size < reader.size := by
  rw [fillBuf] at fails
  split at fails
  · split at fails
    · cases fails
    next receives =>
      cases fails
      exact size_of_receive_error receives
  · cases fails

theorem size_consume_add
    (reader : Reader)
    {count : Nat}
    (within : count ≤ reader.buffered.length) :
    (reader.consume count).size + count = reader.size := by
  simp only [consume, size, List.length_drop]
  omega

/-- A read that gives octets leaves less to go through. -/
theorem size_of_read
    {room : Nat}
    {reader after : Reader}
    {piece : List UInt8}
    (reads : read room reader = (.ok piece, after))
    (nonempty : piece ≠ []) :
    after.size < reader.size := by
  have positive := List.length_pos_iff.mpr nonempty
  rw [read] at reads
  split at reads
  · have smaller := (size_of_receive reads).2
    omega
  · split at reads
    next held final fills =>
      cases reads
      obtain ⟨same, smaller⟩ := size_of_fillBuf fills
      rw [List.length_take] at positive
      have taken := size_consume_add final
        (show min room held.length ≤ final.buffered.length by
          rw [same]
          exact Nat.min_le_right _ _)
      have cut : final.consume room = final.consume (min room held.length) := by
        simp only [consume, same]
        rcases Nat.le_total room held.length with short | long
        · rw [Nat.min_eq_left short]
        · rw [Nat.min_eq_right long, List.drop_eq_nil_of_le long,
            List.drop_length]
      rw [cut]
      omega
    · cases reads

theorem size_of_read_error
    {room : Nat}
    {reader after : Reader}
    {error : IoError}
    (fails : read room reader = (.error error, after)) :
    after.size < reader.size := by
  rw [read] at fails
  split at fails
  · exact size_of_receive_error fails
  · split at fails
    · cases fails
    next fills =>
      cases fails
      exact size_of_fillBuf_error fills

/-- Fill a buffer of `needed` more octets after `got`. -/
def readExactFrom (needed : Nat) (got : List UInt8) (reader : Reader) :
    Except IoError (List UInt8) × Reader :=
  if needed = 0 then
    (.ok got, reader)
  else
    match _reads : read needed reader with
    | (.ok piece, after) =>
        if _empty : piece = [] then
          (.error Wire.unexpectedEof, after)
        else
          readExactFrom (needed - piece.length) (got ++ piece) after
    | (.error error, after) =>
        if error.kind = .interrupted then
          readExactFrom needed got after
        else
          (.error error, after)
termination_by reader.size
decreasing_by
  · exact size_of_read _reads _empty
  · exact size_of_read_error _reads

/-- Fill a buffer of `needed` octets or fail. -/
def readExact (needed : Nat) : Reading IoError (List UInt8) :=
  readExactFrom needed []

theorem length_of_receive
    {room : Nat}
    {reader after : Reader}
    {piece : List UInt8}
    (reads : receive room reader = (.ok piece, after)) :
    piece.length ≤ room := by
  rw [receive] at reads
  split at reads
  · cases reads
    exact Nat.zero_le _
  · cases reads
  · split at reads
    next short =>
      cases reads
      exact short
    · cases reads
      exact List.length_take_le _ _

theorem length_of_read
    {room : Nat}
    {reader after : Reader}
    {piece : List UInt8}
    (reads : read room reader = (.ok piece, after)) :
    piece.length ≤ room := by
  rw [read] at reads
  split at reads
  · exact length_of_receive reads
  · split at reads
    · cases reads
      exact List.length_take_le _ _
    · cases reads

/-- A buffer that was filled has the octets it was filled for. -/
theorem length_of_readExactFrom
    {needed : Nat}
    {got filled : List UInt8}
    {reader after : Reader}
    (fills : readExactFrom needed got reader = (.ok filled, after)) :
    filled.length = got.length + needed := by
  fun_induction readExactFrom needed got reader with
  | case1 got reader =>
      cases fills
      rfl
  | case2 needed got reader more later reads => cases fills
  | case3 needed got reader more piece later reads nonempty
      inductionHypothesis =>
      have short := length_of_read reads
      have length := inductionHypothesis fills
      rw [List.length_append] at length
      omega
  | case4 needed got reader more error later reads interrupted
      inductionHypothesis =>
      exact inductionHypothesis fills
  | case5 needed got reader more error later reads other => cases fills

theorem length_of_readExact
    {needed : Nat}
    {filled : List UInt8}
    {reader after : Reader}
    (fills : readExact needed reader = (.ok filled, after)) :
    filled.length = needed := by
  have length := length_of_readExactFrom fills
  rwa [List.length_nil, Nat.zero_add] at length

/-- Everything to the connection's end, or the first `limit` octets. -/
def readToEnd (limit : Nat) : Reading IoError (List UInt8) := fun reader =>
  let held := reader.buffered.take limit
  let left := reader.buffered.drop limit
  match Wire.fill reader.incoming (limit - held.length) held with
  | (.whole bytes, incoming) => (.ok bytes, { buffered := left, incoming })
  | (.closed bytes, incoming) => (.ok bytes, { buffered := left, incoming })
  | (.failed error, incoming) => (.error error, { buffered := left, incoming })

/-! ## Readers that deliver some octets -/

/-- The reader delivers `bytes` and then its connection ends. -/
def Delivers (reader : Reader) (bytes : List UInt8) : Prop :=
  ∃ later, Wire.Delivers reader.incoming later ∧
    reader.buffered ++ later = bytes

theorem delivers_ofOctets (octets : List UInt8) :
    (ofOctets octets).Delivers octets :=
  ⟨[], Wire.delivers_nil, List.append_nil octets⟩

theorem delivers_new
    {incoming : List Arrival}
    {bytes : List UInt8}
    (delivers : Wire.Delivers incoming bytes) :
    (new incoming).Delivers bytes :=
  ⟨bytes, delivers, rfl⟩

theorem Delivers.unique
    {reader : Reader}
    {bytes others : List UInt8}
    (delivers : reader.Delivers bytes)
    (again : reader.Delivers others) :
    bytes = others := by
  obtain ⟨later, comes, rfl⟩ := delivers
  obtain ⟨more, same, rfl⟩ := again
  rw [Wire.Delivers, comes] at same
  rw [Option.some.inj same]

instance : Delivering Reader UInt8 where
  Delivers := Delivers
  unique := Delivers.unique
  every octets := ⟨ofOctets octets, delivers_ofOctets octets⟩

/-- What an empty buffer's next read meets: an interruption, or the next
octets, none of them where there is room only at the end. -/
theorem receive_of_delivers
    {reader : Reader}
    {bytes : List UInt8}
    (empty : reader.buffered = [])
    (delivers : reader.Delivers bytes)
    (room : Nat) :
    (∃ error after, receive room reader = (.error error, after) ∧
      error.kind = .interrupted ∧ after.Delivers bytes) ∨
    ∃ piece after rest, receive room reader = (.ok piece, after) ∧
      piece ++ rest = bytes ∧ piece.length ≤ room ∧
        (0 < room → piece = [] → bytes = []) ∧ after.buffered = [] ∧
          after.Delivers rest := by
  obtain ⟨later, comes, rfl⟩ := delivers
  rw [empty, List.nil_append]
  cases incoming : reader.incoming with
  | nil =>
      rw [incoming] at comes
      obtain rfl := Option.some.inj comes
      refine Or.inr ⟨[], reader, [], ?_, rfl, Nat.zero_le _,
        fun _ _ => rfl, empty, ⟨[], ?_, ?_⟩⟩
      · rw [receive, incoming]
      · rw [incoming]
        exact Wire.delivers_nil
      · rw [empty, List.append_nil]
  | cons arrival rest =>
      rw [incoming] at comes
      cases arrival with
      | failed error =>
          obtain ⟨interrupted, comes⟩ := Wire.delivers_failed_iff.mp comes
          refine Or.inl ⟨error, { reader with incoming := rest }, ?_,
            interrupted, later, comes, ?_⟩
          · rw [receive, incoming]
          · simp only [empty, List.nil_append]
      | octets piece =>
          obtain ⟨nonempty, others, more, rfl⟩ :=
            Wire.delivers_octets_iff.mp comes
          by_cases whole : piece.length ≤ room
          · refine Or.inr ⟨piece, { reader with incoming := rest }, others, ?_,
              rfl, whole, fun _ none => absurd none nonempty, empty,
              others, more, ?_⟩
            · rw [receive, incoming]
              exact if_pos whole
            · simp only [empty, List.nil_append]
          · refine Or.inr ⟨piece.take room,
              { reader with incoming := .octets (piece.drop room) :: rest },
              piece.drop room ++ others, ?_, ?_, ?_, ?_, empty,
              piece.drop room ++ others, ?_, ?_⟩
            · rw [receive, incoming]
              exact if_neg whole
            · rw [← List.append_assoc, List.take_append_drop]
            · exact List.length_take_le _ _
            · intro positive none
              have lengths := congrArg List.length none
              rw [List.length_take, List.length_nil] at lengths
              omega
            · refine Wire.delivers_octets_iff.mpr ⟨?_, others, more, rfl⟩
              rw [ne_eq, List.drop_eq_nil_iff]
              omega
            · simp only [empty, List.nil_append]

/-- A filled buffer holds the next octets, none of them only at the end. -/
theorem fillBuf_of_delivers
    {reader : Reader}
    {bytes : List UInt8}
    (delivers : reader.Delivers bytes) :
    (∃ error after, fillBuf reader = (.error error, after) ∧
      error.kind = .interrupted ∧ after.Delivers bytes) ∨
    ∃ held after, fillBuf reader = (.ok held, after) ∧
      after.buffered = held ∧ after.Delivers bytes ∧
        (held = [] → bytes = []) := by
  by_cases empty : reader.buffered = []
  · rcases receive_of_delivers empty delivers capacity with
      ⟨error, after, fails, interrupted, left⟩ |
      ⟨piece, after, rest, receives, split, _, ends, none, left⟩
    · refine Or.inl ⟨error, after, ?_, interrupted, left⟩
      rw [fillBuf, if_pos empty, fails]
    · refine Or.inr ⟨piece, { after with buffered := piece }, ?_, rfl, ?_,
        ends (by decide)⟩
      · rw [fillBuf, if_pos empty, receives]
      · obtain ⟨later, comes, same⟩ := left
        rw [none, List.nil_append] at same
        exact ⟨later, comes, by rw [same]; exact split⟩
  · refine Or.inr ⟨reader.buffered, reader, ?_, rfl, delivers,
      fun none => absurd none empty⟩
    rw [fillBuf, if_neg empty]

theorem Delivers.consume
    {reader : Reader}
    {bytes : List UInt8}
    (delivers : reader.Delivers bytes)
    {count : Nat}
    (within : count ≤ reader.buffered.length) :
    (reader.consume count).Delivers (bytes.drop count) := by
  obtain ⟨later, comes, rfl⟩ := delivers
  refine ⟨later, comes, ?_⟩
  rw [List.drop_append_of_le_length within]
  rfl

/-- A read gives the next octets, none of them where there is room only at the
end. -/
theorem read_of_delivers
    {reader : Reader}
    {bytes : List UInt8}
    (delivers : reader.Delivers bytes)
    (room : Nat) :
    (∃ error after, read room reader = (.error error, after) ∧
      error.kind = .interrupted ∧ after.Delivers bytes) ∨
    ∃ piece after rest, read room reader = (.ok piece, after) ∧
      piece ++ rest = bytes ∧ piece.length ≤ room ∧
        (0 < room → piece = [] → bytes = []) ∧ after.Delivers rest := by
  by_cases direct : reader.buffered = [] ∧ capacity ≤ room
  · rw [read, if_pos direct]
    rcases receive_of_delivers direct.1 delivers room with interrupts |
      ⟨piece, after, rest, receives, split, short, ends, _, left⟩
    · exact Or.inl interrupts
    · exact Or.inr ⟨piece, after, rest, receives, split, short, ends, left⟩
  · rw [read, if_neg direct]
    rcases fillBuf_of_delivers delivers with
      ⟨error, after, fails, interrupted, left⟩ |
      ⟨held, after, fills, same, left, ends⟩
    · rw [fails]
      exact Or.inl ⟨error, after, rfl, interrupted, left⟩
    · rw [fills]
      obtain ⟨later, comes, rfl⟩ := left
      refine Or.inr ⟨held.take room, after.consume room,
        held.drop room ++ later, rfl, ?_, List.length_take_le _ _, ?_, later,
        comes, ?_⟩
      · rw [← List.append_assoc, List.take_append_drop, same]
      · intro positive none
        refine ends (List.eq_nil_of_length_eq_zero ?_)
        have lengths := congrArg List.length none
        rw [List.length_take, List.length_nil] at lengths
        omega
      · rw [consume, same]

/-- A buffer filled from a reader that delivers enough holds the next octets;
from one that delivers less it is not filled. -/
theorem readExactFrom_of_delivers
    {needed : Nat}
    {got : List UInt8}
    {reader : Reader}
    {bytes : List UInt8}
    (delivers : reader.Delivers bytes) :
    (needed ≤ bytes.length → ∃ after,
      readExactFrom needed got reader =
        (.ok (got ++ bytes.take needed), after) ∧
          after.Delivers (bytes.drop needed)) ∧
    (bytes.length < needed → ∃ after,
      readExactFrom needed got reader = (.error Wire.unexpectedEof, after)) := by
  fun_induction readExactFrom needed got reader generalizing bytes with
  | case1 got reader =>
      refine ⟨fun _ => ⟨reader, ?_, delivers⟩,
        fun short => absurd short (Nat.not_lt_zero _)⟩
      rw [List.take_zero, List.append_nil]
  | case2 needed got reader more after reads =>
      rcases read_of_delivers delivers needed with
        ⟨error, final, fails, _⟩ | ⟨piece, final, rest, gives, _, _, ends, _⟩
      · rw [reads] at fails
        cases fails
      · rw [reads] at gives
        cases gives
        obtain rfl := ends (Nat.pos_of_ne_zero more) rfl
        exact ⟨fun enough => absurd (Nat.le_zero.mp enough) more,
          fun _ => ⟨after, rfl⟩⟩
  | case3 needed got reader more piece after reads nonempty
      inductionHypothesis =>
      rcases read_of_delivers delivers needed with
        ⟨error, final, fails, _⟩ |
        ⟨given, final, rest, gives, split, short, _, left⟩
      · rw [reads] at fails
        cases fails
      · rw [reads] at gives
        cases gives
        obtain rfl := split
        obtain ⟨whole, cut⟩ := inductionHypothesis left
        rw [List.length_append]
        constructor
        · intro enough
          obtain ⟨last, runs, ends⟩ := whole (by omega)
          refine ⟨last, ?_, ?_⟩
          · rw [runs, List.take_append, List.take_of_length_le short,
              List.append_assoc]
          · rw [List.drop_append, List.drop_eq_nil_of_le short, List.nil_append]
            exact ends
        · intro less
          exact cut (by omega)
  | case4 needed got reader more error after reads interrupted
      inductionHypothesis =>
      rcases read_of_delivers delivers needed with
        ⟨other, final, fails, _, left⟩ | ⟨given, final, rest, gives, _⟩
      · rw [reads] at fails
        cases fails
        exact inductionHypothesis left
      · rw [reads] at gives
        cases gives
  | case5 needed got reader more error after reads other =>
      rcases read_of_delivers delivers needed with
        ⟨failure, final, fails, interrupted, left⟩ | ⟨given, final, rest, gives, _⟩
      · rw [reads] at fails
        cases fails
        exact absurd interrupted other
      · rw [reads] at gives
        cases gives

open Fallible (Reads Refuses Decided)

theorem readExact_reads
    {needed : Nat}
    {bytes : List UInt8}
    (enough : needed ≤ bytes.length) :
    Reads (readExact needed) bytes (bytes.take needed) (bytes.drop needed) :=
  fun _ delivers => (readExactFrom_of_delivers delivers).1 enough

theorem readExact_refuses
    {needed : Nat}
    {bytes : List UInt8}
    (short : bytes.length < needed) :
    Refuses (readExact needed) bytes := by
  intro reader delivers
  obtain ⟨after, fails⟩ := (readExactFrom_of_delivers delivers).2 short
  exact ⟨Wire.unexpectedEof, after, fails⟩

theorem decided_readExact (needed : Nat) : Decided (readExact needed) := by
  intro bytes
  rcases Nat.lt_or_ge bytes.length needed with short | enough
  · exact Or.inr (readExact_refuses short)
  · exact Or.inl ⟨_, _, readExact_reads enough⟩

/-- Reading to the end gives everything, or the first octets up to the
limit. -/
theorem readToEnd_reads (limit : Nat) (bytes : List UInt8) :
    Reads (readToEnd limit) bytes (bytes.take limit) (bytes.drop limit) := by
  intro reader delivers
  obtain ⟨later, comes, rfl⟩ := delivers
  have taken : (reader.buffered.take limit).length =
      min limit reader.buffered.length := List.length_take
  by_cases enough : limit - (reader.buffered.take limit).length ≤ later.length
  · obtain ⟨rest, fills, left⟩ := Wire.fill_of_delivers comes enough
      (reader.buffered.take limit)
    refine ⟨{ buffered := reader.buffered.drop limit, incoming := rest }, ?_,
      _, left, ?_⟩
    · simp only [readToEnd, fills]
      rw [List.take_append, taken, show limit - min limit
        reader.buffered.length = limit - reader.buffered.length by omega]
    · rw [List.drop_append, taken, show limit - min limit
        reader.buffered.length = limit - reader.buffered.length by omega]
  · rw [Nat.not_le] at enough
    refine ⟨{ buffered := reader.buffered.drop limit, incoming := [] }, ?_,
      [], Wire.delivers_nil, ?_⟩
    · simp only [readToEnd, Wire.fill_of_delivers_short comes enough]
      rw [List.take_append, List.take_of_length_le (l := later) (by omega)]
    · have past : later.drop (limit - reader.buffered.length) = [] :=
        List.drop_eq_nil_of_le (by omega)
      rw [List.drop_append, past]

end Reader
end XmipNet
