import XmipNet.Reader

/-!
# Anything that can be read

A source gives octets in reads of at most so many, with interruptions anywhere
between, and none of them only at its end. A connection is one, and so is a
buffered reader of one; what is proved of sources holds of both, and of what is
put in front of them.
-/

namespace XmipNet

open Delivering (Delivers)

/-- What a read into `room` octets gives of `bytes`: an interruption, or the next
of them, none only at the end or where there is no room. -/
inductive Gives {σ : Type} [Delivering σ UInt8] (room : Nat)
    (bytes : List UInt8) : Except IoError (List UInt8) × σ → Prop
  | interrupted {error : IoError} {after : σ}
      (kind : error.kind = .interrupted)
      (left : Delivers after bytes) :
      Gives room bytes (.error error, after)
  | piece {piece rest : List UInt8} {after : σ}
      (split : piece ++ rest = bytes)
      (fits : piece.length ≤ room)
      (ends : 0 < room → piece = [] → bytes = [])
      (left : Delivers after rest) :
      Gives room bytes (.ok piece, after)

/-- Something that is read. `size` bounds the reads that give octets or fail. -/
class Source (σ : Type) extends Delivering σ UInt8 where
  read : Nat → Fallible σ IoError (List UInt8)
  size : σ → Nat
  gives : ∀ {state bytes}, Delivers state bytes → ∀ room,
    Gives room bytes (read room state)
  size_of_read : ∀ {room state piece after},
    read room state = (.ok piece, after) → piece ≠ [] → size after < size state
  size_of_failed : ∀ {room state error after},
    read room state = (.error error, after) → size after < size state

namespace Source

variable {σ : Type} [Source σ]

/-- Everything to the end after `got`, in reads of the sizes `rooms`, the next of
which is `turn`; an interrupted read is made again. -/
def drainFrom (rooms : Nat → Nat) (turn : Nat) (got : List UInt8) (state : σ) :
    Except IoError (List UInt8) × σ :=
  match _reads : read (rooms turn) state with
  | (.ok piece, after) =>
      if _empty : piece = [] then
        (.ok got, after)
      else
        drainFrom rooms (turn + 1) (got ++ piece) after
  | (.error error, after) =>
      if error.kind = .interrupted then
        drainFrom rooms (turn + 1) got after
      else
        (.error error, after)
termination_by size state
decreasing_by
  · exact size_of_read _reads _empty
  · exact size_of_failed _reads

/-- Everything to the end, in reads of the sizes `rooms`. -/
def drain (rooms : Nat → Nat) : Fallible σ IoError (List UInt8) :=
  drainFrom rooms 0 []

/-- Whatever the sizes of the reads, what is delivered is read. -/
theorem drainFrom_of_delivers
    {rooms : Nat → Nat}
    (positive : ∀ turn, 0 < rooms turn)
    {state : σ}
    {bytes : List UInt8}
    (delivers : Delivers state bytes)
    (turn : Nat)
    (got : List UInt8) :
    ∃ after, drainFrom rooms turn got state = (.ok (got ++ bytes), after) ∧
      Delivers after ([] : List UInt8) := by
  fun_induction drainFrom rooms turn got state generalizing bytes with
  | case1 turn got state after reads =>
      have given := gives delivers (rooms turn)
      rw [reads] at given
      cases given with
      | piece split fits ends left =>
          obtain rfl := ends (positive turn) rfl
          obtain rfl := (List.append_eq_nil_iff.mp split).2
          exact ⟨after, by rw [List.append_nil], left⟩
  | case2 turn got state piece after reads nonempty inductionHypothesis =>
      have given := gives delivers (rooms turn)
      rw [reads] at given
      cases given with
      | piece split fits ends left =>
          obtain ⟨final, drains, ended⟩ := inductionHypothesis left
          exact ⟨final, by rw [drains, List.append_assoc, split], ended⟩
  | case3 turn got state error after reads interrupted inductionHypothesis =>
      have given := gives delivers (rooms turn)
      rw [reads] at given
      cases given with
      | interrupted kind left => exact inductionHypothesis left
  | case4 turn got state error after reads other =>
      have given := gives delivers (rooms turn)
      rw [reads] at given
      cases given with
      | interrupted kind left => exact absurd kind other

/-- Reads of the sizes `rooms`, one after another, an interrupted one giving
nothing. -/
def readMany : List Nat → Fallible σ IoError (List UInt8)
  | [], state => (.ok [], state)
  | room :: rest, state =>
      match read room state with
      | (.ok piece, after) =>
          ((readMany rest after).1.map (piece ++ ·), (readMany rest after).2)
      | (.error error, after) =>
          if error.kind = .interrupted then
            readMany rest after
          else
            (.error error, after)

/-- Whatever the sizes of the reads, what they give is the beginning of what is
delivered, and the rest of it is still to come. -/
theorem readMany_of_delivers
    (rooms : List Nat)
    {state : σ}
    {bytes : List UInt8}
    (delivers : Delivers state bytes) :
    ∃ got rest after, readMany rooms state = (.ok got, after) ∧
      got ++ rest = bytes ∧ Delivers after rest := by
  induction rooms generalizing state bytes with
  | nil => exact ⟨[], bytes, state, rfl, rfl, delivers⟩
  | cons room rooms inductionHypothesis =>
      have given := gives delivers room
      rw [readMany]
      rcases runs : read room state with ⟨outcome, after⟩
      rw [runs] at given
      cases given with
      | @interrupted error _ kind left =>
          simp only [kind, if_true]
          exact inductionHypothesis left
      | @piece piece later _ split fits ends left =>
          obtain ⟨got, rest, final, reads, whole, still⟩ :=
            inductionHypothesis left
          refine ⟨piece ++ got, rest, final, ?_, ?_, still⟩
          · simp only [reads, Except.map]
          · rw [List.append_assoc, whole, split]

theorem drain_reads
    {rooms : Nat → Nat}
    (positive : ∀ turn, 0 < rooms turn)
    (bytes : List UInt8) :
    Fallible.Reads (drain rooms : Fallible σ IoError _) bytes bytes [] :=
  fun _ delivers => drainFrom_of_delivers positive delivers 0 []

end Source

/-! ## A buffered reader -/

theorem Reader.gives
    {reader : Reader}
    {bytes : List UInt8}
    (delivers : Delivers reader bytes)
    (room : Nat) :
    Gives room bytes (reader.read room) := by
  rcases Reader.read_of_delivers delivers room with
    ⟨error, after, fails, kind, left⟩ |
    ⟨piece, after, rest, reads, split, fits, ends, left⟩
  · rw [fails]
    exact .interrupted kind left
  · rw [reads]
    exact .piece split fits ends left

instance : Source Reader where
  read := Reader.read
  size := Reader.size
  gives := Reader.gives
  size_of_read := Reader.size_of_read
  size_of_failed := Reader.size_of_read_error

/-! ## A connection -/

namespace Wire

/-- One read of a connection into at most `room` octets. -/
def receive (room : Nat) : Fallible (List Arrival) IoError (List UInt8) :=
  fun incoming =>
    let (outcome, after) := Reader.receive room (.new incoming)
    (outcome, after.incoming)

/-- Octets that are all there. -/
theorem delivers_once
    {bytes : List UInt8}
    (nonempty : bytes ≠ []) :
    Wire.Delivers [.octets bytes] bytes :=
  delivers_octets_iff.mpr
    ⟨nonempty, [], delivers_nil, List.append_nil bytes⟩

instance : Delivering (List Arrival) UInt8 where
  Delivers := Wire.Delivers
  unique delivers again := Option.some.inj (delivers.symm.trans again)
  every bytes := by
    by_cases empty : bytes = []
    · exact ⟨[], empty ▸ delivers_nil⟩
    · exact ⟨_, delivers_once empty⟩

theorem buffered_receive
    (room : Nat)
    (reader : Reader) :
    (Reader.receive room reader).2.buffered = reader.buffered := by
  rw [Reader.receive]
  split
  · rfl
  · rfl
  · split <;> rfl

/-- Nothing of a connection is held after a read of it. -/
theorem receive_new
    (room : Nat)
    (incoming : List Arrival) :
    Reader.receive room (Reader.new incoming) =
      ((receive room incoming).1, Reader.new (receive room incoming).2) := by
  rcases runs : Reader.receive room (Reader.new incoming) with
    ⟨outcome, buffered, left⟩
  have none := buffered_receive room (Reader.new incoming)
  rw [runs] at none
  obtain rfl : buffered = [] := none
  rw [receive, runs]
  rfl

theorem delivers_of_new
    {incoming : List Arrival}
    {bytes : List UInt8}
    (delivers : (Reader.new incoming).Delivers bytes) :
    Wire.Delivers incoming bytes := by
  obtain ⟨later, comes, rfl⟩ := delivers
  exact comes

theorem gives_receive
    {incoming : List Arrival}
    {bytes : List UInt8}
    (delivers : Wire.Delivers incoming bytes)
    (room : Nat) :
    Gives room bytes (receive room incoming) := by
  have same := receive_new room incoming
  rcases runs : receive room incoming with ⟨outcome, after⟩
  rw [runs] at same
  rcases Reader.receive_of_delivers rfl (Reader.delivers_new delivers)
    room with
    ⟨error, final, fails, kind, left⟩ |
    ⟨piece, final, rest, reads, split, fits, ends, _, left⟩
  · rw [same] at fails
    cases fails
    exact .interrupted kind (delivers_of_new left)
  · rw [same] at reads
    cases reads
    exact .piece split fits ends (delivers_of_new left)

instance : Source (List Arrival) where
  read := receive
  size incoming := (Reader.new incoming).size
  gives := gives_receive
  size_of_read := by
    intro room incoming piece after reads nonempty
    have same := receive_new room incoming
    rw [reads] at same
    have smaller : (Reader.new after).size + piece.length ≤
        (Reader.new incoming).size :=
      (Reader.size_of_receive same).2
    have positive := List.length_pos_of_ne_nil nonempty
    omega
  size_of_failed := by
    intro room incoming error after fails
    have same := receive_new room incoming
    rw [fails] at same
    exact Reader.size_of_receive_error same

end Wire
end XmipNet
