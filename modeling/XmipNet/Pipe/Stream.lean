import XmipNet.Foundation.Transcript
import XmipNet.Source

/-!
# One connection of a named pipe

The made end may ask who connected, which the system says only once something
was read; what was read for that is read again first. And a pipe answers each
read through a call of its own, so a small read asks for more and holds the
rest. Whatever is asked and read, in whatever order, its reader sees what came
through the pipe.
-/

namespace XmipNet
namespace Pipe

open Delivering (Delivers)
open Transcript (transcript)

/-- How much one read of a pipe asks for where its reader asks for less. -/
def most : Nat := 16 * 1024

/-- How much is read to learn who connected. -/
def first : Nat := 64

/-- The account a token proves, and the level it was lent at. -/
structure Token where
  account : List UInt32
  level : Int
  deriving DecidableEq, Repr

/-- One connection, either end: whether it is the made one, and what was read
ahead of its reader. -/
structure Stream (σ : Type) where
  pipe : σ
  made : Bool
  readAhead : List UInt8

namespace Stream

variable {σ : Type} [Source σ]

/-- A connection just made or opened. -/
def new (pipe : σ) (made : Bool) : Stream σ where
  pipe
  made
  readAhead := []

/-- Give at most `room` octets of what was read ahead. -/
def give (room : Nat) (stream : Stream σ) :
    Except IoError (List UInt8) × Stream σ :=
  (.ok (stream.readAhead.take room),
    { stream with readAhead := stream.readAhead.drop room })

/-- Read at most `room` octets. -/
def read (room : Nat) : Fallible (Stream σ) IoError (List UInt8) :=
  fun stream =>
    if stream.readAhead = [] then
      match Source.read (max room most) stream.pipe with
      | (.error error, pipe) => (.error error, { stream with pipe })
      | (.ok piece, pipe) =>
          if most ≤ room then
            (.ok piece, { stream with pipe })
          else
            give room { stream with pipe, readAhead := piece }
    else
      give room stream

/-- What is said of a token: the failure names whose it is. -/
def said (token : Except String Token) : Except String Token :=
  token.mapError fun why => s!"the caller is not known: {why}"

/-- The client's token as it lent it, where the system says `token` of it once
something was read. -/
def lent (token : Except String Token) : Fallible (Stream σ) String Token :=
  fun stream =>
    if stream.made = false then
      (.error "the client's end has no client", stream)
    else if stream.readAhead = [] then
      match Source.read first stream.pipe with
      | (.error error, pipe) =>
          (.error s!"the caller sent nothing: {error.text}",
            { stream with pipe })
      | (.ok piece, pipe) =>
          if piece = [] then
            (.error "the caller sent nothing", { stream with pipe })
          else
            (said token, { stream with pipe, readAhead := piece })
    else
      (said token, stream)

/-! ## What its reader sees -/

/-- The connection still has `bytes` for its reader: what was read ahead, and
what the pipe delivers after it. -/
def Has (stream : Stream σ) (bytes : List UInt8) : Prop :=
  ∃ later, Delivers stream.pipe later ∧ stream.readAhead ++ later = bytes

/-- One call of a connection. -/
inductive Call
  | read (room : Nat)
  | lent (token : Except String Token)

/-- What a call answers. -/
inductive Answer
  | read (outcome : Except IoError (List UInt8))
  | lent (outcome : Except String Token)

/-- One call, and the connection after it. -/
def act (call : Call) (stream : Stream σ) : Answer × Stream σ :=
  match call with
  | .read room => (.read (read room stream).1, (read room stream).2)
  | .lent token => (.lent (lent token stream).1, (lent token stream).2)

/-- The octets an answer gives. -/
def Answer.octets : Answer → List UInt8
  | .read (.ok piece) => piece
  | .read (.error _) | .lent _ => []

/-- The octets that were given, in order. -/
def octets (entries : List (Call × Answer)) : List UInt8 :=
  entries.flatMap fun entry => entry.2.octets

/-- What a call may answer where `bytes` are still to come: a read the next of
them and none only at the end, or an interruption; and the made end what the
system says of its client's token, unless nothing is to come or the read for it
was interrupted. -/
inductive Fair (made : Bool) (bytes : List UInt8) : Call × Answer → Prop
  | piece {room : Nat} {piece : List UInt8}
      (fits : piece.length ≤ room)
      (ends : 0 < room → piece = [] → bytes = []) :
      Fair made bytes (.read room, .read (.ok piece))
  | interrupted {room : Nat} {error : IoError}
      (kind : error.kind = .interrupted) :
      Fair made bytes (.read room, .read (.error error))
  | opened {token : Except String Token} (opened : made = false) :
      Fair made bytes
        (.lent token, .lent (.error "the client's end has no client"))
  | said {token : Except String Token} (is : made = true) :
      Fair made bytes (.lent token, .lent (said token))
  | silent {token : Except String Token} (is : made = true)
      (ended : bytes = []) :
      Fair made bytes (.lent token, .lent (.error "the caller sent nothing"))
  | unheard {token : Except String Token} {error : IoError} (is : made = true)
      (kind : error.kind = .interrupted) :
      Fair made bytes
        (.lent token, .lent (.error s!"the caller sent nothing: {error.text}"))

section Calls

variable {stream : Stream σ} {bytes : List UInt8}

/-- A call that was fair to what was to come, and leaves the rest of it. -/
def Answers (stream : Stream σ) (bytes : List UInt8) (call : Call) : Prop :=
  (act call stream).2.made = stream.made ∧
    Fair stream.made bytes (call, (act call stream).1) ∧
    ∃ rest, (act call stream).1.octets ++ rest = bytes ∧
      (act call stream).2.Has rest

theorem give_fair
    (has : stream.Has bytes)
    (ends : stream.readAhead = [] → bytes = [])
    (room : Nat) :
    Fair stream.made bytes (.read room, .read (give room stream).1) ∧
      ∃ rest, stream.readAhead.take room ++ rest = bytes ∧
        (give room stream).2.Has rest := by
  obtain ⟨later, delivers, split⟩ := has
  refine ⟨.piece (List.length_take_le _ _) fun positive none => ends ?_,
    stream.readAhead.drop room ++ later, ?_, later, delivers, rfl⟩
  · rcases List.take_eq_nil_iff.mp none with zero | empty
    · exact absurd zero (Nat.ne_of_gt positive)
    · exact empty
  · rw [← List.append_assoc, List.take_append_drop, split]

/-- A read is fair, whatever was read ahead. -/
theorem answers_read
    (has : stream.Has bytes)
    (room : Nat) :
    Answers stream bytes (.read room) := by
  rw [Answers, act, read]
  split
  next empty =>
    obtain ⟨later, delivers, split⟩ := has
    rw [empty, List.nil_append] at split
    subst split
    have given := Source.gives delivers (max room most)
    split
    next error pipe fails =>
      rw [fails] at given
      cases given with
      | interrupted kind left =>
          refine ⟨rfl, .interrupted kind, later, rfl, later, left, ?_⟩
          rw [empty, List.nil_append]
    next piece pipe reads =>
      rw [reads] at given
      cases given with
      | @piece _ rest _ split fits ends left =>
          have positive : 0 < max room most :=
            Nat.lt_of_lt_of_le (by decide) (Nat.le_max_right room most)
          split
          next large =>
            rw [Nat.max_eq_left large] at fits
            refine ⟨rfl, .piece fits fun _ => ends positive, rest, split, rest,
              left, ?_⟩
            rw [empty, List.nil_append]
          next small =>
            obtain ⟨fair, still, whole, has⟩ := @give_fair _ _
              { stream with pipe := pipe, readAhead := piece } later
              ⟨rest, left, split⟩ (ends positive) room
            exact ⟨rfl, fair, still, whole, has⟩
  next some =>
    obtain ⟨fair, rest, whole, after⟩ :=
      give_fair has (fun empty => absurd empty some) room
    exact ⟨rfl, fair, rest, whole, after⟩

/-- Asking who connected takes nothing from its reader. -/
theorem answers_lent
    (has : stream.Has bytes)
    (token : Except String Token) :
    Answers stream bytes (.lent token) := by
  rw [Answers, act, lent]
  split
  next opened =>
    exact ⟨rfl, .opened opened, bytes, rfl, has⟩
  next made =>
    have is := Bool.eq_true_of_not_eq_false made
    split
    next empty =>
      obtain ⟨later, delivers, split⟩ := has
      rw [empty, List.nil_append] at split
      subst split
      have given := Source.gives delivers first
      split
      next error pipe fails =>
        rw [fails] at given
        cases given with
        | interrupted kind left =>
            refine ⟨rfl, .unheard is kind, later, rfl, later, left, ?_⟩
            rw [empty, List.nil_append]
      next piece pipe reads =>
        rw [reads] at given
        cases given with
        | @piece _ rest _ split fits ends left =>
            split
            next none =>
              obtain rfl := ends (by decide) none
              refine ⟨rfl, .silent is rfl, [], rfl, rest, left, ?_⟩
              rw [empty, List.nil_append]
              exact (List.append_eq_nil_iff.mp split).2
            next some => exact ⟨rfl, .said is, later, rfl, rest, left, split⟩
    next some => exact ⟨rfl, .said is, bytes, rfl, has⟩

theorem answers
    (has : stream.Has bytes)
    (call : Call) :
    Answers stream bytes call := by
  cases call with
  | read room => exact answers_read has room
  | lent token => exact answers_lent has token

end Calls

/-- A client that sends three octets in two pieces. -/
def threeOctets : Stream (List Arrival) :=
  new [.octets [1, 2], .octets [3]] true

end Stream

end Pipe
end XmipNet
