import XmipNet.NetError
import Mathlib.Data.List.Basic

/-!
# The connection underneath

What a socket does over one run, as a script: what its reads give, in pieces of
any size with failures between them, and what becomes of its writes. A read
that was interrupted is tried again, as the standard library's `read_exact` and
the library's own loops do; a write either goes through or fails after some of
its octets.
-/

namespace XmipNet

/-- What the next read of a connection meets: octets that have come, none of
them the connection's end, or a failure. -/
inductive Arrival
  | octets (bytes : List UInt8)
  | failed (error : IoError)
  deriving DecidableEq, Repr

/-- What becomes of the next write or flush. -/
inductive Acceptance
  | taken
  | failed (after : Nat) (error : IoError)
  deriving DecidableEq, Repr

/-- One connection over one run. Past the end of `incoming` the peer has
closed; past the end of `accepts` every write goes through. -/
structure Wire where
  incoming : List Arrival
  accepts : List Acceptance
  written : List UInt8
  deriving DecidableEq, Repr

namespace Wire

/-- How filling a buffer ended: full, the connection's end after some octets,
or a failure. -/
inductive Filled
  | whole (bytes : List UInt8)
  | closed (bytes : List UInt8)
  | failed (error : IoError)
  deriving DecidableEq, Repr

/-- Read until `needed` more octets have come after `bytes`. -/
def fill : List Arrival → (needed : Nat) → (bytes : List UInt8) →
    Filled × List Arrival
  | incoming, 0, bytes => (.whole bytes, incoming)
  | [], _ + 1, bytes => (.closed bytes, [])
  | .failed error :: rest, needed + 1, bytes =>
      if error.kind = .interrupted then
        fill rest (needed + 1) bytes
      else
        (.failed error, rest)
  | .octets piece :: rest, needed + 1, bytes =>
      if piece = [] then
        (.closed bytes, rest)
      else if piece.length ≤ needed + 1 then
        fill rest (needed + 1 - piece.length) (bytes ++ piece)
      else
        (.whole (bytes ++ piece.take (needed + 1)),
          .octets (piece.drop (needed + 1)) :: rest)

/-- Fill a buffer of `needed` octets from the connection. -/
def read (wire : Wire) (needed : Nat) : Filled × Wire :=
  let (filled, incoming) := fill wire.incoming needed []
  (filled, { wire with incoming })

/-- The failure of a connection that ended before a buffer was full. -/
def unexpectedEof : IoError where
  kind := .unexpectedEof
  text := "failed to fill whole buffer"

/-- Fill a buffer of `needed` octets or fail. -/
def readExact (wire : Wire) (needed : Nat) :
    Except IoError (List UInt8) × Wire :=
  match wire.read needed with
  | (.whole bytes, after) => (.ok bytes, after)
  | (.closed _, after) => (.error unexpectedEof, after)
  | (.failed error, after) => (.error error, after)

/-- Write all of `bytes`, or some of them before a failure. -/
def writeAll (wire : Wire) (bytes : List UInt8) : Except IoError Unit × Wire :=
  match wire.accepts with
  | [] => (.ok (), { wire with written := wire.written ++ bytes })
  | .taken :: rest =>
      (.ok (), { wire with accepts := rest, written := wire.written ++ bytes })
  | .failed after error :: rest =>
      (.error error,
        { wire with accepts := rest, written := wire.written ++ bytes.take after })

/-- Flush what was written. -/
def flush (wire : Wire) : Except IoError Unit × Wire :=
  wire.writeAll []

/-- A buffer that was filled has the octets it was filled for. -/
theorem length_of_fill
    {incoming rest : List Arrival}
    {needed : Nat}
    {bytes filled : List UInt8}
    (fills : fill incoming needed bytes = (.whole filled, rest)) :
    filled.length = bytes.length + needed := by
  induction incoming generalizing needed bytes with
  | nil =>
      cases needed with
      | zero =>
          cases fills
          rfl
      | succ needed => cases fills
  | cons arrival later inductionHypothesis =>
      cases needed with
      | zero =>
          rw [fill] at fills
          cases fills
          rfl
      | succ needed =>
          cases arrival with
          | failed error =>
              rw [fill] at fills
              split at fills
              · exact inductionHypothesis fills
              · cases fills
          | octets piece =>
              rw [fill] at fills
              split at fills
              · cases fills
              · split at fills
                · have length := inductionHypothesis fills
                  rw [List.length_append] at length
                  omega
                · cases fills
                  rw [List.length_append, List.length_take]
                  omega

theorem length_of_readExact
    {wire after : Wire}
    {needed : Nat}
    {bytes : List UInt8}
    (reads : wire.readExact needed = (.ok bytes, after)) :
    bytes.length = needed := by
  rw [readExact] at reads
  split at reads
  next filled final runs =>
    cases reads
    have fills : (fill wire.incoming needed []).1 = .whole bytes :=
      congrArg Prod.fst runs
    have length := length_of_fill (Prod.ext fills rfl)
    rwa [List.length_nil, Nat.zero_add] at length
  · cases reads
  · cases reads

end Wire
end XmipNet
