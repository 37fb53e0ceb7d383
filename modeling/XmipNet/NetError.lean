import Mathlib.Logic.Basic

/-!
# What a connection gives, and why it did not give what was asked of it

A failure says what was wrong and, where it was the connection's own, the
operating system's kind: a caller that sends again decides by that kind.
-/

namespace XmipNet

/-- The largest stream, body or message read off one connection, whatever
frames it. -/
def maxBody : Nat := 64 * 1024 * 1024

/-- The operating system's kind of a failed read or write. The kinds the
library itself looks at or produces have a name; every other one is kept by
its number. -/
inductive ErrorKind
  | interrupted
  | connectionAborted
  | unexpectedEof
  | wouldBlock
  | timedOut
  | other (code : Nat)
  deriving DecidableEq, Repr

/-- A failed read or write: its kind, and the words the system gives it. -/
structure IoError where
  kind : ErrorKind
  text : String
  deriving DecidableEq, Repr

/-- What was wrong, in words, and the system's kind where the failure was the
connection's. -/
structure NetError where
  message : String
  io : Option ErrorKind
  deriving DecidableEq, Repr

namespace NetError

/-- A failure saying `message`. -/
def new (message : String) : NetError :=
  { message, io := none }

/-- A connection's failure while `doing`, keeping its kind. -/
def fromIo (doing : String) (error : IoError) : NetError :=
  { message := s!"{doing}: {error.text}", io := some error.kind }

end NetError
end XmipNet
