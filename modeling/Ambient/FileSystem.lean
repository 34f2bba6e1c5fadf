import Ambient.Fault

/-!
# File systems

A run reaches its files through four calls.  Nothing is said about how a path
leads to a file: it may pass links or be refused, and several paths may lead to
one file.  What is open already has a number and no path.
-/

namespace Ambient

/-- What can be opened for writing: the file at a path, or what is open under a
number. -/
inductive Outlet where
  | path (path : String)
  | number (n : Nat)
deriving DecidableEq, Repr

structure FileSystem (State Sink : Type) where
  isThere : State -> String -> Except Fault Bool
  read : State -> String -> Except Fault ByteArray
  openSink : State -> Outlet -> Except Fault (Sink × State)
  /-- The state after some bytes are sent to a sink and it is closed. -/
  fill : Sink -> ByteArray -> State -> State

end Ambient
