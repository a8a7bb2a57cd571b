-- The values that every part of the library passes around: addresses, exceptions,
-- and how a call ends.
import Mathlib.Data.BitVec
import Mathlib.Tactic.Ring

namespace eforce

/-- A pointer of a machine with `w` address bits. -/
abbrev Addr (w : Nat) := BitVec w

/-- A `std::exception_ptr`: null, or the exception object that it refers to.
Exception objects go by numbers. -/
abbrev ExceptionPtr := Option Nat

/-- A C++ exception that the library itself throws. -/
inductive Error
  /-- `std::runtime_error` with its text. -/
  | runtimeError (what : String)
  /-- `std::logic_error`, from a `std::string` made of a null pointer. -/
  | logicError
  /-- `std::bad_alloc` -/
  | badAlloc
  deriving DecidableEq, Repr

/-- How a call ends that does not return. -/
inductive Abrupt
  | threw (e : Error)
  /-- `std::terminate`: an exception leaves a destructor. -/
  | terminated
  /-- Undefined behaviour: the code reads past an array, or uses a dead object. -/
  | undefined
  deriving DecidableEq, Repr

/-- How a call ends. -/
abbrev Outcome (α : Type) := Except Abrupt α

/-- The process goes on after the call. -/
def Outcome.Completes {α : Type} : Outcome α → Prop
  | .ok _ => True
  | .error (.threw _) => True
  | .error .terminated => False
  | .error .undefined => False

instance {α : Type} : (o : Outcome α) → Decidable o.Completes
  | .ok _ => .isTrue trivial
  | .error (.threw _) => .isTrue trivial
  | .error .terminated => .isFalse id
  | .error .undefined => .isFalse id

end eforce
