-- The process around the library: the registered throws, the code memory, the
-- exception pointers on the heap, and the protection of the executable area,
-- which `ScopedMprotect` opens for a write and closes again.
import Eforce.ByteMemory
import Eforce.IOpcodeGenerator
import Eforce.Elf

namespace eforce

open byte_memory

variable {w : Nat}

/-- `ThrowInfo`: one registered throw. `GetException` is a null pointer for a
throw whose arguments are no constants. Its constructor call may throw. -/
structure ThrowInfo (w : Nat) where
  throwAddr : Addr w
  file : String
  line : Int
  exceptionStr : String
  getException : Option (Except Error ExceptionPtr)

inductive Protection
  | readExec
  | readWriteExec
  deriving DecidableEq, Repr

/-- `ExecutableArea`: the first mapping of the process. -/
structure ExecutableArea (w : Nat) where
  start : Addr w
  stop : Addr w
  deriving DecidableEq, Repr

/-- Everything that a run of the library takes from outside. `mprotectGrants`
says for the n-th call of `mprotect` whether the kernel grants it. -/
structure Env (w : Nat) extends ElfEnv w where
  throwInfos : List (ThrowInfo w)
  generator : IOpcodeGenerator w
  throwFn : Addr w
  progStartAddr : Addr w
  executableArea : ExecutableArea w
  mprotectGrants : Nat → Protection → Bool

/-- What the library does to the code, in the order of its doing. -/
inductive Event (w : Nat)
  | mprotect (start : Addr w) (length : Nat) (prot : Protection) (granted : Bool)
  | write (start : Addr w) (bytes : List Byte)
  deriving DecidableEq, Repr

/-- The state that all forcers of a process share. The heap holds the
`std::exception_ptr`s that the forcers made and did not delete yet. -/
structure World (w : Nat) where
  memory : Memory w
  heap : Addr w → Option ExceptionPtr
  protection : Protection
  calls : Nat
  trace : List (Event w)

namespace World

/-- `new std::exception_ptr(e)` at the address that the allocator gives. -/
def new (W : World w) (p : Addr w) (e : ExceptionPtr) : World w :=
  { W with heap := Function.update W.heap p (some e) }

/-- The destructor of a `std::unique_ptr<std::exception_ptr>`. -/
def delete (W : World w) (p : Option (Addr w)) : World w :=
  match p with
  | none => W
  | some p => { W with heap := Function.update W.heap p none }

/-- `std::copy` of the bytes into the code. A store outside of the range that was
opened for it would be a fault, which ends the process; here it is a write like
any other, and the trace tells which range was open. -/
def copy (W : World w) (start : Addr w) (bytes : List Byte) : World w :=
  { W with memory := write W.memory start bytes, trace := W.trace ++ [.write start bytes] }

/-- A refused `mprotect` leaves the protection as it is. -/
def mprotect (env : Env w) (W : World w) (prot : Protection) : Bool × World w :=
  let area := env.executableArea
  let granted := env.mprotectGrants W.calls prot
  (granted, { W with
    protection := if granted then prot else W.protection
    calls := W.calls + 1
    trace := W.trace ++ [.mprotect area.start (area.stop - area.start).toNat prot granted] })

end World

/-! ## `ScopedMprotect` -/

namespace ScopedMprotect

/-- The constructor throws when the kernel refuses. -/
def construct (env : Env w) (W : World w) : Outcome Unit × World w :=
  match W.mprotect env .readWriteExec with
  | (true, W) => (.ok (), W)
  | (false, W) => (.error (.threw (.runtimeError "Failed to mprotect")), W)

/-- The destructor does not look at the answer. -/
def destroy (env : Env w) (W : World w) : World w := (W.mprotect env .readExec).2

end ScopedMprotect

/-! ## A write with its guard -/

namespace World

/-- The area is opened, the bytes are written, and the area is closed. -/
def patched (env : Env w) (W : World w) (start : Addr w) (bytes : List Byte) : World w :=
  ScopedMprotect.destroy env ((W.mprotect env .readWriteExec).2.copy start bytes)

/-- The kernel does not open the area. -/
def refused (env : Env w) (W : World w) : World w := (W.mprotect env .readWriteExec).2

@[simp] theorem new_memory (W : World w) (p : Addr w) (e : ExceptionPtr) :
    (W.new p e).memory = W.memory := rfl

@[simp] theorem new_calls (W : World w) (p : Addr w) (e : ExceptionPtr) :
    (W.new p e).calls = W.calls := rfl

@[simp] theorem delete_memory (W : World w) (p : Option (Addr w)) :
    (W.delete p).memory = W.memory := by
  cases p <;> rfl

@[simp] theorem delete_trace (W : World w) (p : Option (Addr w)) :
    (W.delete p).trace = W.trace := by
  cases p <;> rfl

@[simp] theorem delete_protection (W : World w) (p : Option (Addr w)) :
    (W.delete p).protection = W.protection := by
  cases p <;> rfl

@[simp] theorem patched_memory (env : Env w) (W : World w) (start : Addr w) (bytes : List Byte) :
    (W.patched env start bytes).memory = write W.memory start bytes := rfl

@[simp] theorem patched_heap (env : Env w) (W : World w) (start : Addr w) (bytes : List Byte) :
    (W.patched env start bytes).heap = W.heap := rfl

/-- A guarded write leaves three events: the area is opened, written, and
closed. -/
theorem patched_trace (env : Env w) (W : World w) (start : Addr w) (bytes : List Byte) :
    (W.patched env start bytes).trace = W.trace ++ [
      .mprotect env.executableArea.start
        (env.executableArea.stop - env.executableArea.start).toNat .readWriteExec
        (env.mprotectGrants W.calls .readWriteExec),
      .write start bytes,
      .mprotect env.executableArea.start
        (env.executableArea.stop - env.executableArea.start).toNat .readExec
        (env.mprotectGrants (W.calls + 1) .readExec)] := by
  simp [patched, ScopedMprotect.destroy, mprotect, copy]

/-- A pointer that was not in use is not in use again after its delete. -/
theorem delete_new {W : World w} {p : Addr w} (e : ExceptionPtr) (h : W.heap p = none) :
    (W.new p e).delete (some p) = W := by
  simp only [new, delete, Function.update_idem, ← h, Function.update_eq_self]

theorem delete_refused_new {env : Env w} {W : World w} {p : Addr w} (e : ExceptionPtr)
    (h : W.heap p = none) : ((W.new p e).refused env).delete (some p) = W.refused env := by
  have hcomm : ((W.new p e).refused env).delete (some p) =
      ((W.new p e).delete (some p)).refused env := rfl
  rw [hcomm, delete_new e h]

end World

theorem ScopedMprotect.construct_of_granted {env : Env w} {W : World w}
    (h : env.mprotectGrants W.calls .readWriteExec = true) :
    ScopedMprotect.construct env W = (.ok (), (W.mprotect env .readWriteExec).2) := by
  simp [ScopedMprotect.construct, World.mprotect, h]

theorem ScopedMprotect.construct_of_refused {env : Env w} {W : World w}
    (h : env.mprotectGrants W.calls .readWriteExec = false) :
    ScopedMprotect.construct env W =
      (.error (.threw (.runtimeError "Failed to mprotect")), W.refused env) := by
  simp [ScopedMprotect.construct, World.mprotect, World.refused, h]

end eforce
