-- One forced exception (`ForcedException` in ExceptionForcer.cpp). The
-- constructor saves the code that it overwrites, the destructor puts it back,
-- and a move hands both duties on.
import Eforce.World
import Eforce.ProgOffsetResolver

namespace eforce

open byte_memory

variable {w : Nat}

/-- The allocations of one call: where the exception pointer goes, and which
of the others succeed. -/
structure Allocs (w : Nat) where
  exceptionPtr : Option (Addr w)
  generator : Bool := true
  opcode : Bool := true
  originalData : Bool := true
  node : Bool := true
  deriving DecidableEq, Repr

structure ForcedException (w : Nat) where
  fnStart : Addr w
  /-- The `std::unique_ptr`: null once moved from. -/
  pException : Option (Addr w)
  originalData : List Byte
  offsetResolver : ProgOffsetResolver w
  deriving DecidableEq, Repr

/-- `GetOpcodeGenerator()` and then `GetThrowOpcode`, which copies its
template before it looks at the addresses. -/
def getThrowOpcode (env : Env w) (allocs : Allocs w) (fnStart pError : Addr w) :
    Except Error (List Byte) :=
  if allocs.generator = false then .error .badAlloc
  else if allocs.opcode = false then .error .badAlloc
  else env.generator.getThrowOpcode fnStart env.throwFn pError

theorem getThrowOpcode_ok {env : Env w} {allocs : Allocs w} {fnStart pError : Addr w}
    {code : List Byte} (h : getThrowOpcode env allocs fnStart pError = .ok code) :
    env.generator.getThrowOpcode fnStart env.throwFn pError = .ok code := by
  unfold getThrowOpcode at h
  split at h
  · cases h
  split at h
  · cases h
  exact h

namespace ForcedException

/-- The constructor. An exception on its way destroys the members made so
far, but the destructor of `ForcedException` itself does not run. -/
def construct (env : Env w) (containingFn : FunctionT w) (pException : ExceptionPtr)
    (offsetResolver : ProgOffsetResolver w) (allocs : Allocs w) (W : World w) :
    Outcome (ForcedException w) × World w :=
  let fnStart := offsetResolver.fromOffset containingFn.startOffset
  match allocs.exceptionPtr with
  | none => (.error (.threw .badAlloc), W)
  | some p =>
    let W := W.new p pException
    let fnEnd := offsetResolver.fromOffset containingFn.endOffset
    match getThrowOpcode env allocs fnStart p with
    | .error e => (.error (.threw e), W.delete p)
    | .ok doThrowOpcode =>
      let fnSize := (fnEnd - fnStart).toNat
      if doThrowOpcode.length > fnSize then
        (.error (.threw (.runtimeError "Generated opcode too large")), W.delete p)
      else if allocs.originalData = false then
        (.error (.threw .badAlloc), W.delete p)
      else
        let originalData := read W.memory fnStart doThrowOpcode.length
        match ScopedMprotect.construct env W with
        | (.ok (), W) =>
          (.ok { fnStart, pException := some p, originalData, offsetResolver },
            ScopedMprotect.destroy env (W.copy fnStart doThrowOpcode))
        | (.error e, W) => (.error e, W.delete p)

/-- The move constructor: the new object, and what is left of the old one. -/
def move (other : ForcedException w) : ForcedException w × ForcedException w :=
  (other, { other with pException := none, originalData := [] })

/-- The destructor is `noexcept`, so a refused `mprotect` ends the process.
The exception pointer goes after the code is back. -/
def destroy (env : Env w) (self : ForcedException w) (W : World w) : Outcome Unit × World w :=
  if self.originalData.isEmpty then (.ok (), W.delete self.pException)
  else
    match ScopedMprotect.construct env W with
    | (.ok (), W) =>
      (.ok (), (ScopedMprotect.destroy env (W.copy self.fnStart self.originalData)).delete
        self.pException)
    | (.error _, W) => (.error .terminated, W)

end ForcedException

/-! ## The patch of a constructor -/

/-- What a constructor writes, and the exception pointer that it makes. -/
structure Patch (w : Nat) where
  fnStart : Addr w
  pError : Addr w
  error : ExceptionPtr
  code : List Byte
  offsetResolver : ProgOffsetResolver w

/-- The patch that the constructor comes to before it asks for write access. -/
def preparePatch (env : Env w) (containingFn : FunctionT w) (error : ExceptionPtr)
    (offsetResolver : ProgOffsetResolver w) (allocs : Allocs w) : Except Error (Patch w) :=
  let fnStart := offsetResolver.fromOffset containingFn.startOffset
  let fnEnd := offsetResolver.fromOffset containingFn.endOffset
  match allocs.exceptionPtr with
  | none => .error .badAlloc
  | some pError =>
    match getThrowOpcode env allocs fnStart pError with
    | .error e => .error e
    | .ok code =>
      if code.length > (fnEnd - fnStart).toNat then
        .error (.runtimeError "Generated opcode too large")
      else if allocs.originalData = false then .error .badAlloc
      else .ok { fnStart, pError, error, code, offsetResolver }

/-- The object that a constructor leaves over a memory. -/
def Patch.forced (patch : Patch w) (m : Memory w) : ForcedException w where
  fnStart := patch.fnStart
  pException := some patch.pError
  originalData := read m patch.fnStart patch.code.length
  offsetResolver := patch.offsetResolver

/-- The world behind a constructor that succeeds. -/
def Patch.applied (env : Env w) (patch : Patch w) (W : World w) : World w :=
  (W.new patch.pError patch.error).patched env patch.fnStart patch.code

/-- What holds of every patch: its code is the throw opcode of its pointer at
its place, and it ends within the function. -/
theorem preparePatch_ok {env : Env w} {fn : FunctionT w} {error : ExceptionPtr}
    {r : ProgOffsetResolver w} {allocs : Allocs w} {patch : Patch w}
    (h : preparePatch env fn error r allocs = .ok patch) :
    patch.fnStart = r.fromOffset fn.startOffset ∧ allocs.exceptionPtr = some patch.pError ∧
      patch.error = error ∧
      env.generator.getThrowOpcode patch.fnStart env.throwFn patch.pError = .ok patch.code ∧
      patch.code.length ≤ (r.fromOffset fn.endOffset - patch.fnStart).toNat := by
  unfold preparePatch at h
  dsimp only at h
  split at h
  · cases h
  rename_i p hp
  split at h
  · cases h
  rename_i code hcode
  split at h
  · cases h
  split at h
  · cases h
  cases h
  exact ⟨rfl, hp, rfl, getThrowOpcode_ok hcode, by simp only; omega⟩

theorem preparePatch_length {env : Env w} {fn : FunctionT w} {error : ExceptionPtr}
    {r : ProgOffsetResolver w} {allocs : Allocs w} {patch : Patch w}
    (h : preparePatch env fn error r allocs = .ok patch) : patch.code.length ≤ 2 ^ w := by
  obtain ⟨-, -, -, -, hlen⟩ := preparePatch_ok h
  exact hlen.trans (BitVec.isLt _).le

namespace ForcedException

/-- The constructor writes the patch that it prepared, or throws and leaves
the code and the heap as they were. -/
theorem construct_eq {env : Env w} {fn : FunctionT w} {error : ExceptionPtr}
    {r : ProgOffsetResolver w} {allocs : Allocs w} {W : World w}
    (hfresh : ∀ p, allocs.exceptionPtr = some p → W.heap p = none) :
    construct env fn error r allocs W =
      match preparePatch env fn error r allocs with
      | .error e => (.error (.threw e), W)
      | .ok patch =>
        if env.mprotectGrants W.calls .readWriteExec then
          (.ok (patch.forced W.memory), patch.applied env W)
        else (.error (.threw (.runtimeError "Failed to mprotect")), W.refused env) := by
  unfold construct preparePatch
  dsimp only
  cases hp : allocs.exceptionPtr with
  | none => rfl
  | some p =>
    have hfree := hfresh p hp
    simp only
    cases hcode : getThrowOpcode env allocs (r.fromOffset fn.startOffset) p with
    | error e => simp only [World.delete_new error hfree]
    | ok code =>
      simp only
      split
      · simp only [World.delete_new error hfree]
      split
      · simp only [World.delete_new error hfree]
      cases hg : env.mprotectGrants W.calls .readWriteExec with
      | true =>
        rw [ScopedMprotect.construct_of_granted (by simpa using hg)]
        rfl
      | false =>
        rw [ScopedMprotect.construct_of_refused (by simpa using hg)]
        simp [World.delete_refused_new error hfree]

/-- What a constructor leaves that returns: it saved the bytes that were there,
and wrote an opcode that fits into the function. -/
theorem construct_ok {env : Env w} {fn : FunctionT w} {error : ExceptionPtr}
    {r : ProgOffsetResolver w} {allocs : Allocs w} {W W' : World w} {X : ForcedException w}
    (h : construct env fn error r allocs W = (.ok X, W')) :
    ∃ p code, getThrowOpcode env allocs (r.fromOffset fn.startOffset) p = .ok code ∧
      code.length ≤ (r.fromOffset fn.endOffset - r.fromOffset fn.startOffset).toNat ∧
      X = ⟨r.fromOffset fn.startOffset, some p,
        read W.memory (r.fromOffset fn.startOffset) code.length, r⟩ ∧
      W' = (W.new p error).patched env (r.fromOffset fn.startOffset) code := by
  unfold construct at h
  dsimp only at h
  split at h
  · cases h
  rename_i p _
  split at h
  · cases h
  rename_i code hcode
  split at h
  · cases h
  rename_i hfits
  split at h
  · cases h
  cases hg : env.mprotectGrants (W.new p error).calls .readWriteExec with
  | true =>
    rw [ScopedMprotect.construct_of_granted hg] at h
    cases h
    exact ⟨p, code, hcode, by omega, rfl, rfl⟩
  | false =>
    rw [ScopedMprotect.construct_of_refused hg] at h
    cases h

/-! ## The destructor -/

theorem destroy_of_empty {env : Env w} {X : ForcedException w} {W : World w}
    (h : X.originalData = []) : X.destroy env W = (.ok (), W.delete X.pException) := by
  simp [destroy, h]

theorem destroy_of_granted {env : Env w} {X : ForcedException w} {W : World w}
    (h : X.originalData ≠ []) (hg : env.mprotectGrants W.calls .readWriteExec = true) :
    X.destroy env W =
      (.ok (), (W.patched env X.fnStart X.originalData).delete X.pException) := by
  have he : X.originalData.isEmpty = false := by simpa using h
  simp [destroy, he, ScopedMprotect.construct_of_granted hg, World.patched]

theorem destroy_of_refused {env : Env w} {X : ForcedException w} {W : World w}
    (h : X.originalData ≠ []) (hg : env.mprotectGrants W.calls .readWriteExec = false) :
    X.destroy env W = (.error .terminated, W.refused env) := by
  have he : X.originalData.isEmpty = false := by simpa using h
  simp [destroy, he, ScopedMprotect.construct_of_refused hg]

/-- What a destructor does that returns: the saved bytes are back, and the
exception pointer is gone. -/
theorem destroy_ok {env : Env w} {X : ForcedException w} {W W' : World w}
    (h : X.destroy env W = (.ok (), W')) :
    W'.memory = write W.memory X.fnStart X.originalData ∧
      W'.heap = (W.delete X.pException).heap := by
  by_cases he : X.originalData = []
  · rw [destroy_of_empty he] at h
    cases h
    simp [he, write]
  cases hg : env.mprotectGrants W.calls .readWriteExec with
  | true =>
    rw [destroy_of_granted he hg] at h
    cases h
    cases X.pException <;> simp [World.delete]
  | false =>
    rw [destroy_of_refused he hg] at h
    cases h

/-- A constructor and its destructor together leave the code and the heap as
they were. -/
theorem destroy_applied {env : Env w} {patch : Patch w} {W W' : World w}
    (hfree : W.heap patch.pError = none) (hlen : patch.code.length ≤ 2 ^ w)
    (h : (patch.forced W.memory).destroy env (patch.applied env W) = (.ok (), W')) :
    W'.memory = W.memory ∧ W'.heap = W.heap := by
  obtain ⟨hmem, hheap⟩ := destroy_ok h
  refine ⟨?_, ?_⟩
  · rw [hmem]
    exact write_write_read W.memory patch.fnStart patch.code hlen
  · have hsame : ((patch.applied env W).delete (some patch.pError)).heap =
        ((W.new patch.pError patch.error).delete (some patch.pError)).heap := rfl
    exact hheap.trans (hsame.trans (congrArg World.heap (World.delete_new patch.error hfree)))

/-- A destructor does not throw. -/
theorem destroy_outcome {env : Env w} {X : ForcedException w} {W W' : World w}
    {o : Outcome Unit} (h : X.destroy env W = (o, W')) : o = .ok () ∨ o = .error .terminated := by
  by_cases he : X.originalData = []
  · rw [destroy_of_empty he] at h
    cases h
    exact Or.inl rfl
  cases hg : env.mprotectGrants W.calls .readWriteExec with
  | true =>
    rw [destroy_of_granted he hg] at h
    cases h
    exact Or.inl rfl
  | false =>
    rw [destroy_of_refused he hg] at h
    cases h
    exact Or.inr rfl

/-- A kernel that opens the area lets every destructor return. -/
theorem destroy_returns {env : Env w} (hg : ∀ n, env.mprotectGrants n .readWriteExec = true)
    {X : ForcedException w} {W W' : World w} {o : Outcome Unit}
    (h : X.destroy env W = (o, W')) : o = .ok () := by
  by_cases he : X.originalData = []
  · rw [destroy_of_empty he] at h
    cases h
    rfl
  · rw [destroy_of_granted he (hg _)] at h
    cases h
    rfl

/-- An object that was moved from has nothing to do any more. -/
theorem destroy_moved (env : Env w) (X : ForcedException w) (W : World w) :
    X.move.2.destroy env W = (.ok (), W) := by
  rw [destroy_of_empty rfl]
  rfl

end ForcedException

end eforce
