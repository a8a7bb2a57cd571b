-- The forcer itself (`ExceptionForcer::Impl` in ExceptionForcer.cpp): the list
-- of the registered throws, and the map of the forced ones.
import Eforce.ForcedException

namespace eforce

variable {w : Nat}

/-- `std::map<void*, ForcedException>` -/
abbrev ForcedExceptions (w : Nat) := Std.ExtTreeMap (Addr w) (ForcedException w)

/-- `ExceptionInfo::ParentFunction` -/
structure ParentFunction (w : Nat) where
  start : Addr w
  stop : Addr w
  name : String
  deriving DecidableEq, Repr

structure ExceptionInfo (w : Nat) where
  addr : Addr w
  file : String
  line : Int
  exceptionStr : String
  parentFn : ParentFunction w
  deriving DecidableEq, Repr

/-- The order in which a map destroys its entries, by their places in the order
of the keys. The standard leaves it open, and each destructor may have its own. -/
structure DestroyOrder where
  places : Nat → List Nat
  perm : ∀ n, (places n).Perm (List.range n)

namespace DestroyOrder

def entries {α : Type} (order : DestroyOrder) (l : List α) : List α :=
  (order.places l.length).filterMap (l[·]?)

/-- `std::map` of libstdc++ goes from the last key to the first. -/
def descending : DestroyOrder where
  places n := (List.range n).reverse
  perm _ := List.reverse_perm _

theorem filterMap_range {α : Type} (l : List α) :
    (List.range l.length).filterMap (l[·]?) = l := by
  induction l with
  | nil => rfl
  | cons a l ih => simpa [List.range_succ_eq_map, Function.comp_def] using ih

/-- Every entry has its turn, and none has two. -/
theorem entries_perm {α : Type} (order : DestroyOrder) (l : List α) :
    (order.entries l).Perm l := by
  have h := (order.perm l.length).filterMap (l[·]?)
  rwa [filterMap_range] at h

/-- The order does not look at the entries. -/
theorem entries_map {α β : Type} (order : DestroyOrder) (f : α → β) (l : List α) :
    order.entries (l.map f) = (order.entries l).map f := by
  unfold entries
  rw [List.length_map, List.map_filterMap]
  simp only [List.getElem?_map]

end DestroyOrder

structure Impl (w : Nat) where
  elf : Elf w
  offsetResolver : ProgOffsetResolver w
  forcedExceptions : ForcedExceptions w

namespace Impl

/-- A new forcer: nothing is looked up or forced yet. -/
def construct (env : Env w) : Impl w where
  elf := {}
  offsetResolver := { progStartAddr := env.progStartAddr }
  forcedExceptions := ∅

/-! ## `GetExceptions` -/

def exceptionInfo (F : Impl w) (throwInfo : ThrowInfo w) (func : FunctionT w) :
    ExceptionInfo w where
  addr := throwInfo.throwAddr
  file := throwInfo.file
  line := throwInfo.line
  exceptionStr := throwInfo.exceptionStr
  parentFn := {
    start := F.offsetResolver.fromOffset func.startOffset
    stop := F.offsetResolver.fromOffset func.endOffset
    name := func.name }

/-- `std::transform` over the throws that are left. The first failure ends it. -/
def listExceptions (env : Env w) (F : Impl w) :
    List (ThrowInfo w) → Outcome (List (ExceptionInfo w)) × Impl w
  | [] => (.ok [], F)
  | throwInfo :: rest =>
    match F.elf.getContainingFunction env.toElfEnv
        (F.offsetResolver.toOffset throwInfo.throwAddr) with
    | (.ok func, elf) =>
      match listExceptions env { F with elf } rest with
      | (.ok infos, F) => (.ok (F.exceptionInfo throwInfo func :: infos), F)
      | (.error e, F) => (.error e, F)
    | (.error e, elf) => (.error e, { F with elf })

def getExceptions (env : Env w) (F : Impl w) : Outcome (List (ExceptionInfo w)) × Impl w :=
  F.listExceptions env env.throwInfos

/-! ## `ForceException` -/

/-- `m_forcedExceptions.emplace(loc, tmp)` and the end of `tmp`. The map makes
the node first, moves `tmp` into it, and drops the node when it finds the
key. When there is no node, the temporary goes on the way out. -/
def emplace (env : Env w) (F : Impl w) (loc : Addr w) (tmp : ForcedException w)
    (allocs : Allocs w) (W : World w) : Outcome Unit × Impl w × World w :=
  if allocs.node = false then
    match tmp.destroy env W with
    | (.ok (), W) => (.error (.threw .badAlloc), F, W)
    | (.error e, W) => (.error e, F, W)
  else
    let (node, tmp) := tmp.move
    if loc ∈ F.forcedExceptions then
      match node.destroy env W with
      | (.ok (), W) =>
        match tmp.destroy env W with
        | (o, W) => (o, F, W)
      | (.error e, W) => (.error e, F, W)
    else
      match tmp.destroy env W with
      | (o, W) => (o, { F with forcedExceptions := F.forcedExceptions.insert loc node }, W)

/-- `(pError) ? pError : throwInfo->GetException()` behind its check. -/
def errorToThrow (throwInfo : ThrowInfo w) (pError : ExceptionPtr) : Except Error ExceptionPtr :=
  match pError with
  | some e => .ok (some e)
  | none =>
    match throwInfo.getException with
    | none => .error (.runtimeError "Exception input is not constant")
    | some call => call

def forceException (env : Env w) (F : Impl w) (loc : Addr w) (pError : ExceptionPtr)
    (allocs : Allocs w) (W : World w) : Outcome Unit × Impl w × World w :=
  match env.throwInfos.find? fun throwInfo => throwInfo.throwAddr = loc with
  | none => (.error (.threw (.runtimeError "Could not find addr")), F, W)
  | some throwInfo =>
    match F.elf.getContainingFunction env.toElfEnv
        (F.offsetResolver.toOffset throwInfo.throwAddr) with
    | (.ok containingFn, elf) =>
      let F := { F with elf }
      match errorToThrow throwInfo pError with
      | .error e => (.error (.threw e), F, W)
      | .ok errorToThrow =>
        match ForcedException.construct env containingFn errorToThrow F.offsetResolver allocs W with
        | (.ok tmp, W) => F.emplace env loc tmp allocs W
        | (.error e, W) => (.error e, F, W)
    | (.error e, elf) => (.error e, { F with elf }, W)

/-! ## `UnforceException` and the destructor -/

/-- `erase` takes the node out and destroys it. -/
def unforceException (env : Env w) (F : Impl w) (loc : Addr w) (W : World w) :
    Outcome Unit × Impl w × World w :=
  match F.forcedExceptions[loc]? with
  | none => (.ok (), F, W)
  | some forced =>
    match forced.destroy env W with
    | (o, W) => (o, { F with forcedExceptions := F.forcedExceptions.erase loc }, W)

/-- The entries go one after the other. -/
def destroyEntries (env : Env w) : List (ForcedException w) → World w → Outcome Unit × World w
  | [], W => (.ok (), W)
  | forced :: rest, W =>
    match forced.destroy env W with
    | (.ok (), W) => destroyEntries env rest W
    | (.error e, W) => (.error e, W)

/-- `~ExceptionForcer`: the map destroys its entries in its own order. -/
def destroy (env : Env w) (F : Impl w) (order : DestroyOrder) (W : World w) :
    Outcome Unit × World w :=
  destroyEntries env ((order.entries F.forcedExceptions.toList).map (·.2)) W

/-! ## What the calls of a forcer keep -/

/-- A forcer knows the load address, and its lookups are those of the file. -/
structure Ready (env : Env w) (F : Impl w) : Prop where
  cached : F.elf.Cached env.toElfEnv
  resolver : F.offsetResolver = { progStartAddr := env.progStartAddr }

theorem ready_construct (env : Env w) : (Impl.construct env).Ready env :=
  ⟨Elf.cached_empty _, rfl⟩

theorem Ready.load {env : Env w} {F : Impl w} (h : F.Ready env) :
    ({ F with elf := F.elf.load env.toElfEnv } : Impl w).Ready env :=
  ⟨h.cached.cached_load, h.resolver⟩

theorem Ready.forced {env : Env w} {F : Impl w} (h : F.Ready env) (m : ForcedExceptions w) :
    ({ F with forcedExceptions := m } : Impl w).Ready env := ⟨h.cached, h.resolver⟩

theorem Ready.emplace {env : Env w} {F : Impl w} (h : F.Ready env) (loc : Addr w)
    (tmp : ForcedException w) (allocs : Allocs w) (W : World w) :
    (F.emplace env loc tmp allocs W).2.1.Ready env := by
  unfold Impl.emplace
  split
  · split <;> exact h
  dsimp only
  split
  · split <;> exact h
  · exact h.forced _

theorem Ready.forceException {env : Env w} {F : Impl w} (h : F.Ready env) (loc : Addr w)
    (pError : ExceptionPtr) (allocs : Allocs w) (W : World w) :
    (F.forceException env loc pError allocs W).2.1.Ready env := by
  unfold Impl.forceException
  split
  · exact h
  rename_i throwInfo _
  rw [Elf.getContainingFunction]
  cases containingFunction env.toElfEnv (F.elf.load env.toElfEnv).sortedSymbols
    (F.offsetResolver.toOffset throwInfo.throwAddr) with
  | error e => exact h.load
  | ok fn =>
    dsimp only
    split
    · exact h.load
    · split
      · exact h.load.emplace _ _ _ _
      · exact h.load

end Impl

/-! ## What a program says about a location -/

namespace Env

/-- The resolver that every forcer of the process makes. -/
def resolver (env : Env w) : ProgOffsetResolver w := { progStartAddr := env.progStartAddr }

def throwInfoAt (env : Env w) (loc : Addr w) : Option (ThrowInfo w) :=
  env.throwInfos.find? fun throwInfo => throwInfo.throwAddr = loc

/-- The lookup for an address of the program. -/
def functionAt (env : Env w) (loc : Addr w) : Outcome (FunctionT w) :=
  containingFunction env.toElfEnv env.sortedFunctions (env.resolver.toOffset loc)

/-- The patch that a call of `ForceException` comes to. It does not depend on
what was forced before. -/
def patchAt (env : Env w) (loc : Addr w) (pError : ExceptionPtr) (allocs : Allocs w) :
    Outcome (Patch w) :=
  match env.throwInfoAt loc with
  | none => .error (.threw (.runtimeError "Could not find addr"))
  | some throwInfo =>
    match env.functionAt loc with
    | .error e => .error e
    | .ok containingFn =>
      match Impl.errorToThrow throwInfo pError with
      | .error e => .error (.threw e)
      | .ok error =>
        match preparePatch env containingFn error env.resolver allocs with
        | .error e => .error (.threw e)
        | .ok patch => .ok patch

def Registered (env : Env w) (loc : Addr w) : Prop :=
  ∃ throwInfo ∈ env.throwInfos, throwInfo.throwAddr = loc

/-- Where the function of an address starts and ends, as the lookup has it. -/
def extentAt (env : Env w) (loc : Addr w) : Option (Addr w × Addr w) :=
  (neighbours env.sortedFunctions (env.resolver.toOffset loc)).map fun (thisFn, nextFn) =>
    (env.resolver.fromOffset thisFn.offset,
      env.resolver.fromOffset (nextFn.value + thisFn.sect.filepos))

/-- What it takes for a patch. -/
theorem patchAt_ok {env : Env w} {loc : Addr w} {pError : ExceptionPtr} {allocs : Allocs w}
    {patch : Patch w} (h : env.patchAt loc pError allocs = .ok patch) :
    ∃ throwInfo fn error, env.throwInfoAt loc = some throwInfo ∧ env.functionAt loc = .ok fn ∧
      Impl.errorToThrow throwInfo pError = .ok error ∧
      preparePatch env fn error env.resolver allocs = .ok patch := by
  unfold patchAt at h
  split at h
  · cases h
  rename_i throwInfo hinfo
  split at h
  · cases h
  rename_i fn hfn
  split at h
  · cases h
  rename_i error herror
  split at h
  · cases h
  rename_i patch' hprep
  cases h
  exact ⟨throwInfo, fn, error, hinfo, hfn, herror, hprep⟩

theorem throwInfoAt_some {env : Env w} {loc : Addr w} {throwInfo : ThrowInfo w}
    (h : env.throwInfoAt loc = some throwInfo) : throwInfo.throwAddr = loc := by
  simpa using List.find?_some h

theorem registered_of_throwInfoAt {env : Env w} {loc : Addr w} {throwInfo : ThrowInfo w}
    (h : env.throwInfoAt loc = some throwInfo) : env.Registered loc :=
  ⟨throwInfo, List.mem_of_find?_eq_some h, throwInfoAt_some h⟩

theorem extentAt_of_functionAt {env : Env w} {loc : Addr w} {fn : FunctionT w}
    (h : env.functionAt loc = .ok fn) : env.extentAt loc =
      some (env.resolver.fromOffset fn.startOffset, env.resolver.fromOffset fn.endOffset) := by
  obtain ⟨thisFn, nextFn, hn, hstart, hend⟩ := containingFunction_ok h
  rw [extentAt, hn, hstart, hend]
  rfl

/-- A patch lies at the start of the function of a registered throw, and ends
within that function. -/
theorem patchAt_extent {env : Env w} {loc : Addr w} {pError : ExceptionPtr} {allocs : Allocs w}
    {patch : Patch w} (h : env.patchAt loc pError allocs = .ok patch) :
    env.Registered loc ∧ ∃ stop, env.extentAt loc = some (patch.fnStart, stop) ∧
      patch.code.length ≤ (stop - patch.fnStart).toNat := by
  obtain ⟨throwInfo, fn, error, hinfo, hfn, -, hprep⟩ := patchAt_ok h
  obtain ⟨hstart, -, -, -, hlen⟩ := preparePatch_ok hprep
  exact ⟨registered_of_throwInfoAt hinfo, _, hstart ▸ extentAt_of_functionAt hfn, hlen⟩

/-- A patch lies at the start of the function that the lookup finds, and ends
within it. -/
theorem patchAt_of_functionAt {env : Env w} {loc : Addr w} {pError : ExceptionPtr}
    {allocs : Allocs w} {patch : Patch w} {fn : FunctionT w}
    (h : env.patchAt loc pError allocs = .ok patch) (hfn : env.functionAt loc = .ok fn) :
    env.resolver.fromOffset fn.startOffset = patch.fnStart ∧
      patch.code.length ≤ (env.resolver.fromOffset fn.endOffset - patch.fnStart).toNat := by
  obtain ⟨-, stop, hext, hlen⟩ := patchAt_extent h
  have hfound := (extentAt_of_functionAt hfn).symm.trans hext
  simp only [Option.some.injEq, Prod.mk.injEq] at hfound
  obtain ⟨hstart, rfl⟩ := hfound
  exact ⟨hstart, hlen⟩

/-- A patch that is taken back at once leaves the code and the heap as they
were. -/
theorem patchAt_taken_back {env : Env w} {loc : Addr w} {pError : ExceptionPtr}
    {allocs : Allocs w} {patch : Patch w} {W W' : World w}
    (hpatch : env.patchAt loc pError allocs = .ok patch)
    (hfresh : ∀ p, allocs.exceptionPtr = some p → W.heap p = none)
    (h : (patch.forced W.memory).destroy env (patch.applied env W) = (.ok (), W')) :
    W'.memory = W.memory ∧ W'.heap = W.heap := by
  obtain ⟨_, _, _, -, -, -, hprep⟩ := patchAt_ok hpatch
  obtain ⟨-, hp, -⟩ := preparePatch_ok hprep
  exact ForcedException.destroy_applied (hfresh _ hp) (preparePatch_length hprep) h

end Env

/-! ## What a force can do -/

/-- The ends of a `ForceException`: the outcome, the map, and the world. -/
inductive ForceResult (env : Env w) (forced : ForcedExceptions w) (W : World w) (loc : Addr w)
    (pError : ExceptionPtr) (allocs : Allocs w) :
    Outcome Unit → ForcedExceptions w → World w → Prop
  /-- There is no patch. -/
  | rejected {e} : env.patchAt loc pError allocs = .error e →
      ForceResult env forced W loc pError allocs (.error e) forced W
  /-- The kernel does not open the area. -/
  | refused {patch} : env.patchAt loc pError allocs = .ok patch →
      env.mprotectGrants W.calls .readWriteExec = false →
      ForceResult env forced W loc pError allocs
        (.error (.threw (.runtimeError "Failed to mprotect"))) forced (W.refused env)
  /-- The patch is in place, and the map has a new entry. -/
  | installed {patch} : env.patchAt loc pError allocs = .ok patch →
      env.mprotectGrants W.calls .readWriteExec = true → allocs.node = true → loc ∉ forced →
      ForceResult env forced W loc pError allocs (.ok ())
        (forced.insert loc (patch.forced W.memory)) (patch.applied env W)
  /-- The map has no node for the patch, or has the key already: the patch
  was in place, and its destructor has run. -/
  | withdrawn {patch o W'} : env.patchAt loc pError allocs = .ok patch →
      env.mprotectGrants W.calls .readWriteExec = true →
      (allocs.node = false ∧ o = .error (.threw .badAlloc) ∨
        allocs.node = true ∧ loc ∈ forced ∧ o = .ok ()) →
      (patch.forced W.memory).destroy env (patch.applied env W) = (.ok (), W') →
      ForceResult env forced W loc pError allocs o forced W'
  /-- The kernel does not open the area again for the destructor. -/
  | terminated {patch W'} : env.patchAt loc pError allocs = .ok patch →
      env.mprotectGrants W.calls .readWriteExec = true →
      (allocs.node = false ∨ loc ∈ forced) →
      (patch.forced W.memory).destroy env (patch.applied env W) = (.error .terminated, W') →
      ForceResult env forced W loc pError allocs (.error .terminated) forced W'

namespace Impl

theorem emplace_result {env : Env w} {F : Impl w} {W : World w} {loc : Addr w}
    {pError : ExceptionPtr} {allocs : Allocs w} {patch : Patch w} {o : Outcome Unit} {F' : Impl w}
    {W' : World w} (hpatch : env.patchAt loc pError allocs = .ok patch)
    (hg : env.mprotectGrants W.calls .readWriteExec = true)
    (h : F.emplace env loc (patch.forced W.memory) allocs (patch.applied env W) = (o, F', W')) :
    ForceResult env F.forcedExceptions W loc pError allocs o F'.forcedExceptions W' := by
  rcases hd : (patch.forced W.memory).destroy env (patch.applied env W) with ⟨o₁, W₁⟩
  have hout := ForcedException.destroy_outcome hd
  unfold emplace at h
  cases hn : allocs.node with
  | false =>
    rw [if_pos hn, hd] at h
    rcases hout with rfl | rfl
    · cases h
      exact .withdrawn hpatch hg (Or.inl ⟨hn, rfl⟩) hd
    · cases h
      exact .terminated hpatch hg (Or.inl hn) hd
  | true =>
    rw [if_neg (by simp [hn])] at h
    by_cases hmem : loc ∈ F.forcedExceptions
    · have hnode : (patch.forced W.memory).move.1 = patch.forced W.memory := rfl
      simp only [if_pos hmem, ForcedException.destroy_moved, hnode, hd] at h
      rcases hout with rfl | rfl
      · cases h
        exact .withdrawn hpatch hg (Or.inr ⟨hn, hmem, rfl⟩) hd
      · cases h
        exact .terminated hpatch hg (Or.inr hmem) hd
    · simp only [if_neg hmem, ForcedException.destroy_moved] at h
      cases h
      exact .installed hpatch hg hn hmem

/-- Every call of `ForceException` ends in one of these ways, whatever the
forcer did before. The allocator does not give out a pointer in use. -/
theorem forceException_result {env : Env w} {F : Impl w} {W : World w} {loc : Addr w}
    {pError : ExceptionPtr} {allocs : Allocs w} {o : Outcome Unit} {F' : Impl w} {W' : World w}
    (hF : F.Ready env) (hfresh : ∀ p, allocs.exceptionPtr = some p → W.heap p = none)
    (h : F.forceException env loc pError allocs W = (o, F', W')) :
    ForceResult env F.forcedExceptions W loc pError allocs o F'.forcedExceptions W' := by
  obtain ⟨elf, r, forced⟩ := F
  obtain ⟨hcached, rfl⟩ := hF
  obtain ⟨v, hv⟩ : ∃ v, env.patchAt loc pError allocs = v := ⟨_, rfl⟩
  have hpatch := hv
  unfold Env.patchAt Env.throwInfoAt at hpatch
  unfold forceException at h
  rw [← Env.resolver] at *
  cases hinfo : env.throwInfos.find? fun throwInfo => throwInfo.throwAddr = loc with
  | none =>
    simp only [hinfo] at h hpatch
    cases h
    exact .rejected (hv.trans hpatch.symm)
  | some throwInfo =>
    have haddr : throwInfo.throwAddr = loc := by simpa using List.find?_some hinfo
    simp only [hinfo, haddr, hcached.getContainingFunction] at h hpatch
    rw [← Env.functionAt] at h
    cases hat : env.functionAt loc with
    | error e =>
      simp only [hat] at h hpatch
      cases h
      exact .rejected (hv.trans hpatch.symm)
    | ok containingFn =>
      simp only [hat] at h hpatch
      cases herr : errorToThrow throwInfo pError with
      | error e =>
        simp only [herr] at h hpatch
        cases h
        exact .rejected (hv.trans hpatch.symm)
      | ok error =>
        simp only [herr, ForcedException.construct_eq hfresh] at h hpatch
        cases hprep : preparePatch env containingFn error env.resolver allocs with
        | error e =>
          simp only [hprep] at h hpatch
          cases h
          exact .rejected (hv.trans hpatch.symm)
        | ok patch =>
          simp only [hprep] at h hpatch
          subst hpatch
          cases hg : env.mprotectGrants W.calls .readWriteExec with
          | true =>
            simp only [hg, if_true] at h
            have hres := emplace_result hv hg h
            exact hres
          | false =>
            simp only [hg, if_false, Bool.false_eq_true] at h
            cases h
            exact .refused hv hg

end Impl

end eforce
