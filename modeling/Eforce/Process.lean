-- A process with forcers. All forcers patch one code memory, and each keeps
-- its own map. Seen from the code, a call installs a patch or removes some,
-- and nothing else happens.
import Eforce.ExceptionForcer
import Eforce.OpcodeGeneratorX64
import Mathlib.Data.List.Sort

namespace eforce

open byte_memory

variable {ι : Type} [DecidableEq ι] {w : Nat}

/-- A call of a forcer. `ForceException(loc)` is the call with a null
exception. -/
inductive Op (w : Nat)
  | getExceptions
  | forceException (loc : Addr w) (pError : ExceptionPtr) (allocs : Allocs w)
  | unforceException (loc : Addr w)
  | destroy (order : DestroyOrder)

/-- The allocator gives the call a pointer that is not in use. -/
def Op.Fresh (op : Op w) (W : World w) : Prop :=
  match op with
  | .forceException _ _ allocs => ∀ p ∈ allocs.exceptionPtr, W.heap p = none
  | _ => True

/-- An unforce takes no pointer. -/
theorem Op.fresh_unforce (loc : Addr w) (W : World w) : (Op.unforceException loc).Fresh W := trivial

instance Op.decidableFresh : (op : Op w) → (W : World w) → Decidable (op.Fresh W)
  | .forceException _ _ allocs, _ => Option.decidableForallMem allocs.exceptionPtr
  | .getExceptions, _ => .isTrue trivial
  | .unforceException _, _ => .isTrue trivial
  | .destroy _, _ => .isTrue trivial

/-- The forcers that live, and the world that they share. -/
structure Process (ι : Type) (w : Nat) where
  forcers : ι → Option (Impl w)
  world : World w

namespace Process

def set (P : Process ι w) (i : ι) (F : Option (Impl w)) (W : World w) : Process ι w :=
  { forcers := Function.update P.forcers i F, world := W }

/-- Forcer `i` takes a call. A call of a dead forcer is undefined. -/
def step (env : Env w) (P : Process ι w) (i : ι) (op : Op w) : Outcome Unit × Process ι w :=
  match P.forcers i with
  | none => (.error .undefined, P)
  | some F =>
    match op with
    | .getExceptions =>
      match F.getExceptions env with
      | (o, F) => (o.map fun _ => (), P.set i (some F) P.world)
    | .forceException loc pError allocs =>
      match F.forceException env loc pError allocs P.world with
      | (o, F, W) => (o, P.set i (some F) W)
    | .unforceException loc =>
      match F.unforceException env loc P.world with
      | (o, F, W) => (o, P.set i (some F) W)
    | .destroy order =>
      match F.destroy env order P.world with
      | (o, W) => (o, P.set i none W)

/-- The calls of a list, one after the other. -/
def runCalls (env : Env w) (P : Process ι w) :
    List (ι × Op w) → List (Outcome Unit) × Process ι w
  | [] => ([], P)
  | (i, op) :: rest =>
    match P.step env i op with
    | (o, P) =>
      match runCalls env P rest with
      | (os, P) => (o :: os, P)

/-- The calls of the list take fresh pointers, and come to an end. -/
def Plays (env : Env w) (P : Process ι w) : List (ι × Op w) → Prop
  | [] => True
  | (i, op) :: rest =>
    op.Fresh P.world ∧ (P.step env i op).1.Completes ∧ Plays env (P.step env i op).2 rest

instance decidablePlays (env : Env w) (P : Process ι w) :
    (calls : List (ι × Op w)) → Decidable (P.Plays env calls)
  | [] => inferInstanceAs (Decidable True)
  | (i, op) :: rest =>
    have := decidablePlays env (P.step env i op).2 rest
    inferInstanceAs (Decidable (_ ∧ _ ∧ _))

/-- A process at its start: every forcer is new. -/
def start (env : Env w) (W : World w) : Process ι w where
  forcers := fun _ => some (Impl.construct env)
  world := W

def Ready (env : Env w) (P : Process ι w) : Prop := ∀ i F, P.forcers i = some F → F.Ready env

end Process

/-! ## The patches of a process -/

/-- What the calls of the forcers change for the code: its bytes, the live
exception pointers, and which forcer holds which patch at which location. -/
structure Patches (ι : Type) (w : Nat) where
  memory : Memory w
  heap : Addr w → Option ExceptionPtr
  held : ι × Addr w → Option (ForcedException w)

namespace Patches

/-- A patch goes in, over what is there. -/
def install (V : Patches ι w) (k : ι × Addr w) (patch : Patch w) : Patches ι w where
  memory := write V.memory patch.fnStart patch.code
  heap := Function.update V.heap patch.pError (some patch.error)
  held := Function.update V.held k (some (patch.forced V.memory))

/-- A patch goes out, and what it saved comes back. -/
def remove (V : Patches ι w) (k : ι × Addr w) : Patches ι w :=
  match V.held k with
  | none => V
  | some X => {
      memory := write V.memory X.fnStart X.originalData
      heap := match X.pException with
        | none => V.heap
        | some p => Function.update V.heap p none
      held := Function.update V.held k none }

theorem remove_of_none {V : Patches ι w} {k : ι × Addr w} (h : V.held k = none) :
    V.remove k = V := by
  simp [remove, h]

theorem held_remove (V : Patches ι w) (k : ι × Addr w) :
    (V.remove k).held = Function.update V.held k none := by
  unfold remove
  cases h : V.held k with
  | none => simp [← h]
  | some X => rfl

/-- What is held behind some removals was held before. -/
theorem held_of_removals {V : Patches ι w} {ks : List (ι × Addr w)} {k : ι × Addr w}
    {X : ForcedException w} (h : (ks.foldl remove V).held k = some X) : V.held k = some X := by
  induction ks generalizing V with
  | nil => exact h
  | cons k' ks ih =>
    have hk := ih h
    rw [held_remove] at hk
    by_cases he : k = k'
    · subst he
      simp at hk
    · rwa [Function.update_of_ne he] at hk

end Patches

namespace Process

def patches (P : Process ι w) : Patches ι w where
  memory := P.world.memory
  heap := P.world.heap
  held := fun k => (P.forcers k.1).bind fun F => F.forcedExceptions[k.2]?

/-- The patches that a call takes out, in the order of its doing. -/
def removals (P : Process ι w) (i : ι) : Op w → List (ι × Addr w)
  | .unforceException loc => [(i, loc)]
  | .destroy order =>
    match P.forcers i with
    | none => []
    | some F => (order.entries F.forcedExceptions.toList).map fun e => (i, e.1)
  | _ => []

omit [DecidableEq ι] in
theorem held_of_forcer {P : Process ι w} {i : ι} {F : Impl w} (h : P.forcers i = some F)
    (loc : Addr w) : P.patches.held (i, loc) = F.forcedExceptions[loc]? := by
  simp [patches, h]

/-- The maps of the other forcers are not touched. -/
theorem held_set (P : Process ι w) (i : ι) (F : Option (Impl w)) (W : World w)
    (k : ι × Addr w) : (P.set i F W).patches.held k =
      if k.1 = i then F.bind fun F => F.forcedExceptions[k.2]? else P.patches.held k := by
  by_cases hk : k.1 = i
  · simp [set, patches, hk]
  · simp [set, patches, hk]

theorem ready_set {env : Env w} {P : Process ι w} {i : ι} {F : Option (Impl w)} {W : World w}
    (hP : P.Ready env) (hF : ∀ F', F = some F' → F'.Ready env) : (P.set i F W).Ready env := by
  intro j F' hj
  by_cases hij : j = i
  · subst hij
    exact hF F' (by simpa [set] using hj)
  · exact hP j F' (by simpa [set, hij] using hj)

/-- A call that keeps the map, the code and the heap keeps the patches. -/
theorem patches_set_same {P : Process ι w} {i : ι} {F F' : Impl w} {W : World w}
    (hi : P.forcers i = some F) (hm : F'.forcedExceptions = F.forcedExceptions)
    (hmem : W.memory = P.world.memory) (hheap : W.heap = P.world.heap) :
    (P.set i (some F') W).patches = P.patches := by
  have hheld : (P.set i (some F') W).patches.held = P.patches.held := by
    funext k
    rw [held_set]
    split
    · rename_i hk
      obtain ⟨j, loc⟩ := k
      subst hk
      simp [hm, held_of_forcer hi]
    · rfl
  have h : (P.set i (some F') W).patches = ⟨W.memory, W.heap, P.patches.held⟩ := by
    rw [← hheld]
    rfl
  rw [h, hmem, hheap]
  rfl

end Process

/-! ## What a lookup and a list do -/

theorem Impl.ready_listExceptions {env : Env w} {F : Impl w} (hF : F.Ready env)
    (infos : List (ThrowInfo w)) : (F.listExceptions env infos).2.Ready env ∧
      (F.listExceptions env infos).2.forcedExceptions = F.forcedExceptions := by
  induction infos generalizing F with
  | nil => exact ⟨hF, rfl⟩
  | cons throwInfo rest ih =>
    have hload := ih hF.load
    unfold Impl.listExceptions
    rw [hF.cached.getContainingFunction]
    cases hfn : containingFunction env.toElfEnv env.sortedFunctions
        (F.offsetResolver.toOffset throwInfo.throwAddr) with
    | error e => exact ⟨hF.load, rfl⟩
    | ok func =>
      simp only
      rcases hl : ({ F with elf := F.elf.load env.toElfEnv } : Impl w).listExceptions env rest
        with ⟨o, F'⟩
      rw [hl] at hload
      cases o <;> exact hload

/-! ## What a destructor does -/

theorem Impl.destroyEntries_outcome {env : Env w} {Xs : List (ForcedException w)} {W W' : World w}
    {o : Outcome Unit} (h : Impl.destroyEntries env Xs W = (o, W')) :
    o = .ok () ∨ o = .error .terminated := by
  induction Xs generalizing W with
  | nil =>
    cases h
    exact Or.inl rfl
  | cons X Xs ih =>
    unfold Impl.destroyEntries at h
    rcases hd : X.destroy env W with ⟨o₁, W₁⟩
    rcases ForcedException.destroy_outcome hd with rfl | rfl
    · simp only [hd] at h
      exact ih h
    · simp only [hd] at h
      cases h
      exact Or.inr rfl

namespace Patches

/-- A destructor that returns takes its patch out. -/
theorem remove_of_destroy {V : Patches ι w} {k : ι × Addr w} {X : ForcedException w} {env : Env w}
    {W W' : World w} (hk : V.held k = some X) (hm : V.memory = W.memory) (hh : V.heap = W.heap)
    (h : X.destroy env W = (.ok (), W')) :
    V.remove k = ⟨W'.memory, W'.heap, Function.update V.held k none⟩ := by
  obtain ⟨hmem, hheap⟩ := ForcedException.destroy_ok h
  unfold remove
  simp only [hk, hmem, hheap, hm, hh]
  cases X.pException <;> rfl

/-- The entries of a map, one after the other, in any order. -/
theorem remove_of_destroyEntries {env : Env w} {i : ι} {es : List (Addr w × ForcedException w)}
    {V : Patches ι w} {W W' : World w} (hnd : (es.map (·.1)).Nodup)
    (hes : ∀ e ∈ es, V.held (i, e.1) = some e.2) (hm : V.memory = W.memory) (hh : V.heap = W.heap)
    (h : Impl.destroyEntries env (es.map (·.2)) W = (.ok (), W')) :
    (es.map fun e => (i, e.1)).foldl remove V =
      ⟨W'.memory, W'.heap, fun k => if k ∈ es.map (fun e => (i, e.1)) then none else V.held k⟩ := by
  induction es generalizing V W with
  | nil =>
    cases h
    simp [← hm, ← hh]
  | cons e es ih =>
    obtain ⟨loc, X⟩ := e
    simp only [List.map_cons, List.nodup_cons] at hnd
    simp only [List.map_cons, Impl.destroyEntries] at h
    rcases hd : X.destroy env W with ⟨_ | _, W₁⟩
    · simp [hd] at h
    simp only [hd] at h
    have hX : V.held (i, loc) = some X := hes _ List.mem_cons_self
    rw [List.map_cons, List.foldl_cons, remove_of_destroy hX hm hh hd]
    rw [ih hnd.2 ?_ rfl rfl h]
    · congr 1
      funext k
      by_cases hk : k = (i, loc)
      · simp [hk]
      · simp only [Function.update_of_ne hk, List.mem_cons, hk, false_or]
    · intro e he
      have hne : e.1 ≠ loc := fun h => hnd.1 (h ▸ List.mem_map_of_mem he)
      simpa [hne] using hes e (List.mem_cons_of_mem _ he)

end Patches

/-! ## What a step can do -/

namespace Process

/-- The ways of a call of forcer `i`: how it ends, and what is behind it. -/
inductive StepResult (env : Env w) (P : Process ι w) (i : ι) :
    Op w → Outcome Unit → Process ι w → Prop
  | dead {op} : P.forcers i = none → StepResult env P i op (.error .undefined) P
  | listed {F} : P.forcers i = some F →
      StepResult env P i .getExceptions ((F.getExceptions env).1.map fun _ => ())
        (P.set i (some (F.getExceptions env).2) P.world)
  | forced {F F' loc pError allocs o W'} : P.forcers i = some F →
      ForceResult env F.forcedExceptions P.world loc pError allocs o F'.forcedExceptions W' →
      StepResult env P i (.forceException loc pError allocs) o (P.set i (some F') W')
  /-- There is nothing to give up. -/
  | idle {F loc} : P.forcers i = some F → F.forcedExceptions[loc]? = none →
      StepResult env P i (.unforceException loc) (.ok ()) (P.set i (some F) P.world)
  | unforced {F loc X o W'} : P.forcers i = some F → F.forcedExceptions[loc]? = some X →
      X.destroy env P.world = (o, W') →
      StepResult env P i (.unforceException loc) o
        (P.set i (some { F with forcedExceptions := F.forcedExceptions.erase loc }) W')
  | destroyed {F order o W'} : P.forcers i = some F →
      Impl.destroyEntries env ((order.entries F.forcedExceptions.toList).map (·.2)) P.world =
        (o, W') →
      StepResult env P i (.destroy order) o (P.set i none W')

theorem step_result {env : Env w} {P P' : Process ι w} {i : ι} {op : Op w} {o : Outcome Unit}
    (hP : P.Ready env) (hop : op.Fresh P.world) (h : P.step env i op = (o, P')) :
    StepResult env P i op o P' := by
  unfold step at h
  cases hi : P.forcers i with
  | none =>
    simp only [hi] at h
    cases h
    exact .dead hi
  | some F =>
    simp only [hi] at h
    cases op with
    | getExceptions =>
      cases h
      exact .listed hi
    | forceException loc pError allocs =>
      rcases hf : F.forceException env loc pError allocs P.world with ⟨o', F', W'⟩
      simp only [hf] at h
      cases h
      exact .forced hi (Impl.forceException_result (hP i F hi) hop hf)
    | unforceException loc =>
      unfold Impl.unforceException at h
      cases hloc : F.forcedExceptions[loc]? with
      | none =>
        simp only [hloc] at h
        cases h
        exact .idle hi hloc
      | some X =>
        rcases hd : X.destroy env P.world with ⟨o', W'⟩
        simp only [hloc, hd] at h
        cases h
        exact .unforced hi hloc hd
    | destroy order =>
      rcases hd : F.destroy env order P.world with ⟨o', W'⟩
      simp only [hd] at h
      cases h
      exact .destroyed hi hd

theorem step_ready {env : Env w} {P P' : Process ι w} {i : ι} {op : Op w} {o : Outcome Unit}
    (hP : P.Ready env) (h : P.step env i op = (o, P')) : P'.Ready env := by
  unfold step at h
  cases hi : P.forcers i with
  | none =>
    simp only [hi] at h
    cases h
    exact hP
  | some F =>
    have hF := hP i F hi
    simp only [hi] at h
    cases op with
    | getExceptions =>
      cases h
      exact ready_set hP fun F' hF' => Option.some.inj hF' ▸ (Impl.ready_listExceptions hF _).1
    | forceException loc pError allocs =>
      cases h
      exact ready_set hP fun _ hF' => Option.some.inj hF' ▸ hF.forceException _ _ _ _
    | unforceException loc =>
      cases h
      refine ready_set hP fun F' hF' => Option.some.inj hF' ▸ ?_
      unfold Impl.unforceException
      cases F.forcedExceptions[loc]? with
      | none => exact hF
      | some X => exact hF.forced _
    | destroy order =>
      cases h
      exact ready_set hP fun F' hF' => by cases hF'

/-- The forcer `i` has another map, and the maps of the others stay. -/
theorem patches_set {P : Process ι w} {i : ι} {F F' : Impl w} {W : World w}
    {f : Option (ForcedException w)} {loc : Addr w} (hi : P.forcers i = some F)
    (hloc : F'.forcedExceptions[loc]? = f)
    (hne : ∀ loc' ≠ loc, F'.forcedExceptions[loc']? = F.forcedExceptions[loc']?) :
    (P.set i (some F') W).patches =
      ⟨W.memory, W.heap, Function.update P.patches.held (i, loc) f⟩ := by
  have hheld : (P.set i (some F') W).patches.held =
      Function.update P.patches.held (i, loc) f := by
    funext k
    obtain ⟨j, loc'⟩ := k
    rw [held_set]
    by_cases hj : j = i
    · subst hj
      by_cases hl : loc' = loc
      · subst hl
        simp [hloc]
      · simp [hl, hne loc' hl, held_of_forcer hi]
    · simp [hj]
  rw [← hheld]
  rfl

/-- What a force does to the patches, when it comes to an end. -/
theorem patches_of_forceResult {env : Env w} {P : Process ι w} {i : ι} {F F' : Impl w}
    {loc : Addr w} {pError : ExceptionPtr} {allocs : Allocs w} {o : Outcome Unit} {W' : World w}
    (hi : P.forcers i = some F) (hfresh : ∀ p, allocs.exceptionPtr = some p → P.world.heap p = none)
    (h : ForceResult env F.forcedExceptions P.world loc pError allocs o F'.forcedExceptions W')
    (ho : o.Completes) :
    ((P.set i (some F') W').patches = P.patches ∧
        (o = .ok () → P.patches.held (i, loc) ≠ none)) ∨
      ∃ patch, env.patchAt loc pError allocs = .ok patch ∧ P.patches.held (i, loc) = none ∧
        o = .ok () ∧ (P.set i (some F') W').patches = P.patches.install (i, loc) patch := by
  generalize hm : F'.forcedExceptions = m at h
  cases h with
  | rejected => exact Or.inl ⟨patches_set_same hi hm rfl rfl, fun he => by cases he⟩
  | refused => exact Or.inl ⟨patches_set_same hi hm rfl rfl, fun he => by cases he⟩
  | @withdrawn patch _ _ hpatch _ hwhy hd =>
    obtain ⟨hmem, hheap⟩ := Env.patchAt_taken_back hpatch hfresh hd
    refine Or.inl ⟨patches_set_same hi hm hmem hheap, fun he => ?_⟩
    rcases hwhy with ⟨-, rfl⟩ | ⟨-, hin, -⟩
    · cases he
    · rw [held_of_forcer hi]
      exact Option.isSome_iff_ne_none.1 (Std.ExtTreeMap.isSome_getElem?_iff_mem.2 hin)
  | terminated => exact ho.elim
  | @installed patch hpatch _ _ hnot =>
    refine Or.inr ⟨patch, hpatch, ?_, rfl, ?_⟩
    · rw [held_of_forcer hi]
      exact Std.ExtTreeMap.getElem?_eq_none hnot
    · have hloc : F'.forcedExceptions[loc]? = some (patch.forced P.world.memory) := by
        rw [hm, Std.ExtTreeMap.getElem?_insert_self]
      rw [patches_set hi hloc]
      · rfl
      · intro loc' hne
        simp [hm, Std.ExtTreeMap.getElem?_insert, Ne.symm hne]

/-- The destructor of a forcer takes its patches out. -/
theorem patches_of_destroy {env : Env w} {P : Process ι w} {i : ι} {F : Impl w} {W' : World w}
    {order : DestroyOrder} (hi : P.forcers i = some F)
    (h : F.destroy env order P.world = (.ok (), W')) :
    (P.set i none W').patches =
      (P.removals i (.destroy order)).foldl Patches.remove P.patches := by
  have hr : P.removals i (.destroy order) =
      (order.entries F.forcedExceptions.toList).map fun e => (i, e.1) := by
    simp [removals, hi]
  have hperm := order.entries_perm F.forcedExceptions.toList
  rw [hr, Patches.remove_of_destroyEntries ?_ ?_ rfl rfl h]
  · have hmk : (P.set i none W').patches =
        ⟨W'.memory, W'.heap, (P.set i none W').patches.held⟩ := rfl
    rw [hmk]
    congr 1
    funext k
    obtain ⟨j, loc⟩ := k
    rw [held_set]
    by_cases hj : j = i
    · subst hj
      rw [held_of_forcer hi]
      cases hloc : F.forcedExceptions[loc]? with
      | none => simp
      | some X =>
        have hentry := Std.ExtTreeMap.mem_toList_iff_getElem?_eq_some.2 hloc
        have hmem : (j, loc) ∈ (order.entries F.forcedExceptions.toList).map fun e => (j, e.1) :=
          List.mem_map.2 ⟨(loc, X), hperm.mem_iff.2 hentry, rfl⟩
        rw [if_pos hmem]
        simp
    · simp [hj, Ne.symm hj]
  · rw [(hperm.map _).nodup_iff, Std.ExtTreeMap.map_fst_toList_eq_keys]
    exact Std.ExtTreeMap.nodup_keys
  · intro e he
    rw [held_of_forcer hi]
    exact Std.ExtTreeMap.mem_toList_iff_getElem?_eq_some.1 (hperm.mem_iff.1 he)

/-- A force that comes to an end installs its patch, or leaves the patches as
they were. It returns in the second case only when the location is forced. -/
theorem step_force {env : Env w} {P P' : Process ι w} {i : ι} {loc : Addr w}
    {pError : ExceptionPtr} {allocs : Allocs w} {o : Outcome Unit} (hP : P.Ready env)
    (hop : (Op.forceException loc pError allocs).Fresh P.world)
    (h : P.step env i (.forceException loc pError allocs) = (o, P')) (ho : o.Completes) :
    (P'.patches = P.patches ∧ (o = .ok () → P.patches.held (i, loc) ≠ none)) ∨
      ∃ patch, env.patchAt loc pError allocs = .ok patch ∧ P.patches.held (i, loc) = none ∧
        o = .ok () ∧ P'.patches = P.patches.install (i, loc) patch := by
  cases step_result hP hop h with
  | dead => exact ho.elim
  | forced hi hforce => exact patches_of_forceResult hi hop hforce ho

/-- An unforce that comes to an end takes the patch of its location out. -/
theorem step_unforce {env : Env w} {P P' : Process ι w} {i : ι} {loc : Addr w}
    {o : Outcome Unit} (hP : P.Ready env) (h : P.step env i (.unforceException loc) = (o, P'))
    (ho : o.Completes) : P'.patches = P.patches.remove (i, loc) := by
  cases step_result hP (Op.fresh_unforce loc _) h with
  | dead => exact ho.elim
  | idle hi hloc =>
    have hk : P.patches.held (i, loc) = none := by rw [held_of_forcer hi, hloc]
    rw [patches_set_same hi rfl rfl rfl]
    exact (Patches.remove_of_none hk).symm
  | @unforced _ _ X _ _ hi hloc hd =>
    rcases ForcedException.destroy_outcome hd with rfl | rfl
    · have hk : P.patches.held (i, loc) = some X := by rw [held_of_forcer hi, hloc]
      rw [Patches.remove_of_destroy hk rfl rfl hd]
      refine patches_set hi (by simp) fun loc' hne => ?_
      simp [Std.ExtTreeMap.getElem?_erase, Ne.symm hne]
    · exact ho.elim

/-- Every call that comes to an end installs one patch that was not there, or
takes out those that it is to take out. -/
theorem step_patches {env : Env w} {P P' : Process ι w} {i : ι} {op : Op w} {o : Outcome Unit}
    (hP : P.Ready env) (hop : op.Fresh P.world) (h : P.step env i op = (o, P'))
    (ho : o.Completes) :
    P'.patches = (P.removals i op).foldl Patches.remove P.patches ∨
      ∃ loc pError allocs patch, op = .forceException loc pError allocs ∧
        env.patchAt loc pError allocs = .ok patch ∧ P.patches.held (i, loc) = none ∧
        o = .ok () ∧ P'.patches = P.patches.install (i, loc) patch := by
  have hstep := h
  cases step_result hP hop h with
  | dead => exact ho.elim
  | listed hi =>
    exact Or.inl (patches_set_same hi (Impl.ready_listExceptions (hP i _ hi) _).2 rfl rfl)
  | forced =>
    rcases step_force hP hop hstep ho with ⟨hsame, -⟩ | ⟨patch, hpatch, hnone, hok, hin⟩
    · exact Or.inl hsame
    · exact Or.inr ⟨_, _, _, patch, rfl, hpatch, hnone, hok, hin⟩
  | idle => exact Or.inl (step_unforce hP hstep ho)
  | unforced => exact Or.inl (step_unforce hP hstep ho)
  | destroyed hi hd =>
    rcases Impl.destroyEntries_outcome hd with rfl | rfl
    · exact Or.inl (patches_of_destroy hi hd)
    · exact ho.elim

/-- What the entry of every patch has, the held ones keep having. -/
theorem held_step {env : Env w} {P P' : Process ι w} {i : ι} {op : Op w} {o : Outcome Unit}
    {q : ForcedException w → Prop} (hP : P.Ready env) (hop : op.Fresh P.world)
    (hs : P.step env i op = (o, P')) (ho : o.Completes)
    (hnew : ∀ loc pError allocs patch, op = .forceException loc pError allocs →
      env.patchAt loc pError allocs = .ok patch → q (patch.forced P.world.memory))
    (h : ∀ k X, P.patches.held k = some X → q X) : ∀ k X, P'.patches.held k = some X → q X := by
  intro k X hX
  rcases step_patches hP hop hs ho with
    hrem | ⟨loc, pError, allocs, patch, hforce, hpatch, -, -, hin⟩
  · rw [hrem] at hX
    exact h k X (Patches.held_of_removals hX)
  · rw [hin] at hX
    simp only [Patches.install] at hX
    by_cases hk : k = (i, loc)
    · rw [hk, Function.update_self, Option.some.injEq] at hX
      subst hX
      exact hnew _ _ _ _ hforce hpatch
    · rw [Function.update_of_ne hk] at hX
      exact h k X hX

end Process

/-! ## The maps -/

namespace Process

/-- `m_forcedExceptions` of each forcer that lives. -/
def maps (P : Process ι w) (i : ι) : Option (ForcedExceptions w) :=
  (P.forcers i).map (·.forcedExceptions)

/-- Only a destructor ends a forcer. -/
theorem step_alive {env : Env w} {P P' : Process ι w} {i : ι} {op : Op w} {o : Outcome Unit}
    (h : P.step env i op = (o, P')) (hop : ∀ order, op ≠ .destroy order) (j : ι) :
    (P'.forcers j).isSome = (P.forcers j).isSome := by
  have hset : ∀ F F' W, P.forcers i = some F →
      ((P.set i (some F') W).forcers j).isSome = (P.forcers j).isSome := by
    intro F F' W hi
    by_cases hj : j = i
    · subst hj
      simp [set, hi]
    · simp [set, hj]
  unfold step at h
  cases hi : P.forcers i with
  | none =>
    simp only [hi] at h
    cases h
    rfl
  | some F =>
    simp only [hi] at h
    cases op with
    | getExceptions =>
      cases h
      exact hset F _ _ hi
    | forceException loc pError allocs =>
      cases h
      exact hset F _ _ hi
    | unforceException loc =>
      cases h
      exact hset F _ _ hi
    | destroy order => exact absurd rfl (hop order)

omit [DecidableEq ι] in
/-- The patches tell the maps of the forcers that live. -/
theorem maps_eq {P P' : Process ι w} {i : ι}
    (halive : (P'.forcers i).isSome = (P.forcers i).isSome)
    (h : P'.patches.held = P.patches.held) : P'.maps i = P.maps i := by
  unfold maps
  cases hi : P.forcers i with
  | none => simpa [hi] using halive
  | some F =>
    obtain ⟨F', hi'⟩ := Option.isSome_iff_exists.1 (halive.trans (by simp [hi]))
    rw [hi']
    simp only [Option.map_some, Option.some.injEq]
    apply Std.ExtTreeMap.ext_getElem?
    intro loc
    rw [← held_of_forcer hi, ← held_of_forcer hi', h]

end Process

/-! ## A small program -/

/-- A sort by value that can be run. -/
def sortByValue (l : List (Asymbol w)) : List (Asymbol w) :=
  l.insertionSort fun a b => a.value ≤ b.value

theorem sortByValue_perm (l : List (Asymbol w)) : (sortByValue l).Perm l :=
  List.perm_insertionSort _ l

theorem sortByValue_sorted (l : List (Asymbol w)) :
    (sortByValue l).Pairwise fun a b => ¬ b.value < a.value := by
  have : Std.Total fun a b : Asymbol w => a.value ≤ b.value := ⟨fun a b => BitVec.le_total _ _⟩
  have : IsTrans (Asymbol w) fun a b => a.value ≤ b.value := ⟨fun a b c => BitVec.le_trans⟩
  exact (List.pairwise_insertionSort (fun a b : Asymbol w => a.value ≤ b.value) l).imp
    fun h => BitVec.not_lt.2 h

/-- The lookups of a program with these symbols, none of them mangled. -/
def ElfEnv.ofSymtab (symtab : List (Asymbol w)) : ElfEnv w where
  symtab := symtab
  sort := sortByValue
  sort_perm := sortByValue_perm
  sort_sorted := sortByValue_sorted
  demangle := some

def sampleText : Asection 64 := { filepos := 0x1000 }

def sampleF : Asymbol 64 := ⟨"f", 0x0, sampleText, 0x8⟩

def sampleG : Asymbol 64 := ⟨"g", 0x40, sampleText, 0x8⟩

/-- Two functions with 64 bytes each, the end of the code, two throws in the
first function and one in the second. -/
def sample : Env 64 where
  toElfEnv := .ofSymtab [sampleF, ⟨"end", 0x80, sampleText, 0x8⟩, sampleG]
  throwInfos := [⟨0x401010, "f.cpp", 3, "F(1)", some (.ok (some 1))⟩,
    ⟨0x401020, "f.cpp", 4, "F(2)", some (.ok (some 2))⟩, ⟨0x401050, "g.cpp", 9, "G(x)", none⟩]
  generator := OpcodeGeneratorX64
  throwFn := 0x402000
  progStartAddr := 0x400000
  executableArea := ⟨0x400000, 0x403000⟩
  mprotectGrants _ _ := true

def forceFirst : Op 64 := .forceException 0x401010 none { exceptionPtr := some 0x7000 }

def forceSecond : Op 64 := .forceException 0x401020 none { exceptionPtr := some 0x7010 }

def sampleWorld : World w where
  memory := fun _ => 0x90
  heap := fun _ => none
  protection := .readExec
  calls := 0
  trace := []

end eforce
