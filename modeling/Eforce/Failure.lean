-- What a failed call leaves behind. A force that throws has left the code, its
-- protection and the maps alone. A restore that fails ends the process, since
-- it runs in a destructor.
import Eforce.Listing
import Eforce.Protection
import Eforce.WriteArea

namespace eforce

open byte_memory

variable {ι : Type} {w : Nat}

/-! ## A force that throws -/

/-- There was no patch, or the area stayed closed, or the patch was taken back
when the map had no node for it. -/
theorem forceResult_threw {env : Env w} {forced forced' : ForcedExceptions w} {W W' : World w}
    {loc : Addr w} {pError : ExceptionPtr} {allocs : Allocs w} {e : Error}
    (hfresh : ∀ p, allocs.exceptionPtr = some p → W.heap p = none)
    (h : ForceResult env forced W loc pError allocs (.error (.threw e)) forced' W') :
    forced' = forced ∧ W'.memory = W.memory ∧ W'.heap = W.heap := by
  cases h with
  | rejected => exact ⟨rfl, rfl, rfl⟩
  | refused => exact ⟨rfl, rfl, rfl⟩
  | withdrawn hpatch _ _ hd =>
    exact ⟨rfl, Env.patchAt_taken_back hpatch hfresh hd⟩

section

variable [DecidableEq ι]

/-- A force that throws changes no byte of the code, no protection, no map, and
no exception pointer, whichever of its steps failed. -/
theorem a_failed_force_changes_nothing {env : Env w} {W₀ : World w} {P P' : Process ι w}
    {L : Ledger ι w} {i : ι} {loc : Addr w} {pError : ExceptionPtr} {allocs : Allocs w}
    {e : Error} (hrx : ∀ n, env.mprotectGrants n .readExec = true)
    (hprot : W₀.protection = .readExec) (htrace : W₀.trace = [])
    (h : Run env (fun _ _ _ _ => True) (Process.start env W₀) Ledger.fresh P L)
    (hop : (Op.forceException loc pError allocs).Fresh P.world)
    (hs : P.step env i (.forceException loc pError allocs) = (.error (.threw e), P')) :
    P'.world.memory = P.world.memory ∧ P'.world.protection = P.world.protection ∧
      P'.maps = P.maps ∧ P'.world.heap = P.world.heap := by
  have hready := ready_start env W₀ (ι := ι)
  have hclosed := h.closed hrx hready (closed_start env hprot htrace)
  have hclosed' := closed_step hrx (h.ready hready) hop hclosed hs
  cases Process.step_result (h.ready hready) hop hs with
  | forced hi hres =>
    obtain ⟨hforced, hmem, hheap⟩ := forceResult_threw hop hres
    refine ⟨hmem, hclosed'.protection.trans hclosed.protection.symm, ?_, hheap⟩
    funext j
    by_cases hj : j = i
    · subst hj
      simp [Process.maps, Process.set, hi, hforced]
    · simp [Process.maps, Process.set, hj]

end

/-- The node of the second force cannot be allocated: its patch is in place by
then, and goes. -/
theorem a_failed_force_changes_nothing_sample :
    (firstForced.step sample () (.forceException 0x401050 (some 9)
      { exceptionPtr := some 0x7010, node := false })).2.world.memory =
        firstForced.world.memory := by
  have hop : (Op.forceException 0x401050 (some 9)
      { exceptionPtr := some 0x7010, node := false }).Fresh firstForced.world := by decide
  exact (a_failed_force_changes_nothing (i := ()) (fun _ => rfl) rfl rfl (run_firstForced trivial)
    hop rfl).1

/-! ## What the destructors ask for -/

/-- The numbers of the calls of `mprotect` by which the destructors of these
entries ask for write access, when `n` is the number of the next call. -/
def restoreCalls (n : Nat) : List (ForcedException w) → List Nat
  | [] => []
  | forced :: rest =>
    -- The call behind each of them closes the area again.
    if forced.originalData.isEmpty then restoreCalls n rest else n :: restoreCalls (n + 2) rest

/-- The same for the destructors that a call of forcer `i` runs: those of the
entries that it removes, and that of a patch that it has to take back. -/
def Process.restores [DecidableEq ι] (env : Env w) (P : Process ι w) (i : ι) (op : Op w) :
    List Nat :=
  match P.forcers i with
  | none => []
  | some F =>
    match op with
    | .getExceptions => []
    | .forceException loc pError allocs =>
      match env.patchAt loc pError allocs with
      | .error _ => []
      | .ok patch =>
        if env.mprotectGrants P.world.calls .readWriteExec = true ∧
            (allocs.node = false ∨ loc ∈ F.forcedExceptions) then
          restoreCalls (P.world.calls + 2) [patch.forced P.world.memory]
        else []
    | .unforceException loc => restoreCalls P.world.calls F.forcedExceptions[loc]?.toList
    | .destroy order =>
      restoreCalls P.world.calls ((order.entries F.forcedExceptions.toList).map (·.2))

/-- The destructors of some entries end the process exactly when one of their
requests is refused. -/
theorem destroyEntries_terminated_iff {env : Env w} {Xs : List (ForcedException w)}
    {W : World w} : (Impl.destroyEntries env Xs W).1 = .error .terminated ↔
      ∃ n ∈ restoreCalls W.calls Xs, env.mprotectGrants n .readWriteExec = false := by
  induction Xs generalizing W with
  | nil => simp [Impl.destroyEntries, restoreCalls]
  | cons X Xs ih =>
    unfold Impl.destroyEntries restoreCalls
    by_cases he : X.originalData = []
    · have hcalls : (W.delete X.pException).calls = W.calls := by cases X.pException <;> rfl
      rw [ForcedException.destroy_of_empty he]
      simp only [he, List.isEmpty_nil, if_true, ih, hcalls]
    have hne : X.originalData.isEmpty = false := by simpa using he
    cases hg : env.mprotectGrants W.calls .readWriteExec with
    | true =>
      have hcalls : ((W.patched env X.fnStart X.originalData).delete X.pException).calls =
          W.calls + 2 := by cases X.pException <;> rfl
      rw [ForcedException.destroy_of_granted he hg]
      simp [hne, ih, hcalls, hg]
    | false =>
      rw [ForcedException.destroy_of_refused he hg]
      simp [hne, hg]

theorem Patch.applied_calls (env : Env w) (patch : Patch w) (W : World w) :
    (patch.applied env W).calls = W.calls + 2 := rfl

theorem destroyEntries_singleton (env : Env w) (X : ForcedException w) (W : World w) :
    Impl.destroyEntries env [X] W = X.destroy env W := by
  unfold Impl.destroyEntries
  rcases X.destroy env W with ⟨_ | _, W'⟩ <;> rfl

theorem destroy_terminated_iff (env : Env w) (X : ForcedException w) (W : World w) :
    (X.destroy env W).1 = .error .terminated ↔
      ∃ n ∈ restoreCalls W.calls [X], env.mprotectGrants n .readWriteExec = false := by
  rw [← destroyEntries_singleton, destroyEntries_terminated_iff]

namespace Env

/-! A lookup throws or is undefined, but does not end the process. -/

theorem functionAt_ne_terminated (env : Env w) (loc : Addr w) :
    env.functionAt loc ≠ .error .terminated := by
  unfold functionAt containingFunction
  split
  · simp
  · split <;> simp

theorem patchAt_ne_terminated (env : Env w) (loc : Addr w) (pError : ExceptionPtr)
    (allocs : Allocs w) : env.patchAt loc pError allocs ≠ .error .terminated := by
  have hfn := env.functionAt_ne_terminated loc
  unfold patchAt
  split
  · simp
  cases hat : env.functionAt loc with
  | error e => simpa [hat] using hfn
  | ok containingFn =>
    dsimp only
    split
    · simp
    · split <;> simp

theorem listing_ne_terminated (env : Env w) (throwInfos : List (ThrowInfo w)) :
    env.listing throwInfos ≠ .error .terminated := by
  induction throwInfos with
  | nil => simp [listing]
  | cons throwInfo rest ih =>
    have hfn := env.functionAt_ne_terminated throwInfo.throwAddr
    unfold listing
    cases hat : env.functionAt throwInfo.throwAddr with
    | error e => simpa [hat] using hfn
    | ok func =>
      cases hrest : env.listing rest with
      | error e => simpa [hrest] using ih
      | ok infos => simp

end Env

section

variable [DecidableEq ι]

/-- A call ends the process exactly when one of its destructors asks for write
access and is refused. -/
theorem step_terminated_iff {env : Env w} {P P' : Process ι w} {i : ι} {op : Op w}
    {o : Outcome Unit} (hP : P.Ready env) (hop : op.Fresh P.world)
    (h : P.step env i op = (o, P')) :
    o = .error .terminated ↔
      ∃ n ∈ P.restores env i op, env.mprotectGrants n .readWriteExec = false := by
  unfold Process.restores
  cases Process.step_result hP hop h with
  | dead hi => simp [hi]
  | @listed F hi =>
    have hlist := env.listing_ne_terminated env.throwInfos
    rw [← (hP i F hi).listExceptions_eq] at hlist
    simp only [hi]
    unfold Impl.getExceptions
    cases hl : (F.listExceptions env env.throwInfos).1 with
    | error e => simpa [Except.map, hl] using hlist
    | ok infos => simp [Except.map]
  | @forced F F' loc pError allocs _ _ hi hres =>
    simp only [hi]
    generalize F'.forcedExceptions = forced' at hres
    cases hres with
    | rejected hpatch =>
      have hne := env.patchAt_ne_terminated loc pError allocs
      simpa [hpatch] using hne
    | refused hpatch hg => simp [hpatch, hg]
    | installed hpatch hg hnode hnot => simp [hpatch, hnode, hnot]
    | @withdrawn patch _ _ hpatch hg hwhy hd =>
      have hiff := destroy_terminated_iff env (patch.forced P.world.memory)
        (patch.applied env P.world)
      rw [hd, patch.applied_calls] at hiff
      have hback : allocs.node = false ∨ loc ∈ F.forcedExceptions := by
        rcases hwhy with ⟨hnode, -⟩ | ⟨-, hmem, -⟩
        · exact Or.inl hnode
        · exact Or.inr hmem
      have ho : o ≠ .error .terminated := by
        rcases hwhy with ⟨-, rfl⟩ | ⟨-, -, rfl⟩ <;> simp
      simp only [hpatch, hg, hback, true_and, if_true, ho, false_iff]
      simpa using hiff
    | @terminated patch _ hpatch hg hwhy hd =>
      have hiff := destroy_terminated_iff env (patch.forced P.world.memory)
        (patch.applied env P.world)
      rw [hd, patch.applied_calls] at hiff
      simp only [hpatch, hg, hwhy, true_and, if_true]
      simpa using hiff
  | idle hi hloc => simp [hi, hloc, restoreCalls]
  | unforced hi hloc hd =>
    simp only [hi, hloc, Option.toList_some]
    rw [← destroy_terminated_iff, hd]
  | destroyed hi hd =>
    simp only [hi]
    rw [← destroyEntries_terminated_iff, hd]

end

/-! ## What a refusal leaves behind -/

/-- A request for write access that the kernel does not grant. -/
def Event.refusal : Event w → Bool
  | .mprotect _ _ .readWriteExec false => true
  | _ => false

/-- How often the kernel refused write access so far. -/
def World.refusals (W : World w) : Nat := W.trace.countP Event.refusal

theorem World.delete_refusals (W : World w) (p : Option (Addr w)) :
    (W.delete p).refusals = W.refusals := by
  unfold World.refusals
  rw [World.delete_trace]

theorem World.patched_refusals {env : Env w} {W : World w}
    (hg : env.mprotectGrants W.calls .readWriteExec = true) (start : Addr w) (bytes : List Byte) :
    (W.patched env start bytes).refusals = W.refusals := by
  unfold World.refusals
  rw [World.patched_trace, List.countP_append, hg]
  rfl

/-- A destructor that returns was refused nothing. -/
theorem destroy_refusals {env : Env w} {X : ForcedException w} {W W' : World w}
    (h : X.destroy env W = (.ok (), W')) : W'.refusals = W.refusals := by
  by_cases he : X.originalData = []
  · rw [ForcedException.destroy_of_empty he] at h
    cases h
    exact W.delete_refusals _
  cases hg : env.mprotectGrants W.calls .readWriteExec with
  | true =>
    rw [ForcedException.destroy_of_granted he hg] at h
    cases h
    rw [World.delete_refusals, World.patched_refusals hg]
  | false =>
    rw [ForcedException.destroy_of_refused he hg] at h
    cases h

theorem destroyEntries_refusals {env : Env w} {Xs : List (ForcedException w)} {W W' : World w}
    (h : Impl.destroyEntries env Xs W = (.ok (), W')) : W'.refusals = W.refusals := by
  induction Xs generalizing W with
  | nil =>
    cases h
    rfl
  | cons X Xs ih =>
    unfold Impl.destroyEntries at h
    rcases hd : X.destroy env W with ⟨_ | _, W₁⟩
    · simp [hd] at h
    · simp only [hd] at h
      exact (ih h).trans (destroy_refusals hd)

section

variable [DecidableEq ι]

/-- What a caller may expect of a call, whatever the kernel says to it: the
process goes on, the exceptions of all patches in place are alive, and a refusal
is reported, with nothing changed. -/
structure Survives (P P' : Process ι w) (o : Outcome Unit) : Prop where
  goes_on : o ≠ .error .terminated
  alive : ∀ k X, P'.patches.held k = some X →
    ∃ p, X.pException = some p ∧ (P'.world.heap p).isSome
  reported : P'.world.refusals ≠ P.world.refusals →
    (∃ e, o = .error (.threw e)) ∧ P'.patches = P.patches

variable {env : Env w} {P P' : Process ι w} {i : ι} {op : Op w} {o : Outcome Unit}

/-- Only a force can be refused and go on. -/
theorem step_refused (hP : P.Ready env) (hop : op.Fresh P.world) (h : P.step env i op = (o, P'))
    (ho : o ≠ .error .terminated) (hr : P'.world.refusals ≠ P.world.refusals) :
    (∃ e, o = .error (.threw e)) ∧ P'.patches = P.patches := by
  cases Process.step_result hP hop h with
  | dead => exact absurd rfl hr
  | listed => exact absurd rfl hr
  | @forced F F' _ _ _ _ _ hi hres =>
    generalize hm : F'.forcedExceptions = forced' at hres
    cases hres with
    | rejected => exact absurd rfl hr
    | refused => exact ⟨⟨_, rfl⟩, Process.patches_set_same hi hm rfl rfl⟩
    | installed _ hg => exact absurd (World.patched_refusals hg _ _) hr
    | withdrawn _ hg _ hd =>
      exact absurd ((destroy_refusals hd).trans (World.patched_refusals hg _ _)) hr
    | terminated => exact absurd rfl ho
  | idle => exact absurd rfl hr
  | unforced _ _ hd =>
    rcases ForcedException.destroy_outcome hd with rfl | rfl
    · exact absurd (destroy_refusals hd) hr
    · exact absurd rfl ho
  | destroyed _ hd =>
    rcases Impl.destroyEntries_outcome hd with rfl | rfl
    · exact absurd (destroyEntries_refusals hd) hr
    · exact absurd rfl ho

/-- An undefined call has not touched a patch by then. -/
theorem step_undefined (hP : P.Ready env) (hop : op.Fresh P.world)
    (h : P.step env i op = (.error .undefined, P')) : P'.patches = P.patches := by
  have hres := Process.step_result hP hop h
  generalize ho : (.error .undefined : Outcome Unit) = o at hres
  cases hres with
  | dead => rfl
  | @listed F hi =>
    exact Process.patches_set_same hi (Impl.ready_listExceptions (hP i F hi) _).2 rfl rfl
  | @forced F F' _ _ _ _ _ hi hres =>
    generalize hm : F'.forcedExceptions = forced' at hres
    cases hres with
    | rejected => exact Process.patches_set_same hi hm rfl rfl
    | refused => cases ho
    | installed => cases ho
    | withdrawn _ _ hwhy =>
      subst ho
      rcases hwhy with ⟨-, ho⟩ | ⟨-, -, ho⟩ <;> cases ho
    | terminated => cases ho
  | idle => cases ho
  | unforced _ _ hd =>
    subst ho
    rcases ForcedException.destroy_outcome hd with hout | hout <;> cases hout
  | destroyed _ hd =>
    subst ho
    rcases Impl.destroyEntries_outcome hd with hout | hout <;> cases hout

/-- A call of a run survives whatever the kernel says exactly when the kernel
grants every request that the destructors of the call make. -/
theorem a_refusal_is_survived_iff (h : Reachable env P) (hop : op.Fresh P.world)
    (hs : P.step env i op = (o, P')) :
    Survives P P' o ↔
      ∀ n ∈ P.restores env i op, env.mprotectGrants n .readWriteExec = true := by
  obtain ⟨W₀, L, hrun⟩ := h
  have hready := hrun.ready (ready_start env W₀)
  have hgood := hrun.good (ready_start env W₀) (agrees_start env W₀).good
  have hterm := step_terminated_iff hready hop hs
  refine ⟨?_, ?_⟩
  · intro hsurvives n hn
    by_contra hg
    exact hsurvives.goes_on (hterm.2 ⟨n, hn, by simpa using hg⟩)
  · intro hgranted
    have ho : o ≠ .error .terminated := by
      intro ho
      obtain ⟨n, hn, hg⟩ := hterm.1 ho
      rw [hgranted n hn] at hg
      cases hg
    refine ⟨ho, ?_, step_refused hready hop hs ho⟩
    have hgood' : P'.patches.Good env := by
      by_cases hc : o.Completes
      · exact good_step hready hgood hop hs hc
      · have hundef : o = .error .undefined := by
          match o, hc, ho with
          | .error .undefined, _, _ => rfl
          | .ok _, hc, _ => exact absurd trivial hc
          | .error (.threw _), hc, _ => exact absurd trivial hc
          | .error .terminated, _, ho => exact absurd rfl ho
        subst hundef
        exact (step_undefined hready hop hs) ▸ hgood
    intro k X hX
    obtain ⟨p, code, hheld⟩ := hgood'.held k X hX
    exact ⟨p, hheld.owns, hheld.live⟩

end

/-- The unforce of the first throw asks for write access with the third call of
`mprotect`. -/
theorem a_refusal_is_survived_iff_sample :
    Survives firstForced firstGivenUp (.ok ()) ↔
      ∀ n ∈ firstForced.restores sample () (.unforceException 0x401010),
        sample.mprotectGrants n .readWriteExec = true := by
  have hreach : Reachable sample firstForced := ⟨sampleWorld, _, run_firstForced trivial⟩
  exact a_refusal_is_survived_iff hreach (Op.fresh_unforce _ _) rfl

/-- The kernel opens the code once, and never again. -/
def stubborn : Env 64 :=
  { sample with mprotectGrants := fun n prot => decide (n = 0 ∨ prot = .readExec) }

/-- An unforce asks in vain, and its destructor throws. -/
theorem a_refused_restore_ends_the_process : ¬ ∀ (env : Env 64) (P P' : Process Unit 64)
    (i : Unit) (loc : Addr 64) (o : Outcome Unit), Reachable env P →
    P.step env i (.unforceException loc) = (o, P') → Survives P P' o := by
  intro h
  have hplays : (Process.start stubborn sampleWorld).Plays stubborn [((), forceFirst)] := by decide
  exact (h stubborn _ _ () 0x401010 _ (reachable_of_plays hplays) rfl).goes_on rfl

/-! ## How a call comes out -/

/-- How a call of a live forcer comes out under a kernel that opens the area
whenever it is asked to. It does not depend on what was called before. -/
def Op.outcome (env : Env w) : Op w → Outcome Unit
  | .getExceptions => (env.listing env.throwInfos).map fun _ => ()
  | .forceException loc pError allocs =>
    match env.patchAt loc pError allocs with
    | .error e => .error e
    | .ok _ => if allocs.node then .ok () else .error (.threw .badAlloc)
  | .unforceException _ => .ok ()
  | .destroy _ => .ok ()

theorem outcome_forceResult {env : Env w} {forced forced' : ForcedExceptions w} {W W' : World w}
    {loc : Addr w} {pError : ExceptionPtr} {allocs : Allocs w} {o : Outcome Unit}
    (hg : ∀ n, env.mprotectGrants n .readWriteExec = true)
    (h : ForceResult env forced W loc pError allocs o forced' W') :
    o = (Op.forceException loc pError allocs).outcome env := by
  unfold Op.outcome
  cases h with
  | rejected hpatch => simp only [hpatch]
  | refused _ hrefused =>
    rw [hg] at hrefused
    cases hrefused
  | installed hpatch _ hnode => simp only [hpatch, hnode, if_true]
  | withdrawn hpatch _ hwhy =>
    rcases hwhy with ⟨hnode, rfl⟩ | ⟨hnode, -, rfl⟩
    · simp [hpatch, hnode]
    · simp only [hpatch, hnode, if_true]
  | terminated _ _ _ hd => cases ForcedException.destroy_returns hg hd

/-- What forcers did before, and which one is called, has no say in how a call
comes out. When all places of patches are in the area, it comes out so without a
store that faults: all its writes are in the range that was opened for them. -/
theorem a_call_comes_out_as_the_program_says [DecidableEq ι] {env : Env w}
    (hg : ∀ n, env.mprotectGrants n .readWriteExec = true)
    (hcan : ∀ start, env.CanPatch start → env.executableArea.Contains start env.generator.size)
    {P : Process ι w} (h : Reachable env P) {i : ι} (hi : (P.forcers i).isSome) {op : Op w}
    (hop : op.Fresh P.world) : (P.step env i op).1 = op.outcome env ∧
      (WritesInside P.world.trace → WritesInside (P.step env i op).2.world.trace) := by
  obtain ⟨W₀, L, hrun⟩ := h
  have hready := hrun.ready (ready_start env W₀)
  have hin := hrun.inArea hcan (ready_start env W₀) (inArea_start env W₀)
  rcases hs : P.step env i op with ⟨o, P'⟩
  refine ⟨?_, fun hW => writesInside_step hcan hready hin hW hop hs⟩
  have hterm : o ≠ .error .terminated := by
    intro ho
    obtain ⟨n, -, hn⟩ := (step_terminated_iff hready hop hs).1 ho
    rw [hg] at hn
    cases hn
  cases Process.step_result hready hop hs with
  | dead hdead =>
    rw [hdead] at hi
    cases hi
  | listed hF =>
    unfold Impl.getExceptions Op.outcome
    rw [(hready i _ hF).listExceptions_eq]
  | forced _ hres => exact outcome_forceResult hg hres
  | idle => rfl
  | unforced _ _ hd =>
    rcases ForcedException.destroy_outcome hd with rfl | rfl
    · rfl
    · exact absurd rfl hterm
  | destroyed _ hd =>
    rcases Impl.destroyEntries_outcome hd with rfl | rfl
    · rfl
    · exact absurd rfl hterm

theorem sample_inArea {start : Addr 64} (h : sample.CanPatch start) :
    sample.executableArea.Contains start sample.generator.size := by
  obtain ⟨loc, func, hreg, hfunc, hstart, -⟩ := h
  have hext := Env.extentAt_of_functionAt hfunc
  rw [hstart] at hext
  have hplace : start = 0x401000 ∨ start = 0x401040 := by
    rcases sample_extent hreg with he | he
    · exact Or.inl (Prod.mk.inj (Option.some.inj (hext.symm.trans he))).1
    · exact Or.inr (Prod.mk.inj (Option.some.inj (hext.symm.trans he))).1
  intro a ha
  have hsize : sample.generator.size = 15 := rfl
  have harea : sample.executableArea = ⟨0x400000, 0x403000⟩ := rfl
  rw [hsize] at ha
  rw [harea]
  unfold Within at ha ⊢
  rcases hplace with rfl | rfl <;> bv_omega

/-- The throw in the second function has no constant arguments, whatever is
forced in the first one, and nothing is written. -/
theorem a_call_comes_out_as_the_program_says_sample :
    (firstForced.step sample () (.forceException 0x401050 none { exceptionPtr := some 0x7010 })).1 =
      .error (.threw (.runtimeError "Exception input is not constant")) := by
  have hreach : Reachable sample firstForced := ⟨sampleWorld, _, run_firstForced trivial⟩
  have hop : (Op.forceException 0x401050 none { exceptionPtr := some 0x7010 }).Fresh
      firstForced.world := by decide
  obtain ⟨hthrew, -⟩ := a_call_comes_out_as_the_program_says (i := ()) (fun _ => rfl)
    (fun _ => sample_inArea) hreach rfl hop
  exact hthrew

/-! ## What a list tells -/

section Listed

variable {env : Env w} {throwInfo : ThrowInfo w} {func : FunctionT w} {e : Nat} {p : Addr w}

/-- There is a patch for a listed throw with this code exactly when the generator
has the code for the listed start, and it fits in front of the listed end. -/
theorem patchAt_listed (hmem : throwInfo ∈ env.throwInfos)
    (hfunc : env.functionAt throwInfo.throwAddr = .ok func) {code : List Byte} :
    (∃ patch, env.patchAt throwInfo.throwAddr (some e) { exceptionPtr := some p } = .ok patch ∧
      patch.code = code) ↔
      env.generator.getThrowOpcode (env.infoOf throwInfo func).parentFn.start env.throwFn p =
          .ok code ∧
        code.length ≤ ((env.infoOf throwInfo func).parentFn.stop -
          (env.infoOf throwInfo func).parentFn.start).toNat := by
  have hstart : (env.infoOf throwInfo func).parentFn.start =
      env.resolver.fromOffset func.startOffset := rfl
  have hstop : (env.infoOf throwInfo func).parentFn.stop =
      env.resolver.fromOffset func.endOffset := rfl
  rw [hstart, hstop]
  refine ⟨?_, ?_⟩
  · rintro ⟨patch, hpatch, rfl⟩
    obtain ⟨_, fn, _, -, hfn, -, hprep⟩ := Env.patchAt_ok hpatch
    cases hfunc.symm.trans hfn
    obtain ⟨hplace, hp, -, hcode, hlen⟩ := preparePatch_ok hprep
    cases hp
    rw [hplace] at hcode hlen
    exact ⟨hcode, hlen⟩
  · rintro ⟨hcode, hlen⟩
    obtain ⟨found, hfound⟩ : ∃ found, env.throwInfoAt throwInfo.throwAddr = some found :=
      Option.isSome_iff_exists.1 (List.find?_isSome.2 ⟨throwInfo, hmem, by simp⟩)
    refine ⟨⟨env.resolver.fromOffset func.startOffset, p, some e, code, env.resolver⟩, ?_, rfl⟩
    unfold Env.patchAt preparePatch getThrowOpcode Impl.errorToThrow
    simp only [hfound, hfunc, hcode, Nat.not_lt.2 hlen, Bool.true_eq_false, if_false]

end Listed

/-- A list tells what can be forced: whoever asked for it, and whenever, an entry
of it can be forced with an exception, with no store that faults, exactly when the
throw opcode for the function of the entry fits into that function and lies in
the area. -/
theorem a_listed_throw_can_be_forced_iff [DecidableEq ι] {env : Env w}
    (hg : ∀ n, env.mprotectGrants n .readWriteExec = true) {P Q : Process ι w}
    (hP : Reachable env P) (hQ : Reachable env Q) {i j : ι} {F : Impl w}
    (hi : (P.forcers i).isSome) (hF : Q.forcers j = some F) {infos : List (ExceptionInfo w)}
    (hlist : (F.getExceptions env).1 = .ok infos) {info : ExceptionInfo w} (hinfo : info ∈ infos)
    (e : Nat) {p : Addr w} (hfree : P.world.heap p = none) (hW : WritesInside P.world.trace)
    {o : Outcome Unit} {P' : Process ι w}
    (hs : P.step env i (.forceException info.addr (some e) { exceptionPtr := some p }) = (o, P')) :
    o = .ok () ∧ WritesInside P'.world.trace ↔
      ∃ code, env.generator.getThrowOpcode info.parentFn.start env.throwFn p = .ok code ∧
        code.length ≤ (info.parentFn.stop - info.parentFn.start).toNat ∧
        env.executableArea.Contains info.parentFn.start code.length := by
  obtain ⟨W₀, L, hrun⟩ := hP
  obtain ⟨W₀', L', hrun'⟩ := hQ
  have hready := hrun.ready (ready_start env W₀)
  obtain ⟨F', hF'⟩ := Option.isSome_iff_exists.1 hi
  have hop : (Op.forceException info.addr (some e) { exceptionPtr := some p }).Fresh P.world := by
    rintro q ⟨⟩
    exact hfree
  rw [Impl.getExceptions, (hrun'.ready (ready_start env W₀') j F hF).listExceptions_eq] at hlist
  obtain ⟨throwInfo, hmem, func, hfunc, rfl⟩ := Env.mem_listing hlist hinfo
  cases Process.step_result hready hop hs with
  | dead hdead =>
    rw [hF'] at hdead
    cases hdead
  | forced _ hres =>
    have ho := outcome_forceResult hg hres
    have haddr : (env.infoOf throwInfo func).addr = throwInfo.throwAddr := rfl
    unfold Op.outcome at ho
    rw [haddr] at ho hres
    dsimp only at ho
    cases hpatch : env.patchAt throwInfo.throwAddr (some e) { exceptionPtr := some p } with
    | error err =>
      rw [hpatch] at ho
      dsimp only at ho
      subst ho
      refine ⟨fun h => (by cases h.1), ?_⟩
      rintro ⟨code, hcode, hlen, -⟩
      obtain ⟨patch, hpatch', -⟩ := (patchAt_listed hmem hfunc).2 ⟨hcode, hlen⟩
      cases hpatch.symm.trans hpatch'
    | ok patch =>
      rw [hpatch] at ho
      dsimp only [if_true] at ho
      have hstart : (env.infoOf throwInfo func).parentFn.start = patch.fnStart :=
        (Env.patchAt_of_functionAt hpatch hfunc).1
      obtain ⟨hcode, hlen⟩ := (patchAt_listed hmem hfunc).1 ⟨patch, hpatch, rfl⟩
      have hiff := forceResult_writesInside_iff hW (hg _) hpatch hres
      rw [← hstart] at hiff
      refine ⟨fun h => ⟨patch.code, hcode, hlen, hiff.1 h.2⟩, ?_⟩
      rintro ⟨code, hcode', -, hin⟩
      cases hcode.symm.trans hcode'
      exact ⟨ho, hiff.2 hin⟩

def gForced : Outcome Unit × Process Unit 64 :=
  firstForced.step sample () (.forceException 0x401050 (some 6) { exceptionPtr := some 0x7010 })

/-- A new forcer lists the throw of the second function, and the forcer with the
first throw can force it. -/
theorem a_listed_throw_can_be_forced_iff_sample :
    gForced.1 = .ok () ∧ WritesInside gForced.2.world.trace ↔
      ∃ code, sample.generator.getThrowOpcode 0x401040 0x402000 0x7010 = .ok code ∧
        code.length ≤ 0x40 ∧ sample.executableArea.Contains 0x401040 code.length := by
  have hstart : Reachable sample (Process.start sample sampleWorld : Process Unit 64) :=
    ⟨sampleWorld, _, .refl⟩
  have hrun : Run sample (fun _ _ _ _ => True) (Process.start sample sampleWorld) Ledger.fresh
      firstForced firstLedger := run_firstForced trivial
  have hinside : WritesInside firstForced.world.trace :=
    hrun.writesInside (fun _ => sample_inArea) (ready_start _ _) (inArea_start _ _) writesInside_nil
  have hreach : Reachable sample firstForced := ⟨sampleWorld, _, hrun⟩
  obtain ⟨infos, hlist, hinfo⟩ : ∃ infos, ((Impl.construct sample).getExceptions sample).1 =
      .ok infos ∧ ⟨0x401050, "g.cpp", 9, "G(x)", 0x401040, 0x401080, "g"⟩ ∈ infos :=
    ⟨_, rfl, List.mem_cons_of_mem _ (List.mem_cons_of_mem _ List.mem_cons_self)⟩
  exact a_listed_throw_can_be_forced_iff (fun _ => rfl) hreach hstart (i := ()) (j := ()) rfl
    rfl hlist hinfo 6 (p := 0x7010) rfl hinside rfl

end eforce
