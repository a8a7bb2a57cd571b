-- Where the code is written. The area that a guard opens is the first mapping
-- of the process, and the place of a patch comes from the symbols and the load
-- address. Nothing compares the two.
import Eforce.Listing
import Eforce.ProcMaps

namespace eforce

open byte_memory

variable {ι : Type} {w : Nat}

/-! ## The area -/

/-- The bytes of a range are in the area. Its length wraps around as the
difference of its ends does. -/
def ExecutableArea.Contains (area : ExecutableArea w) (start : Addr w) (n : Nat) : Prop :=
  ∀ a, Within start n a → Within area.start (area.stop - area.start).toNat a

/-- A function of a registered throw starts here, the generator makes a throw
opcode for it, and the function has room for the opcode. -/
def Env.CanPatch (env : Env w) (start : Addr w) : Prop :=
  ∃ loc func, env.Registered loc ∧ env.functionAt loc = .ok func ∧
    env.resolver.fromOffset func.startOffset = start ∧
    env.generator.size ≤ (env.resolver.fromOffset func.endOffset - start).toNat ∧
    ∃ p code, env.generator.getThrowOpcode start env.throwFn p = .ok code

/-- Where a patch is made, one can be made. -/
theorem Env.canPatch_of_patchAt {env : Env w} {loc : Addr w} {pError : ExceptionPtr}
    {allocs : Allocs w} {patch : Patch w} (h : env.patchAt loc pError allocs = .ok patch) :
    env.CanPatch patch.fnStart ∧ patch.code.length = env.generator.size := by
  obtain ⟨throwInfo, fn, error, hinfo, hfn, -, hprep⟩ := patchAt_ok h
  obtain ⟨hstart, -, -, hcode, hlen⟩ := preparePatch_ok hprep
  have hsize := env.generator.length_eq hcode
  refine ⟨⟨loc, fn, registered_of_throwInfoAt hinfo, hfn, hstart.symm, ?_, _, _, hcode⟩, hsize⟩
  rw [← hsize]
  exact hlen

/-- Where a patch can be made, some force makes it. -/
theorem Env.CanPatch.patchAt {env : Env w} {start : Addr w} (h : env.CanPatch start) :
    ∃ loc p patch, env.patchAt loc (some 0) { exceptionPtr := some p } = .ok patch ∧
      patch.fnStart = start := by
  obtain ⟨loc, func, ⟨throwInfo, hmem, haddr⟩, hfn, rfl, hsize, p, code, hcode⟩ := h
  obtain ⟨found, hfound⟩ : ∃ found, env.throwInfoAt loc = some found :=
    Option.isSome_iff_exists.1 (List.find?_isSome.2 ⟨throwInfo, hmem, by simpa using haddr⟩)
  have hroom : ¬ code.length > (env.resolver.fromOffset func.endOffset -
      env.resolver.fromOffset func.startOffset).toNat := by
    rw [env.generator.length_eq hcode]
    omega
  refine ⟨loc, p, ⟨env.resolver.fromOffset func.startOffset, p, some 0, code, env.resolver⟩, ?_,
    rfl⟩
  unfold Env.patchAt preparePatch getThrowOpcode Impl.errorToThrow
  simp only [hfound, hfn, hcode, hroom, Bool.true_eq_false, if_false]

/-! ## Writes in a trace -/

/-- Every write comes right behind a call of `mprotect` that made a range
writable, and stays within that range. -/
def WritesInside (t : List (Event w)) : Prop :=
  ∀ t₁ start bytes t₂, t = t₁ ++ .write start bytes :: t₂ →
    ∃ t₀ area n, t₁ = t₀ ++ [.mprotect area n .readWriteExec true] ∧
      ∀ a, Within start bytes.length a → Within area n a

theorem writesInside_nil : WritesInside ([] : List (Event w)) := by
  intro t₁ start bytes t₂ h
  simp at h

theorem WritesInside.append {t u : List (Event w)} (ht : WritesInside t) (hu : WritesInside u) :
    WritesInside (t ++ u) := by
  intro t₁ start bytes t₂ h
  rcases List.append_eq_append_iff.1 h with ⟨v, rfl, hv⟩ | ⟨v, rfl, hv⟩
  · obtain ⟨t₀, area, n, rfl, hin⟩ := hu v start bytes t₂ hv
    exact ⟨t ++ t₀, area, n, by simp, hin⟩
  · cases v with
    | nil =>
      obtain ⟨t₀, area, n, hnil, hin⟩ := hu [] start bytes t₂ (by simpa using hv.symm)
      simp at hnil
    | cons event v =>
      simp only [List.cons_append, List.cons.injEq] at hv
      obtain ⟨rfl, rfl⟩ := hv
      exact ht t₁ start bytes v rfl

/-- A call of `mprotect` writes nothing. -/
theorem WritesInside.mprotect {t : List (Event w)} (h : WritesInside t) (start : Addr w)
    (length : Nat) (prot : Protection) (granted : Bool) :
    WritesInside (t ++ [.mprotect start length prot granted]) := by
  refine h.append fun t₁ s bytes t₂ he => ?_
  rcases t₁ with _ | ⟨event, t₁⟩
  · cases he
  · simp at he

theorem WritesInside.patched {env : Env w} {W : World w} (h : WritesInside W.trace)
    (hg : env.mprotectGrants W.calls .readWriteExec = true) {start : Addr w} {bytes : List Byte}
    (hin : env.executableArea.Contains start bytes.length) :
    WritesInside (W.patched env start bytes).trace := by
  rw [World.patched_trace, hg]
  refine h.append fun t₁ s bytes' t₂ he => ?_
  rcases t₁ with _ | ⟨event, _ | ⟨event', t₁⟩⟩
  · cases he
  · simp only [List.cons_append, List.nil_append, List.cons.injEq, Event.write.injEq] at he
    obtain ⟨rfl, ⟨rfl, rfl⟩, -⟩ := he
    exact ⟨[], _, _, rfl, hin⟩
  · rcases t₁ with _ | ⟨event'', t₁⟩ <;> simp at he

theorem WritesInside.applied {env : Env w} {W : World w} (h : WritesInside W.trace)
    (hg : env.mprotectGrants W.calls .readWriteExec = true) {patch : Patch w}
    (hin : env.executableArea.Contains patch.fnStart patch.code.length) :
    WritesInside (patch.applied env W).trace :=
  WritesInside.patched (W := W.new patch.pError patch.error) h hg hin

/-! ## Every call writes where its patches are -/

section Calls

variable {env : Env w}

theorem WritesInside.destroy {X : ForcedException w} {W W' : World w} {o : Outcome Unit}
    (hW : WritesInside W.trace)
    (hX : env.executableArea.Contains X.fnStart X.originalData.length)
    (h : X.destroy env W = (o, W')) : WritesInside W'.trace := by
  by_cases he : X.originalData = []
  · rw [ForcedException.destroy_of_empty he] at h
    cases h
    rw [World.delete_trace]
    exact hW
  cases hg : env.mprotectGrants W.calls .readWriteExec with
  | true =>
    rw [ForcedException.destroy_of_granted he hg] at h
    cases h
    rw [World.delete_trace]
    exact hW.patched hg hX
  | false =>
    rw [ForcedException.destroy_of_refused he hg] at h
    cases h
    exact hW.mprotect _ _ _ _

theorem WritesInside.destroyEntries {Xs : List (ForcedException w)} {W W' : World w}
    {o : Outcome Unit} (hW : WritesInside W.trace)
    (hXs : ∀ X ∈ Xs, env.executableArea.Contains X.fnStart X.originalData.length)
    (h : Impl.destroyEntries env Xs W = (o, W')) : WritesInside W'.trace := by
  induction Xs generalizing W with
  | nil =>
    cases h
    exact hW
  | cons X Xs ih =>
    unfold Impl.destroyEntries at h
    rcases hd : X.destroy env W with ⟨o₁, W₁⟩
    have hW₁ := hW.destroy (hXs X List.mem_cons_self) hd
    simp only [hd] at h
    cases o₁ with
    | ok _ => exact ih hW₁ (fun Y hY => hXs Y (List.mem_cons_of_mem _ hY)) h
    | error e =>
      cases h
      exact hW₁

theorem WritesInside.forceResult {forced forced' : ForcedExceptions w} {W W' : World w}
    {loc : Addr w} {pError : ExceptionPtr} {allocs : Allocs w} {o : Outcome Unit}
    (hW : WritesInside W.trace)
    (hpatch : ∀ patch, env.patchAt loc pError allocs = .ok patch →
      env.executableArea.Contains patch.fnStart patch.code.length)
    (h : ForceResult env forced W loc pError allocs o forced' W') : WritesInside W'.trace := by
  have hforced : ∀ patch : Patch w, env.executableArea.Contains patch.fnStart patch.code.length →
      env.executableArea.Contains (patch.forced W.memory).fnStart
        (patch.forced W.memory).originalData.length := by
    intro patch hin
    rwa [Patch.forced, length_read]
  cases h with
  | rejected => exact hW
  | refused => exact hW.mprotect _ _ _ _
  | installed hp hg => exact hW.applied hg (hpatch _ hp)
  | withdrawn hp hg _ hd =>
    exact (hW.applied hg (hpatch _ hp)).destroy (hforced _ (hpatch _ hp)) hd
  | terminated hp hg _ hd =>
    exact (hW.applied hg (hpatch _ hp)).destroy (hforced _ (hpatch _ hp)) hd

/-- The first write of a patch stays within the area when all writes do. -/
theorem contains_of_writesInside {W : World w} {start : Addr w} {bytes : List Byte}
    {events : List (Event w)}
    (h : WritesInside ((W.patched env start bytes).trace ++ events)) :
    env.executableArea.Contains start bytes.length := by
  rw [World.patched_trace, List.append_assoc] at h
  obtain ⟨t₀, area, n, he, hin⟩ := h (W.trace ++ [.mprotect env.executableArea.start
    (env.executableArea.stop - env.executableArea.start).toNat .readWriteExec
    (env.mprotectGrants W.calls .readWriteExec)]) start bytes _ (by simp; rfl)
  have hlast := congrArg List.getLast? he
  simp only [List.getLast?_append, List.getLast?_singleton, Option.some_or, Option.some.injEq,
    Event.mprotect.injEq] at hlast
  obtain ⟨rfl, rfl, -, -⟩ := hlast
  exact hin

/-- A force that makes a patch keeps its writes to the area exactly when the patch
is in there. -/
theorem forceResult_writesInside_iff {forced forced' : ForcedExceptions w} {W W' : World w}
    {loc : Addr w} {pError : ExceptionPtr} {allocs : Allocs w} {o : Outcome Unit} {patch : Patch w}
    (hW : WritesInside W.trace) (hg : env.mprotectGrants W.calls .readWriteExec = true)
    (hpatch : env.patchAt loc pError allocs = .ok patch)
    (h : ForceResult env forced W loc pError allocs o forced' W') :
    WritesInside W'.trace ↔ env.executableArea.Contains patch.fnStart patch.code.length := by
  refine ⟨fun hW' => ?_, fun hin => hW.forceResult (fun patch' hpatch' => ?_) h⟩
  · have happlied : ∀ events, W'.trace = (patch.applied env W).trace ++ events →
        env.executableArea.Contains patch.fnStart patch.code.length := by
      intro events htrace
      rw [htrace] at hW'
      exact contains_of_writesInside hW'
    cases h with
    | rejected hnone => cases hpatch.symm.trans hnone
    | refused _ hrefused =>
      rw [hg] at hrefused
      cases hrefused
    | installed hp =>
      cases hpatch.symm.trans hp
      exact happlied [] (List.append_nil _).symm
    | withdrawn hp _ _ hd =>
      cases hpatch.symm.trans hp
      obtain ⟨events, htrace, -⟩ := destroy_writes hd
      exact happlied events htrace
    | terminated hp _ _ hd =>
      cases hpatch.symm.trans hp
      obtain ⟨events, htrace, -⟩ := destroy_writes hd
      exact happlied events htrace
  · cases hpatch.symm.trans hpatch'
    exact hin

/-- A force that comes to no patch writes nothing. -/
theorem force_without_patch {forced forced' : ForcedExceptions w} {W W' : World w}
    {loc : Addr w} {pError : ExceptionPtr} {allocs : Allocs w} {o : Outcome Unit}
    {func : FunctionT w} (hfunc : env.functionAt loc = .ok func)
    (hnone : ∀ patch, env.patchAt loc pError allocs ≠ .ok patch)
    (h : ForceResult env forced W loc pError allocs o forced' W') :
    (∃ e, o = .error (.threw e)) ∧ W'.trace = W.trace := by
  rcases force_throws_or_writes hfunc h with hthrew | ⟨patch, hpatch, -⟩
  · cases h with
    | rejected => exact ⟨hthrew, rfl⟩
    | refused hpatch => exact absurd hpatch (hnone _)
    | installed hpatch => exact absurd hpatch (hnone _)
    | withdrawn hpatch => exact absurd hpatch (hnone _)
    | terminated hpatch => exact absurd hpatch (hnone _)
  · exact absurd hpatch (hnone _)

/-- Every patch in place is in the area. -/
def Process.InArea (env : Env w) (P : Process ι w) : Prop :=
  ∀ k X, P.patches.held k = some X → env.executableArea.Contains X.fnStart X.originalData.length

theorem inArea_start (env : Env w) (W₀ : World w) :
    (Process.start env W₀ : Process ι w).InArea env := by
  intro k X hX
  rw [held_start] at hX
  cases hX

end Calls

/-! ## Every place of a patch is in the area -/

section Inside

variable {env : Env w}
  (hcan : ∀ start, env.CanPatch start → env.executableArea.Contains start env.generator.size)

include hcan

theorem inArea_of_canPatch {loc : Addr w} {pError : ExceptionPtr} {allocs : Allocs w}
    {patch : Patch w} (h : env.patchAt loc pError allocs = .ok patch) :
    env.executableArea.Contains patch.fnStart patch.code.length := by
  obtain ⟨hpatch, hlen⟩ := Env.canPatch_of_patchAt h
  rw [hlen]
  exact hcan _ hpatch

variable [DecidableEq ι] {P P' : Process ι w} {i : ι} {op : Op w} {o : Outcome Unit}

theorem inArea_step (hP : P.Ready env) (hin : P.InArea env) (hop : op.Fresh P.world)
    (h : P.step env i op = (o, P')) (ho : o.Completes) : P'.InArea env := by
  refine Process.held_step hP hop h ho (fun loc pError allocs patch _ hpatch => ?_) hin
  rw [Patch.forced, length_read]
  exact inArea_of_canPatch hcan hpatch

theorem writesInside_step (hP : P.Ready env) (hin : P.InArea env) (hW : WritesInside P.world.trace)
    (hop : op.Fresh P.world) (h : P.step env i op = (o, P')) : WritesInside P'.world.trace := by
  cases Process.step_result hP hop h with
  | dead => exact hW
  | listed => exact hW
  | forced _ hres => exact hW.forceResult (fun _ hpatch => inArea_of_canPatch hcan hpatch) hres
  | idle => exact hW
  | @unforced F loc _ _ _ hi hloc hd =>
    refine hW.destroy (hin (i, loc) _ ?_) hd
    rw [Process.held_of_forcer hi, hloc]
  | @destroyed _ order _ _ hi hd =>
    refine hW.destroyEntries (fun X hX => ?_) hd
    obtain ⟨e, he, rfl⟩ := List.mem_map.1 hX
    refine hin (i, e.1) _ ?_
    rw [Process.held_of_forcer hi]
    exact Std.ExtTreeMap.mem_toList_iff_getElem?_eq_some.1 ((order.entries_perm _).mem_iff.1 he)

theorem Run.inArea {cond : Process ι w → Ledger ι w → ι → Op w → Prop}
    {P₀ P : Process ι w} {L₀ L : Ledger ι w}
    (h : Run env cond P₀ L₀ P L) (hP₀ : P₀.Ready env) (hin : P₀.InArea env) : P.InArea env := by
  induction h with
  | refl => exact hin
  | step hrun hop _ hs ho ih => exact inArea_step hcan (hrun.ready hP₀) ih hop hs ho

theorem Run.writesInside {cond : Process ι w → Ledger ι w → ι → Op w → Prop}
    {P₀ P : Process ι w} {L₀ L : Ledger ι w}
    (h : Run env cond P₀ L₀ P L) (hP₀ : P₀.Ready env) (hin : P₀.InArea env)
    (hW : WritesInside P₀.world.trace) : WritesInside P.world.trace := by
  induction h with
  | refl => exact hW
  | step hrun hop _ hs _ ih =>
    exact writesInside_step hcan (hrun.ready hP₀) (hrun.inArea hcan hP₀ hin) ih hop hs

end Inside

/-! ## Every run writes within the area -/

section

variable [DecidableEq ι]

/-- The same program under another kernel. -/
def Env.granting (env : Env w) (grants : Nat → Protection → Bool) : Env w :=
  { env with mprotectGrants := grants }

/-- Under every kernel, behind every run and one more call, all writes stay
within the ranges that were made writable for them. A force throws and writes
nothing when the function does not hold the opcode within the area. -/
def Env.KeepsToArea (ι : Type) [DecidableEq ι] (env : Env w) : Prop :=
  ∀ (grants : Nat → Protection → Bool) (W₀ : World w) (P P' : Process ι w) (L : Ledger ι w)
    (i : ι) (op : Op w) (o : Outcome Unit), W₀.trace = [] →
    Run (env.granting grants) (fun _ _ _ _ => True) (Process.start (env.granting grants) W₀)
      Ledger.fresh P L →
    op.Fresh P.world → P.step (env.granting grants) i op = (o, P') →
    WritesInside P'.world.trace ∧
      ∀ loc pError allocs func, op = .forceException loc pError allocs → P.forcers i ≠ none →
        env.functionAt loc = .ok func →
        ¬ env.executableArea.Contains (env.resolver.fromOffset func.startOffset)
          env.generator.size →
        (∃ e, o = .error (.threw e)) ∧ P'.world.trace = P.world.trace

/-- A program keeps its writes to the executable area exactly when every
function that can be patched has the place of its patch in there. -/
theorem code_is_written_in_the_area_iff [Inhabited ι] (env : Env w) :
    env.KeepsToArea ι ↔
      ∀ start, env.CanPatch start → env.executableArea.Contains start env.generator.size := by
  refine ⟨?_, ?_⟩
  · intro h start hstart
    by_contra hout
    obtain ⟨loc, p, patch, hpatch, rfl⟩ := hstart.patchAt
    obtain ⟨_, fn, _, -, hfn, -, -⟩ := Env.patchAt_ok hpatch
    rw [← (Env.patchAt_of_functionAt hpatch hfn).1] at hout
    have hready := ready_start (env.granting fun _ _ => true) sampleWorld (ι := ι)
    have hop : (Op.forceException loc (some 0) { exceptionPtr := some p }).Fresh
        (sampleWorld : World w) := fun _ _ => rfl
    rcases hs : (Process.start (env.granting fun _ _ => true) sampleWorld).step
      (env.granting fun _ _ => true) (default : ι)
      (.forceException loc (some 0) { exceptionPtr := some p }) with ⟨o, P'⟩
    have hwrites := h _ sampleWorld _ P' _ default _ o rfl .refl hop hs
    obtain ⟨⟨e, rfl⟩, -⟩ := hwrites.2 _ _ _ fn rfl (by simp [Process.start]) hfn hout
    cases Process.step_result hready hop hs with
    | @forced F F' _ _ _ _ _ hi hres =>
      generalize F'.forcedExceptions = forced' at hres
      cases hres with
      | rejected hnone => cases hpatch.symm.trans hnone
      | refused _ hg => cases hg
      | withdrawn _ _ hwhy =>
        rcases hwhy with ⟨hnode, -⟩ | ⟨-, -, ho⟩
        · cases hnode
        · cases ho
  · intro hcan' grants W₀ P P' L i op o htrace hrun hop hs
    have hcan : ∀ start, (env.granting grants).CanPatch start →
        (env.granting grants).executableArea.Contains start env.generator.size := hcan'
    have hready := ready_start (env.granting grants) W₀ (ι := ι)
    have hnothing := inArea_start (env.granting grants) W₀ (ι := ι)
    have hin := hrun.inArea hcan hready hnothing
    have hW := hrun.writesInside hcan hready hnothing (htrace.symm ▸ writesInside_nil)
    refine ⟨writesInside_step hcan (hrun.ready hready) hin hW hop hs, ?_⟩
    rintro loc pError allocs func rfl halive hfn hout
    cases Process.step_result (hrun.ready hready) hop hs with
    | dead hi => exact absurd hi halive
    | forced _ hres =>
      have hfn' : (env.granting grants).functionAt loc = .ok func := hfn
      refine force_without_patch hfn' (fun patch hpatch => hout ?_) hres
      have hstart : env.resolver.fromOffset func.startOffset = patch.fnStart :=
        (Env.patchAt_of_functionAt hpatch hfn').1
      rw [hstart]
      exact hcan _ (Env.canPatch_of_patchAt hpatch).1

end

/-- The first mapping holds the headers of the file, and the code is behind it. -/
def headersFirst : List Char :=
  "00400000-00401000 r--p 00000000\n00401000-00403000 r-xp 00001000\n".toList

/-- The kernel opens the headers, and the patch goes to the code. -/
theorem a_patch_is_written_behind_the_area : ¬ ∀ (env : Env 64) (maps : List Char),
    (env.readMaps maps).KeepsToArea Unit := by
  intro h
  have hop : forceFirst.Fresh (sampleWorld : World 64) := by decide
  obtain ⟨hwrites, -⟩ := h sample headersFirst (fun _ _ => true) sampleWorld _ _ _ () forceFirst _
    rfl .refl hop rfl
  obtain ⟨t₀, area, n, he, hin⟩ := hwrites [.mprotect 0x400000 0x1000 .readWriteExec true] 0x401000
    _ [.mprotect 0x400000 0x1000 .readExec true] rfl
  have hlast := congrArg List.getLast? he
  rw [List.getLast?_append] at hlast
  cases hlast
  exact absurd (hin 0x401000 (by decide)) (by decide)

end eforce
