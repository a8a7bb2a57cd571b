-- Calls on two functions do not see each other. When the kernel opens the area
-- every time, a call is a function of the patches, and what it does to them is
-- one edit within its own function.
import Eforce.Forcing

namespace eforce

open byte_memory

variable {ι : Type} [DecidableEq ι] {w : Nat}

/-! ## A call as a function of the patches -/

/-- The location that a force or an unforce is about. -/
def Op.location : Op w → Option (Addr w)
  | .forceException loc _ _ => some loc
  | .unforceException loc => some loc
  | _ => none

namespace Patches

def perform (env : Env w) (V : Patches ι w) (i : ι) : Op w → Outcome Unit × Patches ι w
  | .forceException loc pError allocs =>
    match env.patchAt loc pError allocs with
    | .error e => (.error e, V)
    | .ok patch =>
      if allocs.node = false then (.error (.threw .badAlloc), V)
      else if (V.held (i, loc)).isSome then (.ok (), V)
      else (.ok (), V.install (i, loc) patch)
  | .unforceException loc => (.ok (), V.remove (i, loc))
  | _ => (.ok (), V)

end Patches

theorem perform_of_forceResult {env : Env w} {P : Process ι w} {i : ι} {F F' : Impl w}
    {loc : Addr w} {pError : ExceptionPtr} {allocs : Allocs w} {o : Outcome Unit} {W' : World w}
    (hg : ∀ n, env.mprotectGrants n .readWriteExec = true) (hi : P.forcers i = some F)
    (hfresh : ∀ p, allocs.exceptionPtr = some p → P.world.heap p = none)
    (h : ForceResult env F.forcedExceptions P.world loc pError allocs o F'.forcedExceptions W') :
    P.patches.perform env i (.forceException loc pError allocs) =
      (o, (P.set i (some F') W').patches) := by
  have hheld := Process.held_of_forcer hi loc
  have hpatches := Process.patches_of_forceResult hi hfresh h
  unfold Patches.perform
  generalize hm : F'.forcedExceptions = m at h
  cases h with
  | rejected hpatch =>
    simp only [hpatch, Process.patches_set_same hi hm rfl rfl]
  | refused _ hrefused => simp [hg] at hrefused
  | @withdrawn patch _ _ hpatch _ hwhy hd =>
    simp only [hpatch]
    rcases hwhy with ⟨hnode, rfl⟩ | ⟨hnode, hin, rfl⟩
    · rcases hpatches trivial with ⟨hsame, -⟩ | ⟨_, -, -, hok, -⟩
      · rw [if_pos hnode, hsame]
      · cases hok
    · have hsome : (P.patches.held (i, loc)).isSome := by
        rw [hheld]
        exact Std.ExtTreeMap.isSome_getElem?_iff_mem.2 hin
      rcases hpatches trivial with ⟨hsame, -⟩ | ⟨_, -, hnone, -⟩
      · rw [if_neg (by simp [hnode]), if_pos hsome, hsame]
      · simp [hnone] at hsome
  | terminated _ _ _ hd => cases ForcedException.destroy_returns hg hd
  | @installed patch hpatch _ hnode hnot =>
    have hnone : P.patches.held (i, loc) = none := by
      rw [hheld]
      exact Std.ExtTreeMap.getElem?_eq_none hnot
    rcases hpatches trivial with ⟨-, hsome⟩ | ⟨patch', hpatch', -, -, hin⟩
    · exact absurd hnone (hsome rfl)
    · cases hpatch.symm.trans hpatch'
      simp only [hpatch, hnode, hnone, hin]
      rfl

/-- With write access every time, a force or an unforce of a forcer that lives
is that function of the patches. -/
theorem perform_of_step {env : Env w} {P P' : Process ι w} {i : ι} {op : Op w} {loc : Addr w}
    {o : Outcome Unit} (hg : ∀ n, env.mprotectGrants n .readWriteExec = true) (hP : P.Ready env)
    (halive : (P.forcers i).isSome) (hop : op.Fresh P.world) (hloc : op.location = some loc)
    (h : P.step env i op = (o, P')) : P.patches.perform env i op = (o, P'.patches) := by
  have hunforce : ∀ loc', op = .unforceException loc' → o = .ok () →
      P.patches.perform env i op = (o, P'.patches) := by
    rintro loc' rfl rfl
    rw [Process.step_unforce hP h trivial]
    rfl
  cases Process.step_result hP hop h with
  | dead hi => simp [hi] at halive
  | listed => cases hloc
  | destroyed => cases hloc
  | forced hi hforce => exact perform_of_forceResult hg hi hop hforce
  | idle => exact hunforce _ rfl rfl
  | unforced _ _ hd =>
    exact hunforce _ rfl (ForcedException.destroy_returns hg hd)

/-! ## Edits -/

/-- A change of some bytes, of one pointer, and of one entry of a map. -/
structure Edit (w : Nat) where
  bytes : List Byte
  pointer : Addr w
  value : Option ExceptionPtr
  entry : Option (ForcedException w)

namespace Patches

def apply (V : Patches ι w) (k : ι × Addr w) (start : Addr w) : Option (Edit w) → Patches ι w
  | none => V
  | some E => {
      memory := write V.memory start E.bytes
      heap := Function.update V.heap E.pointer E.value
      held := Function.update V.held k E.entry }

end Patches

/-- Two edits that do not write the same pointer twice. -/
def Edit.Separate (E E' : Edit w) : Prop := E.pointer = E'.pointer → E.value = E'.value

/-- Edits of two entries, in two places, commute. -/
theorem apply_comm (V : Patches ι w) {k k' : ι × Addr w} {start start' : Addr w} {n n' : Nat}
    {E E' : Option (Edit w)} (hk : k ≠ k') (hapart : Apart start n start' n')
    (hn : ∀ e ∈ E, e.bytes.length ≤ n ∧ n ≤ 2 ^ w)
    (hn' : ∀ e ∈ E', e.bytes.length ≤ n' ∧ n' ≤ 2 ^ w)
    (hsep : ∀ e ∈ E, ∀ e' ∈ E', e.Separate e') :
    (V.apply k start E).apply k' start' E' = (V.apply k' start' E').apply k start E := by
  cases E with
  | none => rfl
  | some e =>
    cases E' with
    | none => rfl
    | some e' =>
      obtain ⟨hlen, hsize⟩ := hn e rfl
      obtain ⟨hlen', hsize'⟩ := hn' e' rfl
      have hmem := write_comm V.memory start start' e.bytes e'.bytes (hlen.trans hsize)
        (hlen'.trans hsize') (hapart.mono hlen hlen')
      have hheap : Function.update (Function.update V.heap e.pointer e.value) e'.pointer e'.value =
          Function.update (Function.update V.heap e'.pointer e'.value) e.pointer e.value := by
        by_cases hp : e.pointer = e'.pointer
        · rw [hp, hsep e rfl e' rfl hp]
        · exact Function.update_comm hp _ _ _
      simp only [Patches.apply]
      rw [hmem, hheap, Function.update_comm hk]

/-! ## A call is an edit of its function -/

/-- An edit lies within the function, and takes a pointer that is fresh for
the call, or drops one that is live. -/
structure Edit.Local (V : Patches ι w) (op : Op w) (n : Nat) (E : Edit w) : Prop where
  length : E.bytes.length ≤ n
  takes : E.value.isSome → ∀ W : World w, op.Fresh W → W.heap E.pointer = none
  drops : E.value = none → (V.heap E.pointer).isSome

/-- Whatever else has changed, a call makes the same edit and ends the same
way, as long as its entry and its function are as they were. -/
theorem perform_edit {env : Env w} {V : Patches ι w} (hV : V.Good env) (i : ι) {op : Op w}
    {loc start stop : Addr w} (hloc : op.location = some loc)
    (hext : env.extentAt loc = some (start, stop)) :
    ∃ o E, (∀ e ∈ E, Edit.Local V op (stop - start).toNat e) ∧
      ∀ U : Patches ι w, U.held (i, loc) = V.held (i, loc) →
        (∀ a, Within start (stop - start).toNat a → U.memory a = V.memory a) →
        U.perform env i op = (o, U.apply (i, loc) start E) := by
  cases op with
  | getExceptions => cases hloc
  | destroy => cases hloc
  | forceException loc' pError allocs =>
    cases hloc
    cases hpatch : env.patchAt loc pError allocs with
    | error e =>
      exact ⟨.error e, none, by simp, fun U _ _ => by simp [Patches.perform, hpatch, Patches.apply]⟩
    | ok patch =>
      cases hnode : allocs.node with
      | false =>
        refine ⟨.error (.threw .badAlloc), none, by simp, fun U _ _ => ?_⟩
        simp [Patches.perform, hpatch, hnode, Patches.apply]
      | true =>
        cases hheld : V.held (i, loc) with
        | some X =>
          refine ⟨.ok (), none, by simp, fun U hU _ => ?_⟩
          simp [Patches.perform, hpatch, hnode, hU, Patches.apply]
        | none =>
          obtain ⟨-, stop', hext', hlen⟩ := Env.patchAt_extent hpatch
          cases hext.symm.trans hext'
          refine ⟨.ok (), some ⟨patch.code, patch.pError, some patch.error,
            some (patch.forced V.memory)⟩, ?_, fun U hU hmem => ?_⟩
          · rintro _ ⟨⟩
            refine ⟨hlen, fun _ W hop => ?_, fun hnone => by cases hnone⟩
            exact hop _ (Env.patchAt_opcode hpatch).2.2
          · have hsaved : read U.memory patch.fnStart patch.code.length =
                read V.memory patch.fnStart patch.code.length :=
              read_congr (hlen.trans (BitVec.isLt _).le) fun a ha => hmem a (ha.mono hlen)
            simp [Patches.perform, hpatch, hnode, hU, Patches.apply, Patches.install,
              Patch.forced, hsaved]
  | unforceException loc' =>
    cases hloc
    cases hheld : V.held (i, loc) with
    | none =>
      refine ⟨.ok (), none, by simp, fun U hU _ => ?_⟩
      simp [Patches.perform, Patches.remove_of_none hU, Patches.apply]
    | some X =>
      obtain ⟨p, code, h⟩ := hV.held (i, loc) X hheld
      obtain ⟨-, stop', hext', hsize⟩ := h.room
      cases hext.symm.trans hext'
      refine ⟨.ok (), some ⟨X.originalData, p, none, none⟩, ?_, fun U hU _ => ?_⟩
      · rintro _ ⟨⟩
        exact ⟨h.saved ▸ hsize, fun hsome => by simp at hsome, fun _ => h.live⟩
      · simp [Patches.perform, Patches.remove, hU, h.owns, Patches.apply]

/-! ## Calls on two functions -/

section Commute

variable {V : Patches ι w} {k k' : ι × Addr w} {start start' : Addr w} {n n' : Nat}
  {op op' : Op w} {E E' : Option (Edit w)}

theorem apply_held_of_ne (hk : k' ≠ k) : (V.apply k start E).held k' = V.held k' := by
  cases E with
  | none => rfl
  | some e => simp [Patches.apply, hk]

theorem apply_memory (hE : ∀ e ∈ E, e.bytes.length ≤ n) {a : Addr w} (ha : ¬ Within start n a) :
    (V.apply k start E).memory a = V.memory a := by
  cases E with
  | none => rfl
  | some e =>
    exact write_of_not_within _ _ _ _ fun hw => ha (hw.mono (hE e rfl))

/-- Two calls take different pointers, or drop different ones. -/
theorem edits_separate {U : Patches ι w} {W W' : World w} (hE : ∀ e ∈ E, Edit.Local U op n e)
    (hE' : ∀ e ∈ E', Edit.Local U op' n' e) (hU : U.heap = W.heap) (hop : op.Fresh W)
    (hop' : op'.Fresh W) (hW' : W'.heap = (U.apply k start E).heap) (hop₁ : op'.Fresh W') :
    ∀ e ∈ E, ∀ e' ∈ E', e.Separate e' := by
  intro e he e' he' hp
  have hlocal := hE e he
  have hlocal' := hE' e' he'
  cases hv : e.value with
  | none =>
    cases hv' : e'.value with
    | none => rfl
    | some x' =>
      have hfree := hlocal'.takes (by simp [hv']) W hop'
      have hlive := hlocal.drops hv
      rw [hU, hp, hfree] at hlive
      cases hlive
  | some x =>
    cases hv' : e'.value with
    | none =>
      have hfree := hlocal.takes (by simp [hv]) W hop
      have hlive := hlocal'.drops hv'
      rw [hU, ← hp, hfree] at hlive
      cases hlive
    | some x' =>
      have hfree := hlocal'.takes (by simp [hv']) W' hop₁
      rw [hW', show E = some e from he, ← hp] at hfree
      simp [Patches.apply, hv] at hfree

end Commute

/-- What a call comes to in every state of the patches that has its entry and
its function as `V` has them. -/
def Performs (env : Env w) (V : Patches ι w) (i : ι) (op : Op w) (loc start : Addr w) (n : Nat)
    (o : Outcome Unit) (E : Option (Edit w)) : Prop :=
  ∀ U : Patches ι w, U.held (i, loc) = V.held (i, loc) →
    (∀ a, Within start n a → U.memory a = V.memory a) →
    U.perform env i op = (o, U.apply (i, loc) start E)

/-- Two calls in a row, each in its own function, make both edits. -/
theorem patches_of_two_steps {env : Env w} {P P₁ P₂ : Process ι w} {i : ι} {op op' : Op w}
    {loc loc' start start' : Addr w} {n n' : Nat} {o o' q q' : Outcome Unit}
    {E E' : Option (Edit w)} (hg : ∀ n, env.mprotectGrants n .readWriteExec = true)
    (hP : P.Ready env) (halive : (P.forcers i).isSome) (hloc : op.location = some loc)
    (hloc' : op'.location = some loc') (hne : loc' ≠ loc) (hapart : Apart start n start' n')
    (hE : ∀ e ∈ E, Edit.Local P.patches op n e)
    (hperf : Performs env P.patches i op loc start n o E)
    (hperf' : Performs env P.patches i op' loc' start' n' o' E') (hop : op.Fresh P.world)
    (h : P.step env i op = (q, P₁)) (hop' : op'.Fresh P₁.world)
    (h' : P₁.step env i op' = (q', P₂)) :
    q = o ∧ q' = o' ∧ P₁.patches = P.patches.apply (i, loc) start E ∧
      P₂.patches = (P.patches.apply (i, loc) start E).apply (i, loc') start' E' ∧
      ∀ j, (P₂.forcers j).isSome = (P.forcers j).isSome := by
  have hdestroy : ∀ {op : Op w} {loc : Addr w}, op.location = some loc →
      ∀ order, op ≠ .destroy order := by
    rintro _ _ hl _ rfl
    cases hl
  have hfirst := perform_of_step hg hP halive hop hloc h
  rw [hperf _ rfl fun _ _ => rfl] at hfirst
  obtain ⟨ho, hpatches⟩ := Prod.mk.inj hfirst
  have halive₁ := Process.step_alive h (hdestroy hloc)
  have hsecond := perform_of_step hg (Process.step_ready hP h)
    ((halive₁ i).trans halive) hop' hloc' h'
  rw [← hpatches, hperf'] at hsecond
  · obtain ⟨ho', hpatches'⟩ := Prod.mk.inj hsecond
    exact ⟨ho.symm, ho'.symm, hpatches.symm, hpatches'.symm,
      fun j => (Process.step_alive h' (hdestroy hloc') j).trans (halive₁ j)⟩
  · exact apply_held_of_ne fun he => hne (congrArg Prod.snd he)
  · exact fun a ha => apply_memory (fun e he => (hE e he).length) (hapart.symm a ha)

/-- Forces and unforces in two functions commute: the code, the maps and both
outcomes do not depend on the order, and no other byte changes. -/
theorem calls_on_two_functions_commute {env : Env w} {P P₁ P₁₂ P₂ P₂₁ : Process ι w} {i : ι}
    {op₁ op₂ : Op w} {loc₁ start₁ stop₁ loc₂ start₂ stop₂ : Addr w}
    {o₁ o₁' o₂ o₂' : Outcome Unit} (hg : ∀ n prot, env.mprotectGrants n prot = true)
    (hr : Reachable env P) (halive : (P.forcers i).isSome)
    (hloc₁ : op₁.location = some loc₁) (hloc₂ : op₂.location = some loc₂)
    (hext₁ : env.extentAt loc₁ = some (start₁, stop₁))
    (hext₂ : env.extentAt loc₂ = some (start₂, stop₂)) (hne : loc₁ ≠ loc₂)
    (hapart : Apart start₁ (stop₁ - start₁).toNat start₂ (stop₂ - start₂).toNat)
    (hop₁ : op₁.Fresh P.world) (h₁ : P.step env i op₁ = (o₁, P₁))
    (hop₁₂ : op₂.Fresh P₁.world) (h₁₂ : P₁.step env i op₂ = (o₂', P₁₂))
    (hop₂ : op₂.Fresh P.world) (h₂ : P.step env i op₂ = (o₂, P₂))
    (hop₂₁ : op₁.Fresh P₂.world) (h₂₁ : P₂.step env i op₁ = (o₁', P₂₁)) :
    o₁ = o₁' ∧ o₂ = o₂' ∧ P₁₂.world.memory = P₂₁.world.memory ∧
      (∀ j, P₁₂.maps j = P₂₁.maps j) ∧
      ∀ a, ¬ Within start₁ (stop₁ - start₁).toNat a → ¬ Within start₂ (stop₂ - start₂).toNat a →
        P₁₂.world.memory a = P.world.memory a := by
  obtain ⟨W₀, L, hrun⟩ := hr
  have hready := hrun.ready (ready_start env W₀)
  have hgood := hrun.good (ready_start env W₀) (agrees_start env W₀).good
  have hg' : ∀ n, env.mprotectGrants n .readWriteExec = true := fun n => hg n _
  obtain ⟨o, E, hE, hperf⟩ := perform_edit hgood i hloc₁ hext₁
  obtain ⟨o', E', hE', hperf'⟩ := perform_edit hgood i hloc₂ hext₂
  obtain ⟨rfl, rfl, hone, hboth, halive₁⟩ := patches_of_two_steps hg' hready halive hloc₁ hloc₂
    hne.symm hapart hE hperf hperf' hop₁ h₁ hop₁₂ h₁₂
  obtain ⟨rfl, rfl, -, hboth', halive₂⟩ := patches_of_two_steps hg' hready halive hloc₂ hloc₁
    hne hapart.symm hE' hperf' hperf hop₂ h₂ hop₂₁ h₂₁
  have hsep := edits_separate hE hE' rfl hop₁ hop₂ (congrArg Patches.heap hone) hop₁₂
  have hsame : P₁₂.patches = P₂₁.patches := by
    rw [hboth, hboth']
    exact apply_comm P.patches (fun he => hne (congrArg Prod.snd he)) hapart
      (fun e he => ⟨(hE e he).length, (BitVec.isLt _).le⟩)
      (fun e he => ⟨(hE' e he).length, (BitVec.isLt _).le⟩) hsep
  refine ⟨rfl, rfl, congrArg Patches.memory hsame, fun j => ?_, fun a ha ha' => ?_⟩
  · exact Process.maps_eq ((halive₁ j).trans (halive₂ j).symm) (congrArg Patches.held hsame)
  · have hmem : P₁₂.world.memory a = P₁₂.patches.memory a := rfl
    rw [hmem, hboth, apply_memory (fun e he => (hE' e he).length) ha',
      apply_memory (fun e he => (hE e he).length) ha]
    rfl

def unforceFirst : Op 64 := .unforceException 0x401010

def forceThird : Op 64 := .forceException 0x401050 (some 9) { exceptionPtr := some 0x7020 }

/-- An unforce in the first function, and a force in the second one. -/
theorem calls_on_two_functions_commute_sample :
    (firstForced.runCalls sample [((), unforceFirst), ((), forceThird)]).2.world.memory =
      (firstForced.runCalls sample [((), forceThird), ((), unforceFirst)]).2.world.memory := by
  have hr : Reachable sample firstForced := ⟨sampleWorld, firstLedger, run_firstForced trivial⟩
  have hloc₁ : unforceFirst.location = some 0x401010 := rfl
  have hloc₂ : forceThird.location = some 0x401050 := rfl
  have hext₁ : sample.extentAt 0x401010 = some (0x401000, 0x401040) := rfl
  have hext₂ : sample.extentAt 0x401050 = some (0x401040, 0x401080) := rfl
  have hop : ∀ W, unforceFirst.Fresh W := Op.fresh_unforce 0x401010
  have hop₂ : forceThird.Fresh firstForced.world := by decide
  have hop₁₂ : forceThird.Fresh (firstForced.step sample () unforceFirst).2.world := by decide
  have h := calls_on_two_functions_commute (i := ()) (fun _ _ => rfl) hr rfl hloc₁ hloc₂ hext₁ hext₂
    (by decide) (apart_of_le (by decide) (by decide)) (hop _) rfl hop₁₂ rfl hop₂ rfl (hop _) rfl
  exact h.2.2.1

end eforce
