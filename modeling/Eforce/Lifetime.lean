-- How long things live. The exception pointers on the heap are those of the
-- entries of the maps, one each. An entry and its exception stay as they are
-- until the location is given up.
import Eforce.Restoration

namespace eforce

open byte_memory

variable {ι : Type} [DecidableEq ι] {w : Nat}

/-! ## The exception pointers -/

/-- The heap is the old one `h₀`, and the exceptions of the held patches, at
pointers that were not in use. -/
structure Patches.Accounts (h₀ : Addr w → Option ExceptionPtr) (V : Patches ι w) : Prop where
  others : ∀ p, (∀ k X, V.held k = some X → X.pException ≠ some p) → V.heap p = h₀ p
  unused : ∀ k X p, V.held k = some X → X.pException = some p → h₀ p = none

section Heap

variable {env : Env w} {h₀ : Addr w → Option ExceptionPtr} {V : Patches ι w}

omit [DecidableEq ι] in
/-- A pointer that is not in use is that of no held patch. -/
theorem not_owned_of_free (hV : V.Good env) {p : Addr w} (hp : V.heap p = none) {k : ι × Addr w}
    {X : ForcedException w} (hX : V.held k = some X) : X.pException ≠ some p := by
  intro he
  obtain ⟨q, code, h⟩ := hV.held k X hX
  have hlive := h.live
  cases h.owns.symm.trans he
  rw [hp] at hlive
  cases hlive

theorem accounts_install (hV : V.Good env) (h : V.Accounts h₀) {k : ι × Addr w} {patch : Patch w}
    (hnone : V.held k = none) (hfresh : V.heap patch.pError = none) :
    (V.install k patch).Accounts h₀ := by
  have hself : (V.install k patch).held k = some (patch.forced V.memory) := by
    simp [Patches.install]
  have hother : ∀ k' ≠ k, (V.install k patch).held k' = V.held k' := by
    intro k' hk
    simp [Patches.install, hk]
  refine ⟨fun p hp => ?_, fun k' X p hX hXp => ?_⟩
  · have hne : p ≠ patch.pError := by
      rintro rfl
      exact hp k _ hself rfl
    have hsame : (V.install k patch).heap p = V.heap p := by simp [Patches.install, hne]
    rw [hsame]
    refine h.others p fun k' X hX => ?_
    have hk : k' ≠ k := by
      rintro rfl
      simp [hnone] at hX
    exact hp k' X ((hother k' hk).trans hX)
  · by_cases hk : k' = k
    · subst hk
      cases hself.symm.trans hX
      cases hXp
      rw [← h.others patch.pError fun k'' X hX => not_owned_of_free hV hfresh hX]
      exact hfresh
    · exact h.unused k' X p ((hother k' hk).symm.trans hX) hXp

theorem accounts_remove (hV : V.Good env) (h : V.Accounts h₀) (k : ι × Addr w) :
    (V.remove k).Accounts h₀ := by
  cases hk : V.held k with
  | none => rwa [Patches.remove_of_none hk]
  | some X =>
    obtain ⟨q, code, hheld⟩ := hV.held k X hk
    have hheap : (V.remove k).heap = Function.update V.heap q none := by
      simp [Patches.remove, hk, hheld.owns]
    have hstays : ∀ k' X', (V.remove k).held k' = some X' → V.held k' = some X' := by
      intro k' X' hX'
      by_cases hkk : k' = k
      · simp [hkk, Patches.held_remove] at hX'
      · rwa [Patches.held_remove, Function.update_of_ne hkk] at hX'
    refine ⟨fun p hp => ?_, fun k' X' p hX' hXp => h.unused k' X' p (hstays k' X' hX') hXp⟩
    rw [hheap]
    by_cases hpq : p = q
    · rw [hpq, Function.update_self, h.unused k X q hk hheld.owns]
    · rw [Function.update_of_ne hpq]
      refine h.others p fun k' X' hX' he => ?_
      by_cases hkk : k' = k
      · subst hkk
        cases hk.symm.trans hX'
        exact hpq (Option.some.inj (he.symm.trans hheld.owns))
      · exact hp k' X' (by rw [Patches.held_remove, Function.update_of_ne hkk, hX']) he

theorem accounts_removals (hV : V.Good env) (h : V.Accounts h₀) (ks : List (ι × Addr w)) :
    (ks.foldl Patches.remove V).Accounts h₀ := by
  induction ks generalizing V with
  | nil => exact h
  | cons k ks ih => exact ih (good_remove hV) (accounts_remove hV h k)

theorem accounts_step {P P' : Process ι w} {i : ι} {op : Op w} {o : Outcome Unit}
    (hP : P.Ready env) (hV : P.patches.Good env) (h : P.patches.Accounts h₀)
    (hop : op.Fresh P.world) (hs : P.step env i op = (o, P')) (ho : o.Completes) :
    P'.patches.Accounts h₀ := by
  rcases Process.step_patches hP hop hs ho with
    hrem | ⟨loc, pError, allocs, patch, rfl, hpatch, hnone, -, hin⟩
  · rw [hrem]
    exact accounts_removals hV h _
  · rw [hin]
    exact accounts_install hV h hnone (hop _ (Env.patchAt_opcode hpatch).2.2)

omit [DecidableEq ι] in
theorem good_start (env : Env w) (W₀ : World w) :
    (Process.start env W₀ : Process ι w).patches.Good env :=
  (agrees_start env W₀).good

omit [DecidableEq ι] in
theorem accounts_start (env : Env w) (W₀ : World w) :
    (Process.start env W₀ : Process ι w).patches.Accounts W₀.heap := by
  refine ⟨fun _ _ => rfl, fun k X p hX => ?_⟩
  rw [held_start] at hX
  cases hX

theorem Run.accounts {cond : Process ι w → Ledger ι w → ι → Op w → Prop} {P₀ P : Process ι w}
    {L₀ L : Ledger ι w} (h : Run env cond P₀ L₀ P L) (hP₀ : P₀.Ready env)
    (hV₀ : P₀.patches.Good env) (h₀' : P₀.patches.Accounts h₀) : P.patches.Accounts h₀ := by
  induction h with
  | refl => exact h₀'
  | step hrun hop _ hs ho ih =>
    exact accounts_step (hrun.ready hP₀) (hrun.good hP₀ hV₀) ih hop hs ho

end Heap

/-- Through every run of any forcers, each entry of a map owns an exception
pointer of its own that is alive, and nothing else was put on the heap. So no
exception leaks, and none is deleted twice. -/
theorem every_exception_has_one_owner {env : Env w} {W₀ : World w} {P : Process ι w}
    {L : Ledger ι w}
    (h : Run env (fun _ _ _ _ => True) (Process.start env W₀) Ledger.fresh P L) :
    (∀ k X, P.patches.held k = some X →
      ∃ p, X.pException = some p ∧ (P.world.heap p).isSome ∧ W₀.heap p = none) ∧
    (∀ k k' X X', P.patches.held k = some X → P.patches.held k' = some X' →
      X.pException = X'.pException → k = k') ∧
    (∀ p, (∀ k X, P.patches.held k = some X → X.pException ≠ some p) →
      P.world.heap p = W₀.heap p) ∧
    (P.Idle → P.world.heap = W₀.heap) := by
  have hgood := h.good (ready_start env W₀) (good_start env W₀)
  have haccounts := h.accounts (ready_start env W₀) (good_start env W₀) (accounts_start env W₀)
  refine ⟨fun k X hX => ?_, hgood.alone, haccounts.others, fun hidle => ?_⟩
  · obtain ⟨p, code, hheld⟩ := hgood.held k X hX
    exact ⟨p, hheld.owns, hheld.live, haccounts.unused k X p hX hheld.owns⟩
  · funext p
    refine haccounts.others p fun k X hX => ?_
    rw [hidle k] at hX
    cases hX

/-- Two forcers hold the two throws of the first function. Each exception is alive at
a pointer of its own, and both are gone when the forcers are. -/
theorem every_exception_has_one_owner_sample :
    (∃ p q, p ≠ q ∧ (bothHold.world.heap p).isSome ∧ (bothHold.world.heap q).isSome ∧
      sampleWorld.heap p = none ∧ sampleWorld.heap q = none) ∧
      bothGone.world.heap = sampleWorld.heap := by
  have hplays : (Process.start sample sampleWorld).Plays sample
      [(true, forceFirst), (false, forceSecond)] := by decide
  have hplays' : bothHold.Plays sample
      [(false, .destroy .descending), (true, .destroy .descending)] := by decide
  obtain ⟨L, hrun⟩ := Run.of_plays Ledger.fresh hplays
  obtain ⟨L', hrun'⟩ := hrun.snoc_of_plays hplays'
  obtain ⟨X, hX⟩ : ∃ X, bothHold.patches.held (true, 0x401010) = some X := ⟨_, rfl⟩
  obtain ⟨Y, hY⟩ : ∃ Y, bothHold.patches.held (false, 0x401020) = some Y := ⟨_, rfl⟩
  obtain ⟨hlive, halone, -⟩ := every_exception_has_one_owner hrun
  obtain ⟨-, -, -, hidle⟩ := every_exception_has_one_owner hrun'
  obtain ⟨p, hp, hsome, hfree⟩ := hlive _ X hX
  obtain ⟨q, hq, hsome', hfree'⟩ := hlive _ Y hY
  refine ⟨⟨p, q, ?_, hsome, hsome', hfree, hfree'⟩, hidle (Process.idle_of_isEmpty (by decide))⟩
  rintro rfl
  cases halone _ _ X Y hX hY (hp.trans hq.symm)

/-! ## The entries -/

section Entry

variable {env : Env w} {V : Patches ι w} {k : ι × Addr w} {X : ForcedException w} {p : Addr w}

theorem entry_remove (hV : V.Good env) {j : ι × Addr w} (hne : k ≠ j) (hX : V.held k = some X)
    (hp : X.pException = some p) :
    (V.remove j).held k = some X ∧ (V.remove j).heap p = V.heap p := by
  refine ⟨by rw [Patches.held_remove, Function.update_of_ne hne, hX], ?_⟩
  cases hj : V.held j with
  | none => rw [Patches.remove_of_none hj]
  | some Y =>
    obtain ⟨q, code, hheld⟩ := hV.held j Y hj
    have hpq : p ≠ q := by
      rintro rfl
      exact hne (hV.alone k j X Y hX hj (hp.trans hheld.owns.symm))
    simp [Patches.remove, hj, hheld.owns, hpq]

theorem entry_removals (hV : V.Good env) {ks : List (ι × Addr w)} (hne : k ∉ ks)
    (hX : V.held k = some X) (hp : X.pException = some p) :
    (ks.foldl Patches.remove V).held k = some X ∧
      (ks.foldl Patches.remove V).heap p = V.heap p := by
  induction ks generalizing V with
  | nil => exact ⟨hX, rfl⟩
  | cons j ks ih =>
    simp only [List.mem_cons, not_or] at hne
    obtain ⟨hX', hheap⟩ := entry_remove hV hne.1 hX hp
    obtain ⟨hX'', hheap'⟩ := ih (good_remove hV) hne.2 hX'
    exact ⟨hX'', hheap'.trans hheap⟩

/-- A call that does not give the location up leaves its entry and its
exception as they are. -/
theorem entry_step {P P' : Process ι w} {i : ι} {op : Op w} {o : Outcome Unit} (hP : P.Ready env)
    (hV : P.patches.Good env) (hop : op.Fresh P.world) (hstays : k ∉ P.removals i op)
    (hs : P.step env i op = (o, P')) (ho : o.Completes) (hX : P.patches.held k = some X)
    (hp : X.pException = some p) :
    P'.patches.held k = some X ∧ P'.patches.heap p = P.patches.heap p := by
  rcases Process.step_patches hP hop hs ho with
    hrem | ⟨loc, pError, allocs, patch, rfl, hpatch, hnone, -, hin⟩
  · rw [hrem]
    exact entry_removals hV hstays hX hp
  · have hk : k ≠ (i, loc) := by
      rintro rfl
      rw [hnone] at hX
      cases hX
    have hfree : P.patches.heap patch.pError = none := hop _ (Env.patchAt_opcode hpatch).2.2
    have hpe : p ≠ patch.pError := by
      rintro rfl
      exact not_owned_of_free hV hfree hX hp
    rw [hin]
    exact ⟨by simp [Patches.install, hk, hX], by simp [Patches.install, hpe]⟩

/-- The entry of a location that no call of the run gives up. -/
theorem Run.entry {cond : Process ι w → Ledger ι w → ι → Op w → Prop}
    (hcond : ∀ P L i op, cond P L i op → k ∉ P.removals i op) {P₀ P : Process ι w}
    {L₀ L : Ledger ι w} (h : Run env cond P₀ L₀ P L) (hP₀ : P₀.Ready env)
    (hV₀ : P₀.patches.Good env) (hX : P₀.patches.held k = some X) (hp : X.pException = some p) :
    P.patches.held k = some X ∧ P.patches.heap p = P₀.patches.heap p := by
  induction h with
  | refl => exact ⟨hX, rfl⟩
  | step hrun hop hc hs ho ih =>
    obtain ⟨hX', hheap⟩ := entry_step (hrun.ready hP₀) (hrun.good hP₀ hV₀) hop (hcond _ _ _ _ hc)
      hs ho ih.1 hp
    exact ⟨hX', hheap.trans ih.2⟩

/-- The entry that a force makes owns the exception of the call. -/
theorem entry_of_force {P P' : Process ι w} {i : ι} {loc : Addr w} {e : Nat} {allocs : Allocs w}
    (hP : P.Ready env) (hop : (Op.forceException loc (some e) allocs).Fresh P.world)
    (hnone : P.patches.held (i, loc) = none)
    (hs : P.step env i (.forceException loc (some e) allocs) = (.ok (), P')) :
    ∃ patch, env.patchAt loc (some e) allocs = .ok patch ∧
      P'.patches.held (i, loc) = some (patch.forced P.patches.memory) ∧
      P'.patches.heap patch.pError = some (some e) := by
  rcases Process.step_force hP hop hs trivial with ⟨-, hheld⟩ | ⟨patch, hpatch, -, -, hin⟩
  · exact absurd hnone (hheld rfl)
  obtain ⟨throwInfo, fn, error, -, -, herror, hprep⟩ := Env.patchAt_ok hpatch
  obtain ⟨-, -, herr, -⟩ := preparePatch_ok hprep
  cases herror
  exact ⟨patch, hpatch, by simp [hin, Patches.install], by simp [hin, Patches.install, herr]⟩

end Entry

/-- From any state, an entry stays the same object with the same exception
through every run that does not give its location up, whatever else is forced
and given up meanwhile, by this forcer or by others. -/
theorem an_entry_stays_until_it_is_given_up {env : Env w} {P P' : Process ι w} {L L' : Ledger ι w}
    {k : ι × Addr w} {X : ForcedException w} (hr : Reachable env P)
    (hX : P.patches.held k = some X)
    (h : Run env (fun P _ i op => k ∉ P.removals i op) P L P' L') :
    P'.patches.held k = some X ∧
      ∃ p e, X.pException = some p ∧ P.world.heap p = some e ∧ P'.world.heap p = some e := by
  obtain ⟨W₀, L₀, hrun⟩ := hr
  have hready := hrun.ready (ready_start env W₀)
  have hgood := hrun.good (ready_start env W₀) (good_start env W₀)
  obtain ⟨p, code, hheld⟩ := hgood.held k X hX
  obtain ⟨e, he⟩ := Option.isSome_iff_exists.1 hheld.live
  obtain ⟨hX', hheap⟩ := h.entry (fun _ _ _ _ hc => hc) hready hgood hX hheld.owns
  exact ⟨hX', p, e, hheld.owns, he, hheap.trans he⟩

theorem an_entry_stays_until_it_is_given_up_sample :
    ∃ p e, firstForced.world.heap p = some e ∧ bothForced.world.heap p = some e := by
  obtain ⟨X, hX⟩ : ∃ X, firstForced.patches.held ((), 0x401010) = some X := ⟨_, rfl⟩
  have hreachable : Reachable sample firstForced :=
    ⟨sampleWorld, firstLedger, run_firstForced trivial⟩
  have hrun : Run sample (fun P _ i op => ((), (0x401010 : Addr 64)) ∉ P.removals i op) firstForced
      firstLedger bothForced (firstLedger.after firstForced bothForced () forceSecond) :=
    Run.refl.call (by decide) List.not_mem_nil (by decide)
  obtain ⟨-, p, e, -, hbefore, hafter⟩ := an_entry_stays_until_it_is_given_up hreachable hX hrun
  exact ⟨p, e, hbefore, hafter⟩

end eforce
