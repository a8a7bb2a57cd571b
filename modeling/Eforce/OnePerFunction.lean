-- What a caller has to do to be safe: never have two entries for one function
-- at a time. Then the order in which locations are given up does not matter,
-- and a forced function throws the exception that it was forced with.
import Eforce.Forcing
import Eforce.Lifetime

namespace eforce

open byte_memory overlay

variable {ι : Type} {w : Nat}

/-! ## The discipline -/

/-- No two entries of the maps, of whatever forcers, are for one function. -/
def Process.OnePerFunction (env : Env w) (P : Process ι w) : Prop :=
  ∀ k k' X X', P.patches.held k = some X → P.patches.held k' = some X' →
    env.startOf k.2 = env.startOf k'.2 → k = k'

/-- The call leaves one entry for each function at most. -/
def OnePerFunction [DecidableEq ι] (env : Env w) (P : Process ι w) (_ : Ledger ι w) (i : ι)
    (op : Op w) : Prop := (P.step env i op).2.OnePerFunction env

/-- A check of every two entries. -/
theorem Process.onePerFunction_of_entries {env : Env w} {P : Process ι w}
    (h : ∀ i, ∀ F ∈ P.forcers i, ∀ e ∈ F.forcedExceptions.toList, ∀ j, ∀ G ∈ P.forcers j,
      ∀ e' ∈ G.forcedExceptions.toList, env.startOf e.1 = env.startOf e'.1 → (i, e.1) = (j, e'.1)) :
    P.OnePerFunction env := by
  intro k k' X X' hX hX'
  obtain ⟨F, hF, hloc⟩ := Option.bind_eq_some_iff.1 hX
  exact forall_held (p := fun k' _ => env.startOf k.2 = env.startOf k'.2 → k = k')
    (h k.1 F hF (k.2, X) (Std.ExtTreeMap.mem_toList_iff_getElem?_eq_some.2 hloc)) hX'

theorem HeldAt.startOf {env : Env w} {heap : Addr w → Option ExceptionPtr} {loc p : Addr w}
    {X : ForcedException w} {code : List Byte} (h : HeldAt env heap loc X p code) :
    env.startOf loc = some X.fnStart := by
  obtain ⟨-, stop, hext, -⟩ := h.room
  simp [Env.startOf, hext]

section

variable [DecidableEq ι] {env : Env w} {m₀ : Memory w} {L : Ledger ι w}

/-- Every function has one patch at most, over its own code. -/
def Ledger.Alone (L : Ledger ι w) : Prop := ∀ start, (L start).Alone none

theorem Ledger.alone_fresh : (Ledger.fresh : Ledger ι w).Alone := fun _ => Cell.alone_fresh none

theorem Ledger.Alone.unforce (h : L.Alone) (k : ι × Addr w) : (L.unforce k).Alone :=
  fun start => (h start).undo k

theorem Ledger.Alone.removals (h : L.Alone) (ks : List (ι × Addr w)) :
    (ks.foldl Ledger.unforce L).Alone := by
  induction ks generalizing L with
  | nil => exact h
  | cons k ks ih => exact ih (h.unforce k)

theorem Ledger.Alone.force (h : L.Alone) {start : Addr w} (hidle : (L start).Idle)
    (k : ι × Addr w) (p : Option (Addr w)) : (L.force k start p).Alone := by
  intro s
  by_cases hs : s = start
  · subst hs
    rw [Ledger.force, Function.update_self]
    exact (h s).put hidle k p
  · rw [Ledger.force, Function.update_of_ne hs]
    exact h s

theorem alone_step {P P' : Process ι w} {i : ι} {op : Op w} {o : Outcome Unit}
    (hP : P.Ready env) (hagrees : P.patches.Agrees env m₀ L) (h : L.Alone)
    (hop : op.Fresh P.world) (hs : P.step env i op = (o, P')) (ho : o.Completes)
    (hone : P'.OnePerFunction env) : (L.after P P' i op).Alone := by
  rcases Process.step_patches hP hop hs ho with
    hrem | ⟨loc, pError, allocs, patch, rfl, hpatch, hnone, -, hin⟩
  · rw [Ledger.after_of_removals hrem]
    exact h.removals _
  · rw [Ledger.after_of_install hnone hin]
    have hpatchable : env.Patchable patch.fnStart := ⟨loc, (Env.patchAt_opcode hpatch).1⟩
    refine h.force (hagrees.idle hpatchable fun k X hX hstart => ?_) _ _
    obtain ⟨p, code, hheld⟩ := hagrees.good.held k X hX
    have hk : k ≠ (i, loc) := by
      rintro rfl
      rw [hnone] at hX
      cases hX
    -- The older entry is still there, beside the new one.
    have hold : P'.patches.held k = some X := by simp [hin, Patches.install, hk, hX]
    have hnew : P'.patches.held (i, loc) = some (patch.forced P.patches.memory) := by
      simp [hin, Patches.install]
    apply hk
    refine hone k (i, loc) _ _ hold hnew ?_
    rw [hheld.startOf, hstart, startOf_patch hpatch]

theorem Run.alone {cond : Process ι w → Ledger ι w → ι → Op w → Prop}
    (hcond : ∀ P L i op, cond P L i op → OnePerFunction env P L i op) (hd : env.FunctionsDisjoint)
    {P₀ P : Process ι w} {L₀ L : Ledger ι w} (h : Run env cond P₀ L₀ P L) (hP₀ : P₀.Ready env)
    (hagrees₀ : P₀.patches.Agrees env m₀ L₀) (h₀ : L₀.Alone) : L.Alone := by
  induction h with
  | refl => exact h₀
  | step hrun hop hc hs ho ih =>
    have hone := hcond _ _ _ _ hc
    unfold OnePerFunction at hone
    rw [hs] at hone
    exact alone_step (hrun.ready hP₀) (hrun.agrees hd hP₀ hagrees₀) ih hop hs ho hone

end

/-! ## What it gives -/

section

variable [DecidableEq ι] {env : Env w} {m₀ : Memory w} {V : Patches ι w} {L : Ledger ι w}

/-- A function with one patch has the opcode of that patch. -/
theorem embeds_of_alone (h : V.Agrees env m₀ L) (hL : L.Alone) {k : ι × Addr w}
    {X : ForcedException w} (hX : V.held k = some X) :
    ∃ p, X.pException = some p ∧ (V.heap p).isSome ∧ env.Embeds V.memory X.fnStart p := by
  obtain ⟨p, code, hheld⟩ := h.good.held k X hX
  have hs : env.Patchable X.fnStart := ⟨k.2, hheld.room⟩
  obtain ⟨l, hl⟩ := h.layers_of_held hX
  obtain ⟨Y, hY, -, hwritten⟩ := h.held_of_layers hs hl
  cases hX.symm.trans hY
  have hread : read V.memory X.fnStart env.generator.size = code := by
    rw [← hheld.written, hwritten, ← (hL X.fnStart).of_layer hl]
    exact h.read hs
  refine ⟨p, hheld.owns, hheld.live, ?_⟩
  unfold Env.Embeds
  rw [hread]
  exact hheld.opcode

/-- As long as no two entries are for one function at a time, any number of
forcers may force and give up in any order: every forced location is in force
with its own exception, every other function has its own code, and the program
is as it was when nothing is forced. -/
theorem one_location_per_function_is_safe {env : Env w} {W₀ : World w} {P : Process ι w}
    {L : Ledger ι w} (hd : env.FunctionsDisjoint)
    (h : Run env (OnePerFunction env) (Process.start env W₀) Ledger.fresh P L) :
    (∀ k X, P.patches.held k = some X → env.startOf k.2 = some X.fnStart ∧
      ∃ p, X.pException = some p ∧ (P.world.heap p).isSome ∧
        env.Embeds P.world.memory X.fnStart p) ∧
    (∀ loc start stop, env.Registered loc → env.extentAt loc = some (start, stop) →
      (∀ k X, P.patches.held k = some X → env.startOf k.2 ≠ some start) →
      ∀ a, Within start (stop - start).toNat a → P.world.memory a = W₀.memory a) ∧
    (P.Idle → P.world.memory = W₀.memory) := by
  have hagrees := h.agrees hd (ready_start env W₀) (agrees_start env W₀)
  have halone := h.alone (fun _ _ _ _ hc => hc) hd (ready_start env W₀) (agrees_start env W₀)
    Ledger.alone_fresh
  have hfree : ∀ start, env.Patchable start →
      (∀ k X, P.patches.held k = some X → X.fnStart ≠ start) → (L start).content = none :=
    fun start hs hnone => (halone start).restored (hagrees.idle hs hnone)
  refine ⟨fun k X hX => ?_, fun loc start stop hreg hext hnone a ha => ?_, fun hidle => ?_⟩
  · obtain ⟨_, _, hheld⟩ := hagrees.good.held k X hX
    exact ⟨hheld.startOf, embeds_of_alone hagrees halone hX⟩
  · refine own_byte hd hagrees hreg hext (fun hs => hfree start hs fun k X hX hstart => ?_) ha
    obtain ⟨_, _, hheld⟩ := hagrees.good.held k X hX
    exact hnone k X hX (hstart ▸ hheld.startOf)
  · refine hagrees.memory_of_own_code fun start hs => hfree start hs fun k X hX => ?_
    rw [hidle k] at hX
    cases hX

def forceG : Op 64 := .forceException 0x401050 (some 9) { exceptionPtr := some 0x7010 }

/-- Each function of the small program is forced by a forcer of its own. -/
def oneEach : Process Bool 64 := (elderHolds.step sample false forceG).2

def elderGone : Process Bool 64 := (oneEach.step sample true (.destroy .descending)).2

/-- Both functions throw, and the first one has its own code again when its forcer
is gone. -/
theorem one_location_per_function_is_safe_sample :
    sample.Embeds oneEach.world.memory 0x401000 0x7000 ∧
      sample.Embeds oneEach.world.memory 0x401040 0x7010 ∧
      read elderGone.world.memory 0x401000 64 = read sampleWorld.memory (0x401000 : Addr 64) 64 ∧
      (elderGone.step sample false (.destroy .descending)).2.world.memory =
        sampleWorld.memory := by
  have elderFresh : forceFirst.Fresh sampleWorld := by decide
  have otherFresh : forceG.Fresh elderHolds.world := by decide
  have destroyFresh : ∀ W, (Op.destroy .descending : Op 64).Fresh W := fun _ => trivial
  have hboth : Run sample (OnePerFunction sample) (Process.start sample sampleWorld)
      Ledger.fresh oneEach _ :=
    (Run.refl.call elderFresh (Process.onePerFunction_of_entries (by decide)) (by decide)).call
      otherFresh (Process.onePerFunction_of_entries (by decide)) (by decide)
  have helder : Run sample (OnePerFunction sample) (Process.start sample sampleWorld)
      Ledger.fresh elderGone _ :=
    hboth.call (destroyFresh _) (Process.onePerFunction_of_entries (by decide)) (by decide)
  obtain ⟨hforced, -⟩ := one_location_per_function_is_safe sample_disjoint hboth
  obtain ⟨-, hown, -⟩ := one_location_per_function_is_safe sample_disjoint helder
  obtain ⟨-, -, hidle⟩ := one_location_per_function_is_safe sample_disjoint
    (helder.call (i := false) (destroyFresh _) (Process.onePerFunction_of_entries (by decide))
      (by decide))
  obtain ⟨X, hX, hstart, hp⟩ : ∃ X, oneEach.patches.held (true, 0x401010) = some X ∧
      X.fnStart = 0x401000 ∧ X.pException = some 0x7000 := ⟨_, rfl, rfl, rfl⟩
  obtain ⟨Y, hY, hstart', hp'⟩ : ∃ Y, oneEach.patches.held (false, 0x401050) = some Y ∧
      Y.fnStart = 0x401040 ∧ Y.pException = some 0x7010 := ⟨_, rfl, rfl, rfl⟩
  obtain ⟨-, p, hpX, -, hembeds⟩ := hforced _ X hX
  obtain ⟨-, q, hqY, -, hembeds'⟩ := hforced _ Y hY
  cases hp.symm.trans hpX
  cases hp'.symm.trans hqY
  rw [hstart] at hembeds
  rw [hstart'] at hembeds'
  refine ⟨hembeds, hembeds', read_congr (by decide) fun a ha => ?_,
    hidle (Process.idle_of_isEmpty (by decide))⟩
  refine hown 0x401010 0x401000 0x401040 sample_registered (by decide) (fun k X hX => ?_) a ha
  exact Process.forall_held (p := fun k _ => sample.startOf k.2 ≠ some 0x401000) (by decide) hX

/-- A function throws the exception of its last force for as long as the
location is not given up, and each function has one entry at most. -/
theorem throws_until_given_up {env : Env w} {W₀ : World w} {P P₁ P₂ : Process ι w}
    {L L₁ : Ledger ι w} {i : ι} {loc : Addr w} {e : Nat} {allocs : Allocs w}
    (hd : env.FunctionsDisjoint)
    (h₁ : Run env (OnePerFunction env) (Process.start env W₀) Ledger.fresh P₁ L₁)
    (hop : (Op.forceException loc (some e) allocs).Fresh P₁.world)
    (hnone : P₁.patches.held (i, loc) = none)
    (hs : P₁.step env i (.forceException loc (some e) allocs) = (.ok (), P₂))
    (hone : P₂.OnePerFunction env)
    (h₂ : Run env (fun P L j op => OnePerFunction env P L j op ∧ (i, loc) ∉ P.removals j op) P₂
      (L₁.after P₁ P₂ i (.forceException loc (some e) allocs)) P L) :
    ∃ start, env.startOf loc = some start ∧ env.Patchable start ∧
      P.patches.Throws env start e := by
  have hforced : Run env (OnePerFunction env) (Process.start env W₀) Ledger.fresh P₂
      (L₁.after P₁ P₂ i (.forceException loc (some e) allocs)) := by
    refine h₁.step hop ?_ hs trivial
    unfold OnePerFunction
    rwa [hs]
  have hready := hforced.ready (ready_start env W₀)
  have hagrees₂ := hforced.agrees hd (ready_start env W₀) (agrees_start env W₀)
  have halone₂ := hforced.alone (fun _ _ _ _ hc => hc) hd (ready_start env W₀)
    (agrees_start env W₀) Ledger.alone_fresh
  have hagrees := h₂.agrees hd hready hagrees₂
  have halone := h₂.alone (fun _ _ _ _ hc => hc.1) hd hready hagrees₂ halone₂
  obtain ⟨patch, hpatch, hX, hthrown⟩ :=
    entry_of_force (h₁.ready (ready_start env W₀)) hop hnone hs
  obtain ⟨hstays, hheap⟩ := h₂.entry (fun _ _ _ _ hc => hc.2) hready hagrees₂.good hX rfl
  obtain ⟨p, hp, -, hembeds⟩ := embeds_of_alone hagrees halone hstays
  cases hp
  exact ⟨patch.fnStart, startOf_patch hpatch, ⟨loc, (Env.patchAt_opcode hpatch).1⟩, patch.pError,
    hembeds, hheap.trans hthrown⟩

end

/-! ## The order of the calls -/

section

/-- What a forcer has at a location: an exception pointer, and the exception
behind it. -/
def Patches.entry (V : Patches ι w) (k : ι × Addr w) :
    Option (Option (Addr w) × Option ExceptionPtr) :=
  (V.held k).map fun X => (X.pException, X.pException.bind V.heap)

variable [DecidableEq ι] {env : Env w} {m₀ : Memory w} {h₀ : Addr w → Option ExceptionPtr}
  {V V' : Patches ι w} {L L' : Ledger ι w}

omit [DecidableEq ι] in
theorem held_of_entry (hsame : ∀ k, V.entry k = V'.entry k) {k : ι × Addr w}
    {X : ForcedException w} (hX : V.held k = some X) :
    ∃ X', V'.held k = some X' ∧ X'.pException = X.pException ∧
      X.pException.bind V'.heap = X.pException.bind V.heap := by
  have hk := hsame k
  unfold Patches.entry at hk
  rw [hX] at hk
  obtain ⟨X', hX', hpair⟩ := Option.map_eq_some_iff.1 hk.symm
  obtain ⟨hp, hheap⟩ := Prod.mk.inj hpair
  exact ⟨X', hX', hp, hp ▸ hheap⟩

omit [DecidableEq ι] in
/-- The function of an entry comes from its location. -/
theorem fnStart_of_held (hV : V.Good env) (hV' : V'.Good env) {k : ι × Addr w}
    {X X' : ForcedException w} (hX : V.held k = some X) (hX' : V'.held k = some X') :
    X'.fnStart = X.fnStart := by
  obtain ⟨_, _, hheld⟩ := hV.held k X hX
  obtain ⟨_, _, hheld'⟩ := hV'.held k X' hX'
  exact Option.some.inj (hheld'.startOf.symm.trans hheld.startOf)

/-- The entries tell the code. -/
theorem memory_of_entries (h : V.Agrees env m₀ L) (hL : L.Alone) (h' : V'.Agrees env m₀ L')
    (hL' : L'.Alone) (hsame : ∀ k, V.entry k = V'.entry k) : V.memory = V'.memory := by
  funext a
  by_cases hplace : ∃ s, env.Patchable s ∧ Within s env.generator.size a
  · obtain ⟨s, hs, has⟩ := hplace
    by_cases hheld : ∃ k X, V.held k = some X ∧ X.fnStart = s
    · obtain ⟨k, X, hX, rfl⟩ := hheld
      obtain ⟨X', hX', hp', -⟩ := held_of_entry hsame hX
      obtain ⟨p, hp, -, hembeds⟩ := embeds_of_alone h hL hX
      obtain ⟨p', hp'', -, hembeds'⟩ := embeds_of_alone h' hL' hX'
      rw [fnStart_of_held h.good h'.good hX hX'] at hembeds'
      cases hp.symm.trans (hp'.symm.trans hp'')
      have hread := Except.ok.inj (hembeds.symm.trans hembeds')
      exact eq_of_read_eq hread has
    · have hnone : ∀ k X, V.held k = some X → X.fnStart ≠ s :=
        fun k X hX hstart => hheld ⟨k, X, hX, hstart⟩
      have hnone' : ∀ k X, V'.held k = some X → X.fnStart ≠ s := by
        intro k X' hX' hstart
        obtain ⟨X, hX, -⟩ := held_of_entry (fun k => (hsame k).symm) hX'
        exact hnone k X hX ((fnStart_of_held h'.good h.good hX' hX).trans hstart)
      rw [h.own_code hs ((hL s).restored (h.idle hs hnone)) has,
        h'.own_code hs ((hL' s).restored (h'.idle hs hnone')) has]
  · push Not at hplace
    rw [h.frame a hplace, h'.frame a hplace]

omit [DecidableEq ι] in
theorem heap_of_entries (h : V.Accounts h₀) (h' : V'.Accounts h₀)
    (hsame : ∀ k, V.entry k = V'.entry k) : V.heap = V'.heap := by
  funext p
  by_cases howned : ∃ k X, V.held k = some X ∧ X.pException = some p
  · obtain ⟨k, X, hX, hp⟩ := howned
    obtain ⟨-, -, -, hheap⟩ := held_of_entry hsame hX
    rw [hp] at hheap
    exact hheap.symm
  · have hnone : ∀ k X, V.held k = some X → X.pException ≠ some p :=
      fun k X hX hp => howned ⟨k, X, hX, hp⟩
    have hnone' : ∀ k X, V'.held k = some X → X.pException ≠ some p := by
      intro k X' hX' hp
      obtain ⟨X, hX, he, -⟩ := held_of_entry (fun k => (hsame k).symm) hX'
      exact hnone k X hX (he.trans hp)
    rw [h.others p hnone, h'.others p hnone']

/-- Two runs from one start, each with one entry for a function at a time, come to
the same code and the same heap when they come to the same entries, whatever was
forced and given up on the way, and in whatever order. -/
theorem the_order_of_the_calls_does_not_show {W₀ : World w} {P P' : Process ι w}
    (hd : env.FunctionsDisjoint)
    (h : Run env (OnePerFunction env) (Process.start env W₀) Ledger.fresh P L)
    (h' : Run env (OnePerFunction env) (Process.start env W₀) Ledger.fresh P' L')
    (hsame : ∀ k, P.patches.entry k = P'.patches.entry k) :
    P.world.memory = P'.world.memory ∧ P.world.heap = P'.world.heap := by
  have hready := ready_start env W₀ (ι := ι)
  have hagrees := agrees_start env W₀ (ι := ι)
  have haccounts := accounts_start env W₀ (ι := ι)
  refine ⟨?_, ?_⟩
  · exact memory_of_entries (h.agrees hd hready hagrees)
      (h.alone (fun _ _ _ _ hc => hc) hd hready hagrees Ledger.alone_fresh)
      (h'.agrees hd hready hagrees)
      (h'.alone (fun _ _ _ _ hc => hc) hd hready hagrees Ledger.alone_fresh) hsame
  · exact heap_of_entries (h.accounts hready hagrees.good haccounts)
      (h'.accounts hready hagrees.good haccounts) hsame

end

/-! ## Two forces in either order -/

section Two

variable {P : Process Unit w} {F : Impl w} {a b : Addr w} {X Y : ForcedException w}

theorem entry_of_two (hF : P.forcers () = some F)
    (hmap : F.forcedExceptions = ((∅ : ForcedExceptions w).insert a X).insert b Y)
    (k : Unit × Addr w) : P.patches.entry k =
      if k.2 = b then some (Y.pException, Y.pException.bind P.world.heap)
      else if k.2 = a then some (X.pException, X.pException.bind P.world.heap) else none := by
  obtain ⟨⟨⟩, loc⟩ := k
  unfold Patches.entry
  rw [Process.held_of_forcer hF, hmap]
  simp only [Std.ExtTreeMap.getElem?_insert, Std.LawfulEqCmp.compare_eq_iff_eq, eq_comm (b := loc)]
  by_cases hb : loc = b
  · rw [if_pos hb, if_pos hb]
    rfl
  · by_cases ha : loc = a
    · rw [if_neg hb, if_neg hb, if_pos ha, if_pos ha]
      rfl
    · rw [if_neg hb, if_neg hb, if_neg ha, if_neg ha]
      rfl

end Two

def forcedG : Process Unit 64 := ((Process.start sample sampleWorld).step sample () forceG).2

/-- Both functions of the small program are forced, in the one order and in the
other. -/
def firstThenG : Process Unit 64 := (firstForced.step sample () forceG).2

def gThenFirst : Process Unit 64 := (forcedG.step sample () forceFirst).2

theorem entry_firstThenG (k : Unit × Addr 64) :
    firstThenG.patches.entry k = gThenFirst.patches.entry k := by
  rw [entry_of_two (P := firstThenG) rfl rfl, entry_of_two (P := gThenFirst) rfl rfl]
  by_cases hb : k.2 = 0x401050
  · have ha : k.2 ≠ 0x401010 := by
      rw [hb]
      decide
    rw [if_pos hb, if_neg ha, if_pos hb]
    rfl
  · by_cases ha : k.2 = 0x401010
    · rw [if_neg hb, if_pos ha, if_pos ha]
      rfl
    · rw [if_neg hb, if_neg ha, if_neg ha, if_neg hb]

theorem the_order_of_the_calls_does_not_show_sample :
    firstThenG.world.memory = gThenFirst.world.memory ∧
      firstThenG.world.heap = gThenFirst.world.heap := by
  have hfirst : forceFirst.Fresh sampleWorld := by decide
  have hg : forceG.Fresh firstForced.world := by decide
  have hg' : forceG.Fresh sampleWorld := by decide
  have hfirst' : forceFirst.Fresh forcedG.world := by decide
  have hrun : Run sample (OnePerFunction sample) (Process.start sample sampleWorld) Ledger.fresh
      firstForced firstLedger := run_firstForced (Process.onePerFunction_of_entries (by decide))
  have hrun' : Run sample (OnePerFunction sample) (Process.start sample sampleWorld) Ledger.fresh
      forcedG (Ledger.fresh.after (Process.start sample sampleWorld) forcedG () forceG) :=
    Run.refl.call hg' (Process.onePerFunction_of_entries (by decide)) trivial
  have hboth : (firstForced.step sample () forceG).1.Completes := trivial
  have hboth' : (forcedG.step sample () forceFirst).1.Completes := trivial
  exact the_order_of_the_calls_does_not_show sample_disjoint
    (hrun.call hg (Process.onePerFunction_of_entries (by decide)) hboth)
    (hrun'.call hfirst' (Process.onePerFunction_of_entries (by decide)) hboth') entry_firstThenG

end eforce
