-- The forcers as they are meant to be: a function throws the exception of its
-- most recent force that was not given up. No patch is over another one there.
-- The code does the same as long as the forces of a function are given up in
-- the opposite order of their making.
import Eforce.OnePerFunction

namespace eforce

open byte_memory overlay

variable {ι : Type} [DecidableEq ι] {w : Nat}

/-! ## The ideal -/

/-- For every function start, the forces that were not given up, the most recent
one on top. -/
abbrev Ideal (ι : Type) (w : Nat) := Addr w → Pile (ι × Addr w) (Option (Addr w))

namespace Ideal

omit [DecidableEq ι] in
def empty : Ideal ι w := fun _ => []

def force (σ : Ideal ι w) (k : ι × Addr w) (start : Addr w) (p : Option (Addr w)) : Ideal ι w :=
  Function.update σ start ((k, p) :: σ start)

def unforce (σ : Ideal ι w) (k : ι × Addr w) : Ideal ι w := fun start => (σ start).leave k

def notes : Notes ι w (Ideal ι w) := ⟨force, unforce⟩

/-- The ideal behind a call, from the maps before and behind it. -/
def after (σ : Ideal ι w) (P P' : Process ι w) (i : ι) (op : Op w) : Ideal ι w :=
  notes.after σ P P' i op

/-- Each of the locations is the most recent one of its function when its turn
comes, or it is not forced at all. -/
def MayGiveUp (σ : Ideal ι w) (ks : List (ι × Addr w)) : Prop :=
  notes.Meets (fun σ k => ∀ start, (σ start).OnTop k) σ ks

variable {σ : Ideal ι w} {P P' : Process ι w} {i : ι}

theorem after_of_removals {op : Op w}
    (h : P'.patches = (P.removals i op).foldl Patches.remove P.patches) :
    σ.after P P' i op = (P.removals i op).foldl unforce σ :=
  Notes.after_of_removals h

theorem after_of_install {loc : Addr w} {pError : ExceptionPtr} {allocs : Allocs w}
    {patch : Patch w} (hnone : P.patches.held (i, loc) = none)
    (h : P'.patches = P.patches.install (i, loc) patch) :
    σ.after P P' i (.forceException loc pError allocs) =
      σ.force (i, loc) patch.fnStart (some patch.pError) :=
  Notes.after_of_install hnone h

end Ideal

/-- The calls of a run take fresh pointers, come to an end, and give the forces
of a function up in the opposite order of their making. Different functions do
not have to wait for each other. -/
inductive InOrder (env : Env w) (W₀ : World w) : Process ι w → Ideal ι w → Prop
  | start : InOrder env W₀ (Process.start env W₀) Ideal.empty
  | call {P σ i op o P'} : InOrder env W₀ P σ → op.Fresh P.world →
      σ.MayGiveUp (P.removals i op) → P.step env i op = (o, P') → o.Completes →
      InOrder env W₀ P' (σ.after P P' i op)

/-! ## The ideal lists what is forced -/

/-- The piles hold the forced locations, each in its function and with its
exception pointer. -/
def Ideal.Lists (σ : Ideal ι w) (V : Patches ι w) : Prop :=
  ∀ k start p, (k, p) ∈ σ start ↔
    ∃ X, V.held k = some X ∧ X.fnStart = start ∧ X.pException = p

section Lists

variable {env : Env w} {σ : Ideal ι w} {V : Patches ι w}

omit [DecidableEq ι] in
theorem lists_start (env : Env w) (W₀ : World w) :
    (Ideal.empty : Ideal ι w).Lists (Process.start env W₀).patches := by
  intro k start p
  simp [Ideal.empty, held_start]

theorem lists_remove (h : σ.Lists V) (k : ι × Addr w) : (σ.unforce k).Lists (V.remove k) := by
  intro k' start p
  unfold Ideal.unforce Pile.leave
  rw [List.mem_filter, h k' start p, Patches.held_remove]
  by_cases hk : k' = k
  · simp [hk]
  · simp [hk]

theorem lists_removals (h : σ.Lists V) (ks : List (ι × Addr w)) :
    (ks.foldl Ideal.unforce σ).Lists (ks.foldl Patches.remove V) := by
  induction ks generalizing σ V with
  | nil => exact h
  | cons k ks ih => exact ih (lists_remove h k)

theorem lists_install (h : σ.Lists V) {k : ι × Addr w} (hnone : V.held k = none)
    (patch : Patch w) :
    (σ.force k patch.fnStart (some patch.pError)).Lists (V.install k patch) := by
  intro k' start p
  have hnew : (V.install k patch).held = Function.update V.held k (some (patch.forced V.memory)) :=
    rfl
  have hold := h k' start p
  rw [hnew]
  by_cases hk : k' = k
  · subst hk
    have hnot : (k', p) ∉ σ start := by simp [hold, hnone]
    rw [Function.update_self]
    unfold Ideal.force
    by_cases hs : start = patch.fnStart
    · subst hs
      simp [hnot, Patch.forced, eq_comm]
    · simp [hnot, hs, Patch.forced, Ne.symm hs]
  · rw [Function.update_of_ne hk, ← hold]
    unfold Ideal.force
    by_cases hs : start = patch.fnStart
    · subst hs
      simp [hk]
    · rw [Function.update_of_ne hs]

theorem lists_step {P P' : Process ι w} {i : ι} {op : Op w} {o : Outcome Unit}
    (hP : P.Ready env) (h : σ.Lists P.patches) (hop : op.Fresh P.world)
    (hs : P.step env i op = (o, P')) (ho : o.Completes) :
    (σ.after P P' i op).Lists P'.patches := by
  rcases Process.step_patches hP hop hs ho with
    hrem | ⟨loc, pError, allocs, patch, rfl, -, hnone, -, hin⟩
  · rw [Ideal.after_of_removals hrem, hrem]
    exact lists_removals h _
  · rw [Ideal.after_of_install hnone hin, hin]
    exact lists_install h hnone patch

end Lists

/-! ## The code does what the ideal does -/

/-- The holders of each function are stacked as the ideal says. -/
def Ideal.Stacks (σ : Ideal ι w) (L : Ledger ι w) : Prop :=
  ∀ start, (L start).Stacked none (σ start)

section Stacks

variable {env : Env w} {σ : Ideal ι w} {L : Ledger ι w} {m₀ : Memory w}

theorem stacks_removals (h : σ.Stacks L) {ks : List (ι × Addr w)} (hks : σ.MayGiveUp ks) :
    (ks.foldl Ideal.unforce σ).Stacks (ks.foldl Ledger.unforce L) := by
  induction ks generalizing σ L with
  | nil => exact h
  | cons k ks ih => exact ih (fun start => (h start).undo (hks.1 start)) hks.2

theorem stacks_force (h : σ.Stacks L) {k : ι × Addr w} {start : Addr w}
    (hk : (L start).layers k = none) (p : Option (Addr w)) :
    (σ.force k start p).Stacks (L.force k start p) := by
  intro s
  by_cases hs : s = start
  · subst hs
    rw [Ledger.force, Ideal.force, Function.update_self, Function.update_self]
    exact (h s).put hk p
  · rw [Ledger.force, Ideal.force, Function.update_of_ne hs, Function.update_of_ne hs]
    exact h s

theorem stacks_step {P P' : Process ι w} {i : ι} {op : Op w} {o : Outcome Unit}
    (hP : P.Ready env) (hagrees : P.patches.Agrees env m₀ L) (h : σ.Stacks L)
    (hop : op.Fresh P.world) (hmay : σ.MayGiveUp (P.removals i op))
    (hs : P.step env i op = (o, P')) (ho : o.Completes) :
    (σ.after P P' i op).Stacks (L.after P P' i op) := by
  rcases Process.step_patches hP hop hs ho with
    hrem | ⟨loc, pError, allocs, patch, rfl, hpatch, hnone, -, hin⟩
  · rw [Ideal.after_of_removals hrem, Ledger.after_of_removals hrem]
    exact stacks_removals h hmay
  · rw [Ideal.after_of_install hnone hin, Ledger.after_of_install hnone hin]
    refine stacks_force h ?_ _
    by_contra hne
    obtain ⟨l, hl⟩ := Option.ne_none_iff_exists'.1 hne
    obtain ⟨X, hX, -⟩ := hagrees.held_of_layers ⟨loc, (Env.patchAt_opcode hpatch).1⟩ hl
    rw [hnone] at hX
    cases hX

/-- Behind every run in order there is a ledger that the code agrees with, and
that is stacked as the ideal says. -/
theorem InOrder.stacks (hd : env.FunctionsDisjoint) {W₀ : World w} {P : Process ι w}
    (h : InOrder env W₀ P σ) : P.Ready env ∧ σ.Lists P.patches ∧
      ∃ L, P.patches.Agrees env W₀.memory L ∧ σ.Stacks L := by
  induction h with
  | start =>
    exact ⟨ready_start env W₀, lists_start env W₀, Ledger.fresh, agrees_start env W₀,
      fun _ => Cell.stacked_fresh none⟩
  | call _ hop hmay hs ho ih =>
    obtain ⟨hready, hlists, L, hagrees, hstacks⟩ := ih
    exact ⟨Process.step_ready hready hs, lists_step hready hlists hop hs ho, _,
      agrees_step hd hready hagrees hop hs ho, stacks_step hready hagrees hstacks hop hmay hs ho⟩

/-- A function has the opcode of the pointer on top of its pile. -/
theorem embeds_of_top {V : Patches ι w} (hagrees : V.Agrees env m₀ L) (hlists : σ.Lists V)
    (hstacks : σ.Stacks L) {start : Addr w} {k : ι × Addr w} {p : Option (Addr w)}
    {s : Pile (ι × Addr w) (Option (Addr w))} (hpile : σ start = (k, p) :: s) :
    env.Patchable start ∧
      ∃ q, p = some q ∧ (V.heap q).isSome ∧ env.Embeds V.memory start q := by
  obtain ⟨X, hX, rfl, rfl⟩ := (hlists k start p).1 (hpile ▸ List.mem_cons_self)
  obtain ⟨q, code, hheld⟩ := hagrees.good.held k X hX
  have hs : env.Patchable X.fnStart := ⟨k.2, hheld.room⟩
  have hcontent : (L X.fnStart).content = some q := by
    rw [(hstacks X.fnStart).content, hpile, ← hheld.owns]
    rfl
  have hread := hagrees.read hs
  rw [hcontent] at hread
  have hcode : read V.memory X.fnStart env.generator.size = code := hread.trans hheld.opcode.eq
  refine ⟨hs, q, hheld.owns, hheld.live, ?_⟩
  unfold Env.Embeds
  rw [hcode]
  exact hheld.opcode

end Stacks

/-- Through every run of any forcers that gives the forces of each function up
in the opposite order of their making, the code is that of the ideal: a function
throws the exception of its most recent force, and all bytes off the forced
functions are the program's own. -/
theorem last_in_first_out_is_safe {env : Env w} {W₀ : World w} {P : Process ι w} {σ : Ideal ι w}
    (hd : env.FunctionsDisjoint) (h : InOrder env W₀ P σ) :
    (∀ k start p, (k, p) ∈ σ start ↔
      ∃ X, P.patches.held k = some X ∧ X.fnStart = start ∧ X.pException = p) ∧
    (∀ start k p s, σ start = (k, p) :: s → ∃ q, p = some q ∧ (P.world.heap q).isSome ∧
      env.Embeds P.world.memory start q) ∧
    ∀ a, (∀ start, σ start ≠ [] → ¬ Within start env.generator.size a) →
      P.world.memory a = W₀.memory a := by
  obtain ⟨-, hlists, L, hagrees, hstacks⟩ := h.stacks hd
  refine ⟨hlists, fun start k p s hpile => (embeds_of_top hagrees hlists hstacks hpile).2,
    fun a ha => ?_⟩
  · by_cases hplace : ∃ s, env.Patchable s ∧ Within s env.generator.size a
    · obtain ⟨s, hs, has⟩ := hplace
      have hnil : σ s = [] := by
        by_contra hne
        exact ha s hne has
      refine hagrees.own_code hs ?_ has
      rw [(hstacks s).content, hnil]
      rfl
    · push Not at hplace
      exact hagrees.frame a hplace

def idealFirst : Ideal Unit 64 := Ideal.empty.force ((), 0x401010) 0x401000 (some 0x7000)

def idealBoth : Ideal Unit 64 := idealFirst.force ((), 0x401020) 0x401000 (some 0x7010)

theorem idealBoth_onTop (start : Addr 64) : (idealBoth start).OnTop ((), 0x401020) := by
  unfold idealBoth idealFirst Ideal.force
  by_cases hs : start = 0x401000
  · subst hs
    rw [Function.update_self]
    exact Or.inl rfl
  · rw [Function.update_of_ne hs, Function.update_of_ne hs]
    trivial

/-- Both throws of the first function are forced, and the second one is given up.
The function throws the first exception again. -/
theorem last_in_first_out_is_safe_sample : ∃ q, (some 0x7000 : Option (Addr 64)) = some q ∧
    sample.Embeds (bothForced.step sample () (.unforceException 0x401020)).2.world.memory
      0x401000 q := by
  have hfresh : forceFirst.Fresh sampleWorld := by decide
  have hfresh' : forceSecond.Fresh firstForced.world := by decide
  have hsecond : firstForced.step sample () forceSecond = (.ok (), bothForced) := rfl
  have hfirst : InOrder sample sampleWorld firstForced idealFirst :=
    InOrder.start.call hfresh trivial rfl trivial
  have hboth : InOrder sample sampleWorld bothForced idealBoth :=
    hfirst.call hfresh' trivial hsecond trivial
  have hgone : InOrder sample sampleWorld
      (bothForced.step sample () (.unforceException 0x401020)).2
      (idealBoth.unforce ((), 0x401020)) :=
    hboth.call (Op.fresh_unforce _ _) ⟨idealBoth_onTop, trivial⟩ rfl trivial
  obtain ⟨-, htop, -⟩ := last_in_first_out_is_safe sample_disjoint hgone
  obtain ⟨q, hq, -, hembeds⟩ := htop 0x401000 ((), 0x401010) (some 0x7000) [] rfl
  exact ⟨q, hq, hembeds⟩

end eforce
