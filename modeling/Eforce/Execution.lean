-- The program that runs, with the forcers that patch it. The machine runs the
-- bytes that are in memory. The plan never looks at a patched byte: it runs the
-- program's own code, and lets a forced function throw. Both show the same.
import Eforce.Diversion
import Eforce.LastInFirstOut
import Eforce.Transition

namespace eforce

open byte_memory isa overlay transition

/-! ## The throw helper -/

/-- `Throw`: the exception behind the pointer is thrown again. It has to be
alive, and there has to be one. -/
def Throw {w : Nat} (W : World w) (pError : Addr w) : Option Nat := (W.heap pError).join

theorem throw_of_live {w : Nat} {W : World w} {pError : Addr w} {e : Nat}
    (h : W.heap pError = some (some e)) : Throw W pError = some e := by
  simp [Throw, h]

/-! ## The program -/

/-- A program that uses the library, the processor that it runs on, and the C++
runtime. The processor has the instructions of the patches among others. The
data of the program are part of the cpu, and the program does not write to its
code. -/
structure Platform (arch : Arch) (ι : Type) where
  env : Env arch.width
  isa : Isa arch.width
  core : Extension isa arch.isa
  /-- The entries of the member functions of a forcer. -/
  members : Addr arch.width → Prop
  /-- The call that the cpu makes there. -/
  calls : isa.Cpu → ι → Op arch.width → Prop
  /-- The cpu behind a call, by how the call ended. -/
  resume : Outcome Unit → isa.Cpu → isa.Cpu
  /-- The cpu behind a throw of `Throw`. -/
  unwind : Nat → isa.Cpu → isa.Cpu
  generator : env.generator = getOpcodeGenerator arch
  disjoint : env.FunctionsDisjoint
  reaches : ∀ start, env.Patchable start → arch.Reaches start env.throwFn
  ownBytes : isa.OwnBytes
  /-- The library patches none of its own entries. -/
  apart : ∀ start a, env.Patchable start → Within start env.generator.size a →
    a ≠ arch.entry env.throwFn ∧ ¬ members a
  helper_no_member : ¬ members (arch.entry env.throwFn)
  /-- The unwinder looks at the frame only. -/
  frame : ∀ e c c', (arch.convention.extend core).SameFrame c c' → unwind e c' = unwind e c

namespace Platform

variable {arch : Arch} {ι : Type}

/-- Where the code of `Throw` stands. -/
def helper (D : Platform arch ι) : Addr arch.width := arch.entry D.env.throwFn

def convention (D : Platform arch ι) : Convention D.isa := arch.convention.extend D.core

/-- The address is in the code of the program, and at no entry of the library. -/
def Own (D : Platform arch ι) (a : Addr arch.width) : Prop := a ≠ D.helper ∧ ¬ D.members a

/-- What can be seen of a run: the exceptions that `Throw` throws, and the calls
of the forcers. -/
inductive Observation (ι : Type) (w : Nat)
  | throws (e : Nat)
  | returns (i : ι) (op : Op w) (o : Outcome Unit)

/-- The program at a point of its run. The ledger is that of the calls so far. -/
structure Config (D : Platform arch ι) where
  process : Process ι arch.width
  ledger : Ledger ι arch.width
  cpu : D.isa.Cpu

/-- A new program. -/
def start (D : Platform arch ι) (W₀ : World arch.width) (c : D.isa.Cpu) : D.Config :=
  ⟨Process.start D.env W₀, Ledger.fresh, c⟩

/-! ## What the code in memory is -/

/-- The code in memory is what the ledger says. -/
structure Follows (D : Platform arch ι) (m₀ : Memory arch.width) (K : D.Config) : Prop where
  ready : K.process.Ready D.env
  agrees : K.process.patches.Agrees D.env m₀ K.ledger

section Code

variable {D : Platform arch ι} {m₀ : Memory arch.width} {K : D.Config} {P : Process ι arch.width}
  {L : Ledger ι arch.width} {c : D.isa.Cpu}

theorem follows_start (D : Platform arch ι) (W₀ : World arch.width) (c : D.isa.Cpu) :
    D.Follows W₀.memory (D.start W₀ c) :=
  ⟨ready_start D.env W₀, agrees_start D.env W₀⟩

/-- The instruction that the cpu stands at has no byte in the patch of a forced
function. -/
def Clear (D : Platform arch ι) (m₀ : Memory arch.width) (L : Ledger ι arch.width)
    (c : D.isa.Cpu) : Prop :=
  ∀ start, D.env.Patchable start → (L start).content ≠ none →
    ∀ a, D.isa.Fetches m₀ c a → ¬ Within start D.env.generator.size a

/-- An instruction off the patches is there as the program has it. -/
theorem fetched_alike (h : D.Follows m₀ ⟨P, L, c⟩) (hclear : D.Clear m₀ L c) :
    ∀ a, D.isa.Fetches m₀ c a → m₀ a = P.world.memory a := by
  intro a ha
  by_cases hplace : ∃ s, D.env.Patchable s ∧ Within s D.env.generator.size a
  · obtain ⟨s, hs, has⟩ := hplace
    have hown : (L s).content = none := by
      by_contra hne
      exact hclear s hs hne a ha has
    exact (h.agrees.own_code hs hown has).symm
  · push Not at hplace
    exact (h.agrees.frame a hplace).symm

/-- A generator whose helper is in reach gives code of some size. -/
theorem size_pos {start throwFn : Addr arch.width} (h : arch.Reaches start throwFn) :
    0 < (getOpcodeGenerator arch).size := by
  cases arch with
  | amd64 => exact Nat.succ_pos _
  | armThumb2 => exact Nat.succ_pos _
  | aarch64 => exact Nat.succ_pos _
  | fallback => exact h.elim

/-- The pointer of a function in the ledger is in the code of the function. -/
theorem embeds_of_content (h : D.Follows m₀ K) {start p : Addr arch.width}
    (hs : D.env.Patchable start) (hp : (K.ledger start).content = some p) :
    D.env.Embeds K.process.world.memory start p := by
  have hread := h.agrees.read hs
  rw [hp] at hread
  have hsize := size_pos (D.reaches start hs)
  rw [← D.generator] at hsize
  unfold Env.render Env.opcodeAt at hread
  unfold Env.Embeds Env.Opcode
  cases hcode : D.env.generator.getThrowOpcode start D.env.throwFn p with
  | error e =>
    have hlen := congrArg List.length hread
    simp only [hcode, length_read, Except.toOption, Option.getD_none, List.length_nil] at hlen
    omega
  | ok code =>
    simp only [hcode, Except.toOption, Option.getD_some] at hread
    exact congrArg Except.ok hread.symm

/-- A cpu at the start of a function with a pointer in its code gets to the
helper with the pointer for an argument. -/
theorem diverted {p : Addr arch.width} (hs : D.env.Patchable (D.isa.pc c))
    (hp : D.env.Embeds P.world.memory (D.isa.pc c) p) :
    ∃ k c', D.isa.Path P.world.memory (fun d => D.Own (D.isa.pc d)) c' (k + 1) c ∧
      Arrives D.convention D.helper p c c' := by
  unfold Env.Embeds Env.Opcode at hp
  have hat : CodeAt P.world.memory (D.isa.pc c)
      (read P.world.memory (D.isa.pc c) D.env.generator.size) := by
    unfold CodeAt
    rw [length_read]
  rw [D.generator] at hp hat
  obtain ⟨k, c', hpath, harrives⟩ := (the_code_of_every_generator_diverts arch).extend D.core
    _ _ p _ hp (D.reaches _ hs) P.world.memory c hat rfl
  rw [← D.generator] at hpath
  exact ⟨k, c', hpath.mono fun d hd => D.apart _ _ hs hd, harrives⟩

end Code

/-! ## The machine and the plan -/

variable [DecidableEq ι]

/-- The cpu stands at an entry of the library, and the library does its work. -/
inductive Library (D : Platform arch ι) : System D.Config (Observation ι arch.width)
  | rethrow {P L c e} : D.isa.pc c = D.helper →
      Throw P.world (D.convention.argument c) = some e →
      Library D ⟨P, L, c⟩ [.throws e] ⟨P, L, D.unwind e c⟩
  | call {P L c i op o P'} : D.members (D.isa.pc c) → D.calls c i op → op.Fresh P.world →
      P.step D.env i op = (o, P') → o.Completes →
      Library D ⟨P, L, c⟩ [.returns i op o] ⟨P', L.after P P' i op, D.resume o c⟩

/-- The cpu runs what is in memory. -/
inductive Machine (D : Platform arch ι) : System D.Config (Observation ι arch.width)
  | exec {P L c c'} : D.Own (D.isa.pc c) → D.isa.step P.world.memory c = some c' →
      Machine D ⟨P, L, c⟩ [] ⟨P, L, c'⟩
  | library {K o K'} : Library D K o K' → Machine D K o K'

/-- The cpu runs the code `m₀` that the program started with. A function with a
pointer in the ledger throws the exception behind it, before it does anything
else. -/
inductive Plan (D : Platform arch ι) (m₀ : Memory arch.width) :
    System D.Config (Observation ι arch.width)
  | exec {P L c c'} : D.Own (D.isa.pc c) → D.Clear m₀ L c → D.isa.step m₀ c = some c' →
      Plan D m₀ ⟨P, L, c⟩ [] ⟨P, L, c'⟩
  | divert {P L c p e} : D.env.Patchable (D.isa.pc c) → (L (D.isa.pc c)).content = some p →
      Throw P.world p = some e → Plan D m₀ ⟨P, L, c⟩ [.throws e] ⟨P, L, D.unwind e c⟩
  | library {K o K'} : Library D K o K' → Plan D m₀ K o K'

/-! ## The machine does what is planned -/

variable {D : Platform arch ι} {m₀ : Memory arch.width} {K K' : D.Config}
  {P : Process ι arch.width} {L : Ledger ι arch.width} {c c' d : D.isa.Cpu} {k n : Nat}
  {o os : List (Observation ι arch.width)}

theorem follows_library (h : D.Follows m₀ K) (hs : D.Library K o K') : D.Follows m₀ K' := by
  cases hs with
  | rethrow => exact ⟨h.ready, h.agrees⟩
  | call _ _ hop hs ho =>
    exact ⟨Process.step_ready h.ready hs, agrees_step D.disjoint h.ready h.agrees hop hs ho⟩

theorem follows_plan (h : D.Follows m₀ K) (hs : D.Plan m₀ K o K') : D.Follows m₀ K' := by
  cases hs with
  | exec => exact ⟨h.ready, h.agrees⟩
  | divert => exact ⟨h.ready, h.agrees⟩
  | library hs => exact follows_library h hs

theorem run_of_path (h : D.isa.Path P.world.memory (fun d => D.Own (D.isa.pc d)) c' k c) :
    Trace D.Machine ⟨P, L, c⟩ [] ⟨P, L, c'⟩ := by
  induction h with
  | refl => exact .refl
  | head hown hs _ ih => exact .head (.exec hown hs) ih

/-- The machine throws what the code at its start throws, and nothing is seen of
the way there. -/
theorem machine_throws {p : Addr arch.width} {e : Nat} (hs : D.env.Patchable (D.isa.pc c))
    (hp : D.env.Embeds P.world.memory (D.isa.pc c) p) (hthrow : Throw P.world p = some e) :
    Trace D.Machine ⟨P, L, c⟩ [.throws e] ⟨P, L, D.unwind e c⟩ := by
  obtain ⟨k, c', hpath, harrives⟩ := diverted hs hp
  have hargument : Throw P.world (D.convention.argument c') = some e := by
    rw [harrives.argument, hthrow]
  have hrethrow : D.Machine ⟨P, L, c'⟩ [.throws e] ⟨P, L, D.unwind e c'⟩ :=
    .library (.rethrow harrives.entry hargument)
  rw [D.frame e c c' harrives.frame] at hrethrow
  exact (run_of_path hpath).snoc_silent hrethrow

/-- One step of the plan is one step of the machine or, where a function is
forced, as many as its patch has instructions and one more. -/
theorem machine_of_plan (h : D.Follows m₀ K) (hs : D.Plan m₀ K o K') : Trace D.Machine K o K' := by
  cases hs with
  | exec hown hclear hs =>
    exact .single (.exec hown (Isa.step_congr D.ownBytes (fetched_alike h hclear) hs))
  | divert hpatchable hp hthrow =>
    exact machine_throws hpatchable (embeds_of_content h hpatchable hp) hthrow
  | library hs => exact .single (.library hs)

/-- Everything that is planned happens: each run of the plan is one of the
machine, from the same start to the same end, with the same exceptions and the
same calls on the way. -/
theorem the_machine_follows_the_plan {W₀ : World arch.width}
    (h : Trace (D.Plan W₀.memory) (D.start W₀ c) os K) : Trace D.Machine (D.start W₀ c) os K := by
  obtain ⟨K', hrun, rfl, -⟩ := h.simulates (B := D.Machine)
    (R := fun K K' => K = K' ∧ D.Follows W₀.memory K)
    (fun K _ o K' hK hs => ⟨K', hK.1 ▸ machine_of_plan hK.2 hs, rfl, follows_plan hK.2 hs⟩)
    ⟨rfl, follows_start D W₀ c⟩
  exact hrun

/-! ## The machine does nothing else -/

/-- Wherever the plan gets from `K`, it can go on as long as the machine can: the
program never runs into the middle of a patch, and no forced function throws an
exception that is dead. -/
def Planned (D : Platform arch ι) (m₀ : Memory arch.width) (K : D.Config) : Prop :=
  ∀ os K', Trace (D.Plan m₀) K os K' → (∃ o K'', D.Machine K' o K'') → ∃ o K'', D.Plan m₀ K' o K''

/-- The cpu stands at the start of a forced function. -/
def Forced (D : Platform arch ι) (K : D.Config) : Prop :=
  D.env.Patchable (D.isa.pc K.cpu) ∧ (K.ledger (D.isa.pc K.cpu)).content ≠ none

theorem Planned.step (h : D.Planned m₀ K) (hs : D.Plan m₀ K o K') : D.Planned m₀ K' :=
  fun _ _ hrun hgo => h _ _ (.head hs hrun) hgo

/-- The library works at its entries only. -/
theorem not_own_of_library (hs : D.Library K o K') : ¬ D.Own (D.isa.pc K.cpu) := by
  cases hs with
  | rethrow hpc => exact fun hown => hown.1 hpc
  | call hmember => exact fun hown => hown.2 hmember

/-- In the code of the program, the machine does what the cpu does. -/
theorem exec_of_own (hown : D.Own (D.isa.pc c)) (hstep : D.isa.step P.world.memory c = some c')
    (hs : D.Machine ⟨P, L, c⟩ o K) : o = [] ∧ K = ⟨P, L, c'⟩ := by
  cases hs with
  | exec _ hstep' =>
    cases hstep.symm.trans hstep'
    exact ⟨rfl, rfl⟩
  | library hs => exact absurd hown (not_own_of_library hs)

/-- At the helper, the machine throws the exception of the argument. -/
theorem rethrow_of_helper {e : Nat} (hpc : D.isa.pc c = D.helper)
    (hthrow : Throw P.world (D.convention.argument c) = some e)
    (hs : D.Machine ⟨P, L, c⟩ o K) : o = [.throws e] ∧ K = ⟨P, L, D.unwind e c⟩ := by
  cases hs with
  | exec hown => exact absurd hpc hown.1
  | library hs =>
    cases hs with
    | rethrow _ hthrow' =>
      cases hthrow.symm.trans hthrow'
      exact ⟨rfl, rfl⟩
    | call hmember =>
      rw [hpc] at hmember
      exact absurd hmember D.helper_no_member

/-- A run of the machine goes along the path of its cpu. It ends on the path and
shows nothing, or goes on behind it. -/
theorem steps_of_path (hpath : D.isa.Path P.world.memory (fun d => D.Own (D.isa.pc d)) d k c)
    (h : Steps D.Machine n ⟨P, L, c⟩ os K) :
    os = [] ∨ ∃ n', n = n' + k ∧ Steps D.Machine n' ⟨P, L, d⟩ os K := by
  induction hpath generalizing n os with
  | refl => exact Or.inr ⟨n, rfl, h⟩
  | @head k c c' hown hstep _ ih =>
    cases h with
    | refl => exact Or.inl rfl
    | @head n _ _ _ o os hs hrest =>
      obtain ⟨rfl, rfl⟩ := exec_of_own hown hstep hs
      rcases ih hrest with rfl | ⟨n', rfl, hsteps⟩
      · exact Or.inl rfl
      · exact Or.inr ⟨n', rfl, hsteps⟩

/-- By induction on the length of the run: a step of the plan is a first part of
it, or the run ends within the patch of a forced function. -/
theorem plan_of_machine (h : D.Follows m₀ K) (hplanned : D.Planned m₀ K)
    (hrun : Steps D.Machine n K os K') :
    ∃ K'', Trace (D.Plan m₀) K os K'' ∧ Trace D.Machine K'' [] K' ∧ (K'' = K' ∨ D.Forced K'') := by
  induction n using Nat.strong_induction_on generalizing K os with
  | h n ih =>
    have hall := hrun
    cases hrun with
    | refl => exact ⟨_, .refl, .refl, Or.inl rfl⟩
    | @head n _ K₁ _ o os hs hrest =>
      obtain ⟨o', K₂, hplan⟩ := hplanned _ _ .refl ⟨_, _, hs⟩
      cases hplan with
      | @exec P L c c' hown hclear hstep =>
        have hstep' := Isa.step_congr D.ownBytes (fetched_alike h hclear) hstep
        obtain ⟨rfl, rfl⟩ := exec_of_own hown hstep' hs
        have hplan : D.Plan m₀ ⟨P, L, c⟩ [] ⟨P, L, c'⟩ := .exec hown hclear hstep
        obtain ⟨K'', hK'', hend⟩ := ih n (Nat.lt_succ_self n) (follows_plan h hplan)
          (hplanned.step hplan) hrest
        exact ⟨K'', .head hplan hK'', hend⟩
      | @divert P L c p e hpatchable hp hthrow =>
        have hembeds := embeds_of_content h hpatchable hp
        obtain ⟨k, c', hpath, harrives⟩ := diverted hpatchable hembeds
        have hforced : D.Forced ⟨P, L, c⟩ := ⟨hpatchable, by simp [hp]⟩
        rcases steps_of_path hpath hall with hnil | ⟨n', hn, hsteps⟩
        · rw [hnil] at hall ⊢
          exact ⟨_, .refl, ⟨_, hall⟩, Or.inr hforced⟩
        · generalize o ++ os = shown at hall hsteps ⊢
          cases hsteps with
          | refl => exact ⟨_, .refl, ⟨_, hall⟩, Or.inr hforced⟩
          | @head n' _ _ _ o os hs hrest =>
            have hargument : Throw P.world (D.convention.argument c') = some e := by
              rw [harrives.argument, hthrow]
            obtain ⟨rfl, rfl⟩ := rethrow_of_helper harrives.entry hargument hs
            rw [D.frame e c c' harrives.frame] at hrest
            have hplan : D.Plan m₀ ⟨P, L, c⟩ _ _ := .divert hpatchable hp hthrow
            obtain ⟨K'', hK'', hend⟩ := ih n' (by omega) (follows_plan h hplan)
              (hplanned.step hplan) hrest
            exact ⟨K'', .head hplan hK'', hend⟩
      | library hlib =>
        have hnot := not_own_of_library hlib
        cases hs with
        | exec hown => exact absurd hown hnot
        | library hs =>
          have hplan : D.Plan m₀ K o K₁ := .library hs
          obtain ⟨K'', hK'', hend⟩ := ih n (Nat.lt_succ_self n) (follows_plan h hplan)
            (hplanned.step hplan) hrest
          exact ⟨K'', .head hplan hK'', hend⟩

/-- Nothing happens that is not planned: a run of the machine is a run of the
plan with the same exceptions and the same calls, and ends where that one does,
or within the patch of the forced function where that one stands. -/
theorem the_plan_covers_the_machine {W₀ : World arch.width}
    (hplanned : D.Planned W₀.memory (D.start W₀ c)) (h : Trace D.Machine (D.start W₀ c) os K) :
    ∃ K', Trace (D.Plan W₀.memory) (D.start W₀ c) os K' ∧ Trace D.Machine K' [] K ∧
      (K' = K ∨ D.Forced K') := by
  obtain ⟨n, hn⟩ := h
  exact plan_of_machine (follows_start D W₀ c) hplanned hn

/-! ## What a force is for -/

/-- A call of a function throws the exception that the function was forced with,
at the place of the call. It does so through every run that keeps to one entry a
function and does not give the location up. -/
theorem a_forced_function_throws_when_called {W₀ : World arch.width}
    {P P₁ P₂ : Process ι arch.width} {L L₁ : Ledger ι arch.width} {i : ι} {loc : Addr arch.width}
    {e : Nat} {allocs : Allocs arch.width}
    (h₁ : Run D.env (OnePerFunction D.env) (Process.start D.env W₀) Ledger.fresh P₁ L₁)
    (hop : (Op.forceException loc (some e) allocs).Fresh P₁.world)
    (hnone : P₁.patches.held (i, loc) = none)
    (hs : P₁.step D.env i (.forceException loc (some e) allocs) = (.ok (), P₂))
    (hone : P₂.OnePerFunction D.env)
    (h₂ : Run D.env (fun P L j op => OnePerFunction D.env P L j op ∧ (i, loc) ∉ P.removals j op) P₂
      (L₁.after P₁ P₂ i (.forceException loc (some e) allocs)) P L) :
    ∃ start, D.env.startOf loc = some start ∧ ∀ c, D.isa.pc c = start →
      Trace D.Machine ⟨P, L, c⟩ [.throws e] ⟨P, L, D.unwind e c⟩ := by
  obtain ⟨start, hstart, hpatchable, p, hembeds, hheap⟩ :=
    throws_until_given_up D.disjoint h₁ hop hnone hs hone h₂
  refine ⟨start, hstart, fun c hc => ?_⟩
  subst hc
  exact machine_throws hpatchable hembeds (throw_of_live hheap)

/-- With more than one location of a function forced, a call of it throws the
exception of the force on top of its pile, also when that force was covered by
others in between and came back. -/
theorem a_call_throws_the_exception_on_top {W₀ : World arch.width}
    {P P₁ P₂ : Process ι arch.width} {σ : Ideal ι arch.width} {L L₂ : Ledger ι arch.width} {i : ι}
    {loc start : Addr arch.width} {e : Nat} {allocs : Allocs arch.width}
    {p : Option (Addr arch.width)} {s : Pile (ι × Addr arch.width) (Option (Addr arch.width))}
    (h₁ : Reachable D.env P₁) (hop : (Op.forceException loc (some e) allocs).Fresh P₁.world)
    (hnone : P₁.patches.held (i, loc) = none)
    (hs : P₁.step D.env i (.forceException loc (some e) allocs) = (.ok (), P₂))
    (h₂ : Run D.env (fun P _ j op => (i, loc) ∉ P.removals j op) P₂ L₂ P L)
    (h : InOrder D.env W₀ P σ) (htop : σ start = ((i, loc), p) :: s) :
    ∀ c, D.isa.pc c = start →
      Trace D.Machine ⟨P, L, c⟩ [.throws e] ⟨P, L, D.unwind e c⟩ := by
  intro c hc
  subst hc
  obtain ⟨W, L₁, hrun⟩ := h₁
  have hready := hrun.ready (ready_start D.env W)
  have hready₂ := Process.step_ready hready hs
  have hgood₂ := good_step hready (hrun.good (ready_start D.env W) (good_start D.env W)) hop hs
    trivial
  obtain ⟨patch, -, hX, hthrown⟩ := entry_of_force hready hop hnone hs
  obtain ⟨hstays, hheap⟩ := h₂.entry (fun _ _ _ _ hc => hc) hready₂ hgood₂ hX rfl
  obtain ⟨-, hlists, L', hagrees, hstacks⟩ := h.stacks D.disjoint
  obtain ⟨hpatchable, q, rfl, -, hembeds⟩ := embeds_of_top hagrees hlists hstacks htop
  -- The pile and the map name the same pointer for the location.
  obtain ⟨X, hX', -, hq⟩ := (hlists (i, loc) (D.isa.pc c) (some q)).1 (htop ▸ List.mem_cons_self)
  cases hstays.symm.trans hX'
  cases hq
  exact machine_throws hpatchable hembeds (throw_of_live (hheap.trans hthrown))

end Platform

/-! ## A small program that runs -/

theorem x64_ownBytes : x64.arch.OwnBytes := fun _ _ _ h => x64.decode_take h

theorem sample_patchable {start : Addr 64} (h : sample.Patchable start) :
    start = 0x401000 ∨ start = 0x401040 := by
  obtain ⟨loc, hreg, stop, hext, -⟩ := h
  rcases sample_extent hreg with he | he <;> rw [he] at hext <;> cases hext
  · exact Or.inl rfl
  · exact Or.inr rfl

/-- The library is behind the patches. -/
theorem sample_apart {start a : Addr 64} (h : sample.Patchable start) (ha : Within start 15 a) :
    a ≠ 0x402000 ∧ a ≠ 0x402100 := by
  have hout : ∀ b, b = 0x402000 ∨ b = 0x402100 → ¬ Within start 15 b := by
    rcases sample_patchable h with rfl | rfl <;> rintro b (rfl | rfl) <;> decide
  exact ⟨fun he => hout a (Or.inl he) ha, fun he => hout a (Or.inr he) ha⟩

/-- The argument register does not count for the caller. -/
def caught (c : x64.Cpu) : x64.Cpu :=
  { c with regs := Function.update c.regs x64.rdi 0, rip := 0x600000 }

theorem caught_eq {c c' : x64.Cpu} (h : opcode_generator_x64.convention.SameFrame c c') :
    caught c' = caught c := by
  obtain ⟨hregs, hflags⟩ := h
  have hsame : Function.update c'.regs x64.rdi 0 = Function.update c.regs x64.rdi 0 := by
    funext r
    by_cases hr : r = x64.rdi
    · subst hr
      rw [Function.update_self, Function.update_self]
    · rw [Function.update_of_ne hr, Function.update_of_ne hr]
      exact hregs r hr
  rw [caught, caught, hsame, hflags]

/-- The program forces its first function, calls it, and is done when it has
caught the exception. -/
def samplePlatform : Platform .amd64 Unit where
  env := sample
  isa := x64.arch
  core := .refl _
  members a := a = 0x402100
  calls _ _ op := op = forceFirst
  resume _ c := { c with rip := 0x401000 }
  unwind _ c := caught c
  generator := rfl
  disjoint := sample_disjoint
  reaches start h := by
    rcases sample_patchable h with rfl | rfl
    · exact ⟨by decide, by decide⟩
    · exact ⟨by decide, by decide⟩
  ownBytes := x64_ownBytes
  apart _ _ h ha := sample_apart h ha
  helper_no_member := by decide
  frame _ _ _ h := caught_eq h.1

namespace Platform

def sampleCpu : x64.Cpu where
  regs := fun _ => 0
  rip := 0x402100
  rflags := 0

def sampleStart : samplePlatform.Config := samplePlatform.start sampleWorld sampleCpu

/-- Behind the call of the forcer. -/
def sampleForced : samplePlatform.Config :=
  ⟨firstForced, firstLedger, { sampleCpu with rip := 0x401000 }⟩

def sampleCaught : samplePlatform.Config :=
  ⟨firstForced, firstLedger, caught { sampleCpu with rip := 0x401000 }⟩

theorem sample_call :
    samplePlatform.Library sampleStart [.returns () forceFirst (.ok ())] sampleForced := by
  have hfresh : forceFirst.Fresh sampleWorld := by decide
  exact .call rfl rfl hfresh rfl trivial

theorem sample_divert :
    samplePlatform.Plan sampleWorld.memory sampleForced [.throws 1] sampleCaught :=
  .divert ⟨0x401010, sample_registered, 0x401040, rfl, by decide⟩ rfl rfl

theorem the_machine_follows_the_plan_sample : Trace samplePlatform.Machine sampleStart
    [.returns () forceFirst (.ok ()), .throws 1] sampleCaught :=
  the_machine_follows_the_plan (.head (.library sample_call) (.single sample_divert))

/-- There is no instruction in the memory of the small program. -/
theorem sample_no_code (c : x64.Cpu) : x64.arch.step sampleWorld.memory c = none := by
  have hread : read sampleWorld.memory c.rip 15 = List.replicate 15 0x90 := rfl
  have hdecode : x64.decode (List.replicate 15 0x90) = none := by decide
  simp only [Isa.step, x64.arch, hread, hdecode]

/-- The plan of the small program: the call, then the throw, and no more. -/
theorem sample_plan {os : List (Observation Unit 64)} {K : samplePlatform.Config}
    (h : Trace (samplePlatform.Plan sampleWorld.memory) sampleStart os K) :
    K = sampleStart ∨ K = sampleForced ∨ K = sampleCaught := by
  refine h.invariant (I := fun K => K = sampleStart ∨ K = sampleForced ∨ K = sampleCaught)
    (fun K o K' hK hs => ?_) (Or.inl rfl)
  rcases hK with rfl | rfl | rfl
  · cases hs with
    | exec _ _ hstep => cases (sample_no_code _).symm.trans hstep
    | divert _ hp => cases hp
    | library hs =>
      cases hs with
      | rethrow hpc => cases hpc
      | call _ hop _ hstep =>
        cases hop
        cases hstep
        exact Or.inr (Or.inl rfl)
  · cases hs with
    | exec _ _ hstep => cases (sample_no_code _).symm.trans hstep
    | divert _ hp hthrow =>
      cases hp
      cases hthrow
      exact Or.inr (Or.inr rfl)
    | library hs =>
      cases hs with
      | rethrow hpc => cases hpc
      | call hmember => cases hmember
  · cases hs with
    | exec _ _ hstep => cases (sample_no_code _).symm.trans hstep
    | divert _ hp => cases hp
    | library hs =>
      cases hs with
      | rethrow hpc => cases hpc
      | call hmember => cases hmember

theorem sample_planned : samplePlatform.Planned sampleWorld.memory sampleStart := by
  rintro os K hrun ⟨o, K'', hgo⟩
  rcases sample_plan hrun with rfl | rfl | rfl
  · exact ⟨_, _, .library sample_call⟩
  · exact ⟨_, _, sample_divert⟩
  · have hcode : samplePlatform.isa.step firstForced.world.memory sampleCaught.cpu = none := rfl
    cases hgo with
    | exec _ hstep => cases hcode.symm.trans hstep
    | library hs =>
      cases hs with
      | rethrow hpc => cases hpc
      | call hmember => cases hmember

theorem the_plan_covers_the_machine_sample : ∃ K',
    Trace (samplePlatform.Plan sampleWorld.memory) sampleStart
      [.returns () forceFirst (.ok ()), .throws 1] K' ∧
    Trace samplePlatform.Machine K' [] sampleCaught ∧
    (K' = sampleCaught ∨ samplePlatform.Forced K') := by
  have hfollows : samplePlatform.Follows sampleWorld.memory sampleForced :=
    follows_library (follows_start samplePlatform sampleWorld sampleCpu) sample_call
  exact the_plan_covers_the_machine sample_planned
    (.head (.library sample_call) (machine_of_plan hfollows sample_divert))

/-- The exception 5 for the first function, and then one for the second. -/
def forceFive : Op 64 := .forceException 0x401010 (some 5) { exceptionPtr := some 0x7000 }

def fiveForced : Process Unit 64 :=
  ((Process.start sample sampleWorld).step sample () forceFive).2

def fiveLedger : Ledger Unit 64 :=
  Ledger.fresh.after (Process.start sample sampleWorld) fiveForced () forceFive

def otherForced : Process Unit 64 := (fiveForced.step sample () forceG).2

def otherLedger : Ledger Unit 64 := fiveLedger.after fiveForced otherForced () forceG

theorem a_forced_function_throws_when_called_sample :
    ∃ start, sample.startOf 0x401010 = some start ∧ ∀ c, samplePlatform.isa.pc c = start →
      Trace samplePlatform.Machine ⟨otherForced, otherLedger, c⟩ [.throws 5]
        ⟨otherForced, otherLedger, caught c⟩ := by
  have hop : forceFive.Fresh sampleWorld := by decide
  have hstays : Run sample (fun P L j op => OnePerFunction sample P L j op ∧
      ((), (0x401010 : Addr 64)) ∉ P.removals j op) fiveForced fiveLedger otherForced otherLedger :=
    Run.refl.call (by decide) ⟨Process.onePerFunction_of_entries (by decide), List.not_mem_nil⟩
      (by decide)
  have hrun : Run samplePlatform.env (OnePerFunction samplePlatform.env)
      (Process.start sample sampleWorld) Ledger.fresh (Process.start sample sampleWorld)
      (Ledger.fresh : Ledger Unit 64) := .refl
  exact a_forced_function_throws_when_called hrun hop rfl rfl
    (Process.onePerFunction_of_entries (by decide)) hstays

/-- The second throw of the first function, forced over the exception 5 and given
up again. -/
def fiveCovered : Process Unit 64 := (fiveForced.step sample () forceSecond).2

def fiveAgain : Process Unit 64 :=
  (fiveCovered.step sample () (.unforceException 0x401020)).2

def coveredLedger : Ledger Unit 64 := fiveLedger.after fiveForced fiveCovered () forceSecond

def againLedger : Ledger Unit 64 :=
  coveredLedger.after fiveCovered fiveAgain () (.unforceException 0x401020)

/-- The first function is called. -/
def sampleCalled : x64.Cpu := { sampleCpu with rip := 0x401000 }

theorem a_call_throws_the_exception_on_top_sample :
    Trace samplePlatform.Machine ⟨fiveAgain, againLedger, sampleCalled⟩ [.throws 5]
      ⟨fiveAgain, againLedger, caught sampleCalled⟩ := by
  have hop : forceFive.Fresh sampleWorld := by decide
  have hop' : forceSecond.Fresh fiveForced.world := by decide
  have hgone : (Op.unforceException 0x401020).Fresh fiveCovered.world := Op.fresh_unforce _ _
  have hcovered : fiveForced.step sample () forceSecond = (.ok (), fiveCovered) := rfl
  have hrun : Run sample (fun P _ j op => ((), (0x401010 : Addr 64)) ∉ P.removals j op) fiveForced
      fiveLedger fiveAgain againLedger :=
    (Run.refl.call hop' List.not_mem_nil (by decide)).call hgone (by decide) (by decide)
  have hfive : InOrder sample sampleWorld fiveForced idealFirst :=
    InOrder.start.call hop trivial rfl trivial
  have hboth : InOrder sample sampleWorld fiveCovered idealBoth :=
    hfive.call hop' trivial hcovered trivial
  have hagain : InOrder sample sampleWorld fiveAgain (idealBoth.unforce ((), 0x401020)) :=
    hboth.call hgone ⟨idealBoth_onTop, trivial⟩ rfl trivial
  exact a_call_throws_the_exception_on_top (D := samplePlatform) sample_reachable hop rfl rfl hrun
    hagain rfl sampleCalled rfl

end Platform

end eforce
