-- The ledger of a run: who wrote over which function, and over what. It names
-- the contents of a function by the exception pointers in them, so it says
-- what the forcers are for without a byte of code.
import Eforce.Overlay
import Eforce.Process

namespace eforce

open byte_memory overlay

variable {ι : Type} {w : Nat}

/-! ## The functions -/

namespace Env

/-- The ranges that the lookups compute for the registered throws do not overlap,
but two throws may share a start. These are not the functions of the program: a
lookup may take the end of a function from a symbol of another section. -/
def FunctionsDisjoint (env : Env w) : Prop :=
  ∀ loc loc' start stop start' stop', env.Registered loc → env.Registered loc' →
    env.extentAt loc = some (start, stop) → env.extentAt loc' = some (start', stop') →
    start = start' ∨ Apart start (stop - start).toNat start' (stop' - start').toNat

/-- The location is a registered throw, in a function that starts at `start`
and has room for a patch. -/
def RoomAt (env : Env w) (start loc : Addr w) : Prop :=
  env.Registered loc ∧ ∃ stop, env.extentAt loc = some (start, stop) ∧
    env.generator.size ≤ (stop - start).toNat

def Patchable (env : Env w) (start : Addr w) : Prop := ∃ loc, env.RoomAt start loc

/-- The throw opcode of an exception pointer at a place in the code. -/
def Opcode (env : Env w) (start p : Addr w) (code : List Byte) : Prop :=
  env.generator.getThrowOpcode start env.throwFn p = .ok code

/-- The code at `start` is the throw opcode of `p`. -/
def Embeds (env : Env w) (m : Memory w) (start p : Addr w) : Prop :=
  env.Opcode start p (read m start env.generator.size)

def opcodeAt (env : Env w) (start p : Addr w) : List Byte :=
  (env.generator.getThrowOpcode start env.throwFn p).toOption.getD []

instance (env : Env w) (m : Memory w) (start p : Addr w) : Decidable (env.Embeds m start p) :=
  inferInstanceAs (Decidable (_ = _))

/-- What the names of a ledger stand for. A function has its own code, or the
throw opcode of a pointer. -/
def render (env : Env w) (m₀ : Memory w) (start : Addr w) : Option (Addr w) → List Byte
  | none => read m₀ start env.generator.size
  | some p => env.opcodeAt start p

theorem Opcode.eq {env : Env w} {start p : Addr w} {code : List Byte}
    (h : env.Opcode start p code) : env.opcodeAt start p = code := by
  unfold Opcode at h
  simp [opcodeAt, h, Except.toOption]

theorem Opcode.length {env : Env w} {start p : Addr w} {code : List Byte}
    (h : env.Opcode start p code) : code.length = env.generator.size :=
  env.generator.length_eq h

theorem Patchable.size_le {env : Env w} {start : Addr w} (h : env.Patchable start) :
    env.generator.size ≤ 2 ^ w := by
  obtain ⟨loc, -, stop, -, hsize⟩ := h
  exact hsize.trans (BitVec.isLt _).le

/-- The places of the patches of two functions do not overlap. -/
theorem FunctionsDisjoint.apart {env : Env w} (hd : env.FunctionsDisjoint) {s t : Addr w}
    (hs : env.Patchable s) (ht : env.Patchable t) (hne : s ≠ t) :
    Apart s env.generator.size t env.generator.size := by
  obtain ⟨loc, hloc, stop, hext, hsize⟩ := hs
  obtain ⟨loc', hloc', stop', hext', hsize'⟩ := ht
  rcases hd _ _ _ _ _ _ hloc hloc' hext hext' with he | ha
  · exact absurd he hne
  · exact ha.mono hsize hsize'

/-- A patch is the throw opcode of its pointer, in a function with room for it. -/
theorem patchAt_opcode {env : Env w} {loc : Addr w} {pError : ExceptionPtr} {allocs : Allocs w}
    {patch : Patch w} (h : env.patchAt loc pError allocs = .ok patch) :
    env.RoomAt patch.fnStart loc ∧ env.Opcode patch.fnStart patch.pError patch.code ∧
      allocs.exceptionPtr = some patch.pError := by
  obtain ⟨_, _, _, -, -, -, hprep⟩ := patchAt_ok h
  obtain ⟨-, hp, -, hcode, -⟩ := preparePatch_ok hprep
  obtain ⟨hreg, stop, hext, hlen⟩ := patchAt_extent h
  exact ⟨⟨hreg, stop, hext, env.generator.length_eq hcode ▸ hlen⟩, hcode, hp⟩

end Env

theorem sample_registered : sample.Registered 0x401010 := ⟨_, List.mem_cons_self, rfl⟩

theorem sample_extent {loc : Addr 64} (h : sample.Registered loc) :
    sample.extentAt loc = some (0x401000, 0x401040) ∨
      sample.extentAt loc = some (0x401040, 0x401080) := by
  obtain ⟨throwInfo, hmem, rfl⟩ := h
  revert throwInfo
  decide

theorem sample_disjoint : sample.FunctionsDisjoint := by
  have hapart : Apart (0x401000 : Addr 64) 64 0x401040 64 := apart_of_le (by decide) (by decide)
  intro loc loc' start stop start' stop' hloc hloc' hext hext'
  rcases sample_extent hloc with h | h <;> rcases sample_extent hloc' with h' | h' <;>
    rw [h] at hext <;> rw [h'] at hext' <;> cases hext <;> cases hext'
  · exact Or.inl rfl
  · exact Or.inr hapart
  · exact Or.inr hapart.symm
  · exact Or.inl rfl

/-! ## Notes on a run -/

/-- What somebody notes of the calls: what a force adds to the notes, and what
is taken off them when a location is given up. -/
structure Notes (ι : Type) (w : Nat) (σ : Type) where
  force : σ → ι × Addr w → Addr w → Option (Addr w) → σ
  unforce : σ → ι × Addr w → σ

namespace Notes

variable {σ : Type} (N : Notes ι w σ)

/-- The notes behind a call, from the maps before and behind it. -/
def after (s : σ) (P P' : Process ι w) (i : ι) (op : Op w) : σ :=
  match op with
  | .forceException loc _ _ =>
    match P.patches.held (i, loc), P'.patches.held (i, loc) with
    | none, some X => N.force s (i, loc) X.fnStart X.pException
    | _, _ => s
  | op => (P.removals i op).foldl N.unforce s

/-- Each location that is given up meets a condition at its turn. -/
def Meets (cond : σ → ι × Addr w → Prop) (s : σ) : List (ι × Addr w) → Prop
  | [] => True
  | k :: ks => cond s k ∧ Meets cond (N.unforce s k) ks

theorem after_force (s : σ) (P P' : Process ι w) (i : ι) (loc : Addr w) (pError : ExceptionPtr)
    (allocs : Allocs w) :
    (∃ start p, N.after s P P' i (.forceException loc pError allocs) =
      N.force s (i, loc) start p) ∨ N.after s P P' i (.forceException loc pError allocs) = s := by
  unfold after
  dsimp only
  split
  · rename_i X _ _
    exact Or.inl ⟨X.fnStart, X.pException, rfl⟩
  · exact Or.inr rfl

/-- A call changes the notes by one force, or by what it gives up. -/
theorem after_cases (s : σ) (P P' : Process ι w) (i : ι) (op : Op w) :
    (∃ k start p, N.after s P P' i op = N.force s k start p) ∨
      N.after s P P' i op = (P.removals i op).foldl N.unforce s := by
  cases op with
  | forceException loc pError allocs =>
    rcases N.after_force s P P' i loc pError allocs with ⟨start, p, he⟩ | he
    · exact Or.inl ⟨(i, loc), start, p, he⟩
    · exact Or.inr he
  | getExceptions => exact Or.inr rfl
  | unforceException loc => exact Or.inr rfl
  | destroy order => exact Or.inr rfl

variable {N} {s : σ}

/-- What each location that is given up keeps, all of them keep. -/
theorem Meets.foldl {cond : σ → ι × Addr w → Prop} {I : σ → Prop}
    (hstep : ∀ s k, I s → cond s k → I (N.unforce s k)) {ks : List (ι × Addr w)}
    (h : N.Meets cond s ks) (hI : I s) : I (ks.foldl N.unforce s) := by
  induction ks generalizing s with
  | nil => exact hI
  | cons k ks ih => exact ih h.2 (hstep s k hI h.1)

theorem Meets.mono {cond cond' : σ → ι × Addr w → Prop} (hcond : ∀ s k, cond s k → cond' s k)
    {ks : List (ι × Addr w)} (h : N.Meets cond s ks) : N.Meets cond' s ks := by
  induction ks generalizing s with
  | nil => exact h
  | cons k ks ih => exact ⟨hcond s k h.1, ih h.2⟩

variable [DecidableEq ι] {P P' : Process ι w} {i : ι}

theorem after_of_removals {op : Op w}
    (h : P'.patches = (P.removals i op).foldl Patches.remove P.patches) :
    N.after s P P' i op = (P.removals i op).foldl N.unforce s := by
  cases op with
  | forceException loc pError allocs =>
    have hsame : P'.patches = P.patches := h
    simp only [after, Process.removals, List.foldl_nil, hsame]
    split
    · rename_i X hnone hsome
      rw [hnone] at hsome
      cases hsome
    · rfl
  | getExceptions => rfl
  | unforceException loc => rfl
  | destroy order => rfl

theorem after_of_install {loc : Addr w} {pError : ExceptionPtr} {allocs : Allocs w}
    {patch : Patch w} (hnone : P.patches.held (i, loc) = none)
    (h : P'.patches = P.patches.install (i, loc) patch) :
    N.after s P P' i (.forceException loc pError allocs) =
      N.force s (i, loc) patch.fnStart (some patch.pError) := by
  have hsome : P'.patches.held (i, loc) = some (patch.forced P.patches.memory) := by
    simp [h, Patches.install]
  simp only [after, hnone, hsome]
  rfl

end Notes

/-! ## The ledger -/

/-- For every function start, what the function holds (its own code, or the
opcode of a pointer), and what each forced location wrote and covered. -/
abbrev Ledger (ι : Type) (w : Nat) := Addr w → Cell (ι × Addr w) (Option (Addr w))

namespace Ledger

def fresh : Ledger ι w := fun _ => Cell.fresh none

variable [DecidableEq ι]

/-- The location `k` is forced: its pointer covers what the function held. -/
def force (L : Ledger ι w) (k : ι × Addr w) (start : Addr w) (p : Option (Addr w)) : Ledger ι w :=
  Function.update L start ((L start).put k p)

/-- The location `k` is given up: what it covered comes back. -/
def unforce (L : Ledger ι w) (k : ι × Addr w) : Ledger ι w := fun start => (L start).undo k

def notes : Notes ι w (Ledger ι w) := ⟨force, unforce⟩

/-- The ledger behind a call, from the maps before and behind it. -/
def after (L : Ledger ι w) (P P' : Process ι w) (i : ι) (op : Op w) : Ledger ι w :=
  notes.after L P P' i op

variable {L : Ledger ι w} {P P' : Process ι w} {i : ι}

theorem after_of_removals {op : Op w}
    (h : P'.patches = (P.removals i op).foldl Patches.remove P.patches) :
    L.after P P' i op = (P.removals i op).foldl unforce L :=
  Notes.after_of_removals h

theorem after_of_install {loc : Addr w} {pError : ExceptionPtr} {allocs : Allocs w}
    {patch : Patch w} (hnone : P.patches.held (i, loc) = none)
    (h : P'.patches = P.patches.install (i, loc) patch) :
    L.after P P' i (.forceException loc pError allocs) =
      L.force (i, loc) patch.fnStart (some patch.pError) :=
  Notes.after_of_install hnone h

end Ledger

/-! ## Runs -/

section

variable [DecidableEq ι]

/-- The calls of a run come to an end, take fresh pointers, and meet a
condition on what is there before them. -/
inductive Run (env : Env w) (cond : Process ι w → Ledger ι w → ι → Op w → Prop)
    (P₀ : Process ι w) (L₀ : Ledger ι w) : Process ι w → Ledger ι w → Prop
  | refl : Run env cond P₀ L₀ P₀ L₀
  | step {P L i op o P'} : Run env cond P₀ L₀ P L → op.Fresh P.world → cond P L i op →
      P.step env i op = (o, P') → o.Completes → Run env cond P₀ L₀ P' (L.after P P' i op)

theorem Run.call {env : Env w} {cond : Process ι w → Ledger ι w → ι → Op w → Prop}
    {P₀ P : Process ι w} {L₀ L : Ledger ι w} {i : ι} {op : Op w} (h : Run env cond P₀ L₀ P L)
    (hop : op.Fresh P.world) (hc : cond P L i op) (ho : (P.step env i op).1.Completes) :
    Run env cond P₀ L₀ (P.step env i op).2 (L.after P (P.step env i op).2 i op) :=
  h.step hop hc rfl ho

theorem Run.snoc_of_plays {env : Env w} {P₀ P : Process ι w} {L₀ L : Ledger ι w}
    (h : Run env (fun _ _ _ _ => True) P₀ L₀ P L) {calls : List (ι × Op w)}
    (hc : P.Plays env calls) :
    ∃ L', Run env (fun _ _ _ _ => True) P₀ L₀ (P.runCalls env calls).2 L' := by
  induction calls generalizing P L with
  | nil => exact ⟨L, h⟩
  | cons call rest ih =>
    obtain ⟨i, op⟩ := call
    obtain ⟨hop, ho, hrest⟩ := hc
    exact ih (h.call hop trivial ho) hrest

theorem Run.of_plays {env : Env w} {P : Process ι w} (L : Ledger ι w) {calls : List (ι × Op w)}
    (hc : P.Plays env calls) :
    ∃ L', Run env (fun _ _ _ _ => True) P L (P.runCalls env calls).2 L' :=
  Run.refl.snoc_of_plays hc

theorem Run.trans {env : Env w} {cond : Process ι w → Ledger ι w → ι → Op w → Prop}
    {P₀ P₁ P₂ : Process ι w} {L₀ L₁ L₂ : Ledger ι w} (h₁ : Run env cond P₀ L₀ P₁ L₁)
    (h₂ : Run env cond P₁ L₁ P₂ L₂) : Run env cond P₀ L₀ P₂ L₂ := by
  induction h₂ with
  | refl => exact h₁
  | step _ hop hc hs ho ih => exact ih.step hop hc hs ho

/-- What every force keeps, and every call of the run that gives locations up,
holds behind the run. -/
theorem Run.invariant {env : Env w} {cond : Process ι w → Ledger ι w → ι → Op w → Prop}
    {I : Ledger ι w → Prop} (hforce : ∀ L k start p, I L → I (L.force k start p))
    (hunforce : ∀ P L i op, cond P L i op → I L → I ((P.removals i op).foldl Ledger.unforce L))
    {P₀ P : Process ι w} {L₀ L : Ledger ι w} (h : Run env cond P₀ L₀ P L) (h₀ : I L₀) : I L := by
  induction h with
  | refl => exact h₀
  | @step P L i op _ P' _ _ hc _ _ ih =>
    unfold Ledger.after
    rcases Ledger.notes.after_cases L P P' i op with ⟨k, start, p, he⟩ | he
    · exact he ▸ hforce L k start p ih
    · exact he ▸ hunforce P L i op hc ih

/-- A state that some run from new forcers comes to. -/
def Reachable (env : Env w) (P : Process ι w) : Prop :=
  ∃ W₀ L, Run env (fun _ _ _ _ => True) (Process.start env W₀) Ledger.fresh P L

theorem reachable_of_plays {env : Env w} {W₀ : World w} {calls : List (ι × Op w)}
    (h : (Process.start env W₀).Plays env calls) :
    Reachable env ((Process.start env W₀).runCalls env calls).2 := by
  obtain ⟨L, hrun⟩ := Run.of_plays Ledger.fresh h
  exact ⟨W₀, L, hrun⟩

end

end eforce
