-- The code follows the ledger. A patch is a put into the cell of its function
-- and a destructor is an undo, so after every call the bytes of each function
-- are what the ledger says, and no other byte has changed.
import Eforce.Ledger

namespace eforce

open byte_memory overlay

variable {ι : Type} {w : Nat}

/-! ## The held patches -/

/-- What a held patch owes to the call that made it. -/
structure HeldAt (env : Env w) (heap : Addr w → Option ExceptionPtr) (loc : Addr w)
    (X : ForcedException w) (p : Addr w) (code : List Byte) : Prop where
  room : env.RoomAt X.fnStart loc
  saved : X.originalData.length = env.generator.size
  owns : X.pException = some p
  live : (heap p).isSome
  opcode : env.Opcode X.fnStart p code

/-- Every held patch has its function, its saved bytes, and a live pointer
that no other patch owns. -/
structure Patches.Good (env : Env w) (V : Patches ι w) : Prop where
  held : ∀ k X, V.held k = some X → ∃ p code, HeldAt env V.heap k.2 X p code
  alone : ∀ k k' X X', V.held k = some X → V.held k' = some X' →
    X.pException = X'.pException → k = k'

namespace ForcedException

/-- The opcode that a held patch wrote. -/
def written (env : Env w) (X : ForcedException w) : List Byte :=
  match X.pException with
  | none => []
  | some p => env.opcodeAt X.fnStart p

/-- The layer that a held patch is in the function at `start`. -/
def layerAt (env : Env w) (start : Addr w) (X : ForcedException w) : Option (Layer (List Byte)) :=
  if X.fnStart = start then some ⟨X.written env, X.originalData⟩ else none

theorem layerAt_of_ne {env : Env w} {start : Addr w} {X : ForcedException w}
    (h : X.fnStart ≠ start) : X.layerAt env start = none := if_neg h

theorem layerAt_some {env : Env w} {start : Addr w} {X : ForcedException w}
    {l : Layer (List Byte)} (h : X.layerAt env start = some l) :
    X.fnStart = start ∧ l = ⟨X.written env, X.originalData⟩ := by
  unfold layerAt at h
  split at h
  · rename_i hstart
    cases h
    exact ⟨hstart, rfl⟩
  · cases h

end ForcedException

theorem HeldAt.written {env : Env w} {heap : Addr w → Option ExceptionPtr} {loc p : Addr w}
    {X : ForcedException w} {code : List Byte} (h : HeldAt env heap loc X p code) :
    X.written env = code := by
  unfold ForcedException.written
  rw [h.owns]
  exact h.opcode.eq

/-- A function as a cell: its first bytes, and what the held patches wrote
and saved there. -/
def Patches.cell (env : Env w) (V : Patches ι w) (start : Addr w) :
    Cell (ι × Addr w) (List Byte) where
  content := read V.memory start env.generator.size
  layers := fun k => (V.held k).bind (ForcedException.layerAt env start)

/-- Every function holds what the ledger says, over the program's own code
`m₀`, and the code outside of the patchable places is as it was. -/
structure Patches.Agrees (env : Env w) (m₀ : Memory w) (V : Patches ι w) (L : Ledger ι w) :
    Prop where
  good : V.Good env
  cells : ∀ start, env.Patchable start → V.cell env start = (L start).map (env.render m₀ start)
  frame : ∀ a, (∀ start, env.Patchable start → ¬ Within start env.generator.size a) →
    V.memory a = m₀ a

/-- New forcers hold nothing. -/
theorem held_start (env : Env w) (W₀ : World w) (k : ι × Addr w) :
    (Process.start env W₀ : Process ι w).patches.held k = none := by
  simp [Process.patches, Process.start, Impl.construct]

/-- Every function has its own code at the start. -/
theorem agrees_start (env : Env w) (W₀ : World w) :
    (Process.start env W₀ : Process ι w).patches.Agrees env W₀.memory Ledger.fresh := by
  refine ⟨⟨fun k X hX => ?_, fun k _ X _ hX => ?_⟩, fun start _ => ?_, fun _ _ => rfl⟩
  · rw [held_start] at hX
    cases hX
  · rw [held_start] at hX
    cases hX
  · ext1
    · rfl
    · funext k
      simp [Patches.cell, held_start, Ledger.fresh, Cell.fresh, Cell.map]

theorem ready_start (env : Env w) (W₀ : World w) :
    (Process.start env W₀ : Process ι w).Ready env := by
  intro i F hF
  cases hF
  exact Impl.ready_construct env

/-! ## What the ledger tells about the code -/

section Read

variable {env : Env w} {m₀ : Memory w} {V : Patches ι w} {L : Ledger ι w} {start : Addr w}

theorem Patches.Agrees.read (h : V.Agrees env m₀ L) (hs : env.Patchable start) :
    read V.memory start env.generator.size = env.render m₀ start (L start).content :=
  congrArg Cell.content (h.cells start hs)

/-- A layer of the ledger is a held patch. -/
theorem Patches.Agrees.held_of_layers (h : V.Agrees env m₀ L) (hs : env.Patchable start)
    {k : ι × Addr w} {l : Layer (Option (Addr w))} (hl : (L start).layers k = some l) :
    ∃ X, V.held k = some X ∧ X.fnStart = start ∧
      X.written env = env.render m₀ start l.written := by
  have hcell := congrArg (fun c => c.layers k) (h.cells start hs)
  have hmap : ((L start).map (env.render m₀ start)).layers k =
      some (l.map (env.render m₀ start)) := by simp [Cell.map, hl]
  simp only [hmap, Patches.cell] at hcell
  obtain ⟨X, hX, hlayer⟩ := Option.bind_eq_some_iff.1 hcell
  obtain ⟨hstart, heq⟩ := ForcedException.layerAt_some hlayer
  exact ⟨X, hX, hstart, (congrArg Layer.written heq).symm⟩

/-- A held patch is a layer of the ledger. -/
theorem Patches.Agrees.layers_of_held (h : V.Agrees env m₀ L) {k : ι × Addr w}
    {X : ForcedException w} (hX : V.held k = some X) : ∃ l, (L X.fnStart).layers k = some l := by
  obtain ⟨p, code, hheld⟩ := h.good.held k X hX
  have hcell := congrArg (fun c => c.layers k) (h.cells X.fnStart ⟨k.2, hheld.room⟩)
  have hlayer : (V.cell env X.fnStart).layers k = some ⟨X.written env, X.originalData⟩ := by
    simp [Patches.cell, hX, ForcedException.layerAt]
  simp only [hlayer, Cell.map] at hcell
  obtain ⟨l, hl, -⟩ := Option.map_eq_some_iff.1 hcell.symm
  exact ⟨l, hl⟩

end Read

variable [DecidableEq ι]

theorem layers_update (held : ι × Addr w → Option (ForcedException w)) (k : ι × Addr w)
    (o : Option (ForcedException w)) (f : ForcedException w → Option (Layer (List Byte))) :
    (fun k' => (Function.update held k o k').bind f) =
      Function.update (fun k' => (held k').bind f) k (o.bind f) :=
  Function.comp_update (fun o : Option (ForcedException w) => o.bind f) held k o

/-! ## A patch is a put -/

section Install

variable {env : Env w} {V : Patches ι w} {i : ι} {loc : Addr w} {pError : ExceptionPtr}
  {allocs : Allocs w} {patch : Patch w}

theorem cell_install (hpatch : env.patchAt loc pError allocs = .ok patch) :
    (V.install (i, loc) patch).cell env patch.fnStart =
      (V.cell env patch.fnStart).put (i, loc) patch.code := by
  obtain ⟨hroom, hopcode, -⟩ := Env.patchAt_opcode hpatch
  have hlen := hopcode.length
  have hlayer : (patch.forced V.memory).layerAt env patch.fnStart =
      some ⟨patch.code, read V.memory patch.fnStart env.generator.size⟩ := by
    have hwritten : (patch.forced V.memory).written env = patch.code := hopcode.eq
    unfold ForcedException.layerAt
    rw [hwritten, ← hlen]
    exact if_pos rfl
  ext1
  · change read (write V.memory patch.fnStart patch.code) patch.fnStart env.generator.size = _
    rw [← hlen]
    exact read_write _ _ _ (hlen ▸ Env.Patchable.size_le ⟨loc, hroom⟩)
  · change (fun k => (Function.update V.held (i, loc) _ k).bind _) = _
    rw [layers_update, Option.bind_some, hlayer]
    rfl

theorem cell_install_of_ne (hd : env.FunctionsDisjoint)
    (hpatch : env.patchAt loc pError allocs = .ok patch) (hnone : V.held (i, loc) = none)
    {start : Addr w} (hs : env.Patchable start) (hne : start ≠ patch.fnStart) :
    (V.install (i, loc) patch).cell env start = V.cell env start := by
  obtain ⟨hroom, hopcode, -⟩ := Env.patchAt_opcode hpatch
  have hlen := hopcode.length
  have hapart := hd.apart ⟨loc, hroom⟩ hs hne.symm
  ext1
  · exact read_write_apart _ _ _ _ _ hs.size_le (hlen ▸ hapart)
  · change (fun k => (Function.update V.held (i, loc) _ k).bind _) = _
    rw [layers_update, Option.bind_some, ForcedException.layerAt_of_ne (Ne.symm hne)]
    exact Function.update_eq_self_iff.2 (by simp [hnone])

theorem good_install (hV : V.Good env) (hpatch : env.patchAt loc pError allocs = .ok patch)
    (hfresh : V.heap patch.pError = none) : (V.install (i, loc) patch).Good env := by
  obtain ⟨hroom, hopcode, -⟩ := Env.patchAt_opcode hpatch
  have hother : ∀ k X, V.held k = some X → X.pException ≠ some patch.pError := by
    intro k X hX he
    obtain ⟨p, code, h⟩ := hV.held k X hX
    have hp : p = patch.pError := by
      rw [h.owns] at he
      exact Option.some.inj he
    have hlive := h.live
    rw [hp, hfresh] at hlive
    cases hlive
  refine ⟨?_, ?_⟩
  · intro k X hX
    by_cases hk : k = (i, loc)
    · subst hk
      simp only [Patches.install, Function.update_self, Option.some.injEq] at hX
      subst hX
      refine ⟨patch.pError, patch.code, hroom, ?_, rfl, ?_, hopcode⟩
      · simp [Patch.forced, hopcode.length]
      · simp [Patches.install]
    · simp only [Patches.install, Function.update_of_ne hk] at hX
      obtain ⟨p, code, h⟩ := hV.held k X hX
      have hp : p ≠ patch.pError := by
        rintro rfl
        exact hother k X hX h.owns
      refine ⟨p, code, h.room, h.saved, h.owns, ?_, h.opcode⟩
      simpa [Patches.install, hp] using h.live
  · intro k k' X X' hX hX' he
    simp only [Patches.install] at hX hX'
    by_cases hk : k = (i, loc)
    · by_cases hk' : k' = (i, loc)
      · rw [hk, hk']
      · rw [hk, Function.update_self, Option.some.injEq] at hX
        rw [Function.update_of_ne hk'] at hX'
        subst hX
        exact absurd he.symm (hother k' X' hX')
    · rw [Function.update_of_ne hk] at hX
      by_cases hk' : k' = (i, loc)
      · rw [hk', Function.update_self, Option.some.injEq] at hX'
        subst hX'
        exact absurd he (hother k X hX)
      · rw [Function.update_of_ne hk'] at hX'
        exact hV.alone k k' X X' hX hX' he

end Install

/-! ## A destructor is an undo -/

section Remove

variable {env : Env w} {V : Patches ι w} {k : ι × Addr w}

theorem cell_remove (hd : env.FunctionsDisjoint) (hV : V.Good env) {start : Addr w}
    (hs : env.Patchable start) : (V.remove k).cell env start = (V.cell env start).undo k := by
  cases hk : V.held k with
  | none =>
    rw [Patches.remove_of_none hk, Cell.undo_of_none (by simp [Patches.cell, hk])]
  | some X =>
    obtain ⟨p, code, h⟩ := hV.held k X hk
    have hmem : (V.remove k).memory = write V.memory X.fnStart X.originalData := by
      simp [Patches.remove, hk]
    have hlayers : ((V.remove k).cell env start).layers =
        Function.update (V.cell env start).layers k none := by
      unfold Patches.cell
      rw [Patches.held_remove, layers_update]
      rfl
    have hlayer : (V.cell env start).layers k = X.layerAt env start := by
      simp [Patches.cell, hk]
    by_cases hstart : X.fnStart = start
    · have hsome : X.layerAt env start = some ⟨X.written env, X.originalData⟩ := if_pos hstart
      rw [hsome] at hlayer
      ext1
      · rw [Cell.undo_content hlayer]
        change read (V.remove k).memory start env.generator.size = _
        rw [hmem, hstart, ← h.saved]
        exact read_write _ _ _ (h.saved ▸ hs.size_le)
      · rw [hlayers, Cell.undo_layers]
    · rw [ForcedException.layerAt_of_ne hstart] at hlayer
      rw [Cell.undo_of_none hlayer]
      ext1
      · change read (V.remove k).memory start env.generator.size = _
        rw [hmem]
        have hapart := hd.apart ⟨k.2, h.room⟩ hs hstart
        exact read_write_apart _ _ _ _ _ hs.size_le (h.saved ▸ hapart)
      · rw [hlayers]
        exact Function.update_eq_self_iff.2 hlayer.symm

theorem good_remove (hV : V.Good env) : (V.remove k).Good env := by
  cases hk : V.held k with
  | none => exact (Patches.remove_of_none hk).symm ▸ hV
  | some X =>
    have hheld : ∀ k' X', (V.remove k).held k' = some X' → k' ≠ k ∧ V.held k' = some X' := by
      intro k' X' hX'
      rw [Patches.held_remove] at hX'
      by_cases hkk : k' = k
      · subst hkk
        simp at hX'
      · exact ⟨hkk, by rwa [Function.update_of_ne hkk] at hX'⟩
    obtain ⟨p, code, h⟩ := hV.held k X hk
    have hheap : (V.remove k).heap = Function.update V.heap p none := by
      simp [Patches.remove, hk, h.owns]
    refine ⟨?_, ?_⟩
    · intro k' X' hX'
      obtain ⟨hne, hX'⟩ := hheld k' X' hX'
      obtain ⟨p', code', h'⟩ := hV.held k' X' hX'
      have hp : p' ≠ p := by
        rintro rfl
        exact hne (hV.alone k' k X' X hX' hk (h'.owns.trans h.owns.symm))
      refine ⟨p', code', h'.room, h'.saved, h'.owns, ?_, h'.opcode⟩
      rw [hheap, Function.update_of_ne hp]
      exact h'.live
    · intro k₁ k₂ X₁ X₂ h₁ h₂ he
      exact hV.alone k₁ k₂ X₁ X₂ (hheld k₁ X₁ h₁).2 (hheld k₂ X₂ h₂).2 he

end Remove

/-! ## The code goes on as the ledger does -/

section Agrees

variable {env : Env w} {m₀ : Memory w} {V : Patches ι w} {L : Ledger ι w}

theorem agrees_install (hd : env.FunctionsDisjoint) (h : V.Agrees env m₀ L) {i : ι}
    {loc : Addr w} {pError : ExceptionPtr} {allocs : Allocs w} {patch : Patch w}
    (hpatch : env.patchAt loc pError allocs = .ok patch) (hnone : V.held (i, loc) = none)
    (hfresh : V.heap patch.pError = none) :
    (V.install (i, loc) patch).Agrees env m₀
      (L.force (i, loc) patch.fnStart (some patch.pError)) := by
  obtain ⟨hroom, hopcode, -⟩ := Env.patchAt_opcode hpatch
  refine ⟨good_install h.good hpatch hfresh, fun start hs => ?_, fun a ha => ?_⟩
  · by_cases hstart : start = patch.fnStart
    · subst hstart
      rw [cell_install hpatch, Ledger.force, Function.update_self, Cell.map_put, h.cells _ hs]
      rw [show env.render m₀ patch.fnStart (some patch.pError) = patch.code from hopcode.eq]
    · rw [cell_install_of_ne hd hpatch hnone hs hstart, Ledger.force,
        Function.update_of_ne hstart, h.cells _ hs]
  · have hout := ha patch.fnStart ⟨loc, hroom⟩
    rw [← h.frame a ha]
    exact write_of_not_within _ _ _ _ (hopcode.length ▸ hout)

theorem agrees_remove (hd : env.FunctionsDisjoint) (h : V.Agrees env m₀ L) (k : ι × Addr w) :
    (V.remove k).Agrees env m₀ (L.unforce k) := by
  refine ⟨good_remove h.good, fun start hs => ?_, fun a ha => ?_⟩
  · rw [cell_remove hd h.good hs, h.cells start hs, Ledger.unforce, Cell.map_undo]
  · rw [← h.frame a ha]
    cases hk : V.held k with
    | none => rw [Patches.remove_of_none hk]
    | some X =>
      obtain ⟨p, code, hX⟩ := h.good.held k X hk
      have hout := ha X.fnStart ⟨k.2, hX.room⟩
      have hmem : (V.remove k).memory = write V.memory X.fnStart X.originalData := by
        simp [Patches.remove, hk]
      rw [hmem]
      exact write_of_not_within _ _ _ _ (hX.saved ▸ hout)

theorem agrees_removals (hd : env.FunctionsDisjoint) (h : V.Agrees env m₀ L)
    (ks : List (ι × Addr w)) :
    (ks.foldl Patches.remove V).Agrees env m₀ (ks.foldl Ledger.unforce L) := by
  induction ks generalizing V L with
  | nil => exact h
  | cons k ks ih => exact ih (agrees_remove hd h k)

theorem good_removals (h : V.Good env) (ks : List (ι × Addr w)) :
    (ks.foldl Patches.remove V).Good env := by
  induction ks generalizing V with
  | nil => exact h
  | cons k ks ih => exact ih (good_remove h)

theorem good_step {P P' : Process ι w} {i : ι} {op : Op w} {o : Outcome Unit}
    (hP : P.Ready env) (h : P.patches.Good env) (hop : op.Fresh P.world)
    (hs : P.step env i op = (o, P')) (ho : o.Completes) : P'.patches.Good env := by
  rcases Process.step_patches hP hop hs ho with
    hrem | ⟨loc, pError, allocs, patch, rfl, hpatch, -, -, hin⟩
  · rw [hrem]
    exact good_removals h _
  · rw [hin]
    exact good_install h hpatch (hop _ (Env.patchAt_opcode hpatch).2.2)

theorem agrees_step (hd : env.FunctionsDisjoint) {P P' : Process ι w} {i : ι} {op : Op w}
    {o : Outcome Unit} (hP : P.Ready env) (h : P.patches.Agrees env m₀ L)
    (hop : op.Fresh P.world) (hs : P.step env i op = (o, P')) (ho : o.Completes) :
    P'.patches.Agrees env m₀ (L.after P P' i op) := by
  rcases Process.step_patches hP hop hs ho with
    hrem | ⟨loc, pError, allocs, patch, rfl, hpatch, hnone, -, hin⟩
  · rw [Ledger.after_of_removals hrem, hrem]
    exact agrees_removals hd h _
  · rw [Ledger.after_of_install hnone hin, hin]
    obtain ⟨-, -, hp⟩ := Env.patchAt_opcode hpatch
    exact agrees_install hd h hpatch hnone (hop _ hp)

end Agrees

section Run

variable {env : Env w} {cond : Process ι w → Ledger ι w → ι → Op w → Prop}
  {P₀ P : Process ι w} {L₀ L : Ledger ι w}

theorem Run.ready (h : Run env cond P₀ L₀ P L) (h₀ : P₀.Ready env) : P.Ready env := by
  induction h with
  | refl => exact h₀
  | step _ hop _ hs _ ih => exact Process.step_ready ih hs

theorem Run.good (h : Run env cond P₀ L₀ P L) (hP₀ : P₀.Ready env) (h₀ : P₀.patches.Good env) :
    P.patches.Good env := by
  induction h with
  | refl => exact h₀
  | step hrun hop _ hs ho ih => exact good_step (hrun.ready hP₀) ih hop hs ho

/-- The code follows the ledger through every run. -/
theorem Run.agrees (hd : env.FunctionsDisjoint) {m₀ : Memory w} (h : Run env cond P₀ L₀ P L)
    (hP₀ : P₀.Ready env) (h₀ : P₀.patches.Agrees env m₀ L₀) : P.patches.Agrees env m₀ L := by
  induction h with
  | refl => exact h₀
  | step hrun hop _ hs ho ih => exact agrees_step hd (hrun.ready hP₀) ih hop hs ho

end Run

end eforce
