-- What one force does for the next call of its function, and what a force and
-- its unforce leave behind. Both laws hold in every state that a run of any
-- number of forcers comes to.
import Eforce.Restoration

namespace eforce

open byte_memory

variable {ι : Type} {w : Nat}

/-! ## The exception that the next call throws -/

/-- The code at `start` throws the exception `e`. -/
def Patches.Throws (env : Env w) (V : Patches ι w) (start : Addr w) (e : Nat) : Prop :=
  ∃ p, env.Embeds V.memory start p ∧ V.heap p = some (some e)

theorem startOf_patch {env : Env w} {loc : Addr w} {pError : ExceptionPtr} {allocs : Allocs w}
    {patch : Patch w} (h : env.patchAt loc pError allocs = .ok patch) :
    env.startOf loc = some patch.fnStart := by
  obtain ⟨-, stop, hext, -⟩ := Env.patchAt_extent h
  simp [Env.startOf, hext]

variable [DecidableEq ι]

/-- A new patch throws the exception of its call. -/
theorem throws_install {env : Env w} {V : Patches ι w} {k : ι × Addr w} {loc : Addr w} {e : Nat}
    {allocs : Allocs w} {patch : Patch w} (h : env.patchAt loc (some e) allocs = .ok patch) :
    (V.install k patch).Throws env patch.fnStart e := by
  obtain ⟨hroom, hopcode, -⟩ := Env.patchAt_opcode h
  obtain ⟨throwInfo, fn, error, -, -, herror, hprep⟩ := Env.patchAt_ok h
  obtain ⟨-, -, hpatch, -⟩ := preparePatch_ok hprep
  cases herror
  refine ⟨patch.pError, ?_, ?_⟩
  · have hread := read_write V.memory patch.fnStart patch.code (preparePatch_length hprep)
    unfold Env.Embeds
    rw [← hopcode.length]
    exact hread.symm ▸ hopcode
  · simp [Patches.install, hpatch]

def forceWith (e : Nat) (p : Addr 64) : Op 64 :=
  .forceException 0x401010 (some e) { exceptionPtr := some p }

/-- A force that returns makes its function throw the new exception exactly
when the location was not forced before, or the function threw that exception
already. -/
theorem a_force_throws_its_exception_iff_not_forced {env : Env w} {P P' : Process ι w} {i : ι}
    {loc : Addr w} {e : Nat} {allocs : Allocs w} (hr : Reachable env P)
    (hop : (Op.forceException loc (some e) allocs).Fresh P.world)
    (h : P.step env i (.forceException loc (some e) allocs) = (.ok (), P')) :
    (∃ start, env.startOf loc = some start ∧ P'.patches.Throws env start e) ↔
      P.patches.held (i, loc) = none ∨
        ∃ start, env.startOf loc = some start ∧ P.patches.Throws env start e := by
  obtain ⟨W₀, L, hrun⟩ := hr
  have hready := hrun.ready (ready_start env W₀)
  rcases Process.step_force hready hop h trivial with
    ⟨hsame, hheld⟩ | ⟨patch, hpatch, hnone, -, hin⟩
  · rw [hsame]
    refine ⟨?_, ?_⟩
    · exact Or.inr
    · rintro (hnone | hthrows)
      · exact absurd hnone (hheld rfl)
      · exact hthrows
  · refine ⟨?_, ?_⟩
    · exact fun _ => Or.inl hnone
    · intro _
      rw [hin]
      exact ⟨patch.fnStart, startOf_patch hpatch, throws_install hpatch⟩

theorem sample_reachable : Reachable sample (Process.start sample sampleWorld : Process Unit 64) :=
  ⟨sampleWorld, Ledger.fresh, .refl⟩

theorem a_force_throws_its_exception_iff_not_forced_sample :
    ∃ start, sample.startOf 0x401010 = some start ∧
      ((Process.start sample sampleWorld).step sample () (forceWith 5 0x7000)).2.patches.Throws
        sample start 5 := by
  have hop : (forceWith 5 0x7000).Fresh sampleWorld := by decide
  exact (a_force_throws_its_exception_iff_not_forced sample_reachable hop rfl).2 (Or.inl rfl)

/-- The second force of a location returns and throws its exception away. -/
theorem a_forced_location_keeps_the_old_exception : ¬ ∀ (env : Env 64) (P P' : Process Unit 64)
    (loc : Addr 64) (e : Nat) (allocs : Allocs 64), Reachable env P → env.Registered loc →
    (Op.forceException loc (some e) allocs).Fresh P.world →
    P.step env () (.forceException loc (some e) allocs) = (.ok (), P') →
    ∃ start, env.startOf loc = some start ∧ P'.patches.Throws env start e := by
  intro h
  have hplays : (Process.start sample sampleWorld).Plays sample [((), forceWith 5 0x7000)] := by
    decide
  obtain ⟨start, hstart, p, hembeds, hheap⟩ := h sample _ _ 0x401010 6
    { exceptionPtr := some 0x7010 } (reachable_of_plays hplays) sample_registered (by decide) rfl
  have hentry : sample.startOf 0x401010 = some 0x401000 := rfl
  cases hentry.symm.trans hstart
  have hp : p = 0x7000 := by
    refine OpcodeGeneratorX64_carries _ _ _ _ _ hembeds ?_
    decide
  subst hp
  revert hheap
  decide

/-! ## A force and its unforce -/

/-- A removal takes the patch back that went in last. -/
theorem remove_install {env : Env w} {V : Patches ι w} {i : ι} {loc : Addr w}
    {pError : ExceptionPtr} {allocs : Allocs w} {patch : Patch w}
    (hpatch : env.patchAt loc pError allocs = .ok patch) (hnone : V.held (i, loc) = none)
    (hfresh : V.heap patch.pError = none) :
    (V.install (i, loc) patch).remove (i, loc) = V := by
  obtain ⟨_, _, _, -, -, -, hprep⟩ := Env.patchAt_ok hpatch
  have hheld : (V.install (i, loc) patch).held (i, loc) = some (patch.forced V.memory) := by
    simp [Patches.install]
  have hmem : write (V.install (i, loc) patch).memory patch.fnStart
      (patch.forced V.memory).originalData = V.memory :=
    write_write_read _ _ _ (preparePatch_length hprep)
  have hheap : Function.update (V.install (i, loc) patch).heap patch.pError none = V.heap := by
    simp [Patches.install, ← hfresh]
  unfold Patches.remove
  simp only [hheld, Patch.forced] at hmem ⊢
  rw [hmem, hheap]
  simp [Patches.install, ← hnone]

/-- The calls of a well-nested sequence from `P₀` on. The list holds the
forces that are not undone yet, the most recent one first. -/
inductive Nested (env : Env w) (i : ι) (P₀ : Process ι w) : List (Addr w) → Process ι w → Prop
  | start : Nested env i P₀ [] P₀
  | force {pending P loc pError allocs P'} : Nested env i P₀ pending P →
      P.patches.held (i, loc) = none → (Op.forceException loc pError allocs).Fresh P.world →
      P.step env i (.forceException loc pError allocs) = (.ok (), P') →
      Nested env i P₀ (loc :: pending) P'
  | unforce {loc pending P o P'} : Nested env i P₀ (loc :: pending) P →
      P.step env i (.unforceException loc) = (o, P') → o.Completes → Nested env i P₀ pending P'

theorem Nested.ready {env : Env w} {i : ι} {P₀ P : Process ι w} {pending : List (Addr w)}
    (h : Nested env i P₀ pending P) (h₀ : P₀.Ready env) : P.Ready env := by
  induction h with
  | start => exact h₀
  | force _ _ hop hs ih => exact Process.step_ready ih hs
  | unforce _ hs _ ih => exact Process.step_ready ih hs

theorem Nested.alive {env : Env w} {i : ι} {P₀ P : Process ι w} {pending : List (Addr w)}
    (h : Nested env i P₀ pending P) (j : ι) :
    (P.forcers j).isSome = (P₀.forcers j).isSome := by
  induction h with
  | start => rfl
  | force _ _ _ hs ih => exact (Process.step_alive hs (by simp) j).trans ih
  | unforce _ hs _ ih => exact (Process.step_alive hs (by simp) j).trans ih

/-- To undo what is left, the most recent force first, leads back to the
start. This is what each call keeps. -/
theorem Nested.unwinds {env : Env w} {i : ι} {P₀ P : Process ι w} {pending : List (Addr w)}
    (h : Nested env i P₀ pending P) (h₀ : P₀.Ready env) :
    (pending.map fun loc => (i, loc)).foldl Patches.remove P.patches = P₀.patches := by
  induction h with
  | start => rfl
  | @force pending P loc pError allocs P' hn hnone hop hs ih =>
    rcases Process.step_force (hn.ready h₀) hop hs trivial with
      ⟨-, hheld⟩ | ⟨patch, hpatch, -, -, hin⟩
    · exact absurd hnone (hheld rfl)
    · have hfresh : P.patches.heap patch.pError = none := hop _ (Env.patchAt_opcode hpatch).2.2
      rw [List.map_cons, List.foldl_cons, hin, remove_install hpatch hnone hfresh]
      exact ih
  | @unforce loc pending P o P' hn hs ho ih =>
    rw [Process.step_unforce (hn.ready h₀) hs ho]
    exact ih

/-- A well-nested sequence of forces and unforces ends with the code and the
maps with which it began. -/
theorem a_nested_sequence_leaves_no_trace {env : Env w} {i : ι} {P₀ P : Process ι w}
    (hr : Reachable env P₀) (h : Nested env i P₀ [] P) :
    P.world.memory = P₀.world.memory ∧ ∀ j, P.maps j = P₀.maps j := by
  obtain ⟨W₀, L, hrun⟩ := hr
  have hsame : P.patches = P₀.patches := h.unwinds (hrun.ready (ready_start env W₀))
  refine ⟨?_, ?_⟩
  · exact congrArg Patches.memory hsame
  · intro j
    exact Process.maps_eq (h.alive j) (congrArg Patches.held hsame)

/-- Two forces in one function, undone in the other order. -/
theorem a_nested_sequence_leaves_no_trace_sample :
    (firstForced.runCalls sample
      [((), forceSecond), ((), .unforceException 0x401020)]).2.world.memory =
        firstForced.world.memory := by
  have hr : Reachable sample firstForced := ⟨sampleWorld, firstLedger, run_firstForced trivial⟩
  have hop : forceSecond.Fresh firstForced.world := by decide
  have hforce : Nested sample () firstForced [0x401020]
      (firstForced.step sample () forceSecond).2 := Nested.start.force (by decide) hop rfl
  exact (a_nested_sequence_leaves_no_trace hr (hforce.unforce rfl (by decide))).1

end eforce
