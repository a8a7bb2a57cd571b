-- The protection of the code. The trace of a run is read by a small automaton
-- that stops at a write into closed code, at a window in a window, and at a
-- window that does not close. No run of the forcers makes it stop.
import Eforce.Restoration

namespace eforce

open byte_memory

variable {ι : Type} {w : Nat}

/-! ## The automaton -/

/-- What an event makes of the protection. A request for write access inside
of a window, a write outside of one, and a window that stays open have no
next state. -/
def Event.next : Protection → Event w → Option Protection
  | .readExec, .mprotect _ _ .readWriteExec true => some .readWriteExec
  | .readExec, .mprotect _ _ .readWriteExec false => some .readExec
  | .readWriteExec, .write _ _ => some .readWriteExec
  | .readWriteExec, .mprotect _ _ .readExec true => some .readExec
  | _, _ => none

/-- The protection behind a trace, when no event is out of place. -/
def follow (prot : Protection) : List (Event w) → Option Protection
  | [] => some prot
  | event :: rest =>
    match event.next prot with
    | none => none
    | some prot => follow prot rest

/-- The code behind the writes of a trace. -/
def replay (m : Memory w) : List (Event w) → Memory w
  | [] => m
  | .write start bytes :: rest => replay (write m start bytes) rest
  | .mprotect _ _ _ _ :: rest => replay m rest

theorem follow_append {prot prot' : Protection} {t u : List (Event w)}
    (h : follow prot t = some prot') : follow prot (t ++ u) = follow prot' u := by
  induction t generalizing prot with
  | nil =>
    cases h
    rfl
  | cons event t ih =>
    unfold follow at h
    rw [List.cons_append, follow]
    cases hn : event.next prot with
    | none => simp [hn] at h
    | some prot'' =>
      simp only [hn] at h ⊢
      exact ih h

theorem replay_append (m : Memory w) (t u : List (Event w)) :
    replay m (t ++ u) = replay (replay m t) u := by
  induction t generalizing m with
  | nil => rfl
  | cons event t ih => cases event <;> exact ih _

/-! ## Closed worlds -/

/-- The code is closed, no event so far was out of place, and all that was
written since `m₀` is in the trace. -/
structure World.Closed (m₀ : Memory w) (W : World w) : Prop where
  protection : W.protection = .readExec
  trace : follow .readExec W.trace = some .readExec
  memory : W.memory = replay m₀ W.trace

namespace World.Closed

variable {env : Env w} {m₀ : Memory w} {W : World w}

theorem new (h : W.Closed m₀) (p : Addr w) (e : ExceptionPtr) : (W.new p e).Closed m₀ :=
  ⟨h.protection, h.trace, h.memory⟩

theorem delete (h : W.Closed m₀) (p : Option (Addr w)) : (W.delete p).Closed m₀ := by
  refine ⟨?_, ?_, ?_⟩
  · rw [World.delete_protection, h.protection]
  · rw [World.delete_trace, h.trace]
  · rw [World.delete_memory, World.delete_trace, h.memory]

theorem refused (h : W.Closed m₀) (hg : env.mprotectGrants W.calls .readWriteExec = false) :
    (W.refused env).Closed m₀ := by
  refine ⟨?_, ?_, ?_⟩
  · simp [World.refused, World.mprotect, hg, h.protection]
  · simp only [World.refused, World.mprotect, hg]
    rw [follow_append h.trace]
    rfl
  · simp only [World.refused, World.mprotect]
    rw [replay_append, ← h.memory]
    rfl

/-- A write behind its guard closes the code again. -/
theorem patched (h : W.Closed m₀) (hrx : ∀ n, env.mprotectGrants n .readExec = true)
    (hg : env.mprotectGrants W.calls .readWriteExec = true) (start : Addr w) (bytes : List Byte) :
    (W.patched env start bytes).Closed m₀ := by
  have htrace := World.patched_trace env W start bytes
  rw [hg, hrx] at htrace
  refine ⟨?_, ?_, ?_⟩
  · simp [World.patched, ScopedMprotect.destroy, World.mprotect, hrx]
  · rw [htrace, follow_append h.trace]
    rfl
  · rw [htrace, replay_append, ← h.memory]
    rfl

end World.Closed

/-! ## Every call closes what it opens -/

section Calls

variable {env : Env w} {m₀ : Memory w}

theorem closed_destroy (hrx : ∀ n, env.mprotectGrants n .readExec = true) {X : ForcedException w}
    {W W' : World w} {o : Outcome Unit} (hW : W.Closed m₀) (h : X.destroy env W = (o, W')) :
    W'.Closed m₀ := by
  by_cases he : X.originalData = []
  · rw [ForcedException.destroy_of_empty he] at h
    cases h
    exact hW.delete _
  cases hg : env.mprotectGrants W.calls .readWriteExec with
  | true =>
    rw [ForcedException.destroy_of_granted he hg] at h
    cases h
    exact (hW.patched hrx hg _ _).delete _
  | false =>
    rw [ForcedException.destroy_of_refused he hg] at h
    cases h
    exact hW.refused hg

theorem closed_destroyEntries (hrx : ∀ n, env.mprotectGrants n .readExec = true)
    {Xs : List (ForcedException w)} {W W' : World w} {o : Outcome Unit} (hW : W.Closed m₀)
    (h : Impl.destroyEntries env Xs W = (o, W')) : W'.Closed m₀ := by
  induction Xs generalizing W with
  | nil =>
    cases h
    exact hW
  | cons X Xs ih =>
    unfold Impl.destroyEntries at h
    rcases hd : X.destroy env W with ⟨o₁, W₁⟩
    have hW₁ := closed_destroy hrx hW hd
    simp only [hd] at h
    cases o₁ with
    | ok _ => exact ih hW₁ h
    | error e =>
      cases h
      exact hW₁

/-- Whichever way a force ends, the code is closed. -/
theorem closed_forceResult (hrx : ∀ n, env.mprotectGrants n .readExec = true)
    {forced forced' : ForcedExceptions w} {W W' : World w} {loc : Addr w} {pError : ExceptionPtr}
    {allocs : Allocs w} {o : Outcome Unit} (hW : W.Closed m₀)
    (h : ForceResult env forced W loc pError allocs o forced' W') : W'.Closed m₀ := by
  cases h with
  | rejected => exact hW
  | refused _ hg => exact hW.refused hg
  | @installed patch _ hg => exact (hW.new patch.pError patch.error).patched hrx hg _ _
  | @withdrawn patch _ _ _ hg _ hd =>
    exact closed_destroy hrx ((hW.new patch.pError patch.error).patched hrx hg _ _) hd
  | @terminated patch _ _ hg _ hd =>
    exact closed_destroy hrx ((hW.new patch.pError patch.error).patched hrx hg _ _) hd

theorem closed_step [DecidableEq ι] (hrx : ∀ n, env.mprotectGrants n .readExec = true)
    {P P' : Process ι w} {i : ι} {op : Op w} {o : Outcome Unit} (hP : P.Ready env)
    (hop : op.Fresh P.world) (hW : P.world.Closed m₀) (h : P.step env i op = (o, P')) :
    P'.world.Closed m₀ := by
  cases Process.step_result hP hop h with
  | dead => exact hW
  | listed => exact hW
  | forced _ hres => exact closed_forceResult hrx hW hres
  | idle => exact hW
  | unforced _ _ hd => exact closed_destroy hrx hW hd
  | destroyed _ hd => exact closed_destroyEntries hrx hW hd

end Calls

/-- A process starts with closed code, and with an empty trace. -/
theorem closed_start (env : Env w) {W₀ : World w} (hprot : W₀.protection = .readExec)
    (htrace : W₀.trace = []) : (Process.start env W₀ : Process ι w).world.Closed W₀.memory :=
  ⟨hprot, by simp [Process.start, htrace, follow], by simp [Process.start, htrace, replay]⟩

section

variable [DecidableEq ι]

theorem Run.closed {env : Env w} {m₀ : Memory w}
    {cond : Process ι w → Ledger ι w → ι → Op w → Prop} {P₀ P : Process ι w} {L₀ L : Ledger ι w}
    (hrx : ∀ n, env.mprotectGrants n .readExec = true) (h : Run env cond P₀ L₀ P L)
    (hP₀ : P₀.Ready env) (h₀ : P₀.world.Closed m₀) : P.world.Closed m₀ := by
  induction h with
  | refl => exact h₀
  | step hrun hop _ hs _ ih => exact closed_step hrx (hrun.ready hP₀) hop ih hs

/-- Behind any run, and behind one more call however it ends, every write to
the code was made in a window, no window was opened in another one, and a call
that came to an end has left the code closed. -/
theorem code_is_writable_only_while_it_is_patched {env : Env w} {W₀ : World w}
    {P P' : Process ι w} {L : Ledger ι w} {i : ι} {op : Op w} {o : Outcome Unit}
    (hrx : ∀ n, env.mprotectGrants n .readExec = true) (hprot : W₀.protection = .readExec)
    (htrace : W₀.trace = [])
    (h : Run env (fun _ _ _ _ => True) (Process.start env W₀) Ledger.fresh P L)
    (hop : op.Fresh P.world) (hs : P.step env i op = (o, P')) :
    P'.world.memory = replay W₀.memory P'.world.trace ∧
      (follow .readExec P'.world.trace).isSome ∧
      (o.Completes → P'.world.protection = .readExec ∧
        follow .readExec P'.world.trace = some .readExec) := by
  have hready := ready_start env W₀ (ι := ι)
  have h₀ := closed_start env hprot htrace (ι := ι)
  have hclosed := closed_step hrx (h.ready hready) hop (h.closed hrx hready h₀) hs
  exact ⟨hclosed.memory, by simp [hclosed.trace], fun _ => ⟨hclosed.protection, hclosed.trace⟩⟩

end

/-- A second force of a location patches and rolls back within one call. -/
theorem code_is_writable_only_while_it_is_patched_sample :
    (firstForced.step sample () (.forceException 0x401010 none
      { exceptionPtr := some 0x7010 })).2.world.protection = .readExec := by
  have hop : (Op.forceException 0x401010 none { exceptionPtr := some 0x7010 }).Fresh
      firstForced.world := by decide
  have h := code_is_writable_only_while_it_is_patched (i := ()) (fun _ => rfl) rfl rfl
    (run_firstForced trivial) hop rfl
  exact (h.2.2 (by decide)).1

end eforce
