-- What is listed is what is patched. `GetExceptions` looks each throw up, and
-- `ForceException` looks one up again, over a cache that either of them may
-- fill. Both come to the same function, in every state of a run.
import Mathlib.Data.List.Forall2
import Eforce.Restoration

namespace eforce

open byte_memory

variable {ι : Type} {w : Nat}

/-! ## The list -/

namespace Env

/-- What a forcer says about a throw, and the function that it found for it. -/
def infoOf (env : Env w) (throwInfo : ThrowInfo w) (func : FunctionT w) : ExceptionInfo w :=
  (Impl.construct env).exceptionInfo throwInfo func

/-- The list of a program. It does not depend on any forcer. -/
def listing (env : Env w) : List (ThrowInfo w) → Outcome (List (ExceptionInfo w))
  | [] => .ok []
  | throwInfo :: rest =>
    match env.functionAt throwInfo.throwAddr with
    | .error e => .error e
    | .ok func =>
      match listing env rest with
      | .error e => .error e
      | .ok infos => .ok (env.infoOf throwInfo func :: infos)

/-- The list has one entry for each throw, in the order of the throws. -/
theorem listing_ok_iff {env : Env w} {throwInfos : List (ThrowInfo w)}
    {infos : List (ExceptionInfo w)} : env.listing throwInfos = .ok infos ↔
      List.Forall₂ (fun throwInfo info => ∃ func,
        env.functionAt throwInfo.throwAddr = .ok func ∧ info = env.infoOf throwInfo func)
        throwInfos infos := by
  induction throwInfos generalizing infos with
  | nil => cases infos <;> simp [listing]
  | cons throwInfo rest ih =>
    unfold listing
    cases hfunc : env.functionAt throwInfo.throwAddr with
    | error e => cases infos <;> simp [hfunc]
    | ok func =>
      cases hrest : env.listing rest with
      | error e => cases infos <;> simp [← ih, hrest]
      | ok infos' =>
        cases infos with
        | nil => simp
        | cons info infos =>
          have hinfo : info = env.infoOf throwInfo func ↔ env.infoOf throwInfo func = info :=
            eq_comm
          simp [← ih, hrest, hfunc, hinfo]

theorem mem_listing {env : Env w} {throwInfos : List (ThrowInfo w)}
    {infos : List (ExceptionInfo w)} {info : ExceptionInfo w}
    (h : env.listing throwInfos = .ok infos) (hmem : info ∈ infos) :
    ∃ throwInfo ∈ throwInfos, ∃ func, env.functionAt throwInfo.throwAddr = .ok func ∧
      info = env.infoOf throwInfo func := by
  obtain ⟨k, hk, rfl⟩ := List.getElem_of_mem hmem
  have hall := listing_ok_iff.1 h
  have hk' : k < throwInfos.length := hall.length_eq ▸ hk
  exact ⟨throwInfos[k], List.getElem_mem hk', hall.get hk' hk⟩

end Env

/-- A forcer lists what the program has, whatever it looked up before. -/
theorem Impl.Ready.listExceptions_eq {env : Env w} {F : Impl w} (hF : F.Ready env)
    (throwInfos : List (ThrowInfo w)) :
    (F.listExceptions env throwInfos).1 = env.listing throwInfos := by
  induction throwInfos generalizing F with
  | nil => rfl
  | cons throwInfo rest ih =>
    have hrest := ih hF.load
    have hat : containingFunction env.toElfEnv env.sortedFunctions
        (F.offsetResolver.toOffset throwInfo.throwAddr) = env.functionAt throwInfo.throwAddr := by
      rw [hF.resolver]
      rfl
    unfold Impl.listExceptions Env.listing
    rw [hF.cached.getContainingFunction, hat]
    cases hfunc : env.functionAt throwInfo.throwAddr with
    | error e => rfl
    | ok func =>
      have hinfo : ∀ F' : Impl w, F'.Ready env →
          F'.exceptionInfo throwInfo func = env.infoOf throwInfo func := by
        intro F' hF'
        unfold Env.infoOf Impl.exceptionInfo
        rw [hF'.resolver]
        rfl
      have hready := (Impl.ready_listExceptions hF.load rest).1
      rcases hl : ({ F with elf := F.elf.load env.toElfEnv } : Impl w).listExceptions env rest
        with ⟨o, F'⟩
      rw [hl] at hrest hready
      simp only [hl, ← hrest]
      cases o with
      | error e => rfl
      | ok infos => simp only [hinfo F' hready]

/-! ## The writes of a call -/

/-- What an event writes, and where. -/
def Event.written : Event w → Option (Addr w × List Byte)
  | .write start bytes => some (start, bytes)
  | .mprotect _ _ _ _ => none

def writesOf (t : List (Event w)) : List (Addr w × List Byte) := t.filterMap Event.written

theorem patched_writes (env : Env w) (W : World w) (start : Addr w) (bytes : List Byte) :
    ∃ events, (W.patched env start bytes).trace = W.trace ++ events ∧
      writesOf events = [(start, bytes)] :=
  ⟨_, World.patched_trace env W start bytes, rfl⟩

theorem destroy_writes {env : Env w} {X : ForcedException w} {W W' : World w} {o : Outcome Unit}
    (h : X.destroy env W = (o, W')) :
    ∃ events, W'.trace = W.trace ++ events ∧
      ∀ written ∈ writesOf events, written = (X.fnStart, X.originalData) := by
  by_cases he : X.originalData = []
  · rw [ForcedException.destroy_of_empty he] at h
    cases h
    exact ⟨[], by simp, by simp [writesOf]⟩
  cases hg : env.mprotectGrants W.calls .readWriteExec with
  | true =>
    rw [ForcedException.destroy_of_granted he hg] at h
    cases h
    obtain ⟨events, htrace, hwrites⟩ := patched_writes env W X.fnStart X.originalData
    exact ⟨events, by simp [htrace], by simp [hwrites]⟩
  | false =>
    rw [ForcedException.destroy_of_refused he hg] at h
    cases h
    exact ⟨_, rfl, by simp [writesOf, Event.written]⟩

/-- The writes of a call all go to one range. -/
def WritesAt (W W' : World w) (start : Addr w) (n : Nat) : Prop :=
  ∃ events, W'.trace = W.trace ++ events ∧ writesOf events ≠ [] ∧
    ∀ written ∈ writesOf events, written.1 = start ∧ written.2.length = n

theorem writesAt_applied (env : Env w) (patch : Patch w) (W : World w) :
    WritesAt W (patch.applied env W) patch.fnStart patch.code.length := by
  obtain ⟨events, htrace, hwrites⟩ :=
    patched_writes env (W.new patch.pError patch.error) patch.fnStart patch.code
  exact ⟨events, htrace, by simp [hwrites], by simp [hwrites]⟩

/-- A patch that is rolled back was written and put back at one place. -/
theorem writesAt_withdrawn {env : Env w} {patch : Patch w} {W W' : World w} {o : Outcome Unit}
    (h : (patch.forced W.memory).destroy env (patch.applied env W) = (o, W')) :
    WritesAt W W' patch.fnStart patch.code.length := by
  obtain ⟨events, htrace, hne, hwrites⟩ := writesAt_applied env patch W
  obtain ⟨events', htrace', hwrites'⟩ := destroy_writes h
  refine ⟨events ++ events', ?_, ?_, ?_⟩
  · rw [htrace', htrace, List.append_assoc]
  · simp only [writesOf, List.filterMap_append] at hne ⊢
    simp [hne]
  · intro written hmem
    simp only [writesOf, List.filterMap_append, List.mem_append] at hmem
    rcases hmem with hmem | hmem
    · exact hwrites written hmem
    · rw [hwrites' written hmem]
      exact ⟨rfl, length_read _ _ _⟩

/-- A force of a location with a function throws, or writes the patch of that
location. -/
theorem force_throws_or_writes {env : Env w} {forced forced' : ForcedExceptions w}
    {W W' : World w} {loc : Addr w} {pError : ExceptionPtr} {allocs : Allocs w}
    {o : Outcome Unit} {func : FunctionT w} (hfunc : env.functionAt loc = .ok func)
    (h : ForceResult env forced W loc pError allocs o forced' W') :
    (∃ e, o = .error (.threw e)) ∨ ∃ patch, env.patchAt loc pError allocs = .ok patch ∧
      WritesAt W W' patch.fnStart patch.code.length := by
  cases h with
  | @rejected e hpatch =>
    left
    unfold Env.patchAt at hpatch
    rw [hfunc] at hpatch
    split at hpatch
    · cases hpatch
      exact ⟨_, rfl⟩
    dsimp only at hpatch
    split at hpatch
    · cases hpatch
      exact ⟨_, rfl⟩
    split at hpatch
    · cases hpatch
      exact ⟨_, rfl⟩
    · cases hpatch
  | refused => exact Or.inl ⟨_, rfl⟩
  | @installed patch hpatch => exact Or.inr ⟨patch, hpatch, writesAt_applied env patch W⟩
  | @withdrawn patch _ _ hpatch _ hwhy hd =>
    exact Or.inr ⟨patch, hpatch, writesAt_withdrawn hd⟩
  | @terminated patch _ hpatch _ _ hd => exact Or.inr ⟨patch, hpatch, writesAt_withdrawn hd⟩

variable [DecidableEq ι]

/-- Every forcer lists the same throws at every point of a run. A force of a
listed throw itself throws, or writes one range from the start of the listed
function on, which ends within that function. When no place of the table wraps
around, no listed start is behind its end (`Env.Defined.listed_start_le_stop`). -/
theorem what_is_listed_is_what_is_patched {env : Env w} {W₀ : World w} {P₁ P₂ : Process ι w}
    {L₁ L₂ : Ledger ι w} {i : ι} {F₁ F₂ : Impl w}
    (h₁ : Run env (fun _ _ _ _ => True) (Process.start env W₀) Ledger.fresh P₁ L₁)
    (h₂ : Run env (fun _ _ _ _ => True) P₁ L₁ P₂ L₂) (hF₁ : P₁.forcers i = some F₁)
    (hF₂ : P₂.forcers i = some F₂) :
    (F₁.getExceptions env).1 = (F₂.getExceptions env).1 ∧
    ∀ infos, (F₁.getExceptions env).1 = .ok infos → ∀ info ∈ infos, ∀ pError allocs o P₃,
      (Op.forceException info.addr pError allocs).Fresh P₂.world →
      P₂.step env i (.forceException info.addr pError allocs) = (o, P₃) →
      (∃ e, o = .error (.threw e)) ∨
        ∃ n, WritesAt P₂.world P₃.world info.parentFn.start n ∧
          n ≤ (info.parentFn.stop - info.parentFn.start).toNat ∧
          (info.parentFn.start ≤ info.parentFn.stop →
            info.parentFn.start.toNat + n ≤ info.parentFn.stop.toNat) := by
  have hready₁ := h₁.ready (ready_start env W₀)
  have hready₂ := h₂.ready hready₁
  refine ⟨?_, ?_⟩
  · unfold Impl.getExceptions
    rw [(hready₁ i F₁ hF₁).listExceptions_eq, (hready₂ i F₂ hF₂).listExceptions_eq]
  · intro infos hinfos info hmem pError allocs o P₃ hop hs
    unfold Impl.getExceptions at hinfos
    rw [(hready₁ i F₁ hF₁).listExceptions_eq] at hinfos
    obtain ⟨throwInfo, -, func, hfunc, rfl⟩ := Env.mem_listing hinfos hmem
    have hfunc' : env.functionAt (env.infoOf throwInfo func).addr = .ok func := hfunc
    cases Process.step_result hready₂ hop hs with
    | dead hi => cases hi.symm.trans hF₂
    | forced _ hforce =>
      rcases force_throws_or_writes hfunc' hforce with hthrew | ⟨patch, hpatch, hwrites⟩
      · exact Or.inl hthrew
      · have hextent : (env.infoOf throwInfo func).parentFn.start = patch.fnStart ∧
            patch.code.length ≤
              ((env.infoOf throwInfo func).parentFn.stop - patch.fnStart).toNat :=
          Env.patchAt_of_functionAt hpatch hfunc'
        obtain ⟨hstart, hlen⟩ := hextent
        rw [hstart]
        refine Or.inr ⟨patch.code.length, hwrites, hlen, fun hle => ?_⟩
        rw [BitVec.toNat_sub_of_le hle] at hlen
        have hle' := BitVec.le_def.1 hle
        omega

/-- The second throw of the first function, forced behind a force of the first
one. -/
theorem what_is_listed_is_what_is_patched_sample :
    ∃ n, WritesAt firstForced.world (firstForced.step sample () forceSecond).2.world 0x401000 n ∧
      n ≤ 0x40 := by
  obtain ⟨-, hlisted⟩ := what_is_listed_is_what_is_patched (i := ()) .refl
    (run_firstForced trivial) rfl rfl
  have hop : forceSecond.Fresh firstForced.world := by decide
  have hret : (firstForced.step sample () forceSecond).1 = .ok () := rfl
  rcases hlisted _ rfl _ (List.mem_cons_of_mem _ List.mem_cons_self) none
    { exceptionPtr := some 0x7010 } _ _ hop rfl with ⟨e, he⟩ | ⟨n, hwrites, hn, -⟩
  · cases hret.symm.trans he
  · exact ⟨n, hwrites, hn⟩

/-! ## Every throw is listed -/

/-- The list has the throws of the registry, each with its own data. -/
def ListsAll (throwInfos : List (ThrowInfo w)) (infos : List (ExceptionInfo w)) : Prop :=
  List.Forall₂ (fun throwInfo info => info.addr = throwInfo.throwAddr ∧
    info.file = throwInfo.file ∧ info.line = throwInfo.line ∧
    info.exceptionStr = throwInfo.exceptionStr) throwInfos infos

/-- The address has a function symbol in front of it and one behind, and the
demangler takes the name of the first one. -/
def Env.Named (env : Env w) (loc : Addr w) : Prop :=
  ∃ thisFn nextFn, neighbours env.sortedFunctions (env.resolver.toOffset loc) =
    some (thisFn, nextFn) ∧ env.demangle thisFn.name ≠ none

theorem Env.named_iff {env : Env w} {loc : Addr w} :
    env.Named loc ↔ ∃ func, env.functionAt loc = .ok func := by
  unfold Named functionAt containingFunction
  cases hn : neighbours env.sortedFunctions (env.resolver.toOffset loc) with
  | none => simp
  | some found =>
    obtain ⟨thisFn, nextFn⟩ := found
    cases hname : env.demangle thisFn.name <;> simp [hname]

theorem Env.listing_complete_iff {env : Env w} {throwInfos : List (ThrowInfo w)} :
    (∃ infos, env.listing throwInfos = .ok infos ∧ ListsAll throwInfos infos) ↔
      ∀ throwInfo ∈ throwInfos, env.Named throwInfo.throwAddr := by
  refine ⟨?_, ?_⟩
  · rintro ⟨infos, hinfos, -⟩ throwInfo hmem
    obtain ⟨k, hk, rfl⟩ := List.getElem_of_mem hmem
    have hall := listing_ok_iff.1 hinfos
    obtain ⟨func, hfunc, -⟩ := hall.get hk (hall.length_eq ▸ hk)
    exact Env.named_iff.2 ⟨func, hfunc⟩
  · intro h
    induction throwInfos with
    | nil => exact ⟨[], rfl, .nil⟩
    | cons throwInfo rest ih =>
      obtain ⟨infos, hinfos, hall⟩ := ih fun t ht => h t (List.mem_cons_of_mem _ ht)
      obtain ⟨func, hfunc⟩ := Env.named_iff.1 (h throwInfo List.mem_cons_self)
      refine ⟨env.infoOf throwInfo func :: infos, ?_, .cons ⟨rfl, rfl, rfl, rfl⟩ hall⟩
      unfold Env.listing
      rw [hfunc, hinfos]

/-- A forcer lists every registered throw exactly when all of them are in
functions with a name that the demangler takes. One other name fails the whole
list. -/
theorem every_throw_is_listed_iff {env : Env w} {P : Process ι w} {i : ι}
    {F : Impl w} (h : Reachable env P) (hF : P.forcers i = some F) :
    (∃ infos, (F.getExceptions env).1 = .ok infos ∧ ListsAll env.throwInfos infos) ↔
      ∀ throwInfo ∈ env.throwInfos, env.Named throwInfo.throwAddr := by
  obtain ⟨W₀, L, hrun⟩ := h
  have hready := hrun.ready (ready_start env W₀) i F hF
  unfold Impl.getExceptions
  rw [hready.listExceptions_eq, Env.listing_complete_iff]

theorem every_throw_is_listed_iff_sample :
    (∃ infos, ((Impl.construct sample).getExceptions sample).1 = .ok infos ∧
        ListsAll sample.throwInfos infos) ↔
      ∀ throwInfo ∈ sample.throwInfos, sample.Named throwInfo.throwAddr := by
  have hreach : Reachable sample (Process.start sample sampleWorld : Process Unit 64) :=
    ⟨sampleWorld, _, .refl⟩
  exact every_throw_is_listed_iff (i := ()) hreach rfl

/-- The first function is `main`, a name that is not mangled. -/
def throwsInMain : Env 64 :=
  { sample with
    toElfEnv := { ElfEnv.ofSymtab [⟨"main", 0x0, sampleText, 0x8⟩,
        ⟨"_Z1gv", 0x40, sampleText, 0x8⟩, ⟨"_Z3endv", 0x80, sampleText, 0x8⟩] with
      demangle := fun name => if name = "main" then none else some name } }

/-- The throws in `main` hide the throw in the other function. -/
theorem a_throw_in_main_fails_the_list : ¬ ∀ (env : Env 64) (P : Process Unit 64) (F : Impl 64),
    Reachable env P → P.forcers () = some F →
    (∀ throwInfo ∈ env.throwInfos,
      neighbours env.sortedFunctions (env.resolver.toOffset throwInfo.throwAddr) ≠ none) →
    ∃ infos, (F.getExceptions env).1 = .ok infos ∧ ListsAll env.throwInfos infos := by
  intro h
  have hreach : Reachable throwsInMain (Process.start throwsInMain sampleWorld : Process Unit 64) :=
    ⟨sampleWorld, _, .refl⟩
  obtain ⟨infos, hinfos, -⟩ := h throwsInMain _ _ hreach rfl (by decide)
  have herror : ((Impl.construct throwsInMain).getExceptions throwsInMain).1 =
      .error (.threw .logicError) := rfl
  cases herror.symm.trans hinfos

end eforce
