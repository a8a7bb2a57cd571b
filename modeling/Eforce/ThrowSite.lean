-- The registration of a throw (eforce/BuiltinConstant.h, eforce/Exception.h). A
-- macro asks of each argument of the exception whether it is a constant. A throw
-- whose arguments all are can be forced without an exception from the caller.
import Eforce.Forcing

namespace eforce

variable {ι : Type} {w : Nat}

/-! ## `FOR_EACH` -/

/-- An argument of the exception: its text, with the blank in front of it, and
the answer of `__builtin_constant_p`. -/
structure Argument where
  text : String
  constant : Bool
  deriving DecidableEq, Repr

/-- The text that the macros make. -/
inductive Token
  | builtinConstantP (x : Argument)
  | andAnd
  | literalTrue
  deriving DecidableEq, Repr

/-- `FE_1` to `FE_25`. A macro that gets too few arguments or too many is an
error. -/
def FE (WHAT : Argument → List Token) : Nat → List Argument → Option (List Token)
  | 1, [x] => some (WHAT x)
  | n + 2, x :: rest => (FE WHAT (n + 1) rest).map (WHAT x ++ ·)
  | _, _ => none

/-- An argument of `GET_MACRO`: the name of a macro, or something else. -/
inductive MacroArg
  | fe (n : Nat)
  | argument (x : Argument)
  deriving DecidableEq, Repr

/-- `NAME` is the argument behind the first 25. -/
def GET_MACRO (args : List MacroArg) : Option MacroArg := args[25]?

/-- `FE_25` down to `FE_1`. -/
def feNames : List MacroArg := (List.range 25).map fun i => .fe (25 - i)

/-- With too many arguments, one of them stands where the name of a macro should.
The text is then a call of it with `action`, which is declared nowhere. -/
def FOR_EACH (action : Argument → List Token) (args : List Argument) : Option (List Token) :=
  match GET_MACRO (args.map .argument ++ feNames) with
  | some (.fe n) => FE action n args
  | _ => none

theorem FE_length (WHAT : Argument → List Token) (x : Argument) (args : List Argument) :
    FE WHAT (args.length + 1) (x :: args) = some ((x :: args).flatMap WHAT) := by
  induction args generalizing x with
  | nil => simp [FE]
  | cons y args ih =>
    rw [List.length_cons, FE, ih, Option.map_some]
    rfl

/-- The 25 names move up by one place for each argument in front of them. -/
theorem FOR_EACH_of_le {action : Argument → List Token} {args : List Argument} (hpos : args ≠ [])
    (hle : args.length ≤ 25) : FOR_EACH action args = some (args.flatMap action) := by
  have hlength : 0 < args.length := List.length_pos_iff.2 hpos
  have hname : GET_MACRO (args.map .argument ++ feNames) = some (.fe args.length) := by
    unfold GET_MACRO feNames
    rw [List.getElem?_append_right (by simpa using hle), List.getElem?_map, List.length_map,
      List.getElem?_range (by omega)]
    simp only [Option.map_some]
    congr 2
    omega
  unfold FOR_EACH
  simp only [hname]
  cases args with
  | nil => exact absurd rfl hpos
  | cons x rest => exact FE_length action x rest

theorem FOR_EACH_of_gt {action : Argument → List Token} {args : List Argument}
    (hgt : 25 < args.length) : FOR_EACH action args = none := by
  have hname : GET_MACRO (args.map .argument ++ feNames) = some (.argument args[25]) := by
    unfold GET_MACRO
    rw [List.getElem?_append_left (by simpa using hgt), List.getElem?_map,
      List.getElem?_eq_getElem hgt]
    rfl
  unfold FOR_EACH
  simp only [hname]

/-! ## `IS_CONSTEXPR` -/

def ONE_CONSTANT (x : Argument) : List Token := [.builtinConstantP x, .andAnd]

def IS_CONSTEXPR (args : List Argument) : Option (List Token) :=
  (FOR_EACH ONE_CONSTANT args).map (· ++ [.literalTrue])

/-- The value of a chain of `&&`. -/
def evalAnd : List Token → Option Bool
  | [.literalTrue] => some true
  | .builtinConstantP x :: .andAnd :: rest => (evalAnd rest).map (x.constant && ·)
  | _ => none

theorem evalAnd_flatMap (args : List Argument) :
    evalAnd (args.flatMap ONE_CONSTANT ++ [.literalTrue]) = some (args.all (·.constant)) := by
  induction args with
  | nil => rfl
  | cons x args ih =>
    have hx : (x :: args).flatMap ONE_CONSTANT ++ [.literalTrue] =
        .builtinConstantP x :: .andAnd :: (args.flatMap ONE_CONSTANT ++ [.literalTrue]) := rfl
    rw [hx, evalAnd, ih, List.all_cons, Option.map_some]

/-! ## `THROW_REGISTERED_EXCEPTION` -/

/-- A throw in the source. `make` is what `genExceptionFn` gives: the call of the
constructor may throw. -/
structure ThrowSite (w : Nat) where
  label : Addr w
  file : String
  line : Int
  etype : String
  args : List Argument
  make : Except Error ExceptionPtr

namespace ThrowSite

/-- `#__etype "(" #__VA_ARGS__ ")"` -/
def exceptionStr (site : ThrowSite w) : String :=
  site.etype ++ "(" ++ ",".intercalate (site.args.map (·.text)) ++ ")"

/-- The `throwInfo` of the macro. The `true` in front of the arguments is one
more of them. -/
def throwInfo (site : ThrowSite w) : Option (ThrowInfo w) :=
  ((IS_CONSTEXPR (⟨"true", true⟩ :: site.args)).bind evalAnd).map fun isConstexpr => {
    throwAddr := site.label
    file := site.file
    line := site.line
    exceptionStr := site.exceptionStr
    getException := if isConstexpr then some site.make else none }

/-- What a registration is to be: the throw can be forced without an exception
when all its arguments are constants. -/
def info (site : ThrowSite w) : ThrowInfo w where
  throwAddr := site.label
  file := site.file
  line := site.line
  exceptionStr := site.exceptionStr
  getException := if site.args.all (·.constant) then some site.make else none

theorem throwInfo_eq (site : ThrowSite w) :
    site.throwInfo = if site.args.length ≤ 24 then some site.info else none := by
  unfold throwInfo IS_CONSTEXPR
  split
  · rename_i hle
    rw [FOR_EACH_of_le (List.cons_ne_nil _ _) (by rw [List.length_cons]; omega), Option.map_some,
      Option.bind_some, evalAnd_flatMap]
    rfl
  · rename_i hgt
    rw [FOR_EACH_of_gt (by rw [List.length_cons]; omega)]
    rfl

end ThrowSite

/-! ## A force without an exception -/

/-- A force looks at its exception only to choose what to throw. -/
theorem Impl.forceException_congr {env : Env w} {F : Impl w} {loc : Addr w}
    {p q : ExceptionPtr} {throwInfo : ThrowInfo w} (hinfo : env.throwInfoAt loc = some throwInfo)
    (h : Impl.errorToThrow throwInfo p = Impl.errorToThrow throwInfo q) (allocs : Allocs w)
    (W : World w) : F.forceException env loc p allocs W = F.forceException env loc q allocs W := by
  unfold Env.throwInfoAt at hinfo
  unfold Impl.forceException
  simp only [hinfo, h]

/-- When there is nothing to throw, the forcer has looked up the function, and
that is all. -/
theorem Impl.forceException_nothing {env : Env w} {F : Impl w} (hF : F.Ready env) {loc : Addr w}
    {p : ExceptionPtr} {throwInfo : ThrowInfo w} (hinfo : env.throwInfoAt loc = some throwInfo)
    {func : FunctionT w} (hfunc : env.functionAt loc = .ok func) {e : Error}
    (h : Impl.errorToThrow throwInfo p = .error e) (allocs : Allocs w) (W : World w) :
    F.forceException env loc p allocs W =
      (.error (.threw e), { F with elf := F.elf.load env.toElfEnv }, W) := by
  obtain ⟨elf, r, forced⟩ := F
  obtain ⟨hcached, rfl⟩ := hF
  have haddr := Env.throwInfoAt_some hinfo
  unfold Env.throwInfoAt at hinfo
  unfold Env.functionAt Env.resolver at hfunc
  unfold Impl.forceException
  simp only [hinfo, haddr, hcached.getContainingFunction, hfunc, h]

section Sites

variable {env : Env w} {sites : List (ThrowSite w)} {site : ThrowSite w}

/-- The registered throws of a program are those of its source. -/
def Env.Registers (env : Env w) (sites : List (ThrowSite w)) : Prop :=
  sites.mapM ThrowSite.throwInfo = some env.throwInfos

theorem mapM_throwInfo (sites : List (ThrowSite w)) : sites.mapM ThrowSite.throwInfo =
    if ∀ site ∈ sites, site.args.length ≤ 24 then some (sites.map ThrowSite.info) else none := by
  induction sites with
  | nil => rfl
  | cons site sites ih =>
    rw [List.mapM_cons, ih, ThrowSite.throwInfo_eq]
    simp only [List.mem_cons, forall_eq_or_imp]
    by_cases hle : site.args.length ≤ 24
    · by_cases hall : ∀ site ∈ sites, site.args.length ≤ 24
      · rw [if_pos hle, if_pos hall, if_pos ⟨hle, hall⟩]
        rfl
      · rw [if_pos hle, if_neg hall, if_neg fun h => hall h.2]
        rfl
    · have hnot : ¬ (site.args.length ≤ 24 ∧ ∀ site ∈ sites, site.args.length ≤ 24) :=
        fun h => hle h.1
      rw [if_neg hle, if_neg hnot]
      rfl

theorem Env.Registers.infos (h : env.Registers sites) :
    env.throwInfos = sites.map ThrowSite.info := by
  unfold Env.Registers at h
  rw [mapM_throwInfo] at h
  split at h
  · exact (Option.some.inj h).symm
  · cases h

/-- The labels of the throws tell them apart. -/
theorem find_site (hlabels : (sites.map (·.label)).Nodup) (hsite : site ∈ sites) :
    (sites.map ThrowSite.info).find? (fun throwInfo => throwInfo.throwAddr = site.label) =
      some site.info := by
  induction sites with
  | nil => exact absurd hsite List.not_mem_nil
  | cons first sites ih =>
    rw [List.map_cons, List.nodup_cons] at hlabels
    rw [List.map_cons]
    rcases List.mem_cons.1 hsite with rfl | hmem
    · exact List.find?_cons_of_pos (by simp [ThrowSite.info])
    · have hne : first.label ≠ site.label := by
        intro he
        exact hlabels.1 (he ▸ List.mem_map_of_mem hmem)
      rw [List.find?_cons_of_neg (by simpa [ThrowSite.info] using hne)]
      exact ih hlabels.2 hmem

theorem Env.Registers.throwInfoAt (h : env.Registers sites)
    (hlabels : (sites.map (·.label)).Nodup) (hsite : site ∈ sites) :
    env.throwInfoAt site.label = some site.info := by
  unfold Env.throwInfoAt
  rw [h.infos]
  exact find_site hlabels hsite

end Sites

/-- The macros ask every argument of every throw, in order, as long as no throw
has more than 24. A program with more of them in one throw does not compile. -/
theorem a_program_registers_its_throws (env : Env w) (sites : List (ThrowSite w)) :
    env.Registers sites ↔ (∀ site ∈ sites, site.args.length ≤ 24) ∧
      env.throwInfos = sites.map ThrowSite.info := by
  unfold Env.Registers
  rw [mapM_throwInfo]
  split
  · rename_i hall
    exact ⟨fun h => ⟨hall, (Option.some.inj h).symm⟩, fun h => congrArg some h.2.symm⟩
  · rename_i hnot
    refine ⟨fun h => ?_, fun h => absurd h.1 hnot⟩
    cases h

/-- Behind every run, a throw can be forced without an exception exactly when
each of its arguments is a constant. The force is then that of the throw's own
exception, and otherwise it is refused and changes nothing. -/
theorem a_throw_forces_itself_iff_constant [DecidableEq ι] {env : Env w}
    {sites : List (ThrowSite w)} (hsites : env.Registers sites)
    (hlabels : (sites.map (·.label)).Nodup) {site : ThrowSite w} (hsite : site ∈ sites)
    {P : Process ι w} (hP : Reachable env P) {i : ι} (hi : (P.forcers i).isSome)
    {func : FunctionT w} (hfunc : env.functionAt site.label = .ok func) (allocs : Allocs w) :
    ((∀ x ∈ site.args, x.constant) → ∀ e, site.make = .ok (some e) →
      P.step env i (.forceException site.label none allocs) =
        P.step env i (.forceException site.label (some e) allocs)) ∧
    ((∃ x ∈ site.args, ¬ x.constant) →
      ∃ P', P.step env i (.forceException site.label none allocs) =
          (.error (.threw (.runtimeError "Exception input is not constant")), P') ∧
        P'.world = P.world ∧ P'.maps = P.maps) := by
  have hinfo := hsites.throwInfoAt hlabels hsite
  obtain ⟨W₀, L, hrun⟩ := hP
  obtain ⟨F, hF⟩ := Option.isSome_iff_exists.1 hi
  refine ⟨?_, ?_⟩
  · intro hall e he
    have hconst : site.args.all (·.constant) = true := List.all_eq_true.2 hall
    have hthrow : Impl.errorToThrow site.info none = Impl.errorToThrow site.info (some e) := by
      simp [Impl.errorToThrow, ThrowSite.info, hconst, he]
    unfold Process.step
    simp only [hF, Impl.forceException_congr hinfo hthrow]
  · rintro ⟨x, hx, hvar⟩
    have hconst : site.args.all (·.constant) = false := by
      rw [List.all_eq_false]
      exact ⟨x, hx, hvar⟩
    have hthrow : Impl.errorToThrow site.info none =
        .error (.runtimeError "Exception input is not constant") := by
      simp [Impl.errorToThrow, ThrowSite.info, hconst]
    have hready := hrun.ready (ready_start env W₀) i F hF
    refine ⟨P.set i (some { F with elf := F.elf.load env.toElfEnv }) P.world, ?_, rfl, ?_⟩
    · unfold Process.step
      simp only [hF, Impl.forceException_nothing hready hinfo hfunc hthrow]
    · funext j
      by_cases hj : j = i
      · subst hj
        simp [Process.maps, Process.set, hF]
      · simp [Process.maps, Process.set, hj]

def sampleSites : List (ThrowSite 64) := [
  ⟨0x401010, "f.cpp", 3, "F", [⟨"1", true⟩], .ok (some 1)⟩,
  ⟨0x401020, "f.cpp", 4, "F", [⟨"2", true⟩], .ok (some 2)⟩,
  ⟨0x401050, "g.cpp", 9, "G", [⟨"x", false⟩], .ok (some 3)⟩]

theorem sample_registers : sample.Registers sampleSites := rfl

theorem a_throw_forces_itself_iff_constant_sample :
    ∃ P', (Process.start sample sampleWorld : Process Unit 64).step sample ()
        (.forceException 0x401050 none { exceptionPtr := some 0x7020 }) =
        (.error (.threw (.runtimeError "Exception input is not constant")), P') ∧
      P'.world = sampleWorld := by
  have hsite : (⟨0x401050, "g.cpp", 9, "G", [⟨"x", false⟩], .ok (some 3)⟩ : ThrowSite 64) ∈
      sampleSites := List.mem_of_getElem? (i := 2) rfl
  have hlabels : (sampleSites.map (·.label)).Nodup := by decide
  have hfunc : sample.functionAt 0x401050 = .ok ⟨0x1040, 0x1080, "g"⟩ := rfl
  obtain ⟨-, h⟩ := a_throw_forces_itself_iff_constant sample_registers hlabels hsite
    sample_reachable (i := ()) rfl hfunc { exceptionPtr := some 0x7020 }
  obtain ⟨P', hstep, hworld, -⟩ := h ⟨_, List.mem_singleton_self _, by decide⟩
  exact ⟨P', hstep, hworld⟩

end eforce
