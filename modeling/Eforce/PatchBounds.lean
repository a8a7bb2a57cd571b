-- How far a patch reaches. The end of a function is the value of the next
-- symbol in a list that mixes all sections, so it may lie before the true end,
-- but never behind it: a patch that fits stays off the next function.
import Eforce.Forcing

namespace eforce

open byte_memory

variable {w : Nat}

/-! ## The next symbol -/

theorem ElfEnv.sortedFunctions_sorted (env : ElfEnv w) :
    env.sortedFunctions.Pairwise fun a b => ¬ b.value < a.value := env.sort_sorted _

theorem value_le_of_index {env : ElfEnv w} {a b : Asymbol w} {i j : Nat}
    (ha : env.sortedFunctions[i]? = some a) (hb : env.sortedFunctions[j]? = some b)
    (hij : i ≤ j) : a.value ≤ b.value := by
  obtain ⟨hi, rfl⟩ := List.getElem?_eq_some_iff.1 ha
  obtain ⟨hj, rfl⟩ := List.getElem?_eq_some_iff.1 hb
  rcases Nat.lt_or_eq_of_le hij with hlt | rfl
  · exact BitVec.not_lt.1 (List.pairwise_iff_getElem.1 env.sortedFunctions_sorted _ _ hi hj hlt)
  · exact BitVec.le_refl _

/-- No symbol has a value between those of the two symbols of a lookup. -/
theorem next_value_le {env : ElfEnv w} {offset : Addr w} {thisFn nextFn other : Asymbol w}
    (h : neighbours env.sortedFunctions offset = some (thisFn, nextFn))
    (hmem : other ∈ env.sortedFunctions) (hlt : thisFn.value < other.value) :
    nextFn.value ≤ other.value := by
  obtain ⟨i, hthis, hnext, -⟩ := neighbours_spec h
  obtain ⟨j, hother⟩ := List.getElem?_of_mem hmem
  have hij : i < j := by
    by_contra hle
    exact BitVec.not_le.2 hlt (value_le_of_index hother hthis (Nat.le_of_not_lt hle))
  exact value_le_of_index hnext hother (Nat.succ_le_of_lt hij)

theorem value_le_next {env : ElfEnv w} {offset : Addr w} {thisFn nextFn : Asymbol w}
    (h : neighbours env.sortedFunctions offset = some (thisFn, nextFn)) :
    thisFn.value ≤ nextFn.value := by
  obtain ⟨i, hthis, hnext, -⟩ := neighbours_spec h
  exact value_le_of_index hthis hnext (Nat.le_succ i)

theorem mem_sortedFunctions {env : ElfEnv w} {symbol : Asymbol w} :
    symbol ∈ env.sortedFunctions ↔ symbol ∈ env.symtab ∧ symbol.isFunction = true := by
  unfold ElfEnv.sortedFunctions
  rw [(env.sort_perm _).mem_iff, List.mem_filter]

/-! ## The size of a function -/

namespace Env

/-- Where a symbol is in the running program. -/
def addressOf (env : Env w) (symbol : Asymbol w) : Addr w := env.resolver.fromOffset symbol.offset

/-- The function symbols are defined, and no sum of a value, the place of a
section and the load address wraps around. -/
structure Defined (env : Env w) : Prop where
  offset_ne : ∀ a ∈ env.sortedFunctions, a.offset ≠ 0
  fits : ∀ a ∈ env.sortedFunctions, ∀ b ∈ env.sortedFunctions,
    a.value.toNat + b.sect.filepos.toNat + env.progStartAddr.toNat < 2 ^ w

theorem Defined.toNat_fromOffset {env : Env w} (h : env.Defined) {a b : Asymbol w}
    (ha : a ∈ env.sortedFunctions) (hb : b ∈ env.sortedFunctions)
    (hne : a.value + b.sect.filepos ≠ 0) :
    (env.resolver.fromOffset (a.value + b.sect.filepos)).toNat =
      a.value.toNat + b.sect.filepos.toNat + env.progStartAddr.toNat := by
  have hfits := h.fits a ha b hb
  rw [ProgOffsetResolver.fromOffset_of_ne hne]
  simp only [resolver, BitVec.toNat_add]
  rw [Nat.mod_eq_of_lt (a := a.value.toNat + _) (by omega), Nat.mod_eq_of_lt hfits]

/-- The end that a lookup computes is not null: it is not before the start of
a defined symbol. -/
theorem Defined.end_ne {env : Env w} (h : env.Defined) {offset : Addr w}
    {thisFn nextFn : Asymbol w}
    (hn : neighbours env.sortedFunctions offset = some (thisFn, nextFn)) :
    nextFn.value + thisFn.sect.filepos ≠ 0 := by
  obtain ⟨hthis, hnext⟩ := mem_of_neighbours hn
  have hvalue : thisFn.value.toNat ≤ nextFn.value.toNat := value_le_next hn
  have hfits := h.fits _ hnext _ hthis
  intro hz
  have hzero := congrArg BitVec.toNat hz
  rw [BitVec.toNat_add, Nat.mod_eq_of_lt (by omega)] at hzero
  have hsum : nextFn.value.toNat + thisFn.sect.filepos.toNat = 0 := by simpa using hzero
  apply h.offset_ne _ hthis
  apply BitVec.eq_of_toNat_eq
  rw [Asymbol.offset, BitVec.toNat_add, show thisFn.value.toNat = 0 by omega,
    show thisFn.sect.filepos.toNat = 0 by omega]
  simp

/-- The size of a function reaches to no symbol of its section. -/
theorem Defined.size_le {env : Env w} (h : env.Defined) {offset : Addr w}
    {thisFn nextFn other : Asymbol w}
    (hn : neighbours env.sortedFunctions offset = some (thisFn, nextFn))
    (hother : other ∈ env.sortedFunctions) (hsect : other.sect = thisFn.sect)
    (hlt : env.addressOf thisFn < env.addressOf other) :
    (env.resolver.fromOffset (nextFn.value + thisFn.sect.filepos) - env.addressOf thisFn).toNat ≤
      (env.addressOf other - env.addressOf thisFn).toNat := by
  obtain ⟨hthis, hnext⟩ := mem_of_neighbours hn
  have hvalue : thisFn.value.toNat ≤ nextFn.value.toNat := value_le_next hn
  have hstart := h.toNat_fromOffset hthis hthis (h.offset_ne _ hthis)
  have hend := h.toNat_fromOffset hother hother (h.offset_ne _ hother)
  rw [hsect] at hend
  have hstop := h.toNat_fromOffset hnext hthis (h.end_ne hn)
  have hlt' : (env.resolver.fromOffset (thisFn.value + thisFn.sect.filepos)).toNat <
      (env.resolver.fromOffset (other.value + other.sect.filepos)).toNat := hlt
  rw [hsect, hstart, hend] at hlt'
  have hle : nextFn.value.toNat ≤ other.value.toNat := by
    refine next_value_le hn hother ?_
    exact BitVec.lt_def.2 (by omega)
  have hsame : env.addressOf other =
      env.resolver.fromOffset (other.value + thisFn.sect.filepos) := by
    rw [addressOf, Asymbol.offset, hsect]
  have hsize : (env.resolver.fromOffset (nextFn.value + thisFn.sect.filepos) -
      env.addressOf thisFn).toNat = nextFn.value.toNat - thisFn.value.toNat := by
    rw [BitVec.toNat_sub_of_le]
    · rw [hstop, addressOf, Asymbol.offset, hstart]
      omega
    · rw [BitVec.le_def, hstop, addressOf, Asymbol.offset, hstart]
      omega
  rw [hsize, BitVec.toNat_sub_of_le (BitVec.le_of_lt hlt), hsame, hend, addressOf, Asymbol.offset,
    hstart]
  omega

end Env

/-! ## Where a constructor writes -/

namespace ForcedException

variable {env : Env w} {fn : FunctionT w} {error : ExceptionPtr} {r : ProgOffsetResolver w}
  {allocs : Allocs w} {W : World w}

/-- An opcode that does not fit is rejected before anything is written. -/
theorem construct_too_large {p : Addr w} {code : List Byte} (hp : allocs.exceptionPtr = some p)
    (hcode : getThrowOpcode env allocs (r.fromOffset fn.startOffset) p = .ok code)
    (hlarge : (r.fromOffset fn.endOffset - r.fromOffset fn.startOffset).toNat < code.length) :
    construct env fn error r allocs W =
      (.error (.threw (.runtimeError "Generated opcode too large")),
        (W.new p error).delete (some p)) := by
  unfold construct
  simp only [hp, hcode]
  exact if_pos hlarge

end ForcedException

/-- The patch of a function covers the start of no other function of the same
section. One that would is rejected, and nothing is written. -/
theorem a_patch_never_reaches_the_next_function {env : Env w} (hdef : env.Defined)
    {loc : Addr w} {thisFn nextFn : Asymbol w} {fn : FunctionT w}
    (hn : neighbours env.sortedFunctions (env.resolver.toOffset loc) = some (thisFn, nextFn))
    (hfn : env.functionAt loc = .ok fn) (error : ExceptionPtr) (allocs : Allocs w) (W : World w) :
    (∀ X W', ForcedException.construct env fn error env.resolver allocs W = (.ok X, W') →
      ∃ p code, getThrowOpcode env allocs (env.addressOf thisFn) p = .ok code ∧
        W'.memory = write W.memory (env.addressOf thisFn) code ∧
        ∀ other ∈ env.symtab, other.isFunction → other.sect = thisFn.sect →
          env.addressOf thisFn < env.addressOf other →
          ¬ Within (env.addressOf thisFn) code.length (env.addressOf other)) ∧
    ∀ p code, allocs.exceptionPtr = some p →
      getThrowOpcode env allocs (env.addressOf thisFn) p = .ok code →
      (∃ other ∈ env.symtab, other.isFunction ∧ other.sect = thisFn.sect ∧
        env.addressOf thisFn < env.addressOf other ∧
        Within (env.addressOf thisFn) code.length (env.addressOf other)) →
      ∃ W', ForcedException.construct env fn error env.resolver allocs W =
          (.error (.threw (.runtimeError "Generated opcode too large")), W') ∧
        W'.memory = W.memory ∧ W'.trace = W.trace := by
  obtain ⟨hstart, hstop⟩ : fn.startOffset = thisFn.offset ∧
      fn.endOffset = nextFn.value + thisFn.sect.filepos := by
    obtain ⟨thisFn', nextFn', hn', hstart, hstop⟩ := containingFunction_ok hfn
    cases hn.symm.trans hn'
    exact ⟨hstart, hstop⟩
  have haddr : env.resolver.fromOffset fn.startOffset = env.addressOf thisFn := by
    rw [hstart]
    rfl
  refine ⟨?_, ?_⟩
  · intro X W' h
    obtain ⟨p, code, hcode, hlen, -, rfl⟩ := ForcedException.construct_ok h
    rw [haddr] at hcode hlen ⊢
    refine ⟨p, code, hcode, rfl, fun other hmem hfun hsect hlt hw => ?_⟩
    have hsize := hdef.size_le hn (mem_sortedFunctions.2 ⟨hmem, hfun⟩) hsect hlt
    rw [hstop] at hlen
    exact absurd hw (Nat.not_lt.2 (hlen.trans hsize))
  · rintro p code hp hcode ⟨other, hmem, hfun, hsect, hlt, hw⟩
    have hsize := hdef.size_le hn (mem_sortedFunctions.2 ⟨hmem, hfun⟩) hsect hlt
    refine ⟨_, ForcedException.construct_too_large hp (haddr ▸ hcode) ?_, ?_, ?_⟩
    · rw [haddr, hstop]
      exact Nat.lt_of_le_of_lt hsize hw
    · simp
    · simp [World.new]

theorem sample_defined : sample.Defined :=
  ⟨by decide, by decide⟩

theorem a_patch_never_reaches_the_next_function_sample :
    ∃ p code, getThrowOpcode sample { exceptionPtr := some 0x7000 } 0x401000 p = .ok code ∧
      ¬ Within (0x401000 : Addr 64) code.length 0x401040 := by
  have hn : neighbours sample.sortedFunctions (sample.resolver.toOffset 0x401010) =
      some (sampleF, sampleG) := rfl
  have hfn : sample.functionAt 0x401010 = .ok ⟨0x1000, 0x1040, "f"⟩ := rfl
  obtain ⟨h, -⟩ := a_patch_never_reaches_the_next_function sample_defined hn hfn (some 1)
    { exceptionPtr := some 0x7000 } sampleWorld
  obtain ⟨p, code, hcode, -, hout⟩ := h _ _ rfl
  exact ⟨p, code, hcode, hout sampleG (by decide) (by decide) rfl (by decide)⟩

/-! ## What no patch touches -/

section Off

variable {ι : Type} {env : Env w} {V : Patches ι w} {a : Addr w}

/-- The address is outside of every place that a patch can go to. -/
def Env.Off (env : Env w) (a : Addr w) : Prop :=
  ∀ start, env.Patchable start → ¬ Within start env.generator.size a

variable [DecidableEq ι]

theorem memory_install {i : ι} {loc : Addr w} {pError : ExceptionPtr} {allocs : Allocs w}
    {patch : Patch w} (hpatch : env.patchAt loc pError allocs = .ok patch) (ha : env.Off a) :
    (V.install (i, loc) patch).memory a = V.memory a := by
  obtain ⟨hroom, hopcode, -⟩ := Env.patchAt_opcode hpatch
  have hout := ha patch.fnStart ⟨loc, hroom⟩
  exact write_of_not_within _ _ _ _ (hopcode.length ▸ hout)

theorem memory_remove (hV : V.Good env) (k : ι × Addr w) (ha : env.Off a) :
    (V.remove k).memory a = V.memory a := by
  cases hk : V.held k with
  | none => rw [Patches.remove_of_none hk]
  | some X =>
    obtain ⟨p, code, hX⟩ := hV.held k X hk
    have hout := ha X.fnStart ⟨k.2, hX.room⟩
    have hmem : (V.remove k).memory = write V.memory X.fnStart X.originalData := by
      simp [Patches.remove, hk]
    rw [hmem]
    exact write_of_not_within _ _ _ _ (hX.saved ▸ hout)

theorem memory_removals (hV : V.Good env) (ks : List (ι × Addr w)) (ha : env.Off a) :
    (ks.foldl Patches.remove V).memory a = V.memory a := by
  induction ks generalizing V with
  | nil => rfl
  | cons k ks ih =>
    rw [List.foldl_cons, ih (good_remove hV), memory_remove hV k ha]

/-- Functions may overlap: what is off all of them keeps its bytes. -/
theorem Run.memory_off {cond : Process ι w → Ledger ι w → ι → Op w → Prop}
    {P₀ P : Process ι w} {L₀ L : Ledger ι w} (h : Run env cond P₀ L₀ P L) (hP₀ : P₀.Ready env)
    (h₀ : P₀.patches.Good env) (ha : env.Off a) : P.world.memory a = P₀.world.memory a := by
  induction h with
  | refl => rfl
  | @step P L i op o P' hrun hop _ hs ho ih =>
    rw [← ih]
    rcases Process.step_patches (hrun.ready hP₀) hop hs ho with
      hrem | ⟨loc, pError, allocs, patch, rfl, hpatch, -, -, hin⟩
    · have hmem := memory_removals (hrun.good hP₀ h₀) (P.removals i op) ha
      rwa [← hrem] at hmem
    · have hmem : (P.patches.install (i, loc) patch).memory a = P.patches.memory a :=
        memory_install hpatch ha
      rwa [← hin] at hmem

end Off

end eforce
