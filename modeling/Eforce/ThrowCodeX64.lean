-- What the code of the x86-64 generator does when it runs: the exception pointer
-- goes to the argument register, and the cpu goes on at the throw helper. The
-- helper has to be in reach of a jump, and the generator checks this almost.
import Mathlib.Algebra.Order.Group.Abs
import Eforce.OpcodeGeneratorX64
import Eforce.X64

namespace eforce.opcode_generator_x64

open byte_memory isa

/-! ## The generator without its bytes -/

/-- How far the helper is from the end of the code. -/
def displacement (fnStart throwFn : Addr 64) : Int := throwFn.toNat - (fnStart.toNat + 15)

/-- The two instructions, with the offset of the jump filled in. -/
def throwCode (pError : Addr 64) (rel : BitVec 32) : List Byte :=
  ([0x48, 0xbf] ++ storeLe 8 pError) ++ 0xe9 :: storeLe 4 rel

/-- On both sides of the function, the offset is the low half of the
difference of the pointers. -/
theorem throwFnOffset_eq (a b : Addr 64) :
    (if a > b then (difference a b).setWidth 32 else -(difference a b).setWidth 32) =
      (a - b).setWidth 32 := by
  unfold difference
  by_cases h : a > b
  · rw [if_pos h, if_pos h]
  · have hneg : -(b - a) = a - b := by ring
    rw [if_neg h, if_neg h, ← BitVec.setWidth_neg_of_le (by omega), hneg]

theorem getThrowOpcode_eq (fnStart throwFn pError : Addr 64) :
    getThrowOpcode fnStart throwFn pError =
      if difference throwFn (fnStart + 15) > kMaxOffset then
        .error (.runtimeError "Cannot generate opcode")
      else .ok (throwCode pError ((throwFn - (fnStart + 15)).setWidth 32)) := by
  have hsize : BitVec.ofNat 64 kDoThrow.length = 15 := rfl
  unfold getThrowOpcode
  dsimp only
  rw [hsize, throwFnOffset_eq]
  rfl

theorem getThrowOpcode_error_iff {fnStart throwFn pError : Addr 64} :
    (∃ e, getThrowOpcode fnStart throwFn pError = .error e) ↔
      difference throwFn (fnStart + 15) > kMaxOffset := by
  rw [getThrowOpcode_eq]
  split
  · rename_i h
    exact ⟨fun _ => h, fun _ => ⟨_, rfl⟩⟩
  · rename_i h
    exact ⟨fun he => absurd he (by simp), fun h' => absurd h' h⟩

theorem toNat_difference {a b : Addr 64} :
    ((difference a b).toNat : Int) = |(a.toNat : Int) - b.toNat| := by
  unfold difference
  split
  · rename_i h
    have hlt : b.toNat < a.toNat := h
    rw [BitVec.toNat_sub_of_le (Nat.le_of_lt hlt), abs_of_pos (by omega)]
    omega
  · rename_i h
    have hle : a.toNat ≤ b.toNat := Nat.le_of_not_lt h
    rw [BitVec.toNat_sub_of_le hle, abs_of_nonpos (by omega)]
    omega

/-- The check of the generator is symmetric: it lets `2 ^ 31` through in both
directions. -/
theorem too_far_iff {fnStart throwFn : Addr 64} (hfn : fnStart.toNat + 15 < 2 ^ 64) :
    difference throwFn (fnStart + 15) > kMaxOffset ↔ 2 ^ 31 < |displacement fnStart throwFn| := by
  have hend : ((fnStart + 15).toNat : Int) = fnStart.toNat + 15 := by bv_omega
  have hbound : kMaxOffset.toNat = 2 ^ 31 := rfl
  have hdist := toNat_difference (a := throwFn) (b := fnStart + 15)
  unfold displacement
  rw [← hend, ← hdist, gt_iff_lt, BitVec.lt_def, hbound]
  omega

/-- The helper is in reach of a jump from behind the code. -/
theorem jump_reaches {fnStart throwFn : Addr 64}
    (hlow : -2 ^ 31 ≤ displacement fnStart throwFn)
    (hhigh : displacement fnStart throwFn ≤ 2 ^ 31 - 1) :
    ((throwFn - (fnStart + 15)).setWidth 32).signExtend 64 = throwFn - (fnStart + 15) := by
  have hsub : (throwFn - (fnStart + 15)).toInt = displacement fnStart throwFn := by
    unfold displacement at hlow hhigh ⊢
    rw [BitVec.toInt_eq_toNat_cond]
    bv_omega
  apply (signExtend_setWidth_eq_iff (by omega) (by omega) _).2
  rw [hsub]
  omega

/-! ## What the code does -/

theorem loadLe_storeLe {n : Nat} (x : BitVec (8 * n)) : loadLe (8 * n) (storeLe n x) = x := by
  apply BitVec.eq_of_getLsbD_eq
  intro i hi
  have hbyte : (storeLe n x).getD (i / 8) 0 = x.extractLsb' (8 * (i / 8)) 8 := by
    simp [storeLe, List.getD_eq_getElem?_getD, show i / 8 < n by omega]
  rw [getLsbD_loadLe, hbyte]
  simp [hi, Nat.mod_lt, Nat.div_add_mod]

theorem encodes_movabs (pError : Addr 64) :
    x64.arch.Encodes ([0x48, 0xbf] ++ storeLe 8 pError) (.movabs x64.rdi pError) := by
  have h := x64.encodes_movabs_rdi (length_storeLe 8 pError)
  rwa [loadLe_storeLe (n := 8)] at h

theorem encodes_jmp (rel : BitVec 32) :
    x64.arch.Encodes (0xe9 :: storeLe 4 rel) (.jmp rel) := by
  have h := x64.encodes_jmp (length_storeLe 4 rel)
  rwa [loadLe_storeLe (n := 4)] at h

theorem disassemble_throwCode (pError : Addr 64) (rel : BitVec 32) :
    x64.arch.disassemble (throwCode pError rel) = some [.movabs x64.rdi pError, .jmp rel] := by
  have hjmp := (encodes_jmp rel).disassemble []
  rw [List.append_nil] at hjmp
  unfold throwCode
  rw [(encodes_movabs pError).disassemble, hjmp]
  rfl

/-- The code as it runs, wherever the jump goes. -/
theorem run_throwCode {fnStart pError : Addr 64} {rel : BitVec 32} {m : byte_memory.Memory 64}
    {c : x64.Cpu} (hcode : CodeAt m fnStart (throwCode pError rel)) (hrip : c.rip = fnStart) :
    x64.arch.run m 2 c = some { c with
      regs := Function.update c.regs x64.rdi pError
      rip := fnStart + 15 + rel.signExtend 64 } := by
  obtain ⟨hmovabs, hjmp⟩ := codeAt_append.1 hcode
  subst hrip
  rw [(encodes_movabs pError).run_succ hmovabs, (encodes_jmp rel).run_succ hjmp]
  have hend : c.rip + BitVec.ofNat 64 ([0x48, 0xbf] ++ storeLe 8 pError).length +
      BitVec.ofNat 64 (0xe9 :: storeLe 4 rel).length = c.rip + 15 := by
    rw [BitVec.add_assoc]
    rfl
  simp only [isa.Isa.run, x64.arch, x64.exec, hend]

end opcode_generator_x64

open byte_memory opcode_generator_x64

/-- As long as the helper is in reach of a jump, the generator gives two
instructions that carry the exception to the helper and change nothing else. -/
theorem the_x64_code_throws_within_reach (fnStart throwFn pError : Addr 64)
    (hfn : fnStart.toNat + 15 < 2 ^ 64) (hlow : -2 ^ 31 ≤ displacement fnStart throwFn)
    (hhigh : displacement fnStart throwFn ≤ 2 ^ 31 - 1) :
    ∃ code rel, OpcodeGeneratorX64.getThrowOpcode fnStart throwFn pError = .ok code ∧
      x64.arch.disassemble code = some [.movabs x64.rdi pError, .jmp rel] ∧
      ∀ (m : byte_memory.Memory 64) (c : x64.Cpu), isa.CodeAt m fnStart code → c.rip = fnStart →
        x64.arch.run m 2 c = some { c with
          regs := Function.update c.regs x64.rdi pError
          rip := throwFn } := by
  have hnear : ¬ difference throwFn (fnStart + 15) > kMaxOffset := by
    rw [too_far_iff hfn, not_lt, abs_le]
    omega
  have hok := (getThrowOpcode_eq fnStart throwFn pError).trans (if_neg hnear)
  refine ⟨_, _, hok, disassemble_throwCode pError _, ?_⟩
  intro m c hcode hrip
  have hthere : fnStart + 15 + (throwFn - (fnStart + 15)) = throwFn := by ring
  rw [run_throwCode hcode hrip, jump_reaches hlow hhigh, hthere]

theorem the_x64_code_throws_within_reach_sample :
    ∃ code rel, OpcodeGeneratorX64.getThrowOpcode 0x401000 0x400000 0x11223344 = .ok code ∧
      x64.arch.disassemble code = some [.movabs x64.rdi 0x11223344, .jmp rel] ∧
      ∀ (m : byte_memory.Memory 64) (c : x64.Cpu), isa.CodeAt m 0x401000 code → c.rip = 0x401000 →
        x64.arch.run m 2 c = some { c with
          regs := Function.update c.regs x64.rdi 0x11223344
          rip := 0x400000 } :=
  the_x64_code_throws_within_reach 0x401000 0x400000 0x11223344 (by decide) (by decide) (by decide)

/-- A helper that is out of reach is refused, unless it is `2 ^ 31` bytes
behind the code. -/
theorem a_far_helper_is_refused_iff (fnStart throwFn pError : Addr 64)
    (hfn : fnStart.toNat + 15 < 2 ^ 64)
    (hfar : displacement fnStart throwFn < -2 ^ 31 ∨ 2 ^ 31 - 1 < displacement fnStart throwFn) :
    (∃ e, OpcodeGeneratorX64.getThrowOpcode fnStart throwFn pError = .error e) ↔
      displacement fnStart throwFn ≠ 2 ^ 31 := by
  have hrefused : (∃ e, OpcodeGeneratorX64.getThrowOpcode fnStart throwFn pError = .error e) ↔
      difference throwFn (fnStart + 15) > kMaxOffset := getThrowOpcode_error_iff
  rw [hrefused, too_far_iff hfn, lt_abs]
  omega

theorem a_far_helper_is_refused_iff_sample :
    (∃ e, OpcodeGeneratorX64.getThrowOpcode 0x400000 0x80400010 0x1000 = .error e) ↔
      displacement 0x400000 0x80400010 ≠ 2 ^ 31 :=
  a_far_helper_is_refused_iff 0x400000 0x80400010 0x1000 (by decide) (by decide)

/-- The helper `2 ^ 31` bytes behind the code is out of reach. The generator
gives code for it, whose jump goes back instead. -/
theorem a_helper_at_the_bound_is_missed :
    2 ^ 31 - 1 < displacement 0x400000 0x8040000f ∧
      ∃ code, OpcodeGeneratorX64.getThrowOpcode 0x400000 0x8040000f 0x1000 = .ok code ∧
        ∀ (m : byte_memory.Memory 64) (c : x64.Cpu), isa.CodeAt m 0x400000 code →
          c.rip = 0x400000 → ∃ c', x64.arch.run m 2 c = some c' ∧ c'.rip ≠ 0x8040000f := by
  refine ⟨by decide, throwCode 0x1000 0x80000000, rfl, ?_⟩
  intro m c hcode hrip
  have hback : (0x400000 : Addr 64) + 15 + (0x80000000 : BitVec 32).signExtend 64 ≠ 0x8040000f := by
    decide
  exact ⟨_, run_throwCode hcode hrip, hback⟩

end eforce
