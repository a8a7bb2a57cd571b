-- What the code of the Thumb-2 generator does when it runs: the two moves fill
-- the argument register with the exception pointer, and the branch goes to the
-- throw helper, as long as the helper is in reach. Nothing checks that it is.
import Eforce.OpcodeGeneratorThumb
import Eforce.Thumb2

namespace eforce

/-! ## Halfwords -/

def Insn.hw1 (insn : Insn) : BitVec 16 := insn.b1 ++ insn.b0

def Insn.hw2 (insn : Insn) : BitVec 16 := insn.b3 ++ insn.b2

namespace opcode_generator_thumb

open byte_memory isa

theorem getLsbD_hw1 (insn : Insn) (i : Nat) :
    insn.hw1.getLsbD i = if i < 8 then insn.b0.getLsbD i else insn.b1.getLsbD (i - 8) := by
  unfold Insn.hw1
  rw [BitVec.getLsbD_append]

theorem getLsbD_hw2 (insn : Insn) (i : Nat) :
    insn.hw2.getLsbD i = if i < 8 then insn.b2.getLsbD i else insn.b3.getLsbD (i - 8) := by
  unfold Insn.hw2
  rw [BitVec.getLsbD_append]

theorem hw1_eq (insn : Insn) : (loadLe 32 insn.bytes).extractLsb' 0 16 = insn.hw1 := by
  apply BitVec.eq_of_getLsbD_eq
  intro i hi
  unfold Insn.bytes
  simp only [BitVec.getLsbD_extractLsb', getLsbD_loadLe, getLsbD_hw1]
  interval_cases i <;> simp

theorem hw2_eq (insn : Insn) : (loadLe 32 insn.bytes).extractLsb' 16 16 = insn.hw2 := by
  apply BitVec.eq_of_getLsbD_eq
  intro i hi
  unfold Insn.bytes
  simp only [BitVec.getLsbD_extractLsb', getLsbD_loadLe, getLsbD_hw2]
  interval_cases i <;> simp

theorem encodes_of_halves {insn : Insn} {i : thumb2.Insn}
    (h : thumb2.decodeHalves insn.hw1 insn.hw2 = some i) : thumb2.arch.Encodes insn.bytes i := by
  apply thumb2.encodes_of_halves (Insn.length_bytes insn)
  rw [hw1_eq, hw2_eq]
  exact h

/-! ## The moves -/

theorem movImm_eq (insn : Insn) : thumb2.movImm insn.hw1 insn.hw2 = imm16 insn := by
  apply BitVec.eq_of_getLsbD_eq
  intro i hi
  unfold thumb2.movImm imm16
  simp only [BitVec.getLsbD_append, BitVec.getLsbD_extractLsb', getLsbD_hw1, getLsbD_hw2]
  interval_cases i <;> simp

/-- The opcode of a move stays as it is. -/
theorem loadHalfWord_hw1 (halfWord : BitVec 16) (insn : Insn) :
    (loadHalfWord halfWord insn).hw1 &&& 0xfbf0 = insn.hw1 &&& 0xfbf0 := by
  apply BitVec.eq_of_getLsbD_eq
  intro i hi
  simp only [BitVec.getLsbD_and, getLsbD_hw1]
  unfold loadHalfWord
  interval_cases i <;> simp

theorem loadHalfWord_hw2 (halfWord : BitVec 16) (insn : Insn) :
    (loadHalfWord halfWord insn).hw2 &&& 0x8000 = insn.hw2 &&& 0x8000 := by
  apply BitVec.eq_of_getLsbD_eq
  intro i hi
  simp only [BitVec.getLsbD_and, getLsbD_hw2]
  unfold loadHalfWord
  interval_cases i <;> simp

/-- The register of a move stays as it is. -/
theorem loadHalfWord_rd (halfWord : BitVec 16) (insn : Insn) :
    (loadHalfWord halfWord insn).hw2.extractLsb' 8 4 = insn.hw2.extractLsb' 8 4 := by
  apply BitVec.eq_of_getLsbD_eq
  intro i hi
  simp only [BitVec.getLsbD_extractLsb', getLsbD_hw2]
  unfold loadHalfWord
  interval_cases i <;> simp

/-- A move with an empty immediate stays the same move, and gets the 16 bits
for its immediate. -/
theorem decodeHalves_loadHalfWord {halfWord : BitVec 16} {insn : Insn}
    {mov : Fin 15 → BitVec 16 → thumb2.Insn} {rd : Fin 15} (hmov : mov = .movw ∨ mov = .movt)
    (h : thumb2.decodeHalves insn.hw1 insn.hw2 = some (mov rd 0)) :
    thumb2.decodeHalves (loadHalfWord halfWord insn).hw1 (loadHalfWord halfWord insn).hw2 =
      some (mov rd halfWord) := by
  unfold thumb2.decodeHalves at h ⊢
  rw [loadHalfWord_hw1, loadHalfWord_hw2, loadHalfWord_rd]
  split at h
  · rename_i hop
    rw [if_pos hop]
    obtain ⟨rd', hrd, hinsn⟩ := Option.map_eq_some_iff.1 h
    rcases hmov with rfl | rfl
    · simp only [thumb2.Insn.movw.injEq] at hinsn
      obtain ⟨rfl, himm⟩ := hinsn
      rw [movImm_eq] at himm
      rw [hrd, movImm_eq, loadHalfWord_imm16 halfWord insn himm]
      rfl
    · cases hinsn
  · rename_i hop
    rw [if_neg hop]
    split at h
    · rename_i hop'
      rw [if_pos hop']
      obtain ⟨rd', hrd, hinsn⟩ := Option.map_eq_some_iff.1 h
      rcases hmov with rfl | rfl
      · cases hinsn
      · simp only [thumb2.Insn.movt.injEq] at hinsn
        obtain ⟨rfl, himm⟩ := hinsn
        rw [movImm_eq] at himm
        rw [hrd, movImm_eq, loadHalfWord_imm16 halfWord insn himm]
        rfl
    · rcases hmov with rfl | rfl <;> split at h <;> cases h

theorem encodes_movw (halfWord : BitVec 16) :
    thumb2.arch.Encodes (loadHalfWord halfWord kMovw).bytes (.movw 0 halfWord) :=
  encodes_of_halves (decodeHalves_loadHalfWord (Or.inl rfl) rfl)

theorem encodes_movt (halfWord : BitVec 16) :
    thumb2.arch.Encodes (loadHalfWord halfWord kMovt).bytes (.movt 0 halfWord) :=
  encodes_of_halves (decodeHalves_loadHalfWord (Or.inr rfl) rfl)

/-! ## The branch -/

/-- The offset that the branch gets: the sign of the distance, then its bits 23
to 1. -/
def branchOffset (branchTarget : BitVec 32) : BitVec 25 :=
  BitVec.ofBool branchTarget.msb ++ branchTarget.extractLsb' 1 23 ++ 0#1

/-- One bit of the distance, as a byte. -/
theorem bit_eq (branchTarget : BitVec 32) {k : Nat} (hk : k < 32) :
    (((branchTarget.sshiftRight k) &&& 0x01).setWidth 8 : Byte) =
      (BitVec.ofBool (branchTarget.getLsbD k)).setWidth 8 := by
  apply BitVec.eq_of_getLsbD_eq
  intro i hi
  interval_cases i <;> simp [BitVec.getElem_sshiftRight, hk]

theorem sign_eq (branchTarget : BitVec 32) : (if branchTarget.slt 0 then 1 else 0 : Byte) =
    (BitVec.ofBool branchTarget.msb).setWidth 8 := by
  have hsign : branchTarget.slt 0 = branchTarget.msb := BitVec.slt_zero_eq_msb
  rw [hsign]
  cases branchTarget.msb <;> rfl

/-- The bits `J1` and `J2` say whether a bit of the distance is like its sign. -/
theorem alike_eq (a b : Bool) :
    (if (BitVec.ofBool a).setWidth 8 ^^^ (BitVec.ofBool b).setWidth 8 = (0 : Byte) then 1 else 0 :
      Byte) = (BitVec.ofBool (a == b)).setWidth 8 := by
  cases a <;> cases b <;> rfl

theorem loadBranchTarget_hw1 (branchTarget : BitVec 32) {i : Nat} (hi : i < 16) :
    (loadBranchTarget branchTarget kBranch).hw1[i] =
      if i < 10 then branchTarget.getLsbD (12 + i)
      else if i = 10 then branchTarget.msb
      else (0xf000#16).getLsbD i := by
  rw [← BitVec.getLsbD_eq_getElem, getLsbD_hw1]
  unfold loadBranchTarget kBranch
  rw [sign_eq]
  interval_cases i <;> simp [BitVec.getElem_sshiftRight]

theorem loadBranchTarget_hw2 (branchTarget : BitVec 32) {i : Nat} (hi : i < 16) :
    (loadBranchTarget branchTarget kBranch).hw2[i] =
      if i < 11 then branchTarget.getLsbD (1 + i)
      else if i = 11 then branchTarget.getLsbD 22 == branchTarget.msb
      else if i = 13 then branchTarget.getLsbD 23 == branchTarget.msb
      else (0x9000#16).getLsbD i := by
  rw [← BitVec.getLsbD_eq_getElem, getLsbD_hw2]
  unfold loadBranchTarget kBranch
  rw [sign_eq, bit_eq _ (by omega), bit_eq _ (by omega)]
  dsimp only
  rw [alike_eq, alike_eq]
  interval_cases i <;> simp [BitVec.getElem_sshiftRight]

theorem decodeHalves_loadBranchTarget (branchTarget : BitVec 32) :
    thumb2.decodeHalves (loadBranchTarget branchTarget kBranch).hw1
      (loadBranchTarget branchTarget kBranch).hw2 = some (.b (branchOffset branchTarget)) := by
  have hop1 : (loadBranchTarget branchTarget kBranch).hw1 &&& 0xf800 = 0xf000 := by
    apply BitVec.eq_of_getLsbD_eq
    intro i hi
    interval_cases i <;> simp [loadBranchTarget_hw1]
  have hop2 : (loadBranchTarget branchTarget kBranch).hw2 &&& 0xd000 = 0x9000 := by
    apply BitVec.eq_of_getLsbD_eq
    intro i hi
    interval_cases i <;> simp [loadBranchTarget_hw2]
  have himm : thumb2.branchImm (loadBranchTarget branchTarget kBranch).hw1
      (loadBranchTarget branchTarget kBranch).hw2 = branchOffset branchTarget := by
    have hinvert : ∀ a b : Bool, ((a == b) ^^ b) = !a := by decide
    apply BitVec.eq_of_getLsbD_eq
    intro i hi
    unfold thumb2.branchImm branchOffset
    simp only [BitVec.getLsbD_append, BitVec.getLsbD_extractLsb']
    interval_cases i <;> simp [loadBranchTarget_hw1, loadBranchTarget_hw2, hinvert]
  rw [thumb2.decodeHalves_b hop1 hop2, himm]

theorem encodes_branch (branchTarget : BitVec 32) : thumb2.arch.Encodes
    (loadBranchTarget branchTarget kBranch).bytes (.b (branchOffset branchTarget)) :=
  encodes_of_halves (decodeHalves_loadBranchTarget branchTarget)

/-- How far the code of the helper is from the end of the code. -/
def displacement (fnStart throwFn : Addr 32) : BitVec 32 :=
  thumb2.codeAddress throwFn - (fnStart + 12)

/-- The Thumb bit of the helper gets lost on the way into the branch. -/
theorem branchOffset_codeAddress (branchTarget : BitVec 32) :
    branchOffset (thumb2.codeAddress branchTarget) = branchOffset branchTarget := by
  apply BitVec.eq_of_getLsbD_eq
  intro i hi
  unfold branchOffset thumb2.codeAddress
  simp only [BitVec.getLsbD_append]
  interval_cases i <;> simp [BitVec.msb_eq_getLsbD_last]

theorem codeAddress_sub {fnStart throwFn : Addr 32} (hfn : fnStart.toNat % 2 = 0) :
    thumb2.codeAddress (throwFn - (fnStart + 12)) = displacement fnStart throwFn := by
  apply BitVec.eq_of_toNat_eq
  have haddress := thumb2.toNat_codeAddress throwFn
  unfold displacement
  rw [thumb2.toNat_codeAddress]
  bv_omega

/-- A distance that fits in 25 bits keeps its value in the branch. -/
theorem branchOffset_signExtend {d : BitVec 32} (heven : d.toNat % 2 = 0)
    (hlow : -2 ^ 24 ≤ d.toInt) (hhigh : d.toInt < 2 ^ 24) : (branchOffset d).signExtend 32 = d := by
  have hfits : (d.setWidth 25).signExtend 32 = d :=
    (signExtend_setWidth_eq_iff (by omega) (by omega) d).2 ⟨hlow, hhigh⟩
  have hbit0 : d[0] = false := (thumb2.even_iff d).1 heven
  have hsign : d.msb = d[24] := by
    have hmsb := congrArg BitVec.msb hfits
    simpa [BitVec.msb_eq_getLsbD_last, BitVec.getElem_signExtend] using hmsb.symm
  have hsame : branchOffset d = d.setWidth 25 := by
    apply BitVec.eq_of_getLsbD_eq
    intro i hi
    unfold branchOffset
    simp only [BitVec.getLsbD_append]
    interval_cases i <;> simp [hbit0, hsign]
  rw [hsame, hfits]

/-- Whatever the distance is, the branch goes no farther than 16 MiB. -/
theorem branchOffset_bounds (d : BitVec 32) :
    -2 ^ 24 ≤ ((branchOffset d).signExtend 32).toInt ∧
      ((branchOffset d).signExtend 32).toInt < 2 ^ 24 := by
  rw [BitVec.toInt_signExtend_of_le (by omega)]
  have hlow := BitVec.le_toInt (branchOffset d)
  have hhigh := BitVec.toInt_lt (x := branchOffset d)
  omega

theorem branchOffset_even (d : BitVec 32) : ((branchOffset d).signExtend 32).toNat % 2 = 0 := by
  have hbit : (branchOffset d).getLsbD 0 = false := by
    unfold branchOffset
    rw [BitVec.getLsbD_append]
    simp
  rw [thumb2.even_iff, BitVec.getLsbD_signExtend, if_pos (by omega), hbit]
  rfl

theorem displacement_even {fnStart : Addr 32} (throwFn : Addr 32)
    (hfn : fnStart.toNat % 2 = 0) :
    (displacement fnStart throwFn).toNat % 2 = 0 := by
  have haddress := thumb2.toNat_codeAddress throwFn
  unfold displacement
  bv_omega

/-- The branch stands eight bytes behind the start of the function. It goes to
the helper exactly when the distance fits. -/
theorem branchTarget_eq_iff {fnStart : Addr 32} (throwFn : Addr 32)
    (hfn : fnStart.toNat % 2 = 0) :
    thumb2.branchTarget (fnStart + 8) (branchOffset (displacement fnStart throwFn)) =
        thumb2.codeAddress throwFn ↔
      -2 ^ 24 ≤ (displacement fnStart throwFn).toInt ∧
        (displacement fnStart throwFn).toInt ≤ 2 ^ 24 - 2 := by
  have hthere : fnStart + 8 + 4 + displacement fnStart throwFn = thumb2.codeAddress throwFn := by
    unfold displacement
    bv_omega
  have heven := displacement_even throwFn hfn
  have hhere : (fnStart + 8).toNat % 2 = 0 := by bv_omega
  rw [thumb2.branchTarget_of_even hhere (branchOffset_even _), ← hthere]
  refine ⟨?_, ?_⟩
  · intro h
    have hsame := add_left_cancel h
    have hbounds := branchOffset_bounds (displacement fnStart throwFn)
    rw [hsame, BitVec.toInt_eq_toNat_cond] at hbounds
    rw [BitVec.toInt_eq_toNat_cond]
    omega
  · intro h
    rw [branchOffset_signExtend heven h.1 (by omega)]

/-! ## The code -/

def throwCode (low high : BitVec 16) (throwOffset : BitVec 32) : List Byte :=
  (loadHalfWord low kMovw).bytes ++
    ((loadHalfWord high kMovt).bytes ++ (loadBranchTarget throwOffset kBranch).bytes)

theorem disassemble_throwCode (low high : BitVec 16) (throwOffset : BitVec 32) :
    thumb2.arch.disassemble (throwCode low high throwOffset) = some [
      .movw 0 low, .movt 0 high, .b (branchOffset throwOffset)] := by
  have hlast := (encodes_branch throwOffset).disassemble []
  rw [List.append_nil] at hlast
  unfold throwCode
  rw [(encodes_movw low).disassemble, (encodes_movt high).disassemble, hlast]
  rfl

theorem run_throwCode {low high : BitVec 16} {throwOffset fnStart : BitVec 32}
    {m : byte_memory.Memory 32} {c : thumb2.Cpu}
    (hcode : CodeAt m fnStart (throwCode low high throwOffset)) (hpc : c.pc = fnStart) :
    thumb2.arch.run m 3 c = some { c with
      r := Function.update c.r 0 (high ++ low)
      pc := thumb2.branchTarget (fnStart + 8) (branchOffset throwOffset) } := by
  obtain ⟨h0, hcode⟩ := codeAt_append.1 hcode
  obtain ⟨h1, h2⟩ := codeAt_append.1 hcode
  subst hpc
  rw [(encodes_movw low).run_succ h0, (encodes_movt high).run_succ h1,
    (encodes_branch throwOffset).run_succ h2]
  have hbranch : c.pc + 4#32 + 4#32 = c.pc + 8#32 := by bv_omega
  simp [isa.Isa.run, thumb2.arch, thumb2.exec, hbranch]

/-- A pointer is put together again from its halves. -/
theorem halves_append (p : Addr 32) :
    ((p.sshiftRight 16 &&& 0xffff).setWidth 16 : BitVec 16) ++
      ((p &&& 0xffff).setWidth 16 : BitVec 16) = p := by
  apply BitVec.eq_of_getLsbD_eq
  intro i hi
  rw [BitVec.getLsbD_append]
  interval_cases i <;> simp [BitVec.getElem_sshiftRight]

/-- The generator never refuses. The Thumb bit of the helper may stand in the
distance, and makes no difference. -/
theorem getThrowOpcode_spec {fnStart : Addr 32} (throwFn pError : Addr 32)
    (hfn : fnStart.toNat % 2 = 0) :
    ∃ code low high, getThrowOpcode fnStart throwFn pError = .ok code ∧
      thumb2.arch.disassemble code = some [
        .movw 0 low, .movt 0 high, .b (branchOffset (displacement fnStart throwFn))] ∧
      ∀ (m : byte_memory.Memory 32) (c : thumb2.Cpu), CodeAt m fnStart code → c.pc = fnStart →
        thumb2.arch.run m 3 c = some { c with
          r := Function.update c.r 0 pError
          pc := thumb2.branchTarget (fnStart + 8)
            (branchOffset (displacement fnStart throwFn)) } := by
  have hoffset : branchOffset (throwFn - (fnStart + 12)) =
      branchOffset (displacement fnStart throwFn) := by
    rw [← branchOffset_codeAddress, codeAddress_sub hfn]
  have hdis := disassemble_throwCode ((pError &&& 0xffff).setWidth 16)
    ((pError.sshiftRight 16 &&& 0xffff).setWidth 16) (throwFn - (fnStart + 12))
  rw [hoffset] at hdis
  refine ⟨_, _, _, ?_, hdis, ?_⟩
  · unfold getThrowOpcode throwCode
    simp only [List.append_assoc]
    rfl
  · intro m c hcode hpc
    rw [run_throwCode hcode hpc, halves_append, hoffset]

end opcode_generator_thumb

open byte_memory opcode_generator_thumb

/-- As long as the helper is in reach of a branch, the generator gives three
instructions that carry the exception to the helper and change nothing else. -/
theorem the_thumb_code_throws_within_reach (fnStart throwFn pError : Addr 32)
    (hfn : fnStart.toNat % 2 = 0) (hlow : -2 ^ 24 ≤ (displacement fnStart throwFn).toInt)
    (hhigh : (displacement fnStart throwFn).toInt ≤ 2 ^ 24 - 2) :
    ∃ code low high imm, OpcodeGeneratorThumb.getThrowOpcode fnStart throwFn pError = .ok code ∧
      thumb2.arch.disassemble code = some [.movw 0 low, .movt 0 high, .b imm] ∧
      ∀ (m : byte_memory.Memory 32) (c : thumb2.Cpu), isa.CodeAt m fnStart code → c.pc = fnStart →
        thumb2.arch.run m 3 c = some { c with
          r := Function.update c.r 0 pError
          pc := thumb2.codeAddress throwFn } := by
  obtain ⟨code, low, high, hok, hdis, hrun⟩ := getThrowOpcode_spec throwFn pError hfn
  rw [(branchTarget_eq_iff throwFn hfn).2 ⟨hlow, hhigh⟩] at hrun
  exact ⟨code, low, high, _, hok, hdis, hrun⟩

theorem the_thumb_code_throws_within_reach_sample :
    ∃ code low high imm, OpcodeGeneratorThumb.getThrowOpcode 0x11000 0x10001 0x11223344 =
        .ok code ∧
      thumb2.arch.disassemble code = some [.movw 0 low, .movt 0 high, .b imm] ∧
      ∀ (m : byte_memory.Memory 32) (c : thumb2.Cpu), isa.CodeAt m 0x11000 code → c.pc = 0x11000 →
        thumb2.arch.run m 3 c = some { c with
          r := Function.update c.r 0 0x11223344
          pc := thumb2.codeAddress 0x10001 } :=
  the_thumb_code_throws_within_reach 0x11000 0x10001 0x11223344 rfl (by decide) (by decide)

/-- A helper that is out of reach gets code like any other, and the branch of the
code goes somewhere else. -/
theorem a_far_helper_is_always_missed (fnStart throwFn pError : Addr 32)
    (hfn : fnStart.toNat % 2 = 0) (hfar : (displacement fnStart throwFn).toInt < -2 ^ 24 ∨
      2 ^ 24 - 2 < (displacement fnStart throwFn).toInt) :
    ∃ code low high imm, OpcodeGeneratorThumb.getThrowOpcode fnStart throwFn pError = .ok code ∧
      thumb2.arch.disassemble code = some [.movw 0 low, .movt 0 high, .b imm] ∧
      thumb2.branchTarget (fnStart + 8) imm ≠ thumb2.codeAddress throwFn := by
  obtain ⟨code, low, high, hok, hdis, -⟩ := getThrowOpcode_spec throwFn pError hfn
  refine ⟨code, low, high, _, hok, hdis, ?_⟩
  rw [Ne, branchTarget_eq_iff throwFn hfn]
  omega

theorem a_far_helper_is_always_missed_sample :
    ∃ code low high imm, OpcodeGeneratorThumb.getThrowOpcode 0x10000 0x4010001 0x1000 = .ok code ∧
      thumb2.arch.disassemble code = some [.movw 0 low, .movt 0 high, .b imm] ∧
      thumb2.branchTarget (0x10000 + 8) imm ≠ thumb2.codeAddress 0x4010001 :=
  a_far_helper_is_always_missed 0x10000 0x4010001 0x1000 rfl (by decide)

/-- A helper 32 MiB behind the function is out of reach. The generator does
not refuse it, and the code runs somewhere else. -/
theorem a_helper_too_far_is_not_refused :
    (0x10000 : Addr 32).toNat % 2 = 0 ∧ 2 ^ 24 - 2 < (displacement 0x10000 0x2010001).toInt ∧
      ∃ code, OpcodeGeneratorThumb.getThrowOpcode 0x10000 0x2010001 0x1000 = .ok code ∧
        ∀ (m : byte_memory.Memory 32) (c : thumb2.Cpu), isa.CodeAt m 0x10000 code →
          c.pc = 0x10000 →
            ∃ c', thumb2.arch.run m 3 c = some c' ∧ c'.pc ≠ thumb2.codeAddress 0x2010001 := by
  have hfn : (0x10000 : Addr 32).toNat % 2 = 0 := rfl
  obtain ⟨code, low, high, hok, -, hrun⟩ := getThrowOpcode_spec 0x2010001 0x1000 hfn
  have hmiss := (branchTarget_eq_iff 0x2010001 hfn).not.2 (by decide)
  refine ⟨hfn, by decide, code, hok, ?_⟩
  intro m c hcode hpc
  exact ⟨_, hrun m c hcode hpc, hmiss⟩

end eforce
