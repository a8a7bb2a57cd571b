-- What the code of the AArch64 generator does when it runs: the four moves fill
-- the argument register with the exception pointer, and the branch goes to the
-- throw helper, if it is one of the helpers that the generator has a branch for.
import Eforce.OpcodeGeneratorAarch64
import Eforce.A64

namespace eforce.opcode_generator_aarch64

open byte_memory isa

theorem loadLe_bytes (insn : Insn) : loadLe 32 insn.bytes = insn.word := by
  apply BitVec.eq_of_getLsbD_eq
  intro i hi
  rw [getLsbD_loadLe]
  unfold Insn.bytes Insn.word
  interval_cases i <;> simp

/-! ## The moves -/

/-- The register, the shift and the opcode of a move stay as they are. -/
theorem populateQuarterWord_frame (q : BitVec 16) (insn : Insn) (start len : Nat)
    (h : start + len ≤ 5 ∨ 21 ≤ start) :
    (populateQuarterWord q insn).word.extractLsb' start len = insn.word.extractLsb' start len := by
  have hbits : ∀ i < 32, i < 5 ∨ 21 ≤ i →
      (populateQuarterWord q insn).word.getLsbD i = insn.word.getLsbD i := by
    intro i hi hfield
    unfold populateQuarterWord Insn.word
    rcases hfield with hlow | hhigh
    · interval_cases i <;> simp
    · interval_cases i <;> simp
  apply BitVec.eq_of_getLsbD_eq
  intro i hi
  simp only [BitVec.getLsbD_extractLsb', hi, decide_true, Bool.true_and]
  rcases Nat.lt_or_ge (start + i) 32 with hlt | hge
  · exact hbits _ hlt (by omega)
  · rw [BitVec.getLsbD_of_ge _ _ hge, BitVec.getLsbD_of_ge _ _ hge]

/-- A move with an empty immediate stays the same move, and gets the 16 bits
for its immediate. -/
theorem decodeWord_populateQuarterWord {q : BitVec 16} {insn : Insn}
    {mov : BitVec 5 → BitVec 16 → BitVec 2 → a64.Insn} {rd : BitVec 5} {hw : BitVec 2}
    (hmov : mov = .movz ∨ mov = .movk) (h : a64.decodeWord insn.word = some (mov rd 0 hw)) :
    a64.decodeWord (populateQuarterWord q insn).word = some (mov rd q hw) := by
  unfold a64.decodeWord at h ⊢
  rw [populateQuarterWord_frame q insn 23 9 (by omega),
    populateQuarterWord_frame q insn 0 5 (by omega),
    populateQuarterWord_frame q insn 21 2 (by omega)]
  split at h
  · rename_i hop
    rw [if_pos hop]
    rcases hmov with rfl | rfl
    · simp only [Option.some.injEq, a64.Insn.movz.injEq] at h
      obtain ⟨hrd, himm, hhw⟩ := h
      rw [hrd, hhw, populateQuarterWord_imm16 q insn himm]
    · cases h
  · rename_i hop
    rw [if_neg hop]
    split at h
    · rename_i hop'
      rw [if_pos hop']
      rcases hmov with rfl | rfl
      · cases h
      · simp only [Option.some.injEq, a64.Insn.movk.injEq] at h
        obtain ⟨hrd, himm, hhw⟩ := h
        rw [hrd, hhw, populateQuarterWord_imm16 q insn himm]
    · rcases hmov with rfl | rfl <;> split at h <;> cases h

theorem encodes_populateQuarterWord {q : BitVec 16} {insn : Insn}
    {mov : BitVec 5 → BitVec 16 → BitVec 2 → a64.Insn} {rd : BitVec 5} {hw : BitVec 2}
    (hmov : mov = .movz ∨ mov = .movk) (h : a64.decodeWord insn.word = some (mov rd 0 hw)) :
    a64.arch.Encodes (populateQuarterWord q insn).bytes (mov rd q hw) := by
  apply a64.encodes_of_word (Insn.length_bytes _)
  rw [loadLe_bytes]
  exact decodeWord_populateQuarterWord hmov h

section Moves

variable (error : Addr 64)

theorem encodes_movz : a64.arch.Encodes (populateQuarterWord (quarter error 0) kMovz).bytes
    (.movz 0 (quarter error 0) 0) :=
  encodes_populateQuarterWord (Or.inl rfl) rfl

theorem encodes_movk16 : a64.arch.Encodes (populateQuarterWord (quarter error 1) kMovk16).bytes
    (.movk 0 (quarter error 1) 1) :=
  encodes_populateQuarterWord (Or.inr rfl) rfl

theorem encodes_movk32 : a64.arch.Encodes (populateQuarterWord (quarter error 2) kMovk32).bytes
    (.movk 0 (quarter error 2) 2) :=
  encodes_populateQuarterWord (Or.inr rfl) rfl

theorem encodes_movk48 : a64.arch.Encodes (populateQuarterWord (quarter error 3) kMovk48).bytes
    (.movk 0 (quarter error 3) 3) :=
  encodes_populateQuarterWord (Or.inr rfl) rfl

/-- The four moves, one behind the other. -/
def moveCode : List Byte :=
  (populateQuarterWord (quarter error 0) kMovz).bytes ++
    ((populateQuarterWord (quarter error 1) kMovk16).bytes ++
      ((populateQuarterWord (quarter error 2) kMovk32).bytes ++
        (populateQuarterWord (quarter error 3) kMovk48).bytes))

theorem disassemble_moveCode : a64.arch.disassemble (moveCode error) = some [
    .movz 0 (quarter error 0) 0, .movk 0 (quarter error 1) 1, .movk 0 (quarter error 2) 2,
    .movk 0 (quarter error 3) 3] := by
  have hlast := (encodes_movk48 error).disassemble []
  rw [List.append_nil] at hlast
  unfold moveCode
  rw [(encodes_movz error).disassemble, (encodes_movk16 error).disassemble,
    (encodes_movk32 error).disassemble, hlast]
  rfl

/-- The quarters of a pointer, put together again. -/
theorem insertQuarter_quarters (old : BitVec 64) :
    a64.insertQuarter (a64.insertQuarter (a64.insertQuarter (a64.insertQuarter old
      (quarter error 0) 0#2) (quarter error 1) 1#2) (quarter error 2) 2#2) (quarter error 3) 3#2 =
      error := by
  apply BitVec.eq_of_getLsbD_eq
  intro i hi
  have hquarter : ∀ k, i / 16 = k → (quarter error k).getLsbD (i % 16) = error.getLsbD i := by
    intro k hk
    rw [getLsbD_quarter _ _ _ (Nat.mod_lt i (by omega)), ← hk, Nat.div_add_mod]
  simp only [a64.getLsbD_insertQuarter _ _ _ hi]
  split_ifs with h3 h2 h1 h0
  · exact hquarter 3 h3
  · exact hquarter 2 h2
  · exact hquarter 1 h1
  · exact hquarter 0 h0
  · have hfour : i / 16 = 0 ∨ i / 16 = 1 ∨ i / 16 = 2 ∨ i / 16 = 3 := by omega
    rcases hfour with h | h | h | h
    · exact absurd h h0
    · exact absurd h h1
    · exact absurd h h2
    · exact absurd h h3

/-- The moves fill register 0, and change no other. -/
theorem run_moveCode {m : byte_memory.Memory 64} {c : a64.Cpu}
    (hcode : CodeAt m c.pc (moveCode error)) (k : Nat) :
    a64.arch.run m (4 + k) c = a64.arch.run m k { c with
      x := Function.update c.x 0 error
      pc := c.pc + 16 } := by
  obtain ⟨h0, hcode⟩ := codeAt_append.1 hcode
  obtain ⟨h1, hcode⟩ := codeAt_append.1 hcode
  obtain ⟨h2, h3⟩ := codeAt_append.1 hcode
  rw [show 4 + k = k + 1 + 1 + 1 + 1 by omega, (encodes_movz error).run_succ h0,
    (encodes_movk16 error).run_succ h1, (encodes_movk32 error).run_succ h2,
    (encodes_movk48 error).run_succ h3]
  have hpc : c.pc + 4#64 + 4#64 + 4#64 + 4#64 = c.pc + 16#64 := by bv_omega
  have hx := insertQuarter_quarters error 0#64
  congr 1
  simp [a64.arch, a64.exec, a64.Cpu.setX, a64.Cpu.getX, hpc, hx]

end Moves

/-! ## The branch -/

/-- How far the helper is from the branch. -/
def displacement (fnStart throwFn : Addr 64) : BitVec 64 := throwFn - (fnStart + 16)

/-- The guard lets the displacements through that fill 28 bits without a sign. -/
theorem populateJumpAddr_guard (rel : BitVec 64) :
    rel.sshiftRight 28 = 0 ↔ 0 ≤ rel.toInt ∧ rel.toInt < 2 ^ 28 := by
  have hzero : (0 : BitVec 64).toInt = 0 := rfl
  rw [← BitVec.toInt_inj, BitVec.toInt_sshiftRight, Int.shiftRight_eq_div_pow, hzero]
  omega

theorem populateJumpAddr_ok_iff (rel : BitVec 64) :
    (∃ branch, populateJumpAddr rel kBranch = .ok branch) ↔
      0 ≤ rel.toInt ∧ rel.toInt < 2 ^ 28 := by
  rw [← populateJumpAddr_guard]
  unfold populateJumpAddr
  split
  · rename_i hfar
    exact ⟨fun h => absurd h (by simp), fun h => absurd h hfar⟩
  · rename_i hnear
    exact ⟨fun _ => not_not.1 hnear, fun _ => ⟨_, rfl⟩⟩

/-- The branch goes over the bits 2 to 27 of the displacement, as words. -/
theorem decodeWord_populateJumpAddr {rel : BitVec 64} {branch : Insn}
    (h : populateJumpAddr rel kBranch = .ok branch) :
    a64.decodeWord branch.word = some (.b (rel.extractLsb' 2 26)) := by
  unfold populateJumpAddr at h
  split at h
  · cases h
  · simp only [Except.ok.injEq] at h
    have hop : branch.word.extractLsb' 26 6 = 0b000101 := by
      apply BitVec.eq_of_getLsbD_eq
      intro i hi
      rw [← h]
      unfold Insn.word kBranch
      interval_cases i <;> simp
    have himm : branch.word.extractLsb' 0 26 = rel.extractLsb' 2 26 := by
      apply BitVec.eq_of_getLsbD_eq
      intro i hi
      rw [← h]
      unfold Insn.word kBranch
      interval_cases i <;> simp [BitVec.getElem_sshiftRight]
    rw [a64.decodeWord_b hop, himm]

theorem encodes_branch {rel : BitVec 64} {branch : Insn}
    (h : populateJumpAddr rel kBranch = .ok branch) :
    a64.arch.Encodes branch.bytes (.b (rel.extractLsb' 2 26)) := by
  apply a64.encodes_of_word (Insn.length_bytes _)
  rw [loadLe_bytes]
  exact decodeWord_populateJumpAddr h

/-- From an aligned function to an aligned helper, the branch reaches the
helper exactly when the displacement fits in 28 bits with a sign. -/
theorem branchTarget_eq_iff {fnStart throwFn : Addr 64} (hfn : fnStart.toNat % 4 = 0)
    (hthrow : throwFn.toNat % 4 = 0) :
    a64.branchTarget (fnStart + 16) ((displacement fnStart throwFn).extractLsb' 2 26) = throwFn ↔
      -2 ^ 27 ≤ (displacement fnStart throwFn).toInt ∧
        (displacement fnStart throwFn).toInt < 2 ^ 27 := by
  have hthere : fnStart + 16 + displacement fnStart throwFn = throwFn := by
    unfold displacement
    ring
  have haligned : (displacement fnStart throwFn).toNat % 4 = 0 := by
    unfold displacement
    bv_omega
  have hlow : (displacement fnStart throwFn).extractLsb' 2 26 ++ 0#2 =
      (displacement fnStart throwFn).setWidth 28 := extractLsb'_append_zero _ haligned
  have hfits := signExtend_setWidth_eq_iff (k := 28) (by omega) (by omega)
    (displacement fnStart throwFn)
  unfold a64.branchTarget
  rw [hlow]
  refine Iff.trans ?_ hfits
  refine ⟨?_, ?_⟩
  · intro h
    exact add_left_cancel (h.trans hthere.symm)
  · intro h
    rw [h, hthere]

/-! ## The code -/

theorem getThrowOpcode_ok_iff {fnStart throwFn error : Addr 64} {code : List Byte} :
    getThrowOpcode fnStart throwFn error = .ok code ↔
      ∃ branch, populateJumpAddr (displacement fnStart throwFn) kBranch = .ok branch ∧
        code = moveCode error ++ branch.bytes := by
  unfold getThrowOpcode displacement
  dsimp only
  cases populateJumpAddr (throwFn - (fnStart + 16)) kBranch with
  | error e => simp
  | ok branch => simp [moveCode, eq_comm]

/-- Code is given for the displacements that the guard lets through. -/
theorem exists_code_iff {fnStart throwFn error : Addr 64} :
    (∃ code, getThrowOpcode fnStart throwFn error = .ok code) ↔
      0 ≤ (displacement fnStart throwFn).toInt ∧
        (displacement fnStart throwFn).toInt < 2 ^ 28 := by
  rw [← populateJumpAddr_ok_iff]
  refine ⟨?_, ?_⟩
  · rintro ⟨code, hok⟩
    obtain ⟨branch, hbranch, -⟩ := getThrowOpcode_ok_iff.1 hok
    exact ⟨branch, hbranch⟩
  · rintro ⟨branch, hbranch⟩
    exact ⟨_, getThrowOpcode_ok_iff.2 ⟨branch, hbranch, rfl⟩⟩

/-- The fifth instruction of the code is a branch to the helper. -/
def BranchesTo (code : List Byte) (fnStart throwFn : Addr 64) : Prop :=
  ∃ imm, a64.arch.disassemble (code.drop 16) = some [.b imm] ∧
    a64.branchTarget (fnStart + 16) imm = throwFn

theorem branchesTo_iff {fnStart throwFn error : Addr 64} {code : List Byte}
    (hfn : fnStart.toNat % 4 = 0) (hthrow : throwFn.toNat % 4 = 0)
    (hok : getThrowOpcode fnStart throwFn error = .ok code) :
    BranchesTo code fnStart throwFn ↔ -2 ^ 27 ≤ (displacement fnStart throwFn).toInt ∧
      (displacement fnStart throwFn).toInt < 2 ^ 27 := by
  obtain ⟨branch, hbranch, rfl⟩ := getThrowOpcode_ok_iff.1 hok
  have hdrop : (moveCode error ++ branch.bytes).drop 16 = branch.bytes := rfl
  have hdis := (encodes_branch hbranch).disassemble []
  rw [List.append_nil] at hdis
  unfold BranchesTo
  rw [hdrop, hdis, ← branchTarget_eq_iff hfn hthrow]
  refine ⟨?_, ?_⟩
  · rintro ⟨imm, himm, htarget⟩
    cases himm
    exact htarget
  · intro htarget
    exact ⟨_, rfl, htarget⟩

/-- The code that the generator gives runs to the helper, if it is in reach. -/
theorem run_code {fnStart throwFn error : Addr 64} {code : List Byte}
    (hfn : fnStart.toNat % 4 = 0) (hthrow : throwFn.toNat % 4 = 0)
    (hok : getThrowOpcode fnStart throwFn error = .ok code)
    (hreach : (displacement fnStart throwFn).toInt < 2 ^ 27) {m : byte_memory.Memory 64}
    {c : a64.Cpu} (hcode : CodeAt m fnStart code) (hpc : c.pc = fnStart) :
    a64.arch.run m 5 c = some { c with x := Function.update c.x 0 error, pc := throwFn } := by
  have hrange := exists_code_iff.1 ⟨code, hok⟩
  obtain ⟨branch, hbranch, rfl⟩ := getThrowOpcode_ok_iff.1 hok
  have htarget := (branchTarget_eq_iff hfn hthrow).2 ⟨by omega, hreach⟩
  subst hpc
  obtain ⟨hmoves, hjump⟩ := codeAt_append.1 hcode
  refine (run_moveCode error hmoves 1).trans (((encodes_branch hbranch).run_succ hjump 0).trans ?_)
  simp only [isa.Isa.run, a64.arch, a64.exec, htarget]

end opcode_generator_aarch64

open byte_memory opcode_generator_aarch64

/-- The four moves of the code leave the exception pointer in register 0, and
every other register as it was. -/
theorem the_moves_fill_the_argument_register (fnStart throwFn error : Addr 64) (code : List Byte)
    (hok : OpcodeGeneratorAarch64.getThrowOpcode fnStart throwFn error = .ok code) :
    a64.arch.disassemble (code.take 16) = some [
        .movz 0 (quarter error 0) 0, .movk 0 (quarter error 1) 1, .movk 0 (quarter error 2) 2,
        .movk 0 (quarter error 3) 3] ∧
      ∀ (m : byte_memory.Memory 64) (c : a64.Cpu), isa.CodeAt m c.pc (code.take 16) →
        a64.arch.run m 4 c = some { c with
          x := Function.update c.x 0 error
          pc := c.pc + 16 } := by
  obtain ⟨branch, -, rfl⟩ := getThrowOpcode_ok_iff.1 hok
  have htake : (moveCode error ++ branch.bytes).take 16 = moveCode error := rfl
  rw [htake]
  refine ⟨disassemble_moveCode error, ?_⟩
  intro m c hcode
  exact run_moveCode error hcode 0

theorem the_moves_fill_the_argument_register_sample :
    ∃ code, OpcodeGeneratorAarch64.getThrowOpcode 0x400000 0x401000 0x1122334455667788 = .ok code ∧
      a64.arch.disassemble (code.take 16) = some [
          .movz 0 (quarter 0x1122334455667788 0) 0, .movk 0 (quarter 0x1122334455667788 1) 1,
          .movk 0 (quarter 0x1122334455667788 2) 2, .movk 0 (quarter 0x1122334455667788 3) 3] ∧
        ∀ (m : byte_memory.Memory 64) (c : a64.Cpu), isa.CodeAt m c.pc (code.take 16) →
          a64.arch.run m 4 c = some { c with
            x := Function.update c.x 0 0x1122334455667788
            pc := c.pc + 16 } := by
  obtain ⟨code, hok⟩ : ∃ code, getThrowOpcode 0x400000 0x401000 0x1122334455667788 = .ok code :=
    exists_code_iff.2 (by decide)
  exact ⟨code, hok, the_moves_fill_the_argument_register 0x400000 0x401000 _ code hok⟩

/-- The branch of the code goes to the helper, unless the displacement fills
28 bits, and the cpu takes the highest of them for a sign. -/
theorem the_branch_goes_to_the_helper_iff (fnStart throwFn error : Addr 64)
    (hfn : fnStart.toNat % 4 = 0) (hthrow : throwFn.toNat % 4 = 0) :
    (∀ code, OpcodeGeneratorAarch64.getThrowOpcode fnStart throwFn error = .ok code →
      BranchesTo code fnStart throwFn) ↔
      ¬ (2 ^ 27 ≤ (displacement fnStart throwFn).toInt ∧
        (displacement fnStart throwFn).toInt < 2 ^ 28) := by
  refine ⟨?_, ?_⟩
  · rintro hall ⟨hlow, hhigh⟩
    obtain ⟨code, hok⟩ : ∃ code, getThrowOpcode fnStart throwFn error = .ok code :=
      exists_code_iff.2 ⟨by omega, hhigh⟩
    have hreach := (branchesTo_iff hfn hthrow hok).1 (hall code hok)
    omega
  · intro hnot code hok
    have hrange := exists_code_iff.1 ⟨code, hok⟩
    apply (branchesTo_iff hfn hthrow hok).2
    omega

theorem the_branch_goes_to_the_helper_iff_sample :
    (∀ code, OpcodeGeneratorAarch64.getThrowOpcode 0x400000 0x401000 0x1000 = .ok code →
      BranchesTo code 0x400000 0x401000) ↔
      ¬ (2 ^ 27 ≤ (displacement 0x400000 0x401000).toInt ∧
        (displacement 0x400000 0x401000).toInt < 2 ^ 28) :=
  the_branch_goes_to_the_helper_iff 0x400000 0x401000 0x1000 rfl rfl

/-- A helper `2 ^ 27` bytes behind the branch gets code whose branch goes back. -/
theorem a_helper_behind_the_reach_is_missed :
    (0x400000 : Addr 64).toNat % 4 = 0 ∧ (0x8400010 : Addr 64).toNat % 4 = 0 ∧
      ∃ code, OpcodeGeneratorAarch64.getThrowOpcode 0x400000 0x8400010 0x1000 = .ok code ∧
        ¬ BranchesTo code 0x400000 0x8400010 := by
  obtain ⟨code, hok⟩ : ∃ code, getThrowOpcode 0x400000 0x8400010 0x1000 = .ok code :=
    exists_code_iff.2 (by decide)
  refine ⟨rfl, rfl, code, hok, ?_⟩
  rw [branchesTo_iff rfl rfl hok]
  decide

/-- Of the helpers that a branch reaches, the generator takes those that are
not before the branch. -/
theorem a_helper_in_reach_is_taken_iff (fnStart throwFn error : Addr 64)
    (hlow : -2 ^ 27 ≤ (displacement fnStart throwFn).toInt)
    (hhigh : (displacement fnStart throwFn).toInt ≤ 2 ^ 27 - 4) :
    (∃ code, OpcodeGeneratorAarch64.getThrowOpcode fnStart throwFn error = .ok code) ↔
      0 ≤ (displacement fnStart throwFn).toInt := by
  have htaken : (∃ code, OpcodeGeneratorAarch64.getThrowOpcode fnStart throwFn error = .ok code) ↔
      0 ≤ (displacement fnStart throwFn).toInt ∧
        (displacement fnStart throwFn).toInt < 2 ^ 28 := exists_code_iff
  rw [htaken]
  omega

theorem a_helper_in_reach_is_taken_iff_sample :
    (∃ code, OpcodeGeneratorAarch64.getThrowOpcode 0x400000 0x401000 0x1000 = .ok code) ↔
      0 ≤ (displacement 0x400000 0x401000).toInt :=
  a_helper_in_reach_is_taken_iff 0x400000 0x401000 0x1000 (by decide) (by decide)

/-- A helper a page before the function is in reach, and is refused. -/
theorem a_helper_before_the_function_is_refused :
    (0x401000 : Addr 64).toNat % 4 = 0 ∧ (0x400000 : Addr 64).toNat % 4 = 0 ∧
      -2 ^ 27 ≤ (displacement 0x401000 0x400000).toInt ∧
      (displacement 0x401000 0x400000).toInt ≤ 2 ^ 27 - 4 ∧
      OpcodeGeneratorAarch64.getThrowOpcode 0x401000 0x400000 0x1000 =
        .error (.runtimeError "Throw helper too far from target function") := by
  decide

end eforce
