-- The AArch64 generator (OpcodeGeneratorAarch64.cpp): four moves fill register 0
-- with the exception pointer, and a branch goes to the throw helper.
import Mathlib.Tactic.IntervalCases
import Eforce.IOpcodeGenerator

namespace eforce.opcode_generator_aarch64

open byte_memory

/-! ## The template `k_doThrow`, an instruction a line -/

def kMovz : Insn := ⟨0x00, 0x00, 0x80, 0xd2⟩
def kMovk16 : Insn := ⟨0x00, 0x00, 0xa0, 0xf2⟩
def kMovk32 : Insn := ⟨0x00, 0x00, 0xc0, 0xf2⟩
def kMovk48 : Insn := ⟨0x00, 0x00, 0xe0, 0xf2⟩
def kBranch : Insn := ⟨0x00, 0x00, 0x00, 0x14⟩

def kDoThrow : List Byte :=
  kMovz.bytes ++ kMovk16.bytes ++ kMovk32.bytes ++ kMovk48.bytes ++ kBranch.bytes

/-! ## The generator -/

/-- The 16 bits are an `int` in each expression, and a byte again in each
assignment. -/
def populateQuarterWord (quarterWord : BitVec 16) (movInsn : Insn) : Insn :=
  let q : BitVec 32 := quarterWord.setWidth 32
  { movInsn with
    b0 := (movInsn.b0.setWidth 32 ||| ((q <<< 5) &&& 0xe0)).setWidth 8
    b1 := ((q >>> 3) &&& 0xff).setWidth 8
    b2 := (movInsn.b2.setWidth 32 ||| ((q >>> 11) &&& 0x1f)).setWidth 8 }

/-- The shifts are those of a signed `ptrdiff_t`. -/
def populateJumpAddr (relJumpAddr : BitVec 64) (jmpInsn : Insn) : Except Error Insn :=
  if relJumpAddr.sshiftRight 28 ≠ 0 then
    .error (.runtimeError "Throw helper too far from target function")
  else
    let relJumpAddr := relJumpAddr &&& 0xfffffff
    .ok {
      b0 := ((relJumpAddr.sshiftRight 2) &&& 0xff).setWidth 8
      b1 := ((relJumpAddr.sshiftRight 10) &&& 0xff).setWidth 8
      b2 := ((relJumpAddr.sshiftRight 18) &&& 0xff).setWidth 8
      b3 := (jmpInsn.b3.setWidth 64 ||| ((relJumpAddr.sshiftRight 26) &&& 0x3)).setWidth 8 }

/-- Bits `16 * k` to `16 * k + 15` of the pointer. -/
def quarter (error : Addr 64) (k : Nat) : BitVec 16 :=
  ((error >>> (16 * k)) &&& 0xffff).setWidth 16

def getThrowOpcode (fnStart throwFn error : Addr 64) : Except Error (List Byte) :=
  let lowQuarter := quarter error 0
  let midLowQuarter := quarter error 1
  let midHighQuarter := quarter error 2
  let highQuarter := quarter error 3
  match populateJumpAddr (throwFn - (fnStart + 16)) kBranch with
  | .error e => .error e
  | .ok branch =>
    .ok ((populateQuarterWord lowQuarter kMovz).bytes ++
      (populateQuarterWord midLowQuarter kMovk16).bytes ++
      (populateQuarterWord midHighQuarter kMovk32).bytes ++
      (populateQuarterWord highQuarter kMovk48).bytes ++ branch.bytes)

example : getThrowOpcode 0x400000 0x401000 0x1122334455667788 = .ok [
    0x00, 0xf1, 0x8e, 0xd2, 0xc0, 0xac, 0xaa, 0xf2, 0x80, 0x68, 0xc6, 0xf2, 0x40, 0x24, 0xe2, 0xf2,
    0xfc, 0x03, 0x00, 0x14] := rfl

theorem getThrowOpcode_length {fnStart throwFn error : Addr 64} {code : List Byte}
    (h : getThrowOpcode fnStart throwFn error = .ok code) : code.length = kDoThrow.length := by
  unfold getThrowOpcode at h
  dsimp only at h
  split at h
  · cases h
  · cases h
    rfl

/-- Bits 5 to 20 of a move that had none of them set are the 16 bits that
went in. -/
theorem populateQuarterWord_imm16 (q : BitVec 16) (insn : Insn)
    (h : insn.word.extractLsb' 5 16 = 0) :
    (populateQuarterWord q insn).word.extractLsb' 5 16 = q := by
  apply BitVec.eq_of_getLsbD_eq
  intro i hi
  have hclear : insn.word.getLsbD (5 + i) = false := by
    simpa [hi] using congrArg (fun x : BitVec 16 => x.getLsbD i) h
  clear h
  interval_cases i <;> simp [populateQuarterWord, Insn.word] at hclear ⊢ <;> simp [hclear]

theorem populateQuarterWord_inj {q r : BitVec 16} {insn : Insn}
    (hclear : insn.word.extractLsb' 5 16 = 0)
    (h : (populateQuarterWord q insn).bytes = (populateQuarterWord r insn).bytes) : q = r := by
  have hword : (populateQuarterWord q insn).word = (populateQuarterWord r insn).word := by
    simp only [Insn.bytes, List.cons.injEq, and_true] at h
    simp only [Insn.word, h]
  rw [← populateQuarterWord_imm16 q insn hclear, hword, populateQuarterWord_imm16 r insn hclear]

theorem getLsbD_quarter (error : Addr 64) (k i : Nat) (hi : i < 16) :
    (quarter error k).getLsbD i = error.getLsbD (16 * k + i) := by
  have hmask : (0xffff#16)[i] = true := BitVec.getElem_allOnes i hi
  simp [quarter, hi, hmask]

/-- A pointer is its four quarters. -/
theorem quarter_inj {p q : Addr 64} (h : ∀ k < 4, quarter p k = quarter q k) : p = q := by
  apply BitVec.eq_of_getLsbD_eq
  intro i hi
  have hk := congrArg (fun x : BitVec 16 => x.getLsbD (i % 16)) (h (i / 16) (by omega))
  simp only [getLsbD_quarter _ _ _ (Nat.mod_lt i (by decide : 0 < 16))] at hk
  rwa [Nat.div_add_mod] at hk

end opcode_generator_aarch64

open opcode_generator_aarch64

def OpcodeGeneratorAarch64 : IOpcodeGenerator 64 where
  getThrowOpcode := getThrowOpcode
  size := kDoThrow.length
  length_eq := getThrowOpcode_length

/-- The immediates of the four moves are the exception pointer. -/
theorem OpcodeGeneratorAarch64_carries : OpcodeGeneratorAarch64.Carries := by
  intro fnStart throwFn p q code hp hq
  simp only [OpcodeGeneratorAarch64, getThrowOpcode] at hp hq
  split at hp
  · cases hp
  rename_i branch hb
  rw [hb] at hq
  cases hp
  simp only [Except.ok.injEq] at hq
  obtain ⟨hq, -⟩ := List.append_inj hq (by simp)
  obtain ⟨hq, h3⟩ := List.append_inj hq (by simp)
  obtain ⟨hq, h2⟩ := List.append_inj hq (by simp)
  obtain ⟨h0, h1⟩ := List.append_inj hq (by simp)
  apply quarter_inj
  intro k hk
  interval_cases k
  · exact (populateQuarterWord_inj rfl h0).symm
  · exact (populateQuarterWord_inj rfl h1).symm
  · exact (populateQuarterWord_inj rfl h2).symm
  · exact (populateQuarterWord_inj rfl h3).symm

theorem OpcodeGeneratorAarch64_relative : OpcodeGeneratorAarch64.Relative 0 := by
  intro fn helper p B B' _ _ _ _
  have hdist : ∀ n B : Addr 64, helper + B - (fn + B + n) = helper - (fn + n) := by
    intro n B
    ring
  simp only [OpcodeGeneratorAarch64, getThrowOpcode, hdist]

end eforce
