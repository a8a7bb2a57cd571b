-- The Thumb-2 generator (OpcodeGeneratorThumb.cpp): two moves fill register 0
-- with the exception pointer, and a branch goes to the throw helper. Each
-- instruction is two little endian halfwords.
import Mathlib.Tactic.IntervalCases
import Eforce.IOpcodeGenerator

namespace eforce.opcode_generator_thumb

open byte_memory

/-! ## The template `k_doThrowThumb`, an instruction a line -/

def kMovw : Insn := ⟨0x40, 0xf2, 0x00, 0x00⟩
def kMovt : Insn := ⟨0xc0, 0xf2, 0x00, 0x00⟩
def kBranch : Insn := ⟨0x00, 0xf0, 0x00, 0x90⟩

def kDoThrowThumb : List Byte := kMovw.bytes ++ kMovt.bytes ++ kBranch.bytes

/-! ## The generator -/

def loadHalfWord (halfWord : BitVec 16) (instruction : Insn) : Insn :=
  let imm8 : Byte := (halfWord &&& 0xff).setWidth 8
  let imm3 : Byte := ((halfWord >>> 8) &&& 0x7).setWidth 8
  let i : Byte := ((halfWord >>> 11) &&& 0x1).setWidth 8
  let imm4 : Byte := ((halfWord >>> 12) &&& 0xf).setWidth 8
  { b2 := imm8
    b3 := instruction.b3 ||| (imm3 <<< 4)
    b0 := instruction.b0 ||| imm4
    b1 := instruction.b1 ||| (i <<< 2) }

/-- The shifts are those of a signed `int32_t`. -/
def loadBranchTarget (branchTarget : BitVec 32) (instruction : Insn) : Insn :=
  let imm11 : BitVec 16 := ((branchTarget.sshiftRight 1) &&& 0x7ff).setWidth 16
  let imm10 : BitVec 16 := ((branchTarget.sshiftRight 12) &&& 0x3ff).setWidth 16
  let i2 : Byte := ((branchTarget.sshiftRight 22) &&& 0x01).setWidth 8
  let i1 : Byte := ((branchTarget.sshiftRight 23) &&& 0x01).setWidth 8
  let s : Byte := if branchTarget.slt 0 then 1 else 0
  let j1 : Byte := if i1 ^^^ s = 0 then 1 else 0
  let j2 : Byte := if i2 ^^^ s = 0 then 1 else 0
  { b0 := (imm10 &&& 0xff).setWidth 8
    b1 := instruction.b1 ||| ((imm10 >>> 8) &&& 0x3).setWidth 8 ||| (s <<< 2)
    b2 := (imm11 &&& 0xff).setWidth 8
    b3 := instruction.b3 ||| ((imm11 >>> 8) &&& 0x7).setWidth 8 ||| (j2 <<< 3) ||| (j1 <<< 5) }

def getThrowOpcode (fnStart throwFn pError : Addr 32) : Except Error (List Byte) :=
  let lowHalf := (pError &&& 0xffff).setWidth 16
  let highHalf := ((pError.sshiftRight 16) &&& 0xffff).setWidth 16
  let throwOffset := throwFn - (fnStart + BitVec.ofNat 32 kDoThrowThumb.length)
  .ok ((loadHalfWord lowHalf kMovw).bytes ++ (loadHalfWord highHalf kMovt).bytes ++
    (loadBranchTarget throwOffset kBranch).bytes)

theorem getThrowOpcode_length {fnStart throwFn pError : Addr 32} {code : List Byte}
    (h : getThrowOpcode fnStart throwFn pError = .ok code) :
    code.length = kDoThrowThumb.length := by
  cases h
  rfl

/-- The 16 bits of a move, put together again from their four fields
`imm4:i:imm3:imm8`. -/
def imm16 (insn : Insn) : BitVec 16 :=
  (insn.b0.setWidth 16 &&& 0xf) <<< 12 ||| ((insn.b1.setWidth 16 >>> 2) &&& 0x1) <<< 11 |||
    ((insn.b3.setWidth 16 >>> 4) &&& 0x7) <<< 8 ||| insn.b2.setWidth 16

theorem loadHalfWord_imm16 (halfWord : BitVec 16) (insn : Insn) (h : imm16 insn = 0) :
    imm16 (loadHalfWord halfWord insn) = halfWord := by
  apply BitVec.eq_of_getLsbD_eq
  intro i hi
  have hclear : (imm16 insn).getLsbD i = false := by rw [h]; simp
  clear h
  interval_cases i <;> simp [loadHalfWord, imm16] at hclear ⊢ <;> simp [hclear]

theorem loadHalfWord_inj {q r : BitVec 16} {insn : Insn} (hclear : imm16 insn = 0)
    (h : (loadHalfWord q insn).bytes = (loadHalfWord r insn).bytes) : q = r := by
  have himm : imm16 (loadHalfWord q insn) = imm16 (loadHalfWord r insn) := by
    simp only [Insn.bytes, List.cons.injEq, and_true] at h
    simp only [imm16, h]
  rw [← loadHalfWord_imm16 q insn hclear, himm, loadHalfWord_imm16 r insn hclear]

/-- A pointer is its two halves. -/
theorem halves_inj {p q : Addr 32}
    (hlow : (p &&& 0xffff).setWidth 16 = (q &&& 0xffff).setWidth 16)
    (hhigh : (p.sshiftRight 16 &&& 0xffff).setWidth 16 =
      (q.sshiftRight 16 &&& 0xffff).setWidth 16) : p = q := by
  apply BitVec.eq_of_getLsbD_eq
  intro i hi
  have hmask : ∀ j (hj : j < 16), (0xffff#16)[j] = true := fun j hj => BitVec.getElem_allOnes j hj
  rcases Nat.lt_or_ge i 16 with hlt | hge
  · have := congrArg (fun x : BitVec 16 => x.getLsbD i) hlow
    simpa [hlt, hmask i hlt] using this
  · have := congrArg (fun x : BitVec 16 => x.getLsbD (i - 16)) hhigh
    have hj : i - 16 < 16 := by omega
    simpa [hj, hmask _ hj, BitVec.getLsbD_sshiftRight, show 16 + (i - 16) = i by omega, hi,
      show ¬ 32 ≤ i - 16 by omega] using this

end opcode_generator_thumb

open opcode_generator_thumb

def OpcodeGeneratorThumb : IOpcodeGenerator 32 where
  getThrowOpcode := getThrowOpcode
  size := kDoThrowThumb.length
  length_eq := getThrowOpcode_length

/-- The immediates of the two moves are the exception pointer. -/
theorem OpcodeGeneratorThumb_carries : OpcodeGeneratorThumb.Carries := by
  intro fnStart throwFn p q code hp hq
  simp only [OpcodeGeneratorThumb, getThrowOpcode, Except.ok.injEq] at hp hq
  subst hp
  obtain ⟨hq, -⟩ := List.append_inj hq (by simp)
  obtain ⟨hlow, hhigh⟩ := List.append_inj hq (by simp)
  exact (halves_inj (loadHalfWord_inj rfl hlow) (loadHalfWord_inj rfl hhigh)).symm

theorem OpcodeGeneratorThumb_relative : OpcodeGeneratorThumb.Relative 0 := by
  intro fn helper p B B' _ _ _ _
  have hdist : ∀ n B : Addr 32, helper + B - (fn + B + n) = helper - (fn + n) := by
    intro n B
    ring
  simp only [OpcodeGeneratorThumb, getThrowOpcode, hdist]

end eforce
