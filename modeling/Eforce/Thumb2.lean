-- Three instructions of Thumb-2, of two halfwords each: moves of a 16 bit
-- constant to one half of a register, and a branch whose target is relative to
-- the address four bytes behind its own.
import Mathlib.Logic.Function.Basic
import Mathlib.Tactic.IntervalCases
import Eforce.Isa

namespace thumb2

open byte_memory isa

structure Cpu where
  r : Fin 15 → BitVec 32
  pc : BitVec 32
  apsr : BitVec 32

inductive Insn
  /-- `movw rd, #imm` -/
  | movw (rd : Fin 15) (imm : BitVec 16)
  /-- `movt rd, #imm` -/
  | movt (rd : Fin 15) (imm : BitVec 16)
  /-- `b.w label` -/
  | b (imm : BitVec 25)
  deriving DecidableEq, Repr

/-- The register of a move. The stack pointer and the program counter are
unpredictable there. -/
def movReg (rd : BitVec 4) : Option (Fin 15) :=
  if h : rd.toNat < 15 ∧ rd.toNat ≠ 13 then some ⟨rd.toNat, h.1⟩ else none

/-- `imm4:i:imm3:imm8` -/
def movImm (hw1 hw2 : BitVec 16) : BitVec 16 :=
  hw1.extractLsb' 0 4 ++ hw1.extractLsb' 10 1 ++ hw2.extractLsb' 12 3 ++ hw2.extractLsb' 0 8

/-- `S:I1:I2:imm10:imm11:0`, with `I1 = NOT(J1 XOR S)` and `I2 = NOT(J2 XOR S)`. -/
def branchImm (hw1 hw2 : BitVec 16) : BitVec 25 :=
  let s := hw1.extractLsb' 10 1
  let i1 := ~~~(hw2.extractLsb' 13 1 ^^^ s)
  let i2 := ~~~(hw2.extractLsb' 11 1 ^^^ s)
  s ++ i1 ++ i2 ++ hw1.extractLsb' 0 10 ++ hw2.extractLsb' 0 11 ++ 0#1

/-- The encodings T3 of `MOVW`, T1 of `MOVT`, and T4 of `B`. -/
def decodeHalves (hw1 hw2 : BitVec 16) : Option Insn :=
  if hw1 &&& 0xfbf0 = 0xf240 ∧ hw2 &&& 0x8000 = 0 then
    (movReg (hw2.extractLsb' 8 4)).map fun rd => .movw rd (movImm hw1 hw2)
  else if hw1 &&& 0xfbf0 = 0xf2c0 ∧ hw2 &&& 0x8000 = 0 then
    (movReg (hw2.extractLsb' 8 4)).map fun rd => .movt rd (movImm hw1 hw2)
  else if hw1 &&& 0xf800 = 0xf000 ∧ hw2 &&& 0xd000 = 0x9000 then some (.b (branchImm hw1 hw2))
  else none

/-- The first halfword is the one with the lower address. -/
def decode (bs : List Byte) : Option (Insn × Nat) :=
  (word 32 bs).bind fun x =>
    (decodeHalves (x.extractLsb' 0 16) (x.extractLsb' 16 16)).map fun insn => (insn, 4)

/-- Where the code of a pointer stands. Bit 0 only says that the code is Thumb. -/
def codeAddress (p : BitVec 32) : BitVec 32 := p &&& ~~~1#32

/-- The program counter of an instruction reads four bytes behind it, and a
branch clears bit 0. -/
def branchTarget (pc : BitVec 32) (imm : BitVec 25) : BitVec 32 :=
  codeAddress (pc + 4 + imm.signExtend 32)

def exec : Insn → Nat → Cpu → Cpu
  | .movw rd imm, n, c =>
    { c with r := Function.update c.r rd (imm.setWidth 32), pc := c.pc + BitVec.ofNat 32 n }
  | .movt rd imm, n, c =>
    { c with
      r := Function.update c.r rd (imm ++ (c.r rd).setWidth 16)
      pc := c.pc + BitVec.ofNat 32 n }
  | .b imm, _, c => { c with pc := branchTarget c.pc imm }

theorem decode_append {bs cs : List Byte} {r : Insn × Nat} (h : decode bs = some r) :
    decode (bs ++ cs) = some r := by
  unfold decode at h ⊢
  obtain ⟨x, hx, hr⟩ := Option.bind_eq_some_iff.1 h
  rw [word_append hx]
  exact hr

/-- The three instructions have four bytes. -/
def arch : Isa 32 where
  Insn := Insn
  Cpu := Cpu
  pc := Cpu.pc
  decode := decode
  decode_append := decode_append
  window := 4
  exec := exec

theorem encodes_of_halves {bs : List Byte} {insn : Insn} (hlen : bs.length = 4)
    (h : decodeHalves ((loadLe 32 bs).extractLsb' 0 16) ((loadLe 32 bs).extractLsb' 16 16) =
      some insn) : arch.Encodes bs insn := by
  refine ⟨?_, by omega, by simp [hlen, arch]⟩
  have hword : word 32 bs = some (loadLe 32 bs) := word_of_length hlen
  simp [arch, decode, hword, h, hlen]

/-- The second halfword of a branch is that of no move. -/
theorem decodeHalves_b {hw1 hw2 : BitVec 16} (h1 : hw1 &&& 0xf800 = 0xf000)
    (h2 : hw2 &&& 0xd000 = 0x9000) : decodeHalves hw1 hw2 = some (.b (branchImm hw1 hw2)) := by
  have hmove : hw2 &&& 0x8000 ≠ 0 := by
    have hpart : hw2 &&& 0x8000 = (hw2 &&& 0xd000) &&& 0x8000 := by
      rw [BitVec.and_assoc]
      rfl
    rw [hpart, h2]
    decide
  unfold decodeHalves
  rw [if_neg fun h => hmove h.2, if_neg fun h => hmove h.2, if_pos ⟨h1, h2⟩]

/-! ## Even addresses -/

theorem toNat_codeAddress (p : BitVec 32) : (codeAddress p).toNat = p.toNat / 2 * 2 := by
  have hshift : codeAddress p = (p >>> 1) <<< 1 := by
    apply BitVec.eq_of_getLsbD_eq
    intro i hi
    unfold codeAddress
    interval_cases i <;> simp
  have hp := p.isLt
  rw [hshift, BitVec.toNat_shiftLeft, BitVec.toNat_ushiftRight, Nat.shiftRight_eq_div_pow,
    Nat.shiftLeft_eq]
  omega

theorem codeAddress_of_even {p : BitVec 32} (h : p.toNat % 2 = 0) : codeAddress p = p := by
  apply BitVec.eq_of_toNat_eq
  rw [toNat_codeAddress]
  omega

theorem even_iff {w : Nat} (x : BitVec w) : x.toNat % 2 = 0 ↔ x.getLsbD 0 = false := by
  rw [← BitVec.testBit_toNat, Nat.testBit_zero]
  simp only [decide_eq_false_iff_not]
  omega

/-- A branch between even addresses clears nothing. -/
theorem branchTarget_of_even {pc : BitVec 32} {imm : BitVec 25} (hpc : pc.toNat % 2 = 0)
    (himm : (imm.signExtend 32).toNat % 2 = 0) :
    branchTarget pc imm = pc + 4 + imm.signExtend 32 := by
  apply codeAddress_of_even
  bv_omega

end thumb2
