-- Three instructions of A64: moves of a 16 bit constant to a quarter of a
-- register, and a branch whose target is relative to the branch itself.
import Mathlib.Logic.Function.Basic
import Eforce.Isa

namespace a64

open byte_memory isa

structure Cpu where
  x : Fin 31 → BitVec 64
  sp : BitVec 64
  pc : BitVec 64
  nzcv : BitVec 4

/-- Number 31 is the zero register, which reads as zero. -/
def Cpu.getX (c : Cpu) (rd : BitVec 5) : BitVec 64 :=
  if h : rd.toNat < 31 then c.x ⟨rd.toNat, h⟩ else 0

/-- A write to the zero register is lost. -/
def Cpu.setX (c : Cpu) (rd : BitVec 5) (v : BitVec 64) : Cpu :=
  if h : rd.toNat < 31 then { c with x := Function.update c.x ⟨rd.toNat, h⟩ v } else c

inductive Insn
  /-- `movz xd, #imm, lsl #(16 * hw)` -/
  | movz (rd : BitVec 5) (imm : BitVec 16) (hw : BitVec 2)
  /-- `movk xd, #imm, lsl #(16 * hw)` -/
  | movk (rd : BitVec 5) (imm : BitVec 16) (hw : BitVec 2)
  /-- `b label` -/
  | b (imm : BitVec 26)
  deriving DecidableEq, Repr

def decodeWord (x : BitVec 32) : Option Insn :=
  if x.extractLsb' 23 9 = 0b110100101 then
    some (.movz (x.extractLsb' 0 5) (x.extractLsb' 5 16) (x.extractLsb' 21 2))
  else if x.extractLsb' 23 9 = 0b111100101 then
    some (.movk (x.extractLsb' 0 5) (x.extractLsb' 5 16) (x.extractLsb' 21 2))
  else if x.extractLsb' 26 6 = 0b000101 then some (.b (x.extractLsb' 0 26))
  else none

def decode (bs : List Byte) : Option (Insn × Nat) :=
  (word 32 bs).bind fun x => (decodeWord x).map fun insn => (insn, 4)

/-- The value with one of its quarters replaced. -/
def insertQuarter (old : BitVec 64) (imm : BitVec 16) (hw : BitVec 2) : BitVec 64 :=
  old &&& ~~~((BitVec.allOnes 16).setWidth 64 <<< (16 * hw.toNat)) |||
    imm.setWidth 64 <<< (16 * hw.toNat)

/-- `PC + SignExtend(imm26:00)` -/
def branchTarget (pc : BitVec 64) (imm : BitVec 26) : BitVec 64 :=
  pc + (imm ++ 0#2).signExtend 64

def exec : Insn → Nat → Cpu → Cpu
  | .movz rd imm hw, n, c =>
    { c.setX rd (insertQuarter 0 imm hw) with pc := c.pc + BitVec.ofNat 64 n }
  | .movk rd imm hw, n, c =>
    { c.setX rd (insertQuarter (c.getX rd) imm hw) with pc := c.pc + BitVec.ofNat 64 n }
  | .b imm, _, c => { c with pc := branchTarget c.pc imm }

theorem decode_append {bs cs : List Byte} {r : Insn × Nat} (h : decode bs = some r) :
    decode (bs ++ cs) = some r := by
  unfold decode at h ⊢
  obtain ⟨x, hx, hr⟩ := Option.bind_eq_some_iff.1 h
  rw [word_append hx]
  exact hr

/-- Every instruction of A64 has four bytes. -/
def arch : Isa 64 where
  Insn := Insn
  Cpu := Cpu
  pc := Cpu.pc
  decode := decode
  decode_append := decode_append
  window := 4
  exec := exec

theorem encodes_of_word {bs : List Byte} {insn : Insn} (hlen : bs.length = 4)
    (h : decodeWord (loadLe 32 bs) = some insn) : arch.Encodes bs insn := by
  refine ⟨?_, by omega, by simp [hlen, arch]⟩
  have hword : word 32 bs = some (loadLe 32 bs) := word_of_length hlen
  simp [arch, decode, hword, h, hlen]

/-- The opcode of a branch is that of no move. -/
theorem decodeWord_b {x : BitVec 32} (h : x.extractLsb' 26 6 = 0b000101) :
    decodeWord x = some (.b (x.extractLsb' 0 26)) := by
  have hmove : ∀ op, x.extractLsb' 23 9 = op → op.extractLsb' 3 6 = 0b000101 := by
    rintro op rfl
    rw [← h]
    apply BitVec.eq_of_getLsbD_eq
    intro i hi
    simp [hi, show 3 + i < 9 by omega, ← Nat.add_assoc]
  unfold decodeWord
  rw [if_neg, if_neg, if_pos h]
  · intro hop
    exact absurd (hmove _ hop) (by decide)
  · intro hop
    exact absurd (hmove _ hop) (by decide)

theorem getLsbD_insertQuarter (old : BitVec 64) (imm : BitVec 16) (hw : BitVec 2) {i : Nat}
    (hi : i < 64) : (insertQuarter old imm hw).getLsbD i =
      if i / 16 = hw.toNat then imm.getLsbD (i % 16) else old.getLsbD i := by
  unfold insertQuarter
  simp only [BitVec.getLsbD_or, BitVec.getLsbD_and, BitVec.getLsbD_not, BitVec.getLsbD_shiftLeft,
    BitVec.getLsbD_setWidth, BitVec.getLsbD_allOnes, hi, decide_true, Bool.true_and]
  by_cases hq : i / 16 = hw.toNat
  · have hlow : ¬ i < 16 * hw.toNat := by omega
    have hmod : i - 16 * hw.toNat = i % 16 := by omega
    simp [hq, hlow, hmod, Nat.mod_lt, show i % 16 < 64 by omega]
  · rcases Nat.lt_or_ge i (16 * hw.toNat) with hlow | hhigh
    · simp [hq, hlow]
    · have hfar : ¬ i - 16 * hw.toNat < 16 := by omega
      have hclear : imm.getLsbD (i - 16 * hw.toNat) = false := BitVec.getLsbD_of_ge _ _ (by omega)
      simp [hq, hfar, hclear, show ¬ i < 16 * hw.toNat by omega]

end a64
