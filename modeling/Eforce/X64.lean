-- Two instructions of x86-64: a move of a 64 bit constant to a register, and a
-- jump whose target is relative to the instruction behind it.
import Mathlib.Logic.Function.Basic
import Eforce.Isa

namespace x64

open byte_memory isa

structure Cpu where
  regs : BitVec 4 → BitVec 64
  rip : BitVec 64
  rflags : BitVec 64

def rdi : BitVec 4 := 7

inductive Insn
  /-- `movabs r64, imm64` -/
  | movabs (r : BitVec 4) (imm : BitVec 64)
  /-- `jmp rel32` -/
  | jmp (rel : BitVec 32)
  deriving DecidableEq, Repr

/-- The register of an opcode with a register in it: `REX.B`, then the low bits. -/
def opcodeReg (rex op : Byte) : BitVec 4 := rex.extractLsb' 0 1 ++ op.extractLsb' 0 3

/-- Behind a `REX.W` prefix: `B8+r io`. -/
def decodeRexW (rex : Byte) : List Byte → Option (Insn × Nat)
  | [] => none
  | op :: bs =>
    if op &&& 0xf8 = 0xb8 then (word 64 bs).map fun imm => (.movabs (opcodeReg rex op) imm, 10)
    else none

/-- `E9 cd`, or a `REX.W` prefix. -/
def decode : List Byte → Option (Insn × Nat)
  | [] => none
  | op :: bs =>
    if op = 0xe9 then (word 32 bs).map fun rel => (.jmp rel, 5)
    else if op &&& 0xf8 = 0x48 then decodeRexW op bs
    else none

def exec : Insn → Nat → Cpu → Cpu
  | .movabs r imm, n, c =>
    { c with regs := Function.update c.regs r imm, rip := c.rip + BitVec.ofNat 64 n }
  | .jmp rel, n, c => { c with rip := c.rip + BitVec.ofNat 64 n + rel.signExtend 64 }

theorem decodeRexW_append {rex : Byte} {bs cs : List Byte} {r : Insn × Nat}
    (h : decodeRexW rex bs = some r) : decodeRexW rex (bs ++ cs) = some r := by
  cases bs with
  | nil => cases h
  | cons op bs =>
    rw [decodeRexW] at h
    rw [List.cons_append, decodeRexW]
    split at h
    · rename_i hop
      obtain ⟨imm, himm, rfl⟩ := Option.map_eq_some_iff.1 h
      rw [if_pos hop, word_append himm]
      rfl
    · cases h

theorem decode_append {bs cs : List Byte} {r : Insn × Nat} (h : decode bs = some r) :
    decode (bs ++ cs) = some r := by
  cases bs with
  | nil => cases h
  | cons op bs =>
    rw [decode] at h
    rw [List.cons_append, decode]
    split at h
    · rename_i hop
      obtain ⟨rel, hrel, rfl⟩ := Option.map_eq_some_iff.1 h
      rw [if_pos hop, word_append hrel]
      rfl
    · rename_i hop
      rw [if_neg hop]
      split at h
      · rename_i hrex
        rw [if_pos hrex]
        exact decodeRexW_append h
      · cases h

theorem decodeRexW_take {rex : Byte} {bs : List Byte} {r : Insn × Nat}
    (h : decodeRexW rex bs = some r) : r.2 = 10 ∧ decodeRexW rex (bs.take 9) = some r := by
  cases bs with
  | nil => cases h
  | cons op bs =>
    rw [decodeRexW] at h
    rw [List.take_succ_cons, decodeRexW]
    split at h
    · rename_i hop
      obtain ⟨imm, himm, rfl⟩ := Option.map_eq_some_iff.1 h
      rw [if_pos hop, word_take himm]
      exact ⟨rfl, rfl⟩
    · cases h

/-- An instruction is told by its own bytes. -/
theorem decode_take {bs : List Byte} {r : Insn × Nat} (h : decode bs = some r) :
    decode (bs.take r.2) = some r := by
  cases bs with
  | nil => cases h
  | cons op bs =>
    rw [decode] at h
    split at h
    · rename_i hop
      obtain ⟨rel, hrel, rfl⟩ := Option.map_eq_some_iff.1 h
      rw [List.take_succ_cons, decode, if_pos hop, word_take hrel]
      rfl
    · rename_i hop
      split at h
      · rename_i hrex
        obtain ⟨hten, htake⟩ := decodeRexW_take h
        rw [hten, List.take_succ_cons, decode, if_neg hop, if_pos hrex]
        exact htake
      · cases h

/-- An instruction of x86-64 has 15 bytes at most. -/
def arch : Isa 64 where
  Insn := Insn
  Cpu := Cpu
  pc := Cpu.rip
  decode := decode
  decode_append := decode_append
  window := 15
  exec := exec

/-! ## The two instructions as bytes -/

theorem encodes_movabs_rdi {bs : List Byte} (h : bs.length = 8) :
    arch.Encodes ([0x48, 0xbf] ++ bs) (.movabs rdi (loadLe 64 bs)) := by
  refine ⟨?_, by simp, by simp [h, arch]⟩
  have hword : word 64 bs = some (loadLe 64 bs) := word_of_length h
  have hreg : opcodeReg 0x48#8 0xbf#8 = rdi := rfl
  simp [arch, decode, decodeRexW, hword, hreg, h]

theorem encodes_jmp {bs : List Byte} (h : bs.length = 4) :
    arch.Encodes (0xe9 :: bs) (.jmp (loadLe 32 bs)) := by
  refine ⟨?_, by simp, by simp [h, arch]⟩
  have hword : word 32 bs = some (loadLe 32 bs) := word_of_length h
  simp [arch, decode, hword, h]

end x64
