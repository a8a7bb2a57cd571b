-- Machine code in a byte memory: what its bytes decode to, and what a cpu does
-- that fetches and executes it. An instruction set says how to decode and how
-- to execute; the rules for code that runs straight on hold of all of them.
import Eforce.ByteMemory
import Mathlib.Data.Nat.Bitwise

namespace isa

open byte_memory

/-! ## Little endian words -/

/-- The word that starts with the least byte. -/
def loadLe (w : Nat) : List Byte → BitVec w
  | [] => 0
  | b :: bs => b.setWidth w ||| loadLe w bs <<< 8

theorem getLsbD_loadLe (w : Nat) (bs : List Byte) (i : Nat) :
    (loadLe w bs).getLsbD i = (decide (i < w) && (bs.getD (i / 8) 0).getLsbD (i % 8)) := by
  induction bs generalizing i with
  | nil => simp [loadLe]
  | cons b bs ih =>
    unfold loadLe
    rcases Nat.lt_or_ge i 8 with hi | hi
    · simp [hi, Nat.div_eq_of_lt hi, Nat.mod_eq_of_lt hi]
    · have hdiv : i / 8 = (i - 8) / 8 + 1 := by omega
      have hmod : i % 8 = (i - 8) % 8 := by omega
      have hlow : b.getLsbD i = false := BitVec.getLsbD_of_ge b i hi
      have hwidth : i < w → i - 8 < w := by omega
      rw [hdiv, hmod]
      simp only [BitVec.getLsbD_or, BitVec.getLsbD_setWidth, BitVec.getLsbD_shiftLeft, ih, hlow,
        List.getD_cons_succ, show ¬ i < 8 by omega, decide_false, Bool.not_false, Bool.and_false,
        Bool.false_or, Bool.and_true]
      by_cases hi : i < w
      · simp [hi, hwidth hi]
      · simp [hi]

/-- The word of `w` bits that the bytes start with, if there are enough of them. -/
def word (w : Nat) (bs : List Byte) : Option (BitVec w) :=
  if w / 8 ≤ bs.length then some (loadLe w (bs.take (w / 8))) else none

theorem word_append {w : Nat} {bs cs : List Byte} {x : BitVec w} (h : word w bs = some x) :
    word w (bs ++ cs) = some x := by
  unfold word at h ⊢
  split at h
  · rename_i hlen
    rw [if_pos (by rw [List.length_append]; omega), List.take_append_of_le_length hlen]
    exact h
  · cases h

theorem word_take {w : Nat} {bs : List Byte} {x : BitVec w} (h : word w bs = some x) :
    word w (bs.take (w / 8)) = some x := by
  unfold word at h ⊢
  split at h
  · rename_i hlen
    rw [if_pos (by rw [List.length_take]; omega), List.take_take, Nat.min_self]
    exact h
  · cases h

theorem word_of_length {w : Nat} {bs : List Byte} (h : bs.length = w / 8) :
    word w bs = some (loadLe w bs) := by
  unfold word
  rw [if_pos (by omega), ← h, List.take_length]

/-! ## Signed fields -/

/-- A field of `k` bits holds a signed number exactly when the number is in the
range of the field. -/
theorem signExtend_setWidth_eq_iff {k w : Nat} (hk : 0 < k) (hkw : k ≤ w) (x : BitVec w) :
    (x.setWidth k).signExtend w = x ↔ -2 ^ (k - 1) ≤ x.toInt ∧ x.toInt < 2 ^ (k - 1) := by
  have hpow : (2 : Int) ^ k = 2 * 2 ^ (k - 1) := by
    rw [← pow_succ', Nat.sub_add_cancel hk]
  have hhalf : ((2 ^ k : Nat) : Int) / 2 = 2 ^ (k - 1) := by
    push_cast
    omega
  have hhalf' : (((2 ^ k : Nat) : Int) + 1) / 2 = 2 ^ (k - 1) := by
    push_cast
    omega
  -- The number and its bits differ by a multiple of `2 ^ w`, and so of `2 ^ k`.
  have hdvd : ((2 ^ k : Nat) : Int) ∣ x.toInt - x.toNat := by
    have hw : ((2 ^ w : Nat) : Int) ∣ x.toInt - x.toNat := by
      rw [BitVec.toInt_eq_toNat_bmod]
      exact Int.dvd_bmod_sub_self
    exact (Int.natCast_dvd_natCast.2 (Nat.pow_dvd_pow 2 hkw)).trans hw
  rw [← BitVec.toInt_inj, BitVec.toInt_signExtend_of_le hkw, BitVec.toInt_setWidth,
    Int.bmod_eq_iff (Nat.two_pow_pos k), hhalf, hhalf']
  exact ⟨fun h => ⟨h.1, h.2.1⟩, fun h => ⟨h.1, h.2, hdvd⟩⟩

/-- A field without the low bits of a number loses nothing if they are all 0. -/
theorem extractLsb'_append_zero {k n w : Nat} (x : BitVec w) (h : x.toNat % 2 ^ k = 0) :
    x.extractLsb' k n ++ 0#k = x.setWidth (n + k) := by
  apply BitVec.eq_of_getLsbD_eq
  intro i hi
  rw [BitVec.getLsbD_append, BitVec.getLsbD_setWidth]
  by_cases hlow : i < k
  · have hclear : x.getLsbD i = false := by
      have hbit := Nat.testBit_mod_two_pow x.toNat k i
      rw [h, Nat.zero_testBit] at hbit
      simpa [hlow, BitVec.testBit_toNat] using hbit.symm
    simp [hlow, hclear]
  · simp [hlow, hi, show i - k < n by omega, show k + (i - k) = i by omega]

/-! ## Instruction sets -/

/-- An instruction set over addresses of `w` bits. -/
structure Isa (w : Nat) where
  Insn : Type
  Cpu : Type
  pc : Cpu → BitVec w
  /-- The instruction that the bytes start with, and how many of them it takes. -/
  decode : List Byte → Option (Insn × Nat)
  /-- The bytes behind an instruction do not count. -/
  decode_append : ∀ {bs cs r}, decode bs = some r → decode (bs ++ cs) = some r
  /-- No instruction takes more bytes than a fetch brings in. -/
  window : Nat
  exec : Insn → Nat → Cpu → Cpu

namespace Isa

variable {w : Nat} (S : Isa w)

/-- The instructions of the bytes behind the next `n`, one after the other. -/
def disassembleFrom : Nat → List Byte → Option (List S.Insn)
  | 0, [] => some []
  | _ + 1, [] => none
  | n + 1, _ :: bs => disassembleFrom n bs
  | 0, b :: bs =>
    match S.decode (b :: bs) with
    | some (insn, n + 1) => (disassembleFrom n bs).map (insn :: ·)
    | _ => none

/-- The instructions that the bytes are, when they are nothing else. -/
def disassemble (bs : List Byte) : Option (List S.Insn) := S.disassembleFrom 0 bs

/-- The cpu fetches at its program counter, decodes, and executes. -/
def step (m : Memory w) (c : S.Cpu) : Option S.Cpu :=
  match S.decode (read m (S.pc c) S.window) with
  | none => none
  | some (insn, n) => some (S.exec insn n c)

def run (m : Memory w) : Nat → S.Cpu → Option S.Cpu
  | 0, c => some c
  | k + 1, c => (S.step m c).bind (run m k)

/-- The bytes are one instruction, and no more. -/
structure Encodes (bs : List Byte) (insn : S.Insn) : Prop where
  decode : S.decode bs = some (insn, bs.length)
  pos : 0 < bs.length
  fits : bs.length ≤ S.window

end Isa

/-! ## Code in memory -/

/-- The bytes stand at the address. -/
def CodeAt {w : Nat} (m : Memory w) (a : BitVec w) (bs : List Byte) : Prop :=
  read m a bs.length = bs

theorem read_append {w : Nat} (m : Memory w) (a : BitVec w) (n k : Nat) :
    read m a (n + k) = read m a n ++ read m (a + BitVec.ofNat w n) k := by
  induction n generalizing a with
  | zero => simp [byte_memory.read]
  | succ n ih =>
    rw [Nat.succ_add, byte_memory.read, byte_memory.read, ih, List.cons_append]
    have hnext : a + 1 + BitVec.ofNat w n = a + BitVec.ofNat w (n + 1) := by
      rw [BitVec.ofNat_add, BitVec.add_assoc, BitVec.add_comm 1]
      rfl
    rw [hnext]

theorem codeAt_append {w : Nat} {m : Memory w} {a : BitVec w} {bs cs : List Byte} :
    CodeAt m a (bs ++ cs) ↔ CodeAt m a bs ∧ CodeAt m (a + BitVec.ofNat w bs.length) cs := by
  unfold CodeAt
  rw [List.length_append, read_append]
  exact ⟨fun h => List.append_inj h (by simp), fun ⟨h, h'⟩ => by rw [h, h']⟩

namespace Isa

variable {w : Nat} {S : Isa w} {bs cs : List Byte} {insn : S.Insn}

theorem disassembleFrom_append (bs cs : List Byte) :
    S.disassembleFrom bs.length (bs ++ cs) = S.disassemble cs := by
  induction bs with
  | nil => rfl
  | cons b bs ih => exact ih

theorem Encodes.disassemble (h : S.Encodes bs insn) (cs : List Byte) :
    S.disassemble (bs ++ cs) = (S.disassemble cs).map (insn :: ·) := by
  obtain ⟨hdecode, hpos, -⟩ := h
  have happend : S.decode (bs ++ cs) = some (insn, bs.length) := S.decode_append hdecode
  cases bs with
  | nil => simp at hpos
  | cons b bs =>
    unfold Isa.disassemble
    rw [List.cons_append, disassembleFrom]
    rw [List.cons_append] at happend
    rw [happend]
    simp only [List.length_cons, disassembleFrom_append]
    rfl

/-- The cpu executes the instruction that it stands at. -/
theorem Encodes.step (h : S.Encodes bs insn) {m : Memory w} {c : S.Cpu}
    (hcode : CodeAt m (S.pc c) bs) : S.step m c = some (S.exec insn bs.length c) := by
  obtain ⟨k, hk⟩ := Nat.exists_eq_add_of_le h.fits
  unfold Isa.step
  rw [hk, read_append, hcode, S.decode_append h.decode]

/-- One instruction of code that goes on behind it. -/
theorem Encodes.run_succ (h : S.Encodes bs insn) {m : Memory w} {c : S.Cpu}
    (hcode : CodeAt m (S.pc c) bs) (k : Nat) :
    S.run m (k + 1) c = S.run m k (S.exec insn bs.length c) := by
  rw [run, h.step hcode]
  rfl

end Isa

end isa
