-- The interface of the opcode generators, and the helpers that the generators
-- share (priv/IOpcodeGenerator.h, priv/Util.h).
import Eforce.ByteMemory
import Eforce.Outcome

namespace eforce

open byte_memory

/-- A generator of the code that throws `pError` when it runs at `fnStart`.
Every generator fills in a template, so all its code has one size. -/
structure IOpcodeGenerator (w : Nat) where
  getThrowOpcode : (fnStart throwFn pError : Addr w) → Except Error (List Byte)
  size : Nat
  length_eq : ∀ {fnStart throwFn pError code},
    getThrowOpcode fnStart throwFn pError = .ok code → code.length = size

/-- The code of a generator gives away the exception that it throws. -/
def IOpcodeGenerator.Carries {w : Nat} (g : IOpcodeGenerator w) : Prop :=
  ∀ fnStart throwFn p q code, g.getThrowOpcode fnStart throwFn p = .ok code →
    g.getThrowOpcode fnStart throwFn q = .ok code → p = q

/-- The code of a generator depends on the distance to the throw helper only,
wherever the image is, as long as neither the helper nor the first `room`
bytes of the function wrap around. -/
def IOpcodeGenerator.Relative {w : Nat} (g : IOpcodeGenerator w) (room : Nat) : Prop :=
  ∀ (fn helper p B B' : Addr w), fn.toNat + room + B.toNat < 2 ^ w →
    fn.toNat + room + B'.toNat < 2 ^ w → helper.toNat + B.toNat < 2 ^ w →
    helper.toNat + B'.toNat < 2 ^ w →
    g.getThrowOpcode (fn + B) (helper + B) p = g.getThrowOpcode (fn + B') (helper + B') p

/-- The generator for a platform that has none, as a build with `NDEBUG` has it:
it gives no code. In a build without, its assertion aborts the process. -/
def OpcodeGeneratorFallback (w : Nat) : IOpcodeGenerator w where
  getThrowOpcode _ _ _ := .ok []
  size := 0
  length_eq h := by cases h; rfl

/-- `Difference` of two pointers. The result is a `ptrdiff_t`. -/
def difference {w : Nat} (a b : Addr w) : BitVec w := if a > b then a - b else b - a

/-- The `n` bytes of a value as a little endian store leaves them. -/
def storeLe {w : Nat} (n : Nat) (x : BitVec w) : List Byte :=
  (List.range n).map fun i => x.extractLsb' (8 * i) 8

@[simp] theorem length_storeLe {w : Nat} (n : Nat) (x : BitVec w) : (storeLe n x).length = n := by
  simp [storeLe]

/-! ## Instructions of the ARM templates -/

/-- The four bytes of one instruction, as they stand in memory. -/
structure Insn where
  b0 : Byte
  b1 : Byte
  b2 : Byte
  b3 : Byte
  deriving DecidableEq, Repr

def Insn.bytes (insn : Insn) : List Byte := [insn.b0, insn.b1, insn.b2, insn.b3]

@[simp] theorem Insn.length_bytes (insn : Insn) : insn.bytes.length = 4 := rfl

/-- The instruction word, stored little endian. -/
def Insn.word (insn : Insn) : BitVec 32 :=
  insn.b0.setWidth 32 ||| insn.b1.setWidth 32 <<< 8 ||| insn.b2.setWidth 32 <<< 16 |||
    insn.b3.setWidth 32 <<< 24

/-! ## Stores into a template -/

/-- The bytes of `code` from index `i` on are overwritten by `bs`. -/
def storeAt (code : List Byte) (i : Nat) (bs : List Byte) : List Byte :=
  code.take i ++ bs ++ code.drop (i + bs.length)

theorem length_storeAt {code bs : List Byte} {i : Nat} (h : i + bs.length ≤ code.length) :
    (storeAt code i bs).length = code.length := by
  simp only [storeAt, List.length_append, List.length_take, List.length_drop]
  omega

theorem slice_storeAt {code bs : List Byte} {i : Nat} (h : i ≤ code.length) :
    ((storeAt code i bs).drop i).take bs.length = bs := by
  have hi : (code.take i).length = i := by simp [h]
  rw [storeAt, List.append_assoc, List.drop_append_of_le_length (by omega),
    List.drop_of_length_le (by omega)]
  simp

/-- A store behind a slice leaves the slice as it was. -/
theorem slice_storeAt_of_le {code bs : List Byte} {i n j : Nat} (h : i + n ≤ j)
    (hj : j ≤ code.length) :
    ((storeAt code j bs).drop i).take n = (code.drop i).take n := by
  rw [storeAt, List.append_assoc, List.drop_append_of_le_length (by simp; omega),
    List.take_append_of_le_length (by simp; omega), List.drop_take, List.take_take]
  congr 1
  omega

/-- A store of all the bytes of a value keeps the value. -/
theorem storeLe_inj {n : Nat} {x y : BitVec (8 * n)} (h : storeLe n x = storeLe n y) : x = y := by
  apply BitVec.eq_of_getLsbD_eq
  intro i hi
  have hbyte : x.extractLsb' (8 * (i / 8)) 8 = y.extractLsb' (8 * (i / 8)) 8 := by
    have := congrArg (fun l => l[i / 8]?) h
    simpa [storeLe, show i / 8 < n by omega] using this
  have hbit := congrArg (fun b : BitVec 8 => b.getLsbD (i % 8)) hbyte
  simpa [BitVec.getLsbD_extractLsb', Nat.mod_lt, Nat.div_add_mod] using hbit

end eforce
