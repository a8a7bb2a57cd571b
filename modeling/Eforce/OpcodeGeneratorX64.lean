-- The x86-64 generator (OpcodeGeneratorX64.cpp): a `movabs` of the exception
-- pointer and a relative `jmp` to the throw helper.
import Eforce.IOpcodeGenerator

namespace eforce.opcode_generator_x64

open byte_memory

/-- The template: `movabs rdi` with a null pointer, then `jmp` with offset 0. -/
def kDoThrow : List Byte := [
  0x48, 0xbf, 0x00, 0x00, 0x00, 0x00, 0x00,
  0x00, 0x00, 0x00,
  0xe9, 0x00, 0x00, 0x00, 0x00]

/-- `static_cast<uint32_t>(std::abs(std::numeric_limits<int32_t>::min()))`:
the absolute value of the least `int32_t` wraps around to itself. -/
def kMaxOffset : BitVec 64 := ((BitVec.intMin 32).abs).setWidth 64

def getThrowOpcode (fnStart throwFn pError : Addr 64) : Except Error (List Byte) :=
  let fnEnd := fnStart + BitVec.ofNat 64 kDoThrow.length
  let absThrowFnOffset := difference throwFn fnEnd
  if absThrowFnOffset > kMaxOffset then
    .error (.runtimeError "Cannot generate opcode")
  else
    let throwFnOffset : BitVec 32 :=
      if throwFn > fnEnd then absThrowFnOffset.setWidth 32 else -absThrowFnOffset.setWidth 32
    .ok (storeAt (storeAt kDoThrow 2 (storeLe 8 pError)) 11 (storeLe 4 throwFnOffset))

example : kMaxOffset = 0x80000000 := by decide

example : getThrowOpcode 0x401000 0x400000 0x11223344 = .ok [0x48, 0xbf, 0x44, 0x33, 0x22, 0x11,
    0x00, 0x00, 0x00, 0x00, 0xe9, 0xf1, 0xef, 0xff, 0xff] := by decide

theorem getThrowOpcode_length {fnStart throwFn pError : Addr 64} {code : List Byte}
    (h : getThrowOpcode fnStart throwFn pError = .ok code) : code.length = kDoThrow.length := by
  unfold getThrowOpcode at h
  dsimp only at h
  split at h
  · cases h
  · cases h
    rw [length_storeAt, length_storeAt]
    · simp [kDoThrow]
    · rw [length_storeAt] <;> simp [kDoThrow]

/-- The bytes behind the `movabs` opcode are the pointer. -/
theorem pointer_slice (pError : Addr 64) (offset : List Byte) :
    ((storeAt (storeAt kDoThrow 2 (storeLe 8 pError)) 11 offset).drop 2).take 8 =
      storeLe 8 pError := by
  rw [slice_storeAt_of_le (by omega) (by rw [length_storeAt] <;> simp [kDoThrow])]
  have hslice : ((storeAt kDoThrow 2 (storeLe 8 pError)).drop 2).take (storeLe 8 pError).length =
      storeLe 8 pError := slice_storeAt (by simp [kDoThrow])
  simpa using hslice

/-- The code of the generator starts with the `movabs` opcode. -/
theorem movabs_slice (pError : Addr 64) (offset : List Byte) :
    (storeAt (storeAt kDoThrow 2 (storeLe 8 pError)) 11 offset).take 2 = [0x48, 0xbf] := by
  have hfar : ((storeAt (storeAt kDoThrow 2 (storeLe 8 pError)) 11 offset).drop 0).take 2 =
      ((storeAt kDoThrow 2 (storeLe 8 pError)).drop 0).take 2 :=
    slice_storeAt_of_le (by omega) (by rw [length_storeAt] <;> simp [kDoThrow])
  have hnear : ((storeAt kDoThrow 2 (storeLe 8 pError)).drop 0).take 2 =
      (kDoThrow.drop 0).take 2 := slice_storeAt_of_le (by omega) (by simp [kDoThrow])
  exact hfar.trans hnear

theorem getThrowOpcode_take {fnStart throwFn pError : Addr 64} {code : List Byte}
    (h : getThrowOpcode fnStart throwFn pError = .ok code) : code.take 2 = [0x48, 0xbf] := by
  unfold getThrowOpcode at h
  dsimp only at h
  split at h
  · cases h
  · cases h
    exact movabs_slice pError _

end opcode_generator_x64

open byte_memory opcode_generator_x64

def OpcodeGeneratorX64 : IOpcodeGenerator 64 where
  getThrowOpcode := getThrowOpcode
  size := kDoThrow.length
  length_eq := getThrowOpcode_length

theorem OpcodeGeneratorX64_carries : OpcodeGeneratorX64.Carries := by
  intro fnStart throwFn p q code hp hq
  simp only [OpcodeGeneratorX64, getThrowOpcode] at hp hq
  split at hp
  · cases hp
  rename_i hfar
  rw [if_neg hfar] at hq
  cases hp
  simp only [Except.ok.injEq] at hq
  have hpointer := congrArg (fun l : List Byte => (l.drop 2).take 8) hq
  simp only [pointer_slice] at hpointer
  exact (storeLe_inj (n := 8) hpointer).symm

/-- Without a wrap, the distance to the helper and the side that it is on are
those of the offsets. -/
theorem difference_add {fn helper B : Addr 64} (hfn : fn.toNat + 15 + B.toNat < 2 ^ 64)
    (hhelper : helper.toNat + B.toNat < 2 ^ 64) :
    (helper + B > fn + B + 15 ↔ helper > fn + 15) ∧
      difference (helper + B) (fn + B + 15) = difference helper (fn + 15) := by
  have hside : helper + B > fn + B + 15 ↔ helper > fn + 15 := by bv_omega
  refine ⟨hside, ?_⟩
  unfold difference
  by_cases h : helper > fn + 15
  · rw [if_pos (hside.2 h), if_pos h]
    ring
  · rw [if_neg (mt hside.1 h), if_neg h]
    ring

theorem OpcodeGeneratorX64_relative : OpcodeGeneratorX64.Relative 15 := by
  intro fn helper p B B' hfn hfn' hhelper hhelper'
  obtain ⟨hside, hdist⟩ := difference_add hfn hhelper
  obtain ⟨hside', hdist'⟩ := difference_add hfn' hhelper'
  have hsize : BitVec.ofNat 64 kDoThrow.length = 15 := rfl
  simp only [OpcodeGeneratorX64, getThrowOpcode, hsize, hdist, hdist', hside, hside']

end eforce
