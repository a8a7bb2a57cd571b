-- The architecture that the library runs on, and the generator for it
-- (`GetOpcodeGenerator` in ExceptionForcer.cpp).
import Eforce.OpcodeGeneratorX64
import Eforce.OpcodeGeneratorThumb
import Eforce.OpcodeGeneratorAarch64

namespace eforce

inductive Arch
  | amd64
  | armThumb2
  | aarch64
  | fallback
  deriving DecidableEq, Repr

/-- The bits of an address. -/
def Arch.width : Arch → Nat
  | .amd64 => 64
  | .armThumb2 => 32
  | .aarch64 => 64
  | .fallback => 64

def getOpcodeGenerator : (arch : Arch) → IOpcodeGenerator arch.width
  | .amd64 => OpcodeGeneratorX64
  | .armThumb2 => OpcodeGeneratorThumb
  | .aarch64 => OpcodeGeneratorAarch64
  | .fallback => OpcodeGeneratorFallback 64

/-- The code of every real generator gives away its exception. -/
theorem getOpcodeGenerator_carries {arch : Arch} (h : arch ≠ .fallback) :
    (getOpcodeGenerator arch).Carries := by
  cases arch with
  | amd64 => exact OpcodeGeneratorX64_carries
  | armThumb2 => exact OpcodeGeneratorThumb_carries
  | aarch64 => exact OpcodeGeneratorAarch64_carries
  | fallback => exact absurd rfl h

/-- Only the x86-64 generator compares addresses. -/
theorem getOpcodeGenerator_relative {arch : Arch} (h : arch ≠ .amd64) :
    (getOpcodeGenerator arch).Relative 0 := by
  cases arch with
  | amd64 => exact absurd rfl h
  | armThumb2 => exact OpcodeGeneratorThumb_relative
  | aarch64 => exact OpcodeGeneratorAarch64_relative
  | fallback => exact fun _ _ _ _ _ _ _ _ _ => rfl

end eforce
