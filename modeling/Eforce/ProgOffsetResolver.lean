-- Addresses of the running program and offsets into its image
-- (priv/ProgOffsetResolver.h). Null stays null in both directions.
import Eforce.Outcome

namespace eforce

structure ProgOffsetResolver (w : Nat) where
  progStartAddr : Addr w
  deriving DecidableEq, Repr

namespace ProgOffsetResolver

variable {w : Nat}

def toOffset (r : ProgOffsetResolver w) (addr : Addr w) : Addr w :=
  if addr = 0 then 0 else addr - r.progStartAddr

def fromOffset (r : ProgOffsetResolver w) (addr : Addr w) : Addr w :=
  if addr = 0 then 0 else addr + r.progStartAddr

theorem toOffset_of_ne {r : ProgOffsetResolver w} {addr : Addr w} (h : addr ≠ 0) :
    r.toOffset addr = addr - r.progStartAddr := if_neg h

theorem fromOffset_of_ne {r : ProgOffsetResolver w} {addr : Addr w} (h : addr ≠ 0) :
    r.fromOffset addr = addr + r.progStartAddr := if_neg h

end ProgOffsetResolver

end eforce
