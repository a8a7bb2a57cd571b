-- Where the functions of the throws lie. The end of a function comes from the
-- next symbol of any section, and still two functions of one section never
-- overlap, so the laws of the runs need no more than the symbol table.
import Eforce.Listing
import Eforce.PatchBounds

namespace eforce

open byte_memory

variable {w : Nat}

namespace Env

/-- The functions with the registered throws lie in one section. The other
symbols may be anywhere. -/
def ThrowsInOneSection (env : Env w) : Prop :=
  ∀ loc loc' thisFn nextFn thisFn' nextFn', env.Registered loc → env.Registered loc' →
    neighbours env.sortedFunctions (env.resolver.toOffset loc) = some (thisFn, nextFn) →
    neighbours env.sortedFunctions (env.resolver.toOffset loc') = some (thisFn', nextFn') →
    thisFn.sect = thisFn'.sect

/-- The bounds of a function, as numbers. -/
theorem Defined.extent {env : Env w} (h : env.Defined) {loc start stop : Addr w}
    (hext : env.extentAt loc = some (start, stop)) :
    ∃ thisFn nextFn,
      neighbours env.sortedFunctions (env.resolver.toOffset loc) = some (thisFn, nextFn) ∧
      start.toNat = thisFn.value.toNat + thisFn.sect.filepos.toNat + env.progStartAddr.toNat ∧
      stop.toNat = nextFn.value.toNat + thisFn.sect.filepos.toNat + env.progStartAddr.toNat ∧
      start.toNat ≤ stop.toNat := by
  unfold extentAt at hext
  obtain ⟨⟨thisFn, nextFn⟩, hn, hpair⟩ := Option.map_eq_some_iff.1 hext
  cases hpair
  obtain ⟨hthis, hnext⟩ := mem_of_neighbours hn
  have hvalue : thisFn.value.toNat ≤ nextFn.value.toNat := value_le_next hn
  have hstart := h.toNat_fromOffset hthis hthis (h.offset_ne _ hthis)
  have hstop := h.toNat_fromOffset hnext hthis (h.end_ne hn)
  refine ⟨thisFn, nextFn, hn, hstart, hstop, ?_⟩
  rw [Asymbol.offset, hstart, hstop]
  omega

/-- No listed function ends before it starts. -/
theorem Defined.listed_start_le_stop {env : Env w} (h : env.Defined)
    {infos : List (ExceptionInfo w)} (hlist : env.listing env.throwInfos = .ok infos)
    {info : ExceptionInfo w} (hinfo : info ∈ infos) : info.parentFn.start ≤ info.parentFn.stop := by
  obtain ⟨throwInfo, -, func, hfunc, rfl⟩ := Env.mem_listing hlist hinfo
  obtain ⟨_, _, -, -, -, hle⟩ := h.extent (Env.extentAt_of_functionAt hfunc)
  exact BitVec.le_def.2 hle

end Env

/-- A function that starts before another one of its section ends there at the
latest. -/
theorem stop_le_start {env : Env w} (h : env.Defined) {loc loc' start stop start' stop' : Addr w}
    (hsect : env.ThrowsInOneSection) (hreg : env.Registered loc) (hreg' : env.Registered loc')
    (hext : env.extentAt loc = some (start, stop))
    (hext' : env.extentAt loc' = some (start', stop'))
    (hlt : start.toNat < start'.toNat) :
    Apart start (stop - start).toNat start' (stop' - start').toNat := by
  obtain ⟨thisFn, nextFn, hn, hstart, hstop, hle⟩ := h.extent hext
  obtain ⟨thisFn', nextFn', hn', hstart', hstop', hle'⟩ := h.extent hext'
  have hsame := hsect _ _ _ _ _ _ hreg hreg' hn hn'
  rw [← hsame] at hstart'
  have hnext : nextFn.value.toNat ≤ thisFn'.value.toNat := by
    refine next_value_le hn (mem_of_neighbours hn').1 ?_
    exact BitVec.lt_def.2 (by omega)
  have hsize : (stop - start).toNat = stop.toNat - start.toNat :=
    BitVec.toNat_sub_of_le (BitVec.le_def.2 hle)
  have hsize' : (stop' - start').toNat = stop'.toNat - start'.toNat :=
    BitVec.toNat_sub_of_le (BitVec.le_def.2 hle')
  have hbound := stop'.isLt
  exact apart_of_le (by omega) (by omega)

/-- The laws of the runs hold of a program with all throws in one section. -/
theorem Env.ThrowsInOneSection.disjoint {env : Env w} (hsect : env.ThrowsInOneSection)
    (h : env.Defined) : env.FunctionsDisjoint := by
  intro loc loc' start stop start' stop' hreg hreg' hext hext'
  rcases Nat.lt_trichotomy start.toNat start'.toNat with hlt | heq | hgt
  · exact Or.inr (stop_le_start h hsect hreg hreg' hext hext' hlt)
  · exact Or.inl (BitVec.eq_of_toNat_eq heq)
  · exact Or.inr (stop_le_start h hsect hreg' hreg hext' hext hgt).symm

end eforce
