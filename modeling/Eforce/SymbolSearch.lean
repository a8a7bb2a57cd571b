-- When the lookup of a function is right. The symbols are sorted by their
-- values and searched by their places in the file, so the search may end
-- anywhere, also in front of the first symbol and behind the last one.
import Mathlib.Order.Bounds.Basic
import Eforce.PatchBounds

namespace eforce

open partition_point

variable {w : Nat}

/-! ## Where the search ends -/

/-- Both symbols are there when the search ends between the first symbol and the
end. -/
theorem neighbours_eq_some_iff {symbols : List (Asymbol w)} {offset : Addr w}
    {thisFn nextFn : Asymbol w} : neighbours symbols offset = some (thisFn, nextFn) ↔
      ∃ k, symbols[k]? = some thisFn ∧ symbols[k + 1]? = some nextFn ∧
        partitionPoint (isBelow symbols offset) symbols.length = k + 1 := by
  unfold neighbours
  cases partitionPoint (isBelow symbols offset) symbols.length with
  | zero => simp
  | succ i =>
    dsimp only
    refine ⟨?_, ?_⟩
    · intro h
      split at h
      · rename_i t n ht hn
        cases h
        exact ⟨i, ht, hn, rfl⟩
      · cases h
    · rintro ⟨k, hthis, hnext, hk⟩
      cases hk
      rw [hthis, hnext]

theorem neighbours_ne_none_iff {symbols : List (Asymbol w)} {offset : Addr w} :
    neighbours symbols offset ≠ none ↔
      partitionPoint (isBelow symbols offset) symbols.length ≠ 0 ∧
        partitionPoint (isBelow symbols offset) symbols.length ≠ symbols.length := by
  have hle := partitionPoint_le (isBelow symbols offset) symbols.length
  refine ⟨?_, ?_⟩
  · intro h
    obtain ⟨⟨thisFn, nextFn⟩, hn⟩ := Option.ne_none_iff_exists'.1 h
    obtain ⟨k, -, hnext, hk⟩ := neighbours_eq_some_iff.1 hn
    obtain ⟨hlt, -⟩ := List.getElem?_eq_some_iff.1 hnext
    omega
  · rintro ⟨hfront, hback⟩
    obtain ⟨k, hk⟩ := Nat.exists_eq_succ_of_ne_zero hfront
    have hlt : k + 1 < symbols.length := by omega
    have hsome : neighbours symbols offset = some (symbols[k], symbols[k + 1]) :=
      neighbours_eq_some_iff.2 ⟨k, List.getElem?_eq_getElem _, List.getElem?_eq_getElem hlt, hk⟩
    rw [hsome]
    simp

/-- On its way to the front of the symbols the search would see one below the
offset, and on its way to their end one that is not. -/
def Turns (symbols : List (Asymbol w)) (offset : Addr w) : Prop :=
  (∃ m ∈ probes symbols.length 0, isBelow symbols offset m = true) ∧
    ∃ m ∈ probes symbols.length symbols.length, isBelow symbols offset m = false

theorem turns_iff {symbols : List (Asymbol w)} {offset : Addr w} :
    Turns symbols offset ↔ neighbours symbols offset ≠ none := by
  unfold Turns
  rw [← partitionPoint_ne_zero_iff, ← partitionPoint_ne_length_iff, neighbours_ne_none_iff]

/-- The code has undefined behaviour when one of the symbols is not there. -/
theorem containingFunction_undefined_iff {env : ElfEnv w} {symbols : List (Asymbol w)}
    {offset : Addr w} : containingFunction env symbols offset = .error .undefined ↔
      neighbours symbols offset = none := by
  unfold containingFunction
  cases neighbours symbols offset with
  | none => simp
  | some found =>
    obtain ⟨thisFn, nextFn⟩ := found
    cases hname : env.demangle thisFn.name <;> simp [hname]

theorem containingFunction_ok_iff {env : ElfEnv w} {symbols : List (Asymbol w)} {offset : Addr w}
    {fn : FunctionT w} : containingFunction env symbols offset = .ok fn ↔
      ∃ thisFn nextFn, neighbours symbols offset = some (thisFn, nextFn) ∧
        env.demangle thisFn.name = some fn.name ∧ fn.startOffset = thisFn.offset ∧
        fn.endOffset = nextFn.value + thisFn.sect.filepos := by
  unfold containingFunction
  cases neighbours symbols offset with
  | none => simp
  | some found =>
    obtain ⟨thisFn, nextFn⟩ := found
    obtain ⟨start, stop, name⟩ := fn
    cases hname : env.demangle thisFn.name with
    | none => simp [hname]
    | some demangled =>
      simp only [hname, Except.ok.injEq, FunctionT.mk.injEq, Option.some.injEq, Prod.mk.injEq]
      refine ⟨?_, ?_⟩
      · rintro ⟨rfl, rfl, rfl⟩
        exact ⟨thisFn, nextFn, ⟨rfl, rfl⟩, hname, rfl, rfl⟩
      · rintro ⟨_, _, ⟨rfl, rfl⟩, hname', rfl, rfl⟩
        rw [hname] at hname'
        cases hname'
        exact ⟨rfl, rfl, rfl⟩

/-! ## One section -/

/-- The places in the file where a function starts. -/
def ElfEnv.functionOffsets (env : ElfEnv w) : Set (Addr w) :=
  {a | ∃ symbol ∈ env.symtab, symbol.isFunction = true ∧ symbol.offset = a}

instance (env : ElfEnv w) (a : Addr w) : Decidable (a ∈ env.functionOffsets) :=
  inferInstanceAs (Decidable (∃ symbol ∈ env.symtab, symbol.isFunction = true ∧ symbol.offset = a))

theorem mem_functionOffsets {env : ElfEnv w} {a : Addr w} :
    a ∈ env.functionOffsets ↔ ∃ symbol ∈ env.sortedFunctions, symbol.offset = a := by
  refine ⟨?_, ?_⟩
  · rintro ⟨symbol, hmem, hfn, hoffset⟩
    exact ⟨symbol, mem_sortedFunctions.2 ⟨hmem, hfn⟩, hoffset⟩
  · rintro ⟨symbol, hmem, hoffset⟩
    obtain ⟨hmem, hfn⟩ := mem_sortedFunctions.1 hmem
    exact ⟨symbol, hmem, hfn, hoffset⟩

/-- What a scan of all function symbols finds: the last start below the offset,
and the first one that is not below it. -/
structure ScanFinds (env : ElfEnv w) (offset start stop : Addr w) : Prop where
  start_greatest : IsGreatest {a | a ∈ env.functionOffsets ∧ a < offset} start
  stop_least : IsLeast {a | a ∈ env.functionOffsets ∧ ¬ a < offset} stop

/-- All function symbols lie in one section, at different values. -/
structure ElfEnv.OneSection (env : ElfEnv w) : Prop where
  sect_eq : ∀ a ∈ env.sortedFunctions, ∀ b ∈ env.sortedFunctions, a.sect = b.sect
  value_ne : ∀ a ∈ env.sortedFunctions, ∀ b ∈ env.sortedFunctions, a.value = b.value → a = b

theorem toNat_add_cases (x y : BitVec w) : (x + y).toNat = x.toNat + y.toNat ∨
    (x + y).toNat + 2 ^ w = x.toNat + y.toNat := by
  have hx := x.isLt
  have hy := y.isLt
  rw [BitVec.toNat_add]
  rcases Nat.lt_or_ge (x.toNat + y.toNat) (2 ^ w) with hlt | hge
  · left
    exact Nat.mod_eq_of_lt hlt
  · right
    rw [Nat.mod_eq_sub_mod hge, Nat.mod_eq_of_lt (by omega)]
    omega

/-- A number that is between two others after a move by `f` was between them
before. The move may wrap around anywhere else. -/
theorem between_of_add {x y z f : BitVec w} (hxz : x ≤ z) (hxy : x + f < y + f)
    (hyz : y + f < z + f) : x < y ∧ y < z := by
  rw [BitVec.lt_def] at hxy hyz ⊢
  rw [BitVec.le_def] at hxz
  rw [BitVec.lt_def]
  have hx := toNat_add_cases x f
  have hy := toNat_add_cases y f
  have hz := toNat_add_cases z f
  have := (x + f).isLt
  have := (y + f).isLt
  have := (z + f).isLt
  have := x.isLt
  have := y.isLt
  have := z.isLt
  generalize 2 ^ w = W at *
  omega

namespace ElfEnv.OneSection

variable {env : ElfEnv w} (h : env.OneSection) {offset : Addr w} {thisFn nextFn : Asymbol w}
  (hn : neighbours env.sortedFunctions offset = some (thisFn, nextFn))

include h hn

/-- The end of the function is where the next function starts. -/
theorem end_eq : nextFn.value + thisFn.sect.filepos = nextFn.offset := by
  obtain ⟨hthis, hnext⟩ := mem_of_neighbours hn
  rw [Asymbol.offset, h.sect_eq _ hthis _ hnext]

/-- No function starts between the two that a lookup finds. -/
theorem none_between {a : Addr w} (ha : a ∈ env.functionOffsets) :
    ¬ (thisFn.offset < a ∧ a < nextFn.offset) := by
  rintro ⟨hlow, hhigh⟩
  obtain ⟨hthis, hnext⟩ := mem_of_neighbours hn
  obtain ⟨other, hother, rfl⟩ := mem_functionOffsets.1 ha
  unfold Asymbol.offset at hlow hhigh
  rw [h.sect_eq _ hother _ hthis] at hlow hhigh
  rw [h.sect_eq _ hnext _ hthis] at hhigh
  obtain ⟨hthis', hnext'⟩ := between_of_add (value_le_next hn) hlow hhigh
  have hle := next_value_le hn hother hthis'
  exact absurd hnext' (BitVec.not_lt.2 hle)

/-- In one section, the lookup is a scan. -/
theorem scanFinds : ScanFinds env offset thisFn.offset nextFn.offset := by
  obtain ⟨hthis, hnext⟩ := mem_of_neighbours hn
  obtain ⟨i, -, -, hlow, hhigh⟩ := neighbours_spec hn
  refine ⟨⟨⟨mem_functionOffsets.2 ⟨_, hthis, rfl⟩, hlow⟩, ?_⟩,
    ⟨⟨mem_functionOffsets.2 ⟨_, hnext, rfl⟩, hhigh⟩, ?_⟩⟩
  · rintro a ⟨ha, halow⟩
    by_contra hgt
    apply h.none_between hn ha
    exact ⟨BitVec.not_le.1 hgt, Nat.lt_of_lt_of_le halow (BitVec.not_lt.1 hhigh)⟩
  · rintro a ⟨ha, hahigh⟩
    by_contra hgt
    apply h.none_between hn ha
    exact ⟨Nat.lt_of_lt_of_le hlow (BitVec.not_lt.1 hahigh), BitVec.not_le.1 hgt⟩

end ElfEnv.OneSection

/-- No function starts behind the last address. -/
def ElfEnv.StartsFit (env : ElfEnv w) : Prop :=
  ∀ symbol ∈ env.sortedFunctions, symbol.value.toNat + symbol.sect.filepos.toNat < 2 ^ w

theorem ElfEnv.OneSection.offset_le {env : ElfEnv w} (h : env.OneSection) (hfits : env.StartsFit)
    {i j : Nat} {a b : Asymbol w} (ha : env.sortedFunctions[i]? = some a)
    (hb : env.sortedFunctions[j]? = some b) (hij : i ≤ j) : a.offset ≤ b.offset := by
  have hvalue := value_le_of_index ha hb hij
  have hmema := List.mem_of_getElem? ha
  have hmemb := List.mem_of_getElem? hb
  have hfita := hfits a hmema
  have hfitb := hfits b hmemb
  rw [BitVec.le_def] at hvalue ⊢
  unfold Asymbol.offset
  rw [BitVec.toNat_add, BitVec.toNat_add, Nat.mod_eq_of_lt hfita, Nat.mod_eq_of_lt hfitb,
    h.sect_eq a hmema b hmemb]
  omega

/-- In one section that wraps nowhere, the search finds its way. -/
theorem ElfEnv.OneSection.turns {env : ElfEnv w} (h : env.OneSection) (hfits : env.StartsFit)
    {offset : Addr w} (hbelow : ∃ a ∈ env.functionOffsets, a < offset)
    (hbehind : ∃ a ∈ env.functionOffsets, ¬ a < offset) : Turns env.sortedFunctions offset := by
  obtain ⟨a, ha, hlow⟩ := hbelow
  obtain ⟨b, hb, hhigh⟩ := hbehind
  obtain ⟨first, hfirst, rfl⟩ := mem_functionOffsets.1 ha
  obtain ⟨last, hlast, rfl⟩ := mem_functionOffsets.1 hb
  obtain ⟨i, hi⟩ := List.getElem?_of_mem hfirst
  obtain ⟨j, hj⟩ := List.getElem?_of_mem hlast
  obtain ⟨hilt, -⟩ := List.getElem?_eq_some_iff.1 hi
  obtain ⟨hjlt, -⟩ := List.getElem?_eq_some_iff.1 hj
  rw [turns_iff, neighbours_ne_none_iff]
  refine ⟨?_, ?_⟩
  · intro hfront
    have hzero := partitionPoint_at hfront (by omega)
    have hsome := List.getElem?_eq_getElem (l := env.sortedFunctions) (i := 0) (by omega)
    rw [isBelow_eq hsome] at hzero
    have hle := h.offset_le hfits hsome hi (Nat.zero_le i)
    exact of_decide_eq_false hzero (Nat.lt_of_le_of_lt hle hlow)
  · intro hback
    obtain ⟨n, hlength⟩ :=
      Nat.exists_eq_succ_of_ne_zero (n := env.sortedFunctions.length) (by omega)
    have hsome := List.getElem?_eq_getElem (l := env.sortedFunctions) (i := n) (by omega)
    have hbefore := partitionPoint_before (hback.trans hlength)
    rw [isBelow_eq hsome] at hbefore
    have hle := h.offset_le hfits hj hsome (by omega)
    exact hhigh (Nat.lt_of_le_of_lt hle (of_decide_eq_true hbefore))

/-! ## Many sections -/

/-- The two functions are neighbours in the file, and the offset is behind the
start of `f` and not behind that of `g`. -/
structure ElfEnv.Around (env : ElfEnv w) (offset : Addr w) (f g : Asymbol w) : Prop where
  below : f.offset < offset
  behind : ¬ g.offset < offset
  none_between : ∀ a ∈ env.functionOffsets, ¬ (f.offset < a ∧ a < g.offset)

namespace ElfEnv.Around

variable {env : ElfEnv w} {offset : Addr w} {f g : Asymbol w} (h : env.Around offset f g)

include h

/-- A function starts below the offset when it does not start behind `f`. -/
theorem below_iff {a : Addr w} (ha : a ∈ env.functionOffsets) : a < offset ↔ a ≤ f.offset := by
  refine ⟨?_, ?_⟩
  · intro hlow
    by_contra hgt
    refine h.none_between a ha ⟨BitVec.not_le.1 hgt, ?_⟩
    exact Nat.lt_of_lt_of_le hlow (BitVec.not_lt.1 h.behind)
  · exact fun hle => Nat.lt_of_le_of_lt hle h.below

theorem scanFinds (hf : f ∈ env.sortedFunctions) (hg : g ∈ env.sortedFunctions) :
    ScanFinds env offset f.offset g.offset := by
  refine ⟨⟨⟨mem_functionOffsets.2 ⟨f, hf, rfl⟩, h.below⟩, ?_⟩,
    ⟨⟨mem_functionOffsets.2 ⟨g, hg, rfl⟩, h.behind⟩, ?_⟩⟩
  · rintro a ⟨ha, hlow⟩
    exact (h.below_iff ha).1 hlow
  · rintro a ⟨ha, hhigh⟩
    by_contra hlt
    refine h.none_between a ha ⟨?_, BitVec.not_le.1 hlt⟩
    exact Nat.lt_of_lt_of_le h.below (BitVec.not_lt.1 hhigh)

end ElfEnv.Around

/-- What a scan finds are neighbours in the file. -/
theorem ScanFinds.around {env : ElfEnv w} {offset : Addr w} {f g : Asymbol w}
    (h : ScanFinds env offset f.offset g.offset) : env.Around offset f g := by
  refine ⟨h.start_greatest.1.2, h.stop_least.1.2, ?_⟩
  rintro a ha ⟨hlow, hhigh⟩
  by_cases hbelow : a < offset
  · exact BitVec.not_le.2 hlow (h.start_greatest.2 ⟨ha, hbelow⟩)
  · exact BitVec.not_le.2 hhigh (h.stop_least.2 ⟨ha, hbelow⟩)

/-- The symbols that the search visits on its way behind the symbol `f` at `k`
stand on the same side of it in the array, where the values decide, as they do
in the file. -/
def OrderedOnTheWay (symbols : List (Asymbol w)) (k : Nat) (f : Asymbol w) : Prop :=
  ∀ m ∈ probes symbols.length (k + 1), ∀ symbol ∈ symbols[m]?, symbol.offset ≤ f.offset ↔ m ≤ k

/-- `g` is in the section of `f` and has the value of `next`. Or `g` is in
another section, and the values are as far apart as the two sections. -/
def Matches (f g next : Asymbol w) : Prop :=
  (g.sect.filepos = f.sect.filepos ∧ next.value = g.value) ∨
    (g.sect.filepos ≠ f.sect.filepos ∧ next.value - g.value = g.sect.filepos - f.sect.filepos)

theorem matches_iff {f g next : Asymbol w} :
    Matches f g next ↔ next.value + f.sect.filepos = g.offset := by
  have hdist : next.value + f.sect.filepos = g.offset ↔
      next.value - g.value = g.sect.filepos - f.sect.filepos := by
    unfold Asymbol.offset
    rw [sub_eq_sub_iff_add_eq_add, add_comm g.sect.filepos]
  rw [hdist]
  unfold Matches
  by_cases hsect : g.sect.filepos = f.sect.filepos
  · rw [hsect, sub_self, sub_eq_zero]
    simp
  · simp [hsect]

/-- On a way that is ordered, the search goes as the offset says. -/
theorem orderedOnTheWay_iff {env : ElfEnv w} {offset : Addr w} {f g : Asymbol w} {k : Nat}
    (h : env.Around offset f g) : OrderedOnTheWay env.sortedFunctions k f ↔
      ∀ m ∈ probes env.sortedFunctions.length (k + 1),
        isBelow env.sortedFunctions offset m = decide (m < k + 1) := by
  unfold OrderedOnTheWay
  refine forall₂_congr fun m hm => ?_
  have hsome := List.getElem?_eq_getElem (mem_probes_lt hm)
  have hmem := mem_functionOffsets.2 ⟨_, List.getElem_mem (mem_probes_lt hm), rfl⟩
  rw [isBelow_eq hsome, hsome]
  simp only [Option.mem_def, Option.some.injEq, forall_eq', decide_eq_decide, h.below_iff hmem,
    Nat.lt_succ_iff]

/-! ## The lookup -/

/-- The lookup gives what a scan gives exactly when there are neighbours in the
file around the offset, such that the order of the values does not mislead the
search for the first one, and the next value is that of the second one. -/
theorem a_lookup_is_a_scan_iff (env : ElfEnv w) (elf : Elf w) (h : elf.Cached env)
    (offset : Addr w) :
    (∃ fn, (elf.getContainingFunction env offset).1 = .ok fn ∧
        ScanFinds env offset fn.startOffset fn.endOffset) ↔
      ∃ k f g next, env.sortedFunctions[k]? = some f ∧ g ∈ env.sortedFunctions ∧
        env.sortedFunctions[k + 1]? = some next ∧ env.Around offset f g ∧
        OrderedOnTheWay env.sortedFunctions k f ∧ Matches f g next ∧
        env.demangle f.name ≠ none := by
  rw [h.getContainingFunction]
  refine ⟨?_, ?_⟩
  · rintro ⟨fn, hok, hscan⟩
    obtain ⟨f, next, hn, hname, hstart, hend⟩ := containingFunction_ok_iff.1 hok
    obtain ⟨k, hf, hnext, hk⟩ := neighbours_eq_some_iff.1 hn
    obtain ⟨hlt, -⟩ := List.getElem?_eq_some_iff.1 hnext
    rw [partitionPoint_eq_iff (Nat.le_of_lt hlt)] at hk
    rw [hstart, hend] at hscan
    obtain ⟨g, hg, hoffset⟩ := mem_functionOffsets.1 hscan.stop_least.1.1
    rw [← hoffset] at hscan
    have haround := hscan.around
    exact ⟨k, f, g, next, hf, hg, hnext, haround, (orderedOnTheWay_iff haround).2 hk,
      matches_iff.2 hoffset.symm, by simp [hname]⟩
  · rintro ⟨k, f, g, next, hf, hg, hnext, haround, hordered, hmatches, hname⟩
    obtain ⟨hlt, -⟩ := List.getElem?_eq_some_iff.1 hnext
    obtain ⟨name, hname⟩ := Option.ne_none_iff_exists'.1 hname
    have hk := (orderedOnTheWay_iff haround).1 hordered
    rw [← partitionPoint_eq_iff (Nat.le_of_lt hlt)] at hk
    have hn := neighbours_eq_some_iff.2 ⟨k, hf, hnext, hk⟩
    have hscan := haround.scanFinds (List.mem_of_getElem? hf) hg
    rw [← matches_iff.1 hmatches] at hscan
    refine ⟨⟨f.offset, next.value + f.sect.filepos, name⟩, ?_, hscan⟩
    exact containingFunction_ok_iff.2 ⟨f, next, hn, hname, rfl, rfl⟩

/-- Two functions of one section, and one of a later section with a smaller
value. The search does not visit that one. -/
def laterSection : ElfEnv 64 :=
  .ofSymtab [⟨"f", 0x10, { filepos := 0x1000 }, 0x8⟩, ⟨"g", 0x20, { filepos := 0x1000 }, 0x8⟩,
    ⟨"h", 0x5, { filepos := 0x2000 }, 0x8⟩]

theorem a_lookup_is_a_scan_iff_sample :
    ∃ fn, (({} : Elf 64).getContainingFunction laterSection 0x1018).1 = .ok fn ∧
      ScanFinds laterSection 0x1018 fn.startOffset fn.endOffset := by
  refine (a_lookup_is_a_scan_iff laterSection {} (Elf.cached_empty _) 0x1018).2
    ⟨1, ⟨"f", 0x10, { filepos := 0x1000 }, 0x8⟩, ⟨"g", 0x20, { filepos := 0x1000 }, 0x8⟩,
      ⟨"g", 0x20, { filepos := 0x1000 }, 0x8⟩, rfl, by decide, rfl, ?_, ?_, Or.inl ⟨rfl, rfl⟩,
      by decide⟩
  · refine ⟨by decide, by decide, fun a ha => ?_⟩
    obtain ⟨symbol, hsymbol, rfl⟩ := mem_functionOffsets.1 ha
    revert symbol
    decide
  · unfold OrderedOnTheWay
    decide

/-- A function of one section, and behind it one of another. -/
def twoSections : ElfEnv 64 :=
  .ofSymtab [⟨"f", 0x10, { filepos := 0x1000 }, 0x8⟩, ⟨"g", 0x20, { filepos := 0x2000 }, 0x8⟩]

/-- The end of the first function is the value of the second one, in the wrong
section. -/
theorem the_end_is_in_the_wrong_section :
    (∃ a ∈ twoSections.functionOffsets, a < 0x1800) ∧
      (∃ a ∈ twoSections.functionOffsets, ¬ a < 0x1800) ∧
      ∃ fn, (({} : Elf 64).getContainingFunction twoSections 0x1800).1 = .ok fn ∧
        ¬ ScanFinds twoSections 0x1800 fn.startOffset fn.endOffset := by
  refine ⟨⟨0x1010, by decide, by decide⟩, ⟨0x2020, by decide, by decide⟩,
    ⟨0x1010, 0x1020, "f"⟩, rfl, ?_⟩
  intro hscan
  exact hscan.stop_least.1.2 (by decide)

/-- In one section, a lookup gives the function that contains the offset, unless
the offset is the start of a function, which the search takes for the end of
the one before. -/
theorem a_lookup_contains_its_offset_iff (env : ElfEnv w) (elf : Elf w) (h : elf.Cached env)
    (hone : env.OneSection) (offset : Addr w) (hlast : ∃ a ∈ env.functionOffsets, offset < a) :
    (∃ fn, (elf.getContainingFunction env offset).1 = .ok fn ∧
        fn.startOffset ≤ offset ∧ offset < fn.endOffset ∧
        ∀ a ∈ env.functionOffsets, ¬ (fn.startOffset < a ∧ a < fn.endOffset)) ↔
      offset ∉ env.functionOffsets ∧
        (∃ symbol ∈ env.sortedFunctions,
          IsGreatest {a | a ∈ env.functionOffsets ∧ a < offset} symbol.offset ∧
          env.demangle symbol.name ≠ none) ∧
        (env.StartsFit ∨ Turns env.sortedFunctions offset) := by
  rw [h.getContainingFunction]
  refine ⟨?_, ?_⟩
  · rintro ⟨fn, hok, -, hstop, hbetween⟩
    obtain ⟨thisFn, nextFn, hn, hname, hstart, -⟩ := containingFunction_ok_iff.1 hok
    have hscan := hone.scanFinds hn
    refine ⟨?_, ⟨thisFn, (mem_of_neighbours hn).1, hscan.start_greatest, by simp [hname]⟩, ?_⟩
    · intro hmem
      apply hbetween offset hmem
      rw [hstart]
      exact ⟨hscan.start_greatest.1.2, hstop⟩
    · right
      rw [turns_iff, hn]
      simp
  · rintro ⟨hnot, ⟨symbol, hsymbol, hgreatest, hname⟩, hfound⟩
    have hturns : Turns env.sortedFunctions offset := by
      rcases hfound with hfits | hturns
      · obtain ⟨b, hb, hlt⟩ := hlast
        exact hone.turns hfits ⟨_, hgreatest.1⟩ ⟨b, hb, fun hb' => Nat.lt_asymm hlt hb'⟩
      · exact hturns
    obtain ⟨⟨thisFn, nextFn⟩, hn⟩ := Option.ne_none_iff_exists'.1 (turns_iff.1 hturns)
    obtain ⟨hthis, hnext⟩ := mem_of_neighbours hn
    have hscan := hone.scanFinds hn
    have hsame : symbol = thisFn := by
      apply hone.value_ne _ hsymbol _ hthis
      have hoffset : symbol.offset = thisFn.offset :=
        BitVec.le_antisymm (hscan.start_greatest.2 hgreatest.1) (hgreatest.2 hscan.start_greatest.1)
      unfold Asymbol.offset at hoffset
      rw [hone.sect_eq _ hsymbol _ hthis] at hoffset
      exact add_right_cancel hoffset
    subst hsame
    obtain ⟨name, hname⟩ := Option.ne_none_iff_exists'.1 hname
    have hne : nextFn.offset ≠ offset := fun he =>
      hnot (mem_functionOffsets.2 ⟨nextFn, hnext, he⟩)
    refine ⟨⟨symbol.offset, nextFn.value + symbol.sect.filepos, name⟩,
      containingFunction_ok_iff.2 ⟨symbol, nextFn, hn, hname, rfl, rfl⟩, ?_, ?_, ?_⟩
    · exact BitVec.le_of_lt hgreatest.1.2
    · rw [hone.end_eq hn]
      by_contra hle
      apply hne
      exact BitVec.le_antisymm (BitVec.not_lt.1 hle) (BitVec.not_lt.1 hscan.stop_least.1.2)
    · intro a ha
      rw [hone.end_eq hn]
      exact hone.none_between hn ha

theorem sample_oneSection : sample.OneSection where
  sect_eq := by decide
  value_ne := by decide

theorem a_lookup_contains_its_offset_iff_sample :
    (∃ fn, (({} : Elf 64).getContainingFunction sample.toElfEnv 0x1010).1 = .ok fn ∧
        fn.startOffset ≤ 0x1010 ∧ 0x1010 < fn.endOffset ∧
        ∀ a ∈ sample.functionOffsets, ¬ (fn.startOffset < a ∧ a < fn.endOffset)) ↔
      0x1010 ∉ sample.functionOffsets ∧
        (∃ symbol ∈ sample.sortedFunctions,
          IsGreatest {a | a ∈ sample.functionOffsets ∧ a < 0x1010} symbol.offset ∧
          sample.demangle symbol.name ≠ none) ∧
        (sample.StartsFit ∨ Turns sample.sortedFunctions 0x1010) :=
  a_lookup_contains_its_offset_iff sample.toElfEnv {} (Elf.cached_empty _) sample_oneSection 0x1010
    ⟨0x1080, by decide, by decide⟩

/-- The first byte of the second function gives the first function. -/
theorem a_function_start_finds_the_function_before :
    sample.OneSection ∧ (∃ a ∈ sample.functionOffsets, a ≤ 0x1040) ∧
      (∃ a ∈ sample.functionOffsets, 0x1040 < a) ∧
      ∃ fn, (({} : Elf 64).getContainingFunction sample.toElfEnv 0x1040).1 = .ok fn ∧
        ¬ (fn.startOffset ≤ 0x1040 ∧ 0x1040 < fn.endOffset) := by
  exact ⟨sample_oneSection, ⟨0x1000, by decide, by decide⟩, ⟨0x1080, by decide, by decide⟩,
    ⟨0x1000, 0x1040, "f"⟩, rfl, by decide⟩

/-- A lookup reads past the symbols exactly when its search runs through to
one of their ends. -/
theorem a_lookup_stays_inside_iff (env : ElfEnv w) (elf : Elf w) (h : elf.Cached env)
    (offset : Addr w) :
    (elf.getContainingFunction env offset).1 ≠ .error .undefined ↔
      Turns env.sortedFunctions offset := by
  rw [h.getContainingFunction, turns_iff, Ne, containingFunction_undefined_iff]

theorem a_lookup_stays_inside_iff_sample :
    (({} : Elf 64).getContainingFunction sample.toElfEnv 0x1010).1 ≠ .error .undefined ↔
      Turns sample.sortedFunctions 0x1010 :=
  a_lookup_stays_inside_iff sample.toElfEnv {} (Elf.cached_empty _) 0x1010

/-- A stripped program has no symbols, and the lookup reads them all the same. -/
theorem a_lookup_without_symbols_is_undefined :
    (({} : Elf 64).getContainingFunction (.ofSymtab []) 0x1000).1 = .error .undefined := rfl

end eforce
