-- The lookup of the function that contains an offset (Elf.cpp). The symbols
-- come from libbfd once, and stay sorted by their value in the section.
import Eforce.PartitionPoint
import Eforce.Outcome

namespace eforce

variable {w : Nat}

/-- `asection`: where the section starts in the file. -/
structure Asection (w : Nat) where
  filepos : BitVec w
  deriving DecidableEq, Repr

/-- `asymbol`: the value is relative to the section. -/
structure Asymbol (w : Nat) where
  name : String
  value : BitVec w
  sect : Asection w
  flags : BitVec 32
  deriving DecidableEq, Repr

def BSF_FUNCTION : BitVec 32 := 0x8

def Asymbol.isFunction (symbol : Asymbol w) : Bool := symbol.flags &&& BSF_FUNCTION ≠ 0

/-- `symbol->value + symbol->section->filepos`: the place in the file. -/
def Asymbol.offset (symbol : Asymbol w) : Addr w := symbol.value + symbol.sect.filepos

/-- What a lookup takes from libbfd and from the C++ library: the symbol
table of the program, some sort by value, and the demangler. -/
structure ElfEnv (w : Nat) where
  symtab : List (Asymbol w)
  sort : List (Asymbol w) → List (Asymbol w)
  sort_perm : ∀ l, (sort l).Perm l
  sort_sorted : ∀ l, (sort l).Pairwise fun a b => ¬ b.value < a.value
  demangle : String → Option String

/-- `Elf`: the symbols are empty until the first lookup. -/
structure Elf (w : Nat) where
  sortedSymbols : List (Asymbol w) := []
  deriving DecidableEq, Repr

/-- `Elf::Function_t` -/
structure FunctionT (w : Nat) where
  startOffset : Addr w
  endOffset : Addr w
  name : String
  deriving DecidableEq, Repr

/-- The symbols that a lookup searches, once they are there. -/
def ElfEnv.sortedFunctions (env : ElfEnv w) : List (Asymbol w) :=
  env.sort (env.symtab.filter Asymbol.isFunction)

def Elf.load (env : ElfEnv w) (elf : Elf w) : Elf w :=
  if elf.sortedSymbols.isEmpty then { sortedSymbols := env.sortedFunctions } else elf

/-- The symbol at the index starts below the offset. -/
def isBelow (symbols : List (Asymbol w)) (offset : Addr w) (i : Nat) : Bool :=
  (symbols[i]?).any fun symbol => decide (symbol.offset < offset)

/-- `thisFn` and `nextFn` of a lookup, when both are in the array. -/
def neighbours (symbols : List (Asymbol w)) (offset : Addr w) : Option (Asymbol w × Asymbol w) :=
  match partition_point.partitionPoint (isBelow symbols offset) symbols.length with
  | 0 => none
  | i + 1 =>
    match symbols[i]?, symbols[i + 1]? with
    | some thisFn, some nextFn => some (thisFn, nextFn)
    | _, _ => none

/-- The code dereferences both neighbours in any case, and makes a
`std::string` of whatever the demangler gives. -/
def containingFunction (env : ElfEnv w) (symbols : List (Asymbol w)) (offset : Addr w) :
    Outcome (FunctionT w) :=
  match neighbours symbols offset with
  | none => .error .undefined
  | some (thisFn, nextFn) =>
    match env.demangle thisFn.name with
    | none => .error (.threw .logicError)
    | some name =>
      .ok {
        startOffset := thisFn.offset
        endOffset := nextFn.value + thisFn.sect.filepos
        name }

def Elf.getContainingFunction (env : ElfEnv w) (elf : Elf w) (offset : Addr w) :
    Outcome (FunctionT w) × Elf w :=
  (containingFunction env (elf.load env).sortedSymbols offset, elf.load env)

/-! ## The cache -/

/-- The symbols are not there yet, or they are those of the file. -/
def Elf.Cached (env : ElfEnv w) (elf : Elf w) : Prop :=
  elf.sortedSymbols = [] ∨ elf.sortedSymbols = env.sortedFunctions

theorem Elf.cached_empty (env : ElfEnv w) : Elf.Cached env {} := Or.inl rfl

theorem Elf.Cached.load {env : ElfEnv w} {elf : Elf w} (h : Elf.Cached env elf) :
    (elf.load env).sortedSymbols = env.sortedFunctions := by
  unfold Elf.load
  rcases h with h | h
  · simp [h]
  · split
    · rfl
    · exact h

theorem Elf.Cached.cached_load {env : ElfEnv w} {elf : Elf w} (h : Elf.Cached env elf) :
    Elf.Cached env (elf.load env) := Or.inr h.load

/-- Every lookup of a program gives what a lookup in a loaded table gives,
whichever lookup comes first. -/
theorem Elf.Cached.getContainingFunction {env : ElfEnv w} {elf : Elf w} (h : Elf.Cached env elf)
    (offset : Addr w) : elf.getContainingFunction env offset =
      (containingFunction env env.sortedFunctions offset, elf.load env) := by
  rw [Elf.getContainingFunction, h.load]

/-! ## What the search finds -/

theorem isBelow_eq {symbols : List (Asymbol w)} {offset : Addr w} {symbol : Asymbol w} {i : Nat}
    (h : symbols[i]? = some symbol) :
    isBelow symbols offset i = decide (symbol.offset < offset) := by
  unfold isBelow
  rw [h]
  rfl

/-- The two symbols found stand side by side, and the offset lies behind the
first and not behind the second. -/
theorem neighbours_spec {symbols : List (Asymbol w)} {offset : Addr w} {thisFn nextFn : Asymbol w}
    (h : neighbours symbols offset = some (thisFn, nextFn)) :
    ∃ i, symbols[i]? = some thisFn ∧ symbols[i + 1]? = some nextFn ∧
      thisFn.offset < offset ∧ ¬ nextFn.offset < offset := by
  unfold neighbours at h
  split at h
  · cases h
  rename_i i hi
  split at h
  · rename_i t n ht hn
    cases h
    obtain ⟨hlt, -⟩ := List.getElem?_eq_some_iff.1 hn
    refine ⟨i, ht, hn, ?_, ?_⟩
    · simpa [isBelow_eq ht] using partition_point.partitionPoint_before hi
    · simpa [isBelow_eq hn] using partition_point.partitionPoint_at hi hlt
  · cases h

/-- The two symbols of a lookup are among the sorted ones. -/
theorem mem_of_neighbours {symbols : List (Asymbol w)} {offset : Addr w}
    {thisFn nextFn : Asymbol w} (h : neighbours symbols offset = some (thisFn, nextFn)) :
    thisFn ∈ symbols ∧ nextFn ∈ symbols := by
  obtain ⟨i, hthis, hnext, -⟩ := neighbours_spec h
  exact ⟨List.mem_of_getElem? hthis, List.mem_of_getElem? hnext⟩

/-- A lookup that returns has found both symbols. -/
theorem containingFunction_ok {env : ElfEnv w} {symbols : List (Asymbol w)} {offset : Addr w}
    {fn : FunctionT w} (h : containingFunction env symbols offset = .ok fn) :
    ∃ thisFn nextFn, neighbours symbols offset = some (thisFn, nextFn) ∧
      fn.startOffset = thisFn.offset ∧ fn.endOffset = nextFn.value + thisFn.sect.filepos := by
  unfold containingFunction at h
  split at h
  · cases h
  rename_i thisFn nextFn hn
  split at h
  · cases h
  · cases h
    exact ⟨thisFn, nextFn, hn, rfl, rfl⟩

end eforce
