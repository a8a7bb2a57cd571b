-- The registry of the throws (eforce/CompiletimeRegistry.h). Each registration
-- puts a pointer into a section of its own, the linker joins the sections of the
-- object files, and an iterator walks from the one end to the other.
import Eforce.PatchBounds
import Eforce.ThrowCodeX64

namespace eforce

open byte_memory isa

variable {ι : Type} {w : Nat}

/-! ## `CompiletimeRegistryIterator` -/

/-- A `T**` into the section. -/
structure CompiletimeRegistryIterator (w : Nat) where
  current : Addr w
  deriving DecidableEq, Repr

namespace CompiletimeRegistryIterator

/-- `++it`: a pointer has `w / 8` bytes. -/
def increment (it : CompiletimeRegistryIterator w) : CompiletimeRegistryIterator w :=
  ⟨it.current + BitVec.ofNat w (w / 8)⟩

/-- `--it` -/
def decrement (it : CompiletimeRegistryIterator w) : CompiletimeRegistryIterator w :=
  ⟨it.current - BitVec.ofNat w (w / 8)⟩

/-- `&*it`: where the item is. -/
def deref (m : Memory w) (it : CompiletimeRegistryIterator w) : Addr w :=
  loadLe w (read m it.current (w / 8))

end CompiletimeRegistryIterator

/-! ## `CompiletimeRegistry` -/

structure CompiletimeRegistry (w : Nat) where
  mkStart : Addr w
  mkStop : Addr w
  deriving DecidableEq, Repr

namespace CompiletimeRegistry

def beginIt (r : CompiletimeRegistry w) : CompiletimeRegistryIterator w := ⟨r.mkStart⟩

def endIt (r : CompiletimeRegistry w) : CompiletimeRegistryIterator w := ⟨r.mkStop⟩

/-- The difference of two `T**` is a signed number of pointers. -/
def size (r : CompiletimeRegistry w) : BitVec w :=
  BitVec.ofInt w ((r.mkStop - r.mkStart).toInt.tdiv (w / 8 : Nat))

/-- `COMPILETIME_REGISTRY`: the two symbols that the linker puts around the
section. They are weak, so both are null when there is no section. -/
def ofSection (base : Addr w) (bytes : List Byte) : CompiletimeRegistry w :=
  if bytes = [] then ⟨0, 0⟩ else ⟨base, base + BitVec.ofNat w bytes.length⟩

end CompiletimeRegistry

/-! ## The loops over a registry -/

/-- `std::transform` without its function: the items, in the order of the visit. -/
def visit (m : Memory w) : Nat → CompiletimeRegistryIterator w → CompiletimeRegistryIterator w →
    Option (List (Addr w))
  | 0, _, _ => none
  | fuel + 1, first, last =>
    if first = last then some []
    else (visit m fuel first.increment last).map (first.deref m :: ·)

/-- The same from the end on. -/
def visitBack (m : Memory w) : Nat → CompiletimeRegistryIterator w →
    CompiletimeRegistryIterator w → Option (List (Addr w))
  | 0, _, _ => none
  | fuel + 1, first, last =>
    if first = last then some []
    else (visitBack m fuel first last.decrement).map (last.decrement.deref m :: ·)

/-- `std::find_if` -/
def findIf (m : Memory w) (pred : Addr w → Bool) : Nat → CompiletimeRegistryIterator w →
    CompiletimeRegistryIterator w → Option (CompiletimeRegistryIterator w)
  | 0, _, _ => none
  | fuel + 1, first, last =>
    if first = last then some last
    else if pred (first.deref m) then some first
    else findIf m pred fuel first.increment last

/-! ## The section -/

/-- The assembly of `COMPILETIME_REGISTER`: an `.int` where a pointer is as large
as an `int`, a `.quad` where it has eight bytes, and nothing elsewhere. -/
def registerBytes (pointerSize intSize : Nat) (addr : Addr w) : List Byte :=
  if pointerSize = intSize then storeLe 4 addr
  else if pointerSize = 8 then storeLe 8 addr
  else []

/-- `COMPILETIME_REGISTER`. An `int` has four bytes. -/
def compiletimeRegister (addr : Addr w) : List Byte := registerBytes (w / 8) 4 addr

/-- The section of the program: that of each object file has no alignment, so
nothing comes between them. -/
def linkSection (objects : List (List (Addr w))) : List Byte :=
  objects.flatMap fun addrs => addrs.flatMap compiletimeRegister

/-- On 32 and on 64 bits, a registration is the pointer as it stands in memory. -/
theorem compiletimeRegister_eq (hw : w = 32 ∨ w = 64) (addr : Addr w) :
    (compiletimeRegister addr).length = w / 8 ∧ loadLe w (compiletimeRegister addr) = addr := by
  rcases hw with rfl | rfl
  · exact ⟨length_storeLe 4 addr, opcode_generator_x64.loadLe_storeLe (n := 4) addr⟩
  · exact ⟨length_storeLe 8 addr, opcode_generator_x64.loadLe_storeLe (n := 8) addr⟩

/-- Only the order of the registrations counts, not the files that they are in. -/
theorem linkSection_eq (objects : List (List (Addr w))) :
    linkSection objects = objects.flatten.flatMap compiletimeRegister := by
  unfold linkSection
  induction objects with
  | nil => rfl
  | cons addrs rest ih =>
    rw [List.flatMap_cons, ih, List.flatten_cons, List.flatMap_append]

theorem length_section (hw : w = 32 ∨ w = 64) (items : List (Addr w)) :
    (items.flatMap compiletimeRegister).length = items.length * (w / 8) := by
  induction items with
  | nil => simp
  | cons x xs ih =>
    rw [List.flatMap_cons, List.length_append, ih, (compiletimeRegister_eq hw x).1,
      List.length_cons, Nat.succ_mul]
    omega

/-! ## A section in memory -/

/-- The pointers stand one behind the other from `a` on. -/
def Laid (m : Memory w) (a : Addr w) : List (Addr w) → Prop
  | [] => True
  | x :: xs => CompiletimeRegistryIterator.deref m ⟨a⟩ = x ∧ Laid m (a + BitVec.ofNat w (w / 8)) xs

section Walk

variable {m : Memory w} {a : Addr w} {items xs ys : List (Addr w)} {x : Addr w}

theorem laid_of_codeAt (hw : w = 32 ∨ w = 64)
    (h : CodeAt m a (items.flatMap compiletimeRegister)) : Laid m a items := by
  induction items generalizing a with
  | nil => trivial
  | cons x xs ih =>
    obtain ⟨hlen, hload⟩ := compiletimeRegister_eq hw x
    rw [List.flatMap_cons] at h
    obtain ⟨hx, hxs⟩ := codeAt_append.1 h
    unfold CodeAt at hx
    rw [hlen] at hx hxs
    refine ⟨?_, ih hxs⟩
    unfold CompiletimeRegistryIterator.deref
    rw [hx, hload]

/-- Where the pointer number `n` stands. -/
def slot (a : Addr w) (n : Nat) : Addr w := a + BitVec.ofNat w (n * (w / 8))

theorem slot_succ (a : Addr w) (n : Nat) :
    slot a (n + 1) = slot (a + BitVec.ofNat w (w / 8)) n := by
  unfold slot
  rw [Nat.succ_mul, BitVec.ofNat_add]
  ring

theorem slot_succ_sub (a : Addr w) (n : Nat) :
    slot a (n + 1) - BitVec.ofNat w (w / 8) = slot a n := by
  unfold slot
  rw [Nat.succ_mul, BitVec.ofNat_add]
  ring

/-- The end of a section that is smaller than the address space is not its
start. -/
theorem slot_ne {n : Nat} (hw : w = 32 ∨ w = 64) (hn : 0 < n) (hfits : n * (w / 8) < 2 ^ w) :
    slot a n ≠ a := by
  have hpos : 0 < n * (w / 8) := Nat.mul_pos hn (by omega)
  intro h
  have hzero : BitVec.ofNat w (n * (w / 8)) = 0 := by
    have := congrArg (· - a) h
    simpa [slot] using this
  have hnat := congrArg BitVec.toNat hzero
  rw [BitVec.toNat_ofNat, Nat.mod_eq_of_lt hfits] at hnat
  simp at hnat
  omega

/-- The difference of the two ends counts the pointers between them. -/
theorem size_slot {n : Nat} (hw : w = 32 ∨ w = 64) (hfits : n * (w / 8) < 2 ^ (w - 1)) :
    (CompiletimeRegistry.mk a (slot a n)).size.toNat = n := by
  have hpos : 0 < w / 8 := by omega
  have hle : n ≤ n * (w / 8) := Nat.le_mul_of_pos_right n hpos
  have hpow : 2 ^ w = 2 * 2 ^ (w - 1) := by
    rw [← Nat.pow_succ', Nat.succ_eq_add_one, Nat.sub_add_cancel (by omega)]
  have hdiff : (slot a n - a).toInt = (n * (w / 8) : Nat) := by
    have hsub : slot a n - a = BitVec.ofNat w (n * (w / 8)) := by
      unfold slot
      ring
    rw [hsub, BitVec.toInt_eq_toNat_of_lt]
    · rw [BitVec.toNat_ofNat, Nat.mod_eq_of_lt (by omega)]
    · rw [BitVec.toNat_ofNat, Nat.mod_eq_of_lt (by omega)]
      omega
  unfold CompiletimeRegistry.size
  rw [hdiff, Nat.cast_mul, Int.mul_tdiv_cancel _ (by omega), BitVec.ofInt_natCast,
    BitVec.toNat_ofNat, Nat.mod_eq_of_lt (by omega)]

theorem laid_append : Laid m a (xs ++ ys) ↔ Laid m a xs ∧ Laid m (slot a xs.length) ys := by
  induction xs generalizing a with
  | nil => simp [Laid, slot]
  | cons x xs ih =>
    rw [List.cons_append, List.length_cons, slot_succ]
    simp only [Laid, ih, and_assoc]

/-- A walk from the start of a section to its end visits its pointers in order. -/
theorem visit_laid (hw : w = 32 ∨ w = 64) (h : Laid m a items)
    (hfits : items.length * (w / 8) < 2 ^ w) {fuel : Nat} (hfuel : items.length < fuel) :
    visit m fuel ⟨a⟩ ⟨slot a items.length⟩ = some items := by
  induction items generalizing a fuel with
  | nil =>
    obtain ⟨fuel, rfl⟩ := Nat.exists_eq_succ_of_ne_zero (Nat.ne_of_gt hfuel)
    simp [visit, slot]
  | cons x xs ih =>
    obtain ⟨fuel, rfl⟩ := Nat.exists_eq_succ_of_ne_zero (Nat.ne_of_gt (Nat.zero_lt_of_lt hfuel))
    obtain ⟨hx, hxs⟩ := h
    have hne : slot a (xs.length + 1) ≠ a := slot_ne hw (Nat.succ_pos _) hfits
    rw [List.length_cons] at hfits hfuel ⊢
    rw [Nat.succ_mul] at hfits
    unfold visit
    rw [if_neg (by simpa using Ne.symm hne), slot_succ]
    have hrest := ih hxs (by omega) (by omega : xs.length < fuel)
    unfold CompiletimeRegistryIterator.increment
    rw [hrest, hx]
    rfl

/-- The walk back visits them in the opposite order. -/
theorem visitBack_laid (hw : w = 32 ∨ w = 64) (h : Laid m a items)
    (hfits : items.length * (w / 8) < 2 ^ w) {fuel : Nat} (hfuel : items.length < fuel) :
    visitBack m fuel ⟨a⟩ ⟨slot a items.length⟩ = some items.reverse := by
  induction items using List.reverseRecOn generalizing fuel with
  | nil =>
    obtain ⟨fuel, rfl⟩ := Nat.exists_eq_succ_of_ne_zero (Nat.ne_of_gt hfuel)
    simp [visitBack, slot]
  | append_singleton xs x ih =>
    obtain ⟨fuel, rfl⟩ := Nat.exists_eq_succ_of_ne_zero (Nat.ne_of_gt (Nat.zero_lt_of_lt hfuel))
    obtain ⟨hxs, hx, -⟩ := laid_append.1 h
    have hlen : (xs ++ [x]).length = xs.length + 1 := by simp
    rw [hlen] at hfits hfuel ⊢
    have hne : slot a (xs.length + 1) ≠ a := slot_ne hw (Nat.succ_pos _) hfits
    rw [Nat.succ_mul] at hfits
    have hback : (⟨slot a (xs.length + 1)⟩ : CompiletimeRegistryIterator w).decrement =
        ⟨slot a xs.length⟩ := by
      unfold CompiletimeRegistryIterator.decrement
      rw [slot_succ_sub]
    unfold visitBack
    rw [if_neg (by simpa using Ne.symm hne), hback, ih hxs (by omega) (by omega), hx]
    simp

/-- A search stops at the first pointer that fits, or at the end. -/
theorem findIf_laid (hw : w = 32 ∨ w = 64) (h : Laid m a items)
    (hfits : items.length * (w / 8) < 2 ^ w) (pred : Addr w → Bool) {fuel : Nat}
    (hfuel : items.length < fuel) :
    ∃ it, findIf m pred fuel ⟨a⟩ ⟨slot a items.length⟩ = some it ∧
      (it = ⟨slot a items.length⟩ ∧ items.find? pred = none ∨
        it ≠ ⟨slot a items.length⟩ ∧ items.find? pred = some (it.deref m)) := by
  induction items generalizing a fuel with
  | nil =>
    obtain ⟨fuel, rfl⟩ := Nat.exists_eq_succ_of_ne_zero (Nat.ne_of_gt hfuel)
    refine ⟨⟨a⟩, by simp [findIf, slot], Or.inl ⟨by simp [slot], rfl⟩⟩
  | cons x xs ih =>
    obtain ⟨fuel, rfl⟩ := Nat.exists_eq_succ_of_ne_zero (Nat.ne_of_gt (Nat.zero_lt_of_lt hfuel))
    obtain ⟨hx, hxs⟩ := h
    have hne : slot a (xs.length + 1) ≠ a := slot_ne hw (Nat.succ_pos _) hfits
    rw [List.length_cons] at hfits hfuel ⊢
    rw [Nat.succ_mul] at hfits
    unfold findIf
    rw [if_neg (by simpa using Ne.symm hne)]
    by_cases hpred : pred x
    · refine ⟨⟨a⟩, by rw [hx, if_pos hpred], Or.inr ⟨by simpa using Ne.symm hne, ?_⟩⟩
      rw [List.find?_cons_of_pos hpred, hx]
    · rw [hx, if_neg hpred, List.find?_cons_of_neg hpred, slot_succ]
      exact ih hxs (by omega) (by omega)

end Walk

/-! ## The registry of a program -/

section Placed

variable {m m' : Memory w} {base : Addr w} {objects : List (List (Addr w))}

/-- The section stands in memory, and is no larger than an object can be. -/
structure Placed (m : Memory w) (base : Addr w) (objects : List (List (Addr w))) : Prop where
  bytes : CodeAt m base (linkSection objects)
  fits : (linkSection objects).length < 2 ^ (w - 1)

theorem Placed.items_fit (h : Placed m base objects) (hw : w = 32 ∨ w = 64) :
    objects.flatten.length * (w / 8) < 2 ^ (w - 1) ∧ objects.flatten.length * (w / 8) < 2 ^ w := by
  rw [← length_section hw, ← linkSection_eq]
  exact ⟨h.fits, h.fits.trans_le (Nat.pow_le_pow_right (by omega) (Nat.sub_le w 1))⟩

/-- The items stand between the two ends. Without a section both are null, and
there is nothing between them. -/
theorem Placed.ends (h : Placed m base objects) (hw : w = 32 ∨ w = 64) :
    ∃ a, Laid m a objects.flatten ∧
      CompiletimeRegistry.ofSection base (linkSection objects) =
        ⟨a, slot a objects.flatten.length⟩ := by
  have hlength := length_section hw objects.flatten
  rw [← linkSection_eq] at hlength
  unfold CompiletimeRegistry.ofSection
  by_cases hnil : linkSection objects = []
  · rw [hnil, List.length_nil] at hlength
    have hitems : objects.flatten = [] := by
      rcases Nat.mul_eq_zero.1 hlength.symm with hzero | hzero
      · exact List.eq_nil_of_length_eq_zero hzero
      · omega
    rw [if_pos hnil, hitems]
    exact ⟨0, trivial, by simp [slot]⟩
  · rw [if_neg hnil, hlength]
    refine ⟨base, laid_of_codeAt hw ?_, rfl⟩
    rw [← linkSection_eq]
    exact h.bytes

/-- What the memory holds elsewhere does not count. -/
theorem Placed.congr (h : Placed m base objects)
    (hm : ∀ a, Within base (linkSection objects).length a → m' a = m a) :
    Placed m' base objects := by
  refine ⟨?_, h.fits⟩
  have hle : (linkSection objects).length ≤ 2 ^ w :=
    h.fits.le.trans (Nat.pow_le_pow_right (by omega) (Nat.sub_le w 1))
  unfold CodeAt
  rw [read_congr hle hm]
  exact h.bytes

end Placed

/-- A registry gives back what was registered: forwards, backwards, and
counted, over all object files. -/
theorem the_registry_gives_back_what_was_registered (hw : w = 32 ∨ w = 64) {m : Memory w}
    {base : Addr w} {objects : List (List (Addr w))} (h : Placed m base objects) {fuel : Nat}
    (hfuel : objects.flatten.length < fuel) :
    let r := CompiletimeRegistry.ofSection base (linkSection objects)
    visit m fuel r.beginIt r.endIt = some objects.flatten ∧
      visitBack m fuel r.beginIt r.endIt = some objects.flatten.reverse ∧
      r.size.toNat = objects.flatten.length := by
  obtain ⟨a, hlaid, hr⟩ := h.ends hw
  obtain ⟨hhalf, hfits⟩ := h.items_fit hw
  simp only [hr]
  refine ⟨visit_laid hw hlaid hfits hfuel, visitBack_laid hw hlaid hfits hfuel, ?_⟩
  exact size_slot hw hhalf

def sampleObjects : List (List (Addr 64)) := [[0x404100, 0x404120], [], [0x404140]]

def sampleInfoAt (item : Addr 64) : ThrowInfo 64 :=
  if item = 0x404100 then ⟨0x401010, "f.cpp", 3, "F(1)", some (.ok (some 1))⟩
  else if item = 0x404120 then ⟨0x401020, "f.cpp", 4, "F(2)", some (.ok (some 2))⟩
  else ⟨0x401050, "g.cpp", 9, "G(x)", none⟩

/-- The small program, with its registry behind the code. -/
def registryWorld : World 64 :=
  { sampleWorld with memory := write sampleWorld.memory 0x404000 (linkSection sampleObjects) }

theorem registryWorld_placed : Placed registryWorld.memory 0x404000 sampleObjects :=
  ⟨read_write _ _ _ (by decide), by decide⟩

theorem the_registry_gives_back_what_was_registered_sample :
    visit registryWorld.memory 4 ⟨0x404000⟩ ⟨0x404018⟩ =
      some [0x404100, 0x404120, 0x404140] := by
  obtain ⟨h, -⟩ := the_registry_gives_back_what_was_registered (Or.inr rfl) registryWorld_placed
    (show sampleObjects.flatten.length < 4 by decide)
  exact h

/-- Whatever was forced and given up before: the loop over the registry in
memory sees the throws of the program, and the search for a location ends where
a force of it finds its throw. -/
theorem a_force_finds_its_throw_in_the_registry [DecidableEq ι] (hw : w = 32 ∨ w = 64)
    {env : Env w} {W₀ : World w} {P : Process ι w} {L : Ledger ι w} {base : Addr w}
    {objects : List (List (Addr w))} {infoAt : Addr w → ThrowInfo w}
    (hplaced : Placed W₀.memory base objects)
    (hinfos : env.throwInfos = objects.flatten.map infoAt)
    (hoff : ∀ a, Within base (linkSection objects).length a → env.Off a)
    (hrun : Run env (fun _ _ _ _ => True) (Process.start env W₀) Ledger.fresh P L) {fuel : Nat}
    (hfuel : objects.flatten.length < fuel) (loc : Addr w) :
    let r := CompiletimeRegistry.ofSection base (linkSection objects)
    (visit P.world.memory fuel r.beginIt r.endIt).map (·.map infoAt) = some env.throwInfos ∧
      ∃ it, findIf P.world.memory (fun item => (infoAt item).throwAddr = loc) fuel r.beginIt
          r.endIt = some it ∧
        (it = r.endIt ∧ env.throwInfoAt loc = none ∨
          it ≠ r.endIt ∧
            env.throwInfoAt loc = some (infoAt (it.deref P.world.memory))) := by
  have hnow : Placed P.world.memory base objects := hplaced.congr fun a ha =>
    hrun.memory_off (ready_start env W₀) (agrees_start env W₀).good (hoff a ha)
  obtain ⟨a, hlaid, hr⟩ := hnow.ends hw
  obtain ⟨-, hfits⟩ := hnow.items_fit hw
  have hfind : env.throwInfoAt loc =
      (objects.flatten.find? fun item => (infoAt item).throwAddr = loc).map infoAt := by
    rw [Env.throwInfoAt, hinfos, List.find?_map]
    rfl
  simp only [hr]
  refine ⟨?_, ?_⟩
  · have hvisit := visit_laid hw hlaid hfits hfuel
    unfold CompiletimeRegistry.beginIt CompiletimeRegistry.endIt
    rw [hvisit, hinfos]
    rfl
  · obtain ⟨it, hit, hcases⟩ := findIf_laid hw hlaid hfits
      (fun item => (infoAt item).throwAddr = loc) hfuel
    refine ⟨it, hit, ?_⟩
    rcases hcases with ⟨hend, hnone⟩ | ⟨hne, hsome⟩
    · exact Or.inl ⟨hend, by rw [hfind, hnone]; rfl⟩
    · exact Or.inr ⟨hne, by rw [hfind, hsome]; rfl⟩

def registryForced : Process Unit 64 :=
  ((Process.start sample registryWorld).step sample () forceFirst).2

theorem registry_off {a : Addr 64} (ha : Within 0x404000 (linkSection sampleObjects).length a) :
    sample.Off a := by
  rintro start ⟨loc, hreg, stop, hext, -⟩ hstart
  have hfirst : Apart (0x401000 : Addr 64) sample.generator.size 0x404000 24 :=
    apart_of_le (by decide) (by decide)
  have hsecond : Apart (0x401040 : Addr 64) sample.generator.size 0x404000 24 :=
    apart_of_le (by decide) (by decide)
  rcases sample_extent hreg with h | h <;> rw [h] at hext <;> cases hext
  · exact hfirst a hstart ha
  · exact hsecond a hstart ha

theorem a_force_finds_its_throw_in_the_registry_sample :
    ∃ it : CompiletimeRegistryIterator 64,
      findIf registryForced.world.memory (fun item => (sampleInfoAt item).throwAddr = 0x401020) 4
        ⟨0x404000⟩ ⟨0x404018⟩ = some it ∧
      sample.throwInfoAt 0x401020 = some (sampleInfoAt (it.deref registryForced.world.memory)) := by
  have hop : forceFirst.Fresh registryWorld := by decide
  have hinfos : sample.throwInfos = sampleObjects.flatten.map sampleInfoAt := rfl
  have hrun : Run sample (fun _ _ _ _ => True)
      (Process.start sample registryWorld : Process Unit 64) Ledger.fresh registryForced
      (Ledger.fresh.after (Process.start sample registryWorld) registryForced () forceFirst) :=
    Run.refl.call hop trivial trivial
  obtain ⟨-, it, hit, hcases⟩ := a_force_finds_its_throw_in_the_registry (Or.inr rfl)
    registryWorld_placed hinfos (fun _ => registry_off) hrun
    (show sampleObjects.flatten.length < 4 by decide) 0x401020
  refine ⟨it, hit, ?_⟩
  rcases hcases with ⟨-, hnone⟩ | ⟨-, hsome⟩
  · cases hnone
  · exact hsome

end eforce
