-- A byte memory over addresses of `w` bits. A range starts at an address and
-- runs for some bytes; addresses wrap around at `2 ^ w`. The file gives what
-- a read sees after a write, and when two writes commute.
import Mathlib.Data.BitVec
import Mathlib.Tactic.Ring
import Mathlib.Logic.Function.Basic

namespace byte_memory

variable {w : Nat}

abbrev Byte := BitVec 8

abbrev Memory (w : Nat) := BitVec w → Byte

/-- `a` is one of the `n` addresses from `s` on. -/
def Within (s : BitVec w) (n : Nat) (a : BitVec w) : Prop := (a - s).toNat < n

instance (s : BitVec w) (n : Nat) (a : BitVec w) : Decidable (Within s n a) :=
  inferInstanceAs (Decidable (_ < _))

/-- Two ranges that share no address. -/
def Apart (s : BitVec w) (n : Nat) (t : BitVec w) (k : Nat) : Prop :=
  ∀ a, Within s n a → ¬ Within t k a

/-- The `n` bytes from `s` on. -/
def read (m : Memory w) (s : BitVec w) : Nat → List (Byte)
  | 0 => []
  | n + 1 => m s :: read m (s + 1) n

/-- The bytes of the list go to `s`, `s + 1` and so on, one after the other. -/
def write (m : Memory w) (s : BitVec w) : List (Byte) → Memory w
  | [] => m
  | b :: bs => write (Function.update m s b) (s + 1) bs

/-! ## Ranges -/

theorem Within.mono {s a : BitVec w} {n k : Nat} (h : Within s n a) (hk : n ≤ k) :
    Within s k a := Nat.lt_of_lt_of_le h hk

theorem Apart.symm {s t : BitVec w} {n k : Nat} (h : Apart s n t k) : Apart t k s n :=
  fun a ht hs => h a hs ht

theorem Apart.mono {s t : BitVec w} {n n' k k' : Nat} (h : Apart s n t k) (hn : n' ≤ n)
    (hk : k' ≤ k) : Apart s n' t k' :=
  fun a hs ht => h a (hs.mono hn) (ht.mono hk)

/-- The first address of a range is at distance 0, and every other one is
one nearer to the second address. -/
theorem toNat_sub_succ {s a : BitVec w} (h : a ≠ s) :
    (a - s).toNat = (a - (s + 1)).toNat + 1 := by
  have hne : a.toNat ≠ s.toNat := fun he => h (BitVec.eq_of_toNat_eq he)
  have ha := a.isLt
  have hs := s.isLt
  rcases Nat.eq_zero_or_pos w with rfl | hw
  · omega
  have h1 : 1 < 2 ^ w := Nat.one_lt_two_pow (by omega)
  have hone : (1 : BitVec w).toNat = 1 := by simp [BitVec.toNat_ofNat, Nat.mod_eq_of_lt h1]
  simp only [BitVec.toNat_sub, BitVec.toNat_add, hone]
  by_cases hle : s.toNat + 1 = 2 ^ w
  · rw [hle, Nat.mod_self, Nat.sub_zero, Nat.add_mod_left, Nat.mod_eq_of_lt ha]
    rw [Nat.mod_eq_of_lt (by omega)]
    omega
  · rw [Nat.mod_eq_of_lt (a := s.toNat + 1) (by omega)]
    by_cases hlt : a.toNat < s.toNat
    · rw [Nat.mod_eq_of_lt (by omega), Nat.mod_eq_of_lt (by omega)]
      omega
    · rw [show 2 ^ w - s.toNat + a.toNat = (a.toNat - s.toNat) + 2 ^ w by omega,
        show 2 ^ w - (s.toNat + 1) + a.toNat = (a.toNat - (s.toNat + 1)) + 2 ^ w by omega,
        Nat.add_mod_right, Nat.add_mod_right, Nat.mod_eq_of_lt (by omega),
        Nat.mod_eq_of_lt (by omega)]
      omega

/-- The address behind the last one of the whole address space is the first. -/
theorem toNat_self_sub_succ (s : BitVec w) : (s - (s + 1)).toNat + 1 = 2 ^ w := by
  have hs := s.isLt
  rcases Nat.eq_zero_or_pos w with rfl | hw
  · have := (s - (s + 1)).isLt
    omega
  have h1 : 1 < 2 ^ w := Nat.one_lt_two_pow (by omega)
  have hone : (1 : BitVec w).toNat = 1 := by simp [BitVec.toNat_ofNat, Nat.mod_eq_of_lt h1]
  simp only [BitVec.toNat_sub, BitVec.toNat_add, hone]
  by_cases hle : s.toNat + 1 = 2 ^ w
  · rw [hle, Nat.mod_self, Nat.sub_zero, Nat.add_mod_left, Nat.mod_eq_of_lt hs]
    exact hle
  · rw [Nat.mod_eq_of_lt (a := s.toNat + 1) (by omega), Nat.mod_eq_of_lt (by omega)]
    omega

/-- A range that ends before another one starts. -/
theorem apart_of_le {s t : BitVec w} {n k : Nat} (h : s.toNat + n ≤ t.toNat)
    (hk : t.toNat + k ≤ 2 ^ w) : Apart s n t k := by
  intro a hs ht
  unfold Within at hs ht
  have ha := a.isLt
  have hst := t.isLt
  rw [BitVec.toNat_sub] at hs ht
  by_cases hlt : a.toNat < t.toNat
  · rw [Nat.mod_eq_of_lt (by omega)] at ht
    omega
  · rw [show 2 ^ w - s.toNat + a.toNat = a.toNat - s.toNat + 2 ^ w by omega, Nat.add_mod_right,
      Nat.mod_eq_of_lt (by omega)] at hs
    omega

/-! ## What a write does to one byte -/

theorem write_of_not_within (m : Memory w) (s : BitVec w) (bs : List (Byte)) (a : BitVec w)
    (h : ¬ Within s bs.length a) : write m s bs a = m a := by
  induction bs generalizing m s with
  | nil => rfl
  | cons b bs ih =>
    unfold Within at h
    have hne : a ≠ s := by
      rintro rfl
      simp at h
    have hd := toNat_sub_succ hne
    simp only [List.length_cons] at h
    rw [write, ih _ _ (by unfold Within; omega), Function.update_of_ne hne]

/-- The byte that a write leaves at an address of its range. The list may not
be longer than the address space, or the write would overtake itself. -/
theorem write_of_within (m : Memory w) (s : BitVec w) (bs : List (Byte)) (a : BitVec w)
    (hl : bs.length ≤ 2 ^ w) (h : (a - s).toNat < bs.length) :
    write m s bs a = bs[(a - s).toNat] := by
  induction bs generalizing m s with
  | nil => simp at h
  | cons b bs ih =>
    simp only [List.length_cons] at hl h
    by_cases hne : a = s
    · subst hne
      rw [write, write_of_not_within]
      · simp
      · have := toNat_self_sub_succ a
        unfold Within
        omega
    · have hd := toNat_sub_succ hne
      rw [write, ih _ _ (by omega) (by omega)]
      simp only [hd, List.getElem_cons_succ]

/-! ## Reads -/

@[simp] theorem length_read (m : Memory w) (s : BitVec w) (n : Nat) :
    (read m s n).length = n := by
  induction n generalizing s with
  | zero => rfl
  | succ n ih => simp [read, ih]

/-- Two memories that agree on a range read alike there. -/
theorem read_congr {m m' : Memory w} {s : BitVec w} {n : Nat} (hn : n ≤ 2 ^ w)
    (h : ∀ a, Within s n a → m a = m' a) : read m s n = read m' s n := by
  induction n generalizing s with
  | zero => rfl
  | succ n ih =>
    rw [read, read, h s (by simp [Within])]
    congr 1
    apply ih (by omega)
    intro a ha
    apply h
    unfold Within at ha ⊢
    by_cases hne : a = s
    · subst hne
      simp
    · have := toNat_sub_succ hne
      omega

/-- A read gives the byte of every address of its range. -/
theorem getElem_read (m : Memory w) (s : BitVec w) (n : Nat) (a : BitVec w)
    (h : (a - s).toNat < (read m s n).length) : (read m s n)[(a - s).toNat] = m a := by
  induction n generalizing s with
  | zero => simp at h
  | succ n ih =>
    simp only [length_read] at h
    by_cases hne : a = s
    · subst hne
      simp [read]
    · have hd := toNat_sub_succ hne
      have := ih (s + 1) (by rw [length_read]; omega)
      simpa only [read, hd, List.getElem_cons_succ] using this

/-- Two memories that read alike on a range agree there. -/
theorem eq_of_read_eq {m m' : Memory w} {s : BitVec w} {n : Nat} (h : read m s n = read m' s n)
    {a : BitVec w} (ha : Within s n a) : m a = m' a := by
  rw [← getElem_read m s n a (by rw [length_read]; exact ha),
    ← getElem_read m' s n a (by rw [length_read]; exact ha)]
  simp only [h]

theorem read_write (m : Memory w) (s : BitVec w) (bs : List (Byte)) (h : bs.length ≤ 2 ^ w) :
    read (write m s bs) s bs.length = bs := by
  induction bs generalizing m s with
  | nil => rfl
  | cons b bs ih =>
    simp only [List.length_cons] at h
    rw [List.length_cons, read, write, ih _ _ (by omega), write_of_not_within]
    · simp
    · have := toNat_self_sub_succ s
      unfold Within
      omega

theorem read_write_apart (m : Memory w) (s t : BitVec w) (bs : List (Byte)) (n : Nat)
    (hn : n ≤ 2 ^ w) (h : Apart s bs.length t n) : read (write m s bs) t n = read m t n :=
  read_congr hn fun a ha => write_of_not_within m s bs a fun hs => h a hs ha

/-! ## A write after a write -/

/-- What was read before a write undoes the write. -/
theorem write_write_read (m : Memory w) (s : BitVec w) (bs : List (Byte))
    (h : bs.length ≤ 2 ^ w) : write (write m s bs) s (read m s bs.length) = m := by
  funext a
  by_cases ha : Within s bs.length a
  · rw [write_of_within _ _ _ _ (by rw [length_read]; exact h) (by rw [length_read]; exact ha),
      getElem_read]
  · rw [write_of_not_within _ _ _ _ (by rw [length_read]; exact ha),
      write_of_not_within _ _ _ _ ha]

theorem write_comm (m : Memory w) (s t : BitVec w) (bs cs : List (Byte))
    (hb : bs.length ≤ 2 ^ w) (hc : cs.length ≤ 2 ^ w) (h : Apart s bs.length t cs.length) :
    write (write m s bs) t cs = write (write m t cs) s bs := by
  funext a
  by_cases hs : Within s bs.length a
  · rw [write_of_not_within _ _ _ _ (h a hs), write_of_within _ _ _ _ hb hs,
      write_of_within _ _ _ _ hb hs]
  · rw [write_of_not_within (write m t cs) _ _ _ hs]
    by_cases ht : Within t cs.length a
    · rw [write_of_within _ _ _ _ hc ht, write_of_within _ _ _ _ hc ht]
    · rw [write_of_not_within _ _ _ _ ht, write_of_not_within _ _ _ _ hs,
        write_of_not_within _ _ _ _ ht]

/-! ## A memory that is moved -/

/-- The memory with all its bytes moved up by `d`. -/
def shift (d : BitVec w) (m : Memory w) : Memory w := fun a => m (a - d)

theorem read_shift (m : Memory w) (d s : BitVec w) (n : Nat) :
    read (shift d m) (s + d) n = read m s n := by
  induction n generalizing s with
  | zero => rfl
  | succ n ih =>
    have hnext : s + d + 1 = s + 1 + d := by ring
    rw [read, read, hnext, ih]
    simp [shift]

theorem write_shift (m : Memory w) (d s : BitVec w) (bs : List (Byte)) :
    write (shift d m) (s + d) bs = shift d (write m s bs) := by
  induction bs generalizing m s with
  | nil => rfl
  | cons b bs ih =>
    have hnext : s + d + 1 = s + 1 + d := by ring
    have hupdate : Function.update (shift d m) (s + d) b = shift d (Function.update m s b) := by
      funext a
      have ha : a = s + d ↔ a - d = s := sub_eq_iff_eq_add.symm
      by_cases h : a - d = s
      · simp [shift, ha.2 h]
      · simp [shift, h, mt ha.1 h]
    rw [write, write, hupdate, hnext, ih]

end byte_memory
