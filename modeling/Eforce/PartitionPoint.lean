-- The halving search of `std::partition_point` over the indexes `0 .. n`.
-- For any predicate, partitioned or not, the search ends at a place where the
-- predicate turns from true to false.
import Mathlib.Tactic.Common

namespace partition_point

/-- One turn of the search looks at the middle of the `len` indexes from
`first` on, and goes on behind it or before it. -/
def search (p : Nat → Bool) : (fuel first len : Nat) → Nat
  | 0, first, _ => first
  | fuel + 1, first, len =>
    if len = 0 then first
    else
      let half := len / 2
      if p (first + half) then search p fuel (first + half + 1) (len - half - 1)
      else search p fuel first half

/-- Each turn drops an index at least, so `n` turns are enough. -/
def partitionPoint (p : Nat → Bool) (n : Nat) : Nat := search p n 0 n

/-- What the search knows: the index before the range holds and the index
behind it does not, as far as there are such indexes in `0 .. n`. -/
structure Brackets (p : Nat → Bool) (n first len : Nat) : Prop where
  inside : first + len ≤ n
  before : first = 0 ∨ p (first - 1) = true
  behind : first + len = n ∨ p (first + len) = false

theorem search_brackets (p : Nat → Bool) (n fuel first len : Nat) (hf : len ≤ fuel)
    (h : Brackets p n first len) : Brackets p n (search p fuel first len) 0 := by
  induction fuel generalizing first len with
  | zero =>
    have hlen : len = 0 := by omega
    subst hlen
    exact h
  | succ fuel ih =>
    unfold search
    by_cases hz : len = 0
    · subst hz
      rw [if_pos rfl]
      exact h
    · rw [if_neg hz]
      obtain ⟨hin, hbefore, hbehind⟩ := h
      by_cases hp : p (first + len / 2) = true
      · simp only [hp, if_true]
        apply ih
        · omega
        · refine ⟨by omega, Or.inr (by simpa using hp), ?_⟩
          rw [show first + len / 2 + 1 + (len - len / 2 - 1) = first + len by omega]
          exact hbehind
      · simp only [hp, if_false, Bool.false_eq_true]
        apply ih
        · omega
        · exact ⟨by omega, hbefore, Or.inr (by simpa using hp)⟩

theorem partitionPoint_brackets (p : Nat → Bool) (n : Nat) :
    Brackets p n (partitionPoint p n) 0 :=
  search_brackets p n n 0 n (Nat.le_refl n) ⟨by omega, Or.inl rfl, Or.inl (by omega)⟩

/-- The index before the place found holds. -/
theorem partitionPoint_before {p : Nat → Bool} {n i : Nat} (h : partitionPoint p n = i + 1) :
    p i = true := by
  rcases (partitionPoint_brackets p n).before with h0 | h1
  · omega
  · simpa [h] using h1

/-- The place found does not hold. -/
theorem partitionPoint_at {p : Nat → Bool} {n i : Nat} (h : partitionPoint p n = i)
    (hi : i < n) : p i = false := by
  rcases (partitionPoint_brackets p n).behind with h0 | h1
  · omega
  · simpa [h] using h1

example : partitionPoint (fun i => decide (i < 3)) 10 = 3 := by decide

/-! ## The way to a place -/

/-- The indexes that a search looks at when it ends at `k`. -/
def path (k : Nat) : (fuel first len : Nat) → List Nat
  | 0, _, _ => []
  | fuel + 1, first, len =>
    if len = 0 then []
    else
      let half := len / 2
      let rest := if first + half < k then path k fuel (first + half + 1) (len - half - 1)
        else path k fuel first half
      (first + half) :: rest

/-- The indexes that the search in `0 .. n` looks at on its way to `k`. -/
def probes (n k : Nat) : List Nat := path k n 0 n

theorem search_bounds (p : Nat → Bool) (fuel first len : Nat) :
    first ≤ search p fuel first len ∧ search p fuel first len ≤ first + len := by
  induction fuel generalizing first len with
  | zero =>
    unfold search
    omega
  | succ fuel ih =>
    unfold search
    dsimp only
    by_cases hz : len = 0
    · rw [if_pos hz]
      omega
    · rw [if_neg hz]
      split
      · have := ih (first + len / 2 + 1) (len - len / 2 - 1)
        omega
      · have := ih first (len / 2)
        omega

theorem search_eq_iff {p : Nat → Bool} {k : Nat} (fuel first len : Nat) (hf : len ≤ fuel)
    (hlow : first ≤ k) (hhigh : k ≤ first + len) :
    search p fuel first len = k ↔ ∀ m ∈ path k fuel first len, p m = decide (m < k) := by
  induction fuel generalizing first len with
  | zero =>
    unfold search path
    simp only [List.not_mem_nil, false_implies, implies_true, iff_true]
    omega
  | succ fuel ih =>
    unfold search path
    dsimp only
    by_cases hz : len = 0
    · rw [if_pos hz, if_pos hz]
      simp only [List.not_mem_nil, false_implies, implies_true, iff_true]
      omega
    · rw [if_neg hz, if_neg hz]
      simp only [List.forall_mem_cons]
      by_cases hk : first + len / 2 < k
      · simp only [hk, if_true, decide_true]
        by_cases hp : p (first + len / 2) = true
        · simp only [hp, if_true, true_and]
          exact ih _ _ (by omega) (by omega) (by omega)
        · -- The search goes on before the middle, and never comes to `k`.
          have hbounds := search_bounds p fuel first (len / 2)
          simp only [hp, if_false, Bool.false_eq_true, false_and, iff_false]
          omega
      · simp only [hk, if_false, decide_false]
        by_cases hp : p (first + len / 2) = true
        · have hbounds := search_bounds p fuel (first + len / 2 + 1) (len - len / 2 - 1)
          simp only [hp, if_true, Bool.true_eq_false, false_and, iff_false]
          omega
        · simp only [hp, if_false, Bool.false_eq_true, true_and]
          exact ih _ _ (by omega) (by omega) (by omega)

/-- The search ends at `k` exactly when the predicate tells the indexes on the
way to `k` from those behind it. It need not do so elsewhere. -/
theorem partitionPoint_eq_iff {p : Nat → Bool} {n k : Nat} (hk : k ≤ n) :
    partitionPoint p n = k ↔ ∀ m ∈ probes n k, p m = decide (m < k) :=
  search_eq_iff n 0 n (Nat.le_refl n) (Nat.zero_le k) (by omega)

theorem partitionPoint_le (p : Nat → Bool) (n : Nat) : partitionPoint p n ≤ n := by
  have hbounds := search_bounds p n 0 n
  unfold partitionPoint
  omega

theorem mem_path_lt {k m : Nat} (fuel first len : Nat) (h : m ∈ path k fuel first len) :
    m < first + len := by
  induction fuel generalizing first len with
  | zero => simp [path] at h
  | succ fuel ih =>
    unfold path at h
    dsimp only at h
    by_cases hz : len = 0
    · simp [hz] at h
    · rw [if_neg hz, List.mem_cons] at h
      rcases h with rfl | h
      · omega
      · split at h
        · have := ih _ _ h
          omega
        · have := ih _ _ h
          omega

theorem mem_probes_lt {n k m : Nat} (h : m ∈ probes n k) : m < n := by
  have := mem_path_lt n 0 n h
  omega

/-- The search leaves the front exactly when the predicate holds somewhere on
the way there. -/
theorem partitionPoint_ne_zero_iff {p : Nat → Bool} {n : Nat} :
    partitionPoint p n ≠ 0 ↔ ∃ m ∈ probes n 0, p m = true := by
  rw [Ne, partitionPoint_eq_iff (Nat.zero_le n)]
  simp

/-- The search stays off the end exactly when the predicate fails somewhere on
the way there. -/
theorem partitionPoint_ne_length_iff {p : Nat → Bool} {n : Nat} :
    partitionPoint p n ≠ n ↔ ∃ m ∈ probes n n, p m = false := by
  rw [Ne, partitionPoint_eq_iff (Nat.le_refl n)]
  refine ⟨?_, ?_⟩
  · intro h
    by_contra hall
    apply h
    intro m hm
    have hlt := mem_probes_lt hm
    have hp : p m = true := by
      by_contra hne
      exact hall ⟨m, hm, by simpa using hne⟩
    simp [hlt, hp]
  · rintro ⟨m, hm, hp⟩ hall
    have hlt := mem_probes_lt hm
    simp [hall m hm, hlt] at hp

end partition_point
