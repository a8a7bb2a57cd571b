-- A cell that holders write over. A holder saves what it finds in the cell,
-- writes its own content, and later puts back what it saved. The holders do
-- not know of each other, so the order in which they leave decides what the
-- cell holds in the end.
import Mathlib.Logic.Function.Basic
import Mathlib.Tactic.Common

namespace overlay

/-- What a holder wrote into the cell, and what it found there. -/
structure Layer (α : Type*) where
  written : α
  covered : α

def Layer.map {α β : Type*} (f : α → β) (l : Layer α) : Layer β := ⟨f l.written, f l.covered⟩

@[ext]
structure Cell (κ α : Type*) where
  content : α
  layers : κ → Option (Layer α)

variable {κ α β : Type*}

namespace Cell

/-- A cell with no holder. -/
def fresh (a : α) : Cell κ α := ⟨a, fun _ => none⟩

def map (f : α → β) (c : Cell κ α) : Cell κ β :=
  { content := f c.content, layers := fun k => (c.layers k).map (Layer.map f) }

/-- No holder is left. -/
def Idle (c : Cell κ α) : Prop := ∀ k, c.layers k = none

/-- The content is what a present holder wrote. -/
def InForce (c : Cell κ α) : Prop := ∃ k l, c.layers k = some l ∧ c.content = l.written

/-- A holder that leaves as the last one found the base. -/
def LastFoundBase (base : α) (c : Cell κ α) (k : κ) : Prop :=
  ∀ l, c.layers k = some l → (∀ k' ≠ k, c.layers k' = none) → l.covered = base

/-- A cell with no holder has its base content. -/
def Restored (base : α) (c : Cell κ α) : Prop := c.Idle → c.content = base

/-- A holder that leaves found what a holder that stays wrote, or it is the
last one and found the base. -/
def FoundHeld (base : α) (c : Cell κ α) (k : κ) : Prop :=
  ∀ l, c.layers k = some l →
    (∃ k' l', k' ≠ k ∧ c.layers k' = some l' ∧ l.covered = l'.written) ∨
      ((∀ k' ≠ k, c.layers k' = none) ∧ l.covered = base)

/-- A cell with holders has the content of one of them, and a cell with no
holder has its base content. -/
def Sound (base : α) (c : Cell κ α) : Prop := c.InForce ∨ (c.Idle ∧ c.content = base)

theorem FoundHeld.lastFoundBase {base : α} {c : Cell κ α} {k : κ} (h : FoundHeld base c k) :
    LastFoundBase base c k := by
  intro l hl hothers
  rcases h l hl with ⟨k', l', hne, hl', -⟩ | ⟨-, hbase⟩
  · simp [hothers k' hne] at hl'
  · exact hbase

theorem restored_fresh (base : α) : Restored base (fresh base : Cell κ α) := fun _ => rfl

theorem sound_fresh (base : α) : Sound base (fresh base : Cell κ α) :=
  Or.inr ⟨fun _ => rfl, rfl⟩

theorem Sound.restored {base : α} {c : Cell κ α} (h : Sound base c) : Restored base c := by
  intro hi
  rcases h with ⟨k, l, hk, -⟩ | ⟨-, hc⟩
  · simp [hi k] at hk
  · exact hc

/-! ## Put and undo -/

variable [DecidableEq κ]

/-- Holder `k` covers the content with `v`. -/
def put (c : Cell κ α) (k : κ) (v : α) : Cell κ α :=
  { content := v, layers := Function.update c.layers k (some ⟨v, c.content⟩) }

/-- Holder `k` leaves, and puts back what it covered. -/
def undo (c : Cell κ α) (k : κ) : Cell κ α :=
  match c.layers k with
  | none => c
  | some l => { content := l.covered, layers := Function.update c.layers k none }

theorem undo_of_none {c : Cell κ α} {k : κ} (h : c.layers k = none) : c.undo k = c := by
  simp [undo, h]

theorem undo_content {c : Cell κ α} {k : κ} {l : Layer α} (h : c.layers k = some l) :
    (c.undo k).content = l.covered := by
  simp [undo, h]

theorem undo_layers (c : Cell κ α) (k : κ) :
    (c.undo k).layers = Function.update c.layers k none := by
  unfold undo
  cases h : c.layers k with
  | none => simp [← h]
  | some l => rfl

theorem undo_put {c : Cell κ α} {k : κ} (hk : c.layers k = none) (v : α) :
    (c.put k v).undo k = c := by
  have hput : (c.put k v).layers k = some ⟨v, c.content⟩ := by simp [put]
  ext1
  · exact undo_content hput
  · rw [undo_layers]
    simp [put, ← hk]

/-- The cell goes its way whatever its content is called. -/
theorem map_put (f : α → β) (c : Cell κ α) (k : κ) (v : α) :
    (c.put k v).map f = (c.map f).put k (f v) := by
  ext1
  · rfl
  · funext k'
    by_cases hk : k' = k
    · subst hk
      simp [map, put, Layer.map]
    · simp [map, put, hk]

theorem map_undo (f : α → β) (c : Cell κ α) (k : κ) : (c.undo k).map f = (c.map f).undo k := by
  cases h : c.layers k with
  | none => rw [undo_of_none h, undo_of_none (by simp [map, h])]
  | some l =>
    have hm : (c.map f).layers k = some (l.map f) := by simp [map, h]
    ext1
    · rw [undo_content hm]
      simp [map, undo_content h, Layer.map]
    · rw [undo_layers]
      funext k'
      by_cases hk : k' = k
      · subst hk
        simp [map, undo_layers]
      · simp [map, undo_layers, hk]

/-! ## When the cell is back at its base -/

theorem restored_put (base : α) (c : Cell κ α) (k : κ) (v : α) : Restored base (c.put k v) := by
  intro hi
  have := hi k
  simp [put] at this

/-- Leaving keeps a restored cell restored exactly when the last holder found
the base. -/
theorem restored_undo_iff {base : α} {c : Cell κ α} {k : κ} (h : Restored base c) :
    Restored base (c.undo k) ↔ LastFoundBase base c k := by
  cases hk : c.layers k with
  | none =>
    rw [undo_of_none hk]
    exact ⟨fun _ l hl => by simp [hk] at hl, fun _ => h⟩
  | some l =>
    have hidle : (c.undo k).Idle ↔ ∀ k' ≠ k, c.layers k' = none := by
      unfold Idle
      rw [undo_layers]
      refine ⟨?_, ?_⟩
      · intro hn k' hne
        simpa [hne] using hn k'
      · intro hn k'
        by_cases hne : k' = k
        · subst hne
          simp
        · simpa [hne] using hn k' hne
    unfold Restored LastFoundBase
    rw [hidle, undo_content hk]
    refine ⟨?_, ?_⟩
    · intro hr l' hl' hothers
      rw [hk, Option.some.injEq] at hl'
      exact hl' ▸ hr hothers
    · intro hr hothers
      exact hr l hk hothers

/-! ## When a held cell is in force -/

theorem sound_put (base : α) (c : Cell κ α) (k : κ) (v : α) : Sound base (c.put k v) :=
  Or.inl ⟨k, ⟨v, c.content⟩, by simp [put], rfl⟩

/-- Leaving keeps a sound cell sound exactly when the holder found what a
remaining holder wrote, or found the base and was the last. -/
theorem sound_undo_iff {base : α} {c : Cell κ α} {k : κ} (h : Sound base c) :
    Sound base (c.undo k) ↔ FoundHeld base c k := by
  cases hk : c.layers k with
  | none =>
    rw [undo_of_none hk]
    exact ⟨fun _ l hl => by simp [hk] at hl, fun _ => h⟩
  | some l =>
    unfold Sound FoundHeld InForce Idle
    rw [undo_content hk, undo_layers]
    refine ⟨?_, ?_⟩
    · rintro (⟨k', l', hk', hc⟩ | ⟨hidle, hc⟩) m hm
      · have hne : k' ≠ k := by
          rintro rfl
          simp at hk'
        rw [hk, Option.some.injEq] at hm
        subst hm
        exact Or.inl ⟨k', l', hne, by simpa [hne] using hk', hc⟩
      · rw [hk, Option.some.injEq] at hm
        subst hm
        exact Or.inr ⟨fun k' hne => by simpa [hne] using hidle k', hc⟩
    · intro hf
      rcases hf l hk with ⟨k', l', hne, hk', hc⟩ | ⟨hothers, hc⟩
      · exact Or.inl ⟨k', l', by simpa [hne] using hk', hc⟩
      · refine Or.inr ⟨fun k' => ?_, hc⟩
        by_cases hne : k' = k
        · subst hne
          simp
        · simpa [hne] using hothers k' hne

end Cell

/-! ## A pile -/

/-- What a cell with holders should be: what each of them wrote, the one that
came last on top. -/
abbrev Pile (κ α : Type*) := List (κ × α)

namespace Pile

/-- The cell shows what is on top, or its base. -/
def content (base : α) (s : Pile κ α) : α := (s.head?.map (·.2)).getD base

variable [DecidableEq κ]

/-- A holder leaves the pile from wherever it is. -/
def leave (s : Pile κ α) (k : κ) : Pile κ α := s.filter fun e => e.1 ≠ k

/-- The holder is on top, or in the pile nowhere. -/
def OnTop : Pile κ α → κ → Prop
  | [], _ => True
  | e :: s, k => e.1 = k ∨ k ∉ (e :: s).map (·.1)

theorem leave_of_not_mem {s : Pile κ α} {k : κ} (h : k ∉ s.map (·.1)) : s.leave k = s := by
  refine List.filter_eq_self.2 fun e he => ?_
  simp only [ne_eq, decide_eq_true_eq]
  rintro rfl
  exact h (List.mem_map_of_mem he)

end Pile

namespace Cell

variable [DecidableEq κ]

/-- The holders of a cell are those of the pile, and each of them covered what
is under it. -/
def Stacked (base : α) (c : Cell κ α) : Pile κ α → Prop
  | [] => c.Idle ∧ c.content = base
  | (k, v) :: s => (∃ a, c.layers k = some ⟨v, a⟩) ∧ c.content = v ∧ Stacked base (c.undo k) s

theorem stacked_fresh (base : α) : Stacked base (fresh base : Cell κ α) [] := ⟨fun _ => rfl, rfl⟩

theorem Stacked.content {base : α} {c : Cell κ α} {s : Pile κ α} (h : Stacked base c s) :
    c.content = s.content base := by
  cases s with
  | nil => exact h.2
  | cons e s => exact h.2.1

theorem Stacked.mem_iff {base : α} {c : Cell κ α} {s : Pile κ α} (h : Stacked base c s) (k : κ) :
    k ∈ s.map (·.1) ↔ c.layers k ≠ none := by
  induction s generalizing c with
  | nil => simp [h.1 k]
  | cons e s ih =>
    obtain ⟨⟨a, ha⟩, -, hrest⟩ := h
    rw [List.map_cons, List.mem_cons, ih hrest, undo_layers]
    by_cases hk : k = e.1
    · subst hk
      simp [ha]
    · simp [hk]

/-- A holder that comes is on top. -/
theorem Stacked.put {base : α} {c : Cell κ α} {s : Pile κ α} (h : Stacked base c s) {k : κ}
    (hk : c.layers k = none) (v : α) : Stacked base (c.put k v) ((k, v) :: s) := by
  refine ⟨⟨c.content, by simp [Cell.put]⟩, rfl, ?_⟩
  rwa [undo_put hk]

/-- The holder on top may leave. -/
theorem Stacked.undo {base : α} {c : Cell κ α} {s : Pile κ α} (h : Stacked base c s) {k : κ}
    (htop : s.OnTop k) : Stacked base (c.undo k) (s.leave k) := by
  by_cases hmem : k ∈ s.map (·.1)
  · cases s with
    | nil => cases hmem
    | cons e s =>
      rcases htop with rfl | hnot
      · have hrest := h.2.2
        have hgone : e.1 ∉ s.map (·.1) := by
          rw [hrest.mem_iff, undo_layers]
          simp
        have hleave : Pile.leave (e :: s) e.1 = s := by
          unfold Pile.leave
          rw [List.filter_cons_of_neg (by simp)]
          exact Pile.leave_of_not_mem hgone
        rwa [hleave]
      · exact absurd hmem hnot
  · have hnone : c.layers k = none := by
      by_contra hne
      exact hmem ((h.mem_iff k).2 hne)
    rwa [undo_of_none hnone, Pile.leave_of_not_mem hmem]

/-! ## One holder at most -/

/-- Nobody holds the cell, or one holder does. -/
def Alone (base : α) (c : Cell κ α) : Prop := ∃ s : Pile κ α, s.length ≤ 1 ∧ Stacked base c s

theorem alone_fresh (base : α) : Alone base (fresh base : Cell κ α) :=
  ⟨[], Nat.zero_le _, stacked_fresh base⟩

/-- The content is that of the holder, whoever asks. -/
theorem Alone.of_layer {base : α} {c : Cell κ α} (h : Alone base c) {k : κ} {l : Layer α}
    (hk : c.layers k = some l) : c.content = l.written := by
  obtain ⟨s, hlen, hs⟩ := h
  have hmem : k ∈ s.map (·.1) := (hs.mem_iff k).2 (by simp [hk])
  cases s with
  | nil => cases hmem
  | cons e s =>
    have hnil : s = [] := List.length_eq_zero_iff.1 (by simpa using hlen)
    subst hnil
    have hke : k = e.1 := by simpa using hmem
    subst hke
    obtain ⟨⟨a, ha⟩, hcontent, -⟩ := hs
    cases hk.symm.trans ha
    exact hcontent

theorem Alone.restored {base : α} {c : Cell κ α} (h : Alone base c) : Restored base c := by
  obtain ⟨s, -, hs⟩ := h
  intro hidle
  cases s with
  | nil => exact hs.2
  | cons e s =>
    obtain ⟨⟨a, ha⟩, -⟩ := hs
    simp [hidle e.1] at ha

/-- A holder that comes finds nobody. -/
theorem Alone.put {base : α} {c : Cell κ α} (h : Alone base c) (hidle : c.Idle) (k : κ) (v : α) :
    Alone base (c.put k v) := by
  have hempty : Stacked base c [] := ⟨hidle, h.restored hidle⟩
  exact ⟨[(k, v)], Nat.le_refl _, hempty.put (hidle k) v⟩

theorem Alone.undo {base : α} {c : Cell κ α} (h : Alone base c) (k : κ) :
    Alone base (c.undo k) := by
  obtain ⟨s, hlen, hs⟩ := h
  refine ⟨s.leave k, Nat.le_trans (List.length_filter_le _ _) hlen, hs.undo ?_⟩
  cases s with
  | nil => trivial
  | cons e s =>
    have hnil : s = [] := List.length_eq_zero_iff.1 (by simpa using hlen)
    subst hnil
    by_cases he : e.1 = k
    · exact Or.inl he
    · exact Or.inr (by simpa using Ne.symm he)

end Cell

end overlay
