-- How far the two conversions undo each other. Both let null alone and move
-- everything else by the load address, so null and the load address meet.
import Eforce.PatchBounds

namespace eforce

variable {w : Nat}

namespace ProgOffsetResolver

variable (r : ProgOffsetResolver w)

theorem toOffset_zero : r.toOffset 0 = 0 := if_pos rfl

theorem fromOffset_zero : r.fromOffset 0 = 0 := if_pos rfl

/-- The load address itself has offset null, which stands for null. -/
theorem fromOffset_toOffset_iff (a : Addr w) :
    r.fromOffset (r.toOffset a) = a ↔ (a = r.progStartAddr → a = 0) := by
  by_cases ha : a = 0
  · rw [ha, toOffset_zero, fromOffset_zero]
    exact iff_of_true rfl fun _ => rfl
  rw [toOffset_of_ne ha]
  by_cases hstart : a = r.progStartAddr
  · rw [← hstart, sub_self, fromOffset_zero]
    exact iff_of_false (Ne.symm ha) fun h => ha (h rfl)
  · rw [fromOffset_of_ne (sub_ne_zero.2 hstart), sub_add_cancel]
    exact iff_of_true rfl fun h => absurd h hstart

theorem toOffset_fromOffset_iff (offset : Addr w) :
    r.toOffset (r.fromOffset offset) = offset ↔ (offset + r.progStartAddr = 0 → offset = 0) := by
  by_cases ho : offset = 0
  · rw [ho, fromOffset_zero, toOffset_zero]
    exact iff_of_true rfl fun _ => rfl
  rw [fromOffset_of_ne ho]
  by_cases hnull : offset + r.progStartAddr = 0
  · rw [hnull, toOffset_zero]
    exact iff_of_false (Ne.symm ho) fun h => ho (h rfl)
  · rw [toOffset_of_ne hnull, add_sub_cancel_right]
    exact iff_of_true rfl fun h => absurd h hnull

/-- Two offsets keep their distance unless one of them alone is null. -/
theorem fromOffset_sub_iff (offset offset' : Addr w) :
    r.fromOffset offset' - r.fromOffset offset = offset' - offset ↔
      (offset = 0 ↔ offset' = 0) ∨ r.progStartAddr = 0 := by
  by_cases ho : offset = 0
  · by_cases ho' : offset' = 0
    · rw [ho, ho', fromOffset_zero]
      exact iff_of_true rfl (Or.inl Iff.rfl)
    · rw [ho, fromOffset_zero, fromOffset_of_ne ho', sub_zero, sub_zero, add_eq_left]
      exact ⟨Or.inr, fun h => h.resolve_left fun he => ho' (he.1 rfl)⟩
  · by_cases ho' : offset' = 0
    · rw [ho', fromOffset_zero, fromOffset_of_ne ho, zero_sub, zero_sub, neg_inj, add_eq_left]
      exact ⟨Or.inr, fun h => h.resolve_left fun he => ho (he.2 rfl)⟩
    · rw [fromOffset_of_ne ho, fromOffset_of_ne ho', add_sub_add_right_eq_sub]
      exact iff_of_true rfl (Or.inl (iff_of_false ho ho'))

end ProgOffsetResolver

/-- Null is null on both sides. Every other address but the load address comes
back from its offset, and every other offset comes back unless its address is
null. Two offsets keep their distance, and a constructor measures a function
right, when both of them are null or neither is, or when the program is loaded
at null. -/
theorem offsets_are_moved_addresses (r : ProgOffsetResolver w) :
    (∀ a, r.fromOffset (r.toOffset a) = a ↔ (a = r.progStartAddr → a = 0)) ∧
    (∀ offset, r.toOffset (r.fromOffset offset) = offset ↔
      (offset + r.progStartAddr = 0 → offset = 0)) ∧
    (∀ offset offset', r.fromOffset offset' - r.fromOffset offset = offset' - offset ↔
      (offset = 0 ↔ offset' = 0) ∨ r.progStartAddr = 0) ∧
    ∀ (env : Env w) (fn : FunctionT w) (error : ExceptionPtr) (allocs : Allocs w) (W : World w),
      ((fn.startOffset = 0 ↔ fn.endOffset = 0) ∨ r.progStartAddr = 0) →
      (∀ X W', ForcedException.construct env fn error r allocs W = (.ok X, W') →
        X.originalData.length ≤ (fn.endOffset - fn.startOffset).toNat) ∧
      ∀ p code, allocs.exceptionPtr = some p →
        getThrowOpcode env allocs (r.fromOffset fn.startOffset) p = .ok code →
        (fn.endOffset - fn.startOffset).toNat < code.length →
        (ForcedException.construct env fn error r allocs W).1 =
          .error (.threw (.runtimeError "Generated opcode too large")) := by
  refine ⟨r.fromOffset_toOffset_iff, r.toOffset_fromOffset_iff, r.fromOffset_sub_iff, ?_⟩
  intro env fn error allocs W hnull
  have hsize := (r.fromOffset_sub_iff fn.startOffset fn.endOffset).2 hnull
  rw [← hsize]
  refine ⟨?_, ?_⟩
  · intro X W' h
    obtain ⟨p, code, -, hlen, rfl, -⟩ := ForcedException.construct_ok h
    rw [byte_memory.length_read]
    exact hlen
  · intro p code hp hcode hlarge
    rw [ForcedException.construct_too_large hp hcode hlarge]

/-- A function at offset 0 stays there, and its end moves by the load address. -/
theorem a_function_at_null_is_too_long : ¬ ∀ (r : ProgOffsetResolver 64)
    (a offset offset' : Addr 64), r.fromOffset (r.toOffset a) = a ∧
      r.toOffset (r.fromOffset offset) = offset ∧
      r.fromOffset offset' - r.fromOffset offset = offset' - offset := by
  intro h
  obtain ⟨-, -, hsize⟩ := h ⟨0x400000⟩ 0 0 0x40
  exact absurd hsize (by decide)

end eforce
