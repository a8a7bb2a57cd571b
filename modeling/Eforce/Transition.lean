-- Systems that go from state to state and show something on the way. A run
-- shows what its steps show. Two systems are compared by what they show.
import Mathlib.Tactic.Common

namespace transition

variable {σ τ ο : Type*}

/-- What a step shows may be nothing at all. -/
abbrev System (σ ο : Type*) := σ → List ο → σ → Prop

/-- A run of `n` steps. -/
inductive Steps (A : System σ ο) : Nat → σ → List ο → σ → Prop
  | refl {a : σ} : Steps A 0 a [] a
  | head {n : Nat} {a b c : σ} {o os : List ο} :
      A a o b → Steps A n b os c → Steps A (n + 1) a (o ++ os) c

/-- A run of any length, and what it shows. -/
def Trace (A : System σ ο) (a : σ) (os : List ο) (b : σ) : Prop := ∃ n, Steps A n a os b

variable {A : System σ ο} {B : System τ ο} {a b c : σ} {o os os' : List ο} {m n : Nat}

theorem Steps.append (h : Steps A m a os b) (h' : Steps A n b os' c) :
    Steps A (n + m) a (os ++ os') c := by
  induction h with
  | refl => exact h'
  | head hs _ ih =>
    rw [List.append_assoc]
    exact .head hs (ih h')

theorem Trace.refl : Trace A a [] a := ⟨0, .refl⟩

theorem Trace.head (h : A a o b) (h' : Trace A b os c) : Trace A a (o ++ os) c := by
  obtain ⟨n, hn⟩ := h'
  exact ⟨n + 1, .head h hn⟩

theorem Trace.single (h : A a o b) : Trace A a o b := by
  simpa using Trace.head h .refl

theorem Trace.trans (h : Trace A a os b) (h' : Trace A b os' c) : Trace A a (os ++ os') c := by
  obtain ⟨m, hm⟩ := h
  obtain ⟨n, hn⟩ := h'
  exact ⟨n + m, hm.append hn⟩

/-- A step behind a run that shows nothing. -/
theorem Trace.snoc_silent (h : Trace A a [] b) (h' : A b o c) : Trace A a o c := by
  simpa using h.trans (.single h')

/-- What every step keeps, every run keeps. -/
theorem Trace.invariant {I : σ → Prop} (hstep : ∀ a o b, I a → A a o b → I b) (h : Trace A a os b)
    (ha : I a) : I b := by
  obtain ⟨n, hn⟩ := h
  induction hn with
  | refl => exact ha
  | head hs _ ih => exact ih (hstep _ _ _ ha hs)

/-- When each step of a system is a run of another one, each of its runs is. -/
theorem Trace.simulates {R : σ → τ → Prop}
    (hstep : ∀ a x o b, R a x → A a o b → ∃ y, Trace B x o y ∧ R b y) (h : Trace A a os b) {x : τ}
    (hx : R a x) : ∃ y, Trace B x os y ∧ R b y := by
  obtain ⟨n, hn⟩ := h
  induction hn generalizing x with
  | refl => exact ⟨x, .refl, hx⟩
  | head hs _ ih =>
    obtain ⟨y, hy, hR⟩ := hstep _ _ _ _ hx hs
    obtain ⟨z, hz, hR'⟩ := ih hR
    exact ⟨z, hy.trans hz, hR'⟩

end transition
