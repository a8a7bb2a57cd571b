-- Runs of machine code, seen from outside. Which bytes a run looks at, what a
-- change of the other bytes does to it, and how the run of a small instruction
-- set is one of every larger set.
import Eforce.Isa

namespace isa

open byte_memory

namespace Isa

variable {w : Nat} {S : Isa w} {m m' : Memory w} {Q R : S.Cpu → Prop}
  {c c' d : S.Cpu} {k : Nat}

/-! ## Runs with a condition on the way -/

/-- The cpu gets from `c` to `d` in `k` steps, and meets a condition before
each of them. -/
inductive Path (S : Isa w) (m : Memory w) (Q : S.Cpu → Prop) (d : S.Cpu) : Nat → S.Cpu → Prop
  | refl : Path S m Q d 0 d
  | head {k : Nat} {c c' : S.Cpu} : Q c → S.step m c = some c' → Path S m Q d k c' →
      Path S m Q d (k + 1) c

theorem Path.run (h : S.Path m Q d k c) : S.run m k c = some d := by
  induction h with
  | refl => rfl
  | head _ hs _ ih =>
    rw [Isa.run, hs]
    exact ih

theorem Path.mono (h : S.Path m Q d k c) (hQ : ∀ c, Q c → R c) : S.Path m R d k c := by
  induction h with
  | refl => exact .refl
  | head hc hs _ ih => exact .head (hQ _ hc) hs ih

/-! ## Straight code -/

/-- `k` instructions, each of which but the last goes on right behind itself. -/
inductive Straight (S : Isa w) (d : S.Cpu) : List Byte → Nat → S.Cpu → Prop
  | last {bs : List Byte} {insn : S.Insn} {c : S.Cpu} : S.Encodes bs insn →
      S.exec insn bs.length c = d → Straight S d bs 1 c
  | cons {bs cs : List Byte} {insn : S.Insn} {k : Nat} {c : S.Cpu} : S.Encodes bs insn →
      S.pc (S.exec insn bs.length c) = S.pc c + BitVec.ofNat w bs.length →
      Straight S d cs k (S.exec insn bs.length c) → Straight S d (bs ++ cs) (k + 1) c

/-- A range and the bytes behind it are a longer range. -/
theorem within_behind {s a : BitVec w} {n k : Nat} (h : Within (s + BitVec.ofNat w n) k a)
    (hle : n + k ≤ 2 ^ w) : Within s (n + k) a := by
  unfold Within at h ⊢
  have hn : (BitVec.ofNat w n).toNat = n := by
    rw [BitVec.toNat_ofNat, Nat.mod_eq_of_lt (by omega)]
  have hsum : a - s = a - (s + BitVec.ofNat w n) + BitVec.ofNat w n := by ring
  rw [hsum, BitVec.toNat_add, hn, Nat.mod_eq_of_lt (by omega)]
  omega

/-- The cpu runs through straight code and stays in it to the end. -/
theorem Straight.path {code : List Byte} (h : S.Straight d code k c)
    (hcode : CodeAt m (S.pc c) code) (hle : code.length ≤ 2 ^ w) :
    S.Path m (fun e => Within (S.pc c) code.length (S.pc e)) d k c := by
  induction h with
  | @last bs insn c henc hend =>
    subst hend
    have hfirst : Within (S.pc c) bs.length (S.pc c) := by simpa [Within] using henc.pos
    exact .head hfirst (henc.step hcode) .refl
  | @cons bs cs insn k c henc hpc _ ih =>
    obtain ⟨hbs, hcs⟩ := codeAt_append.1 hcode
    rw [List.length_append] at hle ⊢
    have hfirst : Within (S.pc c) (bs.length + cs.length) (S.pc c) := by
      have hpos := henc.pos
      simp only [Within, BitVec.sub_self, BitVec.toNat_ofNat, Nat.zero_mod]
      omega
    rw [hpc] at ih
    exact .head hfirst (henc.step hbs) ((ih hcs (by omega)).mono fun e he => within_behind he hle)

/-! ## The bytes that a step looks at -/

/-- An instruction is told by its own bytes. -/
def OwnBytes (S : Isa w) : Prop :=
  ∀ bs insn n, S.decode bs = some (insn, n) → S.decode (bs.take n) = some (insn, n)

/-- `a` is one of the bytes of the instruction that the cpu stands at. -/
def Fetches (S : Isa w) (m : Memory w) (c : S.Cpu) (a : BitVec w) : Prop :=
  ∃ insn n, S.decode (read m (S.pc c) S.window) = some (insn, n) ∧ Within (S.pc c) n a

/-- Memories that are alike on a range read alike there. A range that is longer
than the address space is all of it. -/
theorem read_alike {s : BitVec w} {n : Nat} (h : ∀ a, Within s n a → m a = m' a) :
    read m s n = read m' s n := by
  rcases Nat.le_total n (2 ^ w) with hle | hge
  · exact read_congr hle h
  · have hsame : m = m' := by
      funext a
      exact h a (Nat.lt_of_lt_of_le (BitVec.isLt _) hge)
    rw [hsame]

theorem read_take (m : Memory w) (s : BitVec w) {n k : Nat} (h : n ≤ k) :
    (read m s k).take n = read m s n := by
  obtain ⟨i, rfl⟩ := Nat.exists_eq_add_of_le h
  rw [read_append, List.take_append_of_le_length (by simp), List.take_of_length_le (by simp)]

/-- A step does not see a change of bytes that are not its own. -/
theorem step_congr (hS : S.OwnBytes) (h : ∀ a, S.Fetches m c a → m a = m' a)
    (hs : S.step m c = some c') : S.step m' c = some c' := by
  unfold step at hs ⊢
  cases hd : S.decode (read m (S.pc c) S.window) with
  | none => simp [hd] at hs
  | some r =>
    obtain ⟨insn, n⟩ := r
    have halike : ∀ a, Within (S.pc c) n a → m a = m' a := fun a ha => h a ⟨insn, n, hd, ha⟩
    have hsame : S.decode (read m' (S.pc c) S.window) = some (insn, n) := by
      rcases Nat.le_total n S.window with hle | hge
      · have hown := hS _ _ _ hd
        rw [read_take _ _ hle, read_alike halike, ← read_take m' _ hle] at hown
        have hall : S.decode (_ ++ (read m' (S.pc c) S.window).drop n) = _ := S.decode_append hown
        rwa [List.take_append_drop] at hall
      · rw [← read_alike fun a ha => halike a (ha.mono hge)]
        exact hd
    rw [hd] at hs
    rw [hsame]
    exact hs

end Isa

/-! ## Larger instruction sets -/

/-- `S` has all the instructions of `T`, and may have more instructions and more
state. The instructions of `T` leave that state alone. -/
structure Extension {w : Nat} (S T : Isa w) where
  Rest : Type
  view : S.Cpu → T.Cpu
  rest : S.Cpu → Rest
  insn : T.Insn → S.Insn
  pc_view : ∀ c, T.pc (view c) = S.pc c
  decode : ∀ {bs i n}, T.decode bs = some (i, n) → S.decode bs = some (insn i, n)
  window_le : T.window ≤ S.window
  view_exec : ∀ i n c, view (S.exec (insn i) n c) = T.exec i n (view c)
  rest_exec : ∀ i n c, rest (S.exec (insn i) n c) = rest c

namespace Extension

variable {w : Nat} {S T : Isa w} {m : Memory w} {Q : BitVec w → Prop} {c : S.Cpu} {t : T.Cpu}
  {k : Nat}

/-- Every instruction set extends itself. -/
def refl (S : Isa w) : Extension S S where
  Rest := Unit
  view := id
  rest _ := ()
  insn := id
  pc_view _ := rfl
  decode h := h
  window_le := Nat.le_refl _
  view_exec _ _ _ := rfl
  rest_exec _ _ _ := rfl

theorem step (X : Extension S T) (h : T.step m (X.view c) = some t) :
    ∃ c', S.step m c = some c' ∧ X.view c' = t ∧ X.rest c' = X.rest c := by
  unfold Isa.step at h
  rw [X.pc_view] at h
  cases hd : T.decode (read m (S.pc c) T.window) with
  | none => simp [hd] at h
  | some r =>
    obtain ⟨i, n⟩ := r
    rw [hd] at h
    obtain ⟨j, hj⟩ := Nat.exists_eq_add_of_le X.window_le
    have hlarge : S.decode (read m (S.pc c) S.window) = some (X.insn i, n) := by
      rw [hj, read_append]
      exact S.decode_append (X.decode hd)
    refine ⟨S.exec (X.insn i) n c, ?_, ?_, X.rest_exec i n c⟩
    · unfold Isa.step
      rw [hlarge]
    · rw [X.view_exec]
      exact Option.some.inj h

/-- A run of the small set is a run of the large one, through the same
addresses. -/
theorem path (X : Extension S T) {t' : T.Cpu} (h : T.Path m (fun t => Q (T.pc t)) t' k t)
    (hc : X.view c = t) :
    ∃ c', S.Path m (fun c => Q (S.pc c)) c' k c ∧ X.view c' = t' ∧ X.rest c' = X.rest c := by
  induction h generalizing c with
  | refl => exact ⟨c, .refl, hc, rfl⟩
  | head hQ hs _ ih =>
    subst hc
    obtain ⟨c₁, hstep, hview, hrest⟩ := X.step hs
    obtain ⟨c', hpath, hview', hrest'⟩ := ih hview
    exact ⟨c', .head (X.pc_view c ▸ hQ) hstep hpath, hview', hrest'.trans hrest⟩

end Extension

/-! ## Calls -/

/-- How a call passes its argument, and which part of the cpu it leaves alone. -/
structure Convention {w : Nat} (S : Isa w) where
  argument : S.Cpu → BitVec w
  SameFrame : S.Cpu → S.Cpu → Prop

/-- The convention of a small set, where everything else is part of the frame. -/
def Convention.extend {w : Nat} {S T : Isa w} (C : Convention T) (X : Extension S T) :
    Convention S where
  argument c := C.argument (X.view c)
  SameFrame c c' := C.SameFrame (X.view c) (X.view c') ∧ X.rest c = X.rest c'

end isa
