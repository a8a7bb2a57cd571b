-- Who owns a patch. An object may be moved on any number of times, and the
-- objects that were moved from may go in any order: one of them at a time has
-- to put the code back. The move assignment is meant to hand the patch on in
-- the same way, and does not return.
import Eforce.Listing

namespace eforce

open byte_memory

variable {κ : Type} {w : Nat}

/-! ## Objects and their owner -/

/-- What a program does with its objects. -/
inductive ObjectOp (κ : Type)
  /-- The move constructor makes `dst` out of `src`. -/
  | move (src dst : κ)
  | destroy (x : κ)
  deriving DecidableEq, Repr

/-- The objects that live, by their places. -/
structure Objects (κ : Type) (w : Nat) where
  live : κ → Option (ForcedException w)
  world : World w

variable [DecidableEq κ]

namespace Objects

def single (x : κ) (X : ForcedException w) (W : World w) : Objects κ w where
  live := Function.update (fun _ => none) x (some X)
  world := W

/-- A move takes a live object and a free place, and a destructor takes a live
object. All else is undefined. -/
def step (env : Env w) (S : Objects κ w) : ObjectOp κ → Outcome Unit × Objects κ w
  | .move src dst =>
    match S.live src, S.live dst with
    | some X, none =>
      let live := Function.update S.live src (some X.move.2)
      (.ok (), { S with live := Function.update live dst (some X.move.1) })
    | _, _ => (.error .undefined, S)
  | .destroy x =>
    match S.live x with
    | some X =>
      match X.destroy env S.world with
      | (o, W) => (o, { live := Function.update S.live x none, world := W })
    | none => (.error .undefined, S)

/-- The operations of a list, each of which returns. -/
inductive Run (env : Env w) (S₀ : Objects κ w) : List (ObjectOp κ) → Objects κ w → Prop
  | nil : Run env S₀ [] S₀
  | snoc {ops op S S'} : Run env S₀ ops S → S.step env op = (.ok (), S') →
      Run env S₀ (ops ++ [op]) S'

/-- What a move does. -/
theorem step_move {env : Env w} {S S' : Objects κ w} {src dst : κ}
    (h : S.step env (.move src dst) = (.ok (), S')) :
    ∃ X, S.live src = some X ∧ S.live dst = none ∧ S'.world = S.world ∧
      S'.live dst = some X ∧ S'.live src = some X.move.2 ∧
      ∀ x, x ≠ src → x ≠ dst → S'.live x = S.live x := by
  unfold step at h
  dsimp only at h
  split at h
  · rename_i X hsrc hdst
    cases h
    have hne : src ≠ dst := fun he => by simp [he, hdst] at hsrc
    exact ⟨X, hsrc, hdst, rfl, by simp [ForcedException.move], by simp [hne],
      fun x hxs hxd => by simp [hxs, hxd]⟩
  · cases h

/-- What a destructor does. -/
theorem step_destroy {env : Env w} {S S' : Objects κ w} {x : κ}
    (h : S.step env (.destroy x) = (.ok (), S')) :
    ∃ X, S.live x = some X ∧ X.destroy env S.world = (.ok (), S'.world) ∧ S'.live x = none ∧
      ∀ y, y ≠ x → S'.live y = S.live y := by
  unfold step at h
  cases hx : S.live x with
  | none =>
    simp only [hx] at h
    cases h
  | some X =>
    rcases hd : X.destroy env S.world with ⟨o, W⟩
    simp only [hx, hd] at h
    cases h
    exact ⟨X, rfl, hd, by simp, fun y hy => by simp [hy]⟩

end Objects

/-- The owner behind an operation: a move passes the patch on, and a destructor
gives it back. -/
def ObjectOp.owner (op : ObjectOp κ) (owner : Option κ) : Option κ :=
  match op with
  | .move src dst => if owner = some src then some dst else owner
  | .destroy x => if owner = some x then none else owner

/-- The owner behind some operations on one object. -/
def ownerOf (x₀ : κ) (ops : List (ObjectOp κ)) : Option κ :=
  ops.foldl (fun owner op => op.owner owner) (some x₀)

theorem ownerOf_snoc (x₀ : κ) (ops : List (ObjectOp κ)) (op : ObjectOp κ) :
    ownerOf x₀ (ops ++ [op]) = op.owner (ownerOf x₀ ops) := by
  simp [ownerOf]

/-- As long as there is an owner, the world is as the constructor left it. Then
it is as the destructor of the owner left it. All other objects are empty. -/
structure Owns (env : Env w) (X : ForcedException w) (W₀ : World w) (owner : Option κ)
    (S : Objects κ w) : Prop where
  held : ∀ x, owner = some x → S.live x = some X ∧ S.world = W₀
  given_back : owner = none →
    S.world = (W₀.patched env X.fnStart X.originalData).delete X.pException
  empty : ∀ x Y, S.live x = some Y → owner ≠ some x → Y.originalData = [] ∧ Y.pException = none

section Step

variable {env : Env w} {X : ForcedException w} {W₀ : World w} {owner : Option κ}
  {S S' : Objects κ w} {op : ObjectOp κ} {o : Outcome Unit}

theorem owns_single (env : Env w) (X : ForcedException w) (W₀ : World w) (x₀ : κ) :
    Owns env X W₀ (some x₀) (.single x₀ X W₀) := by
  refine ⟨fun x hx => ?_, fun hx => ?_, fun x Y hY hx => ?_⟩
  · cases hx
    exact ⟨by simp [Objects.single], rfl⟩
  · cases hx
  · have hne : x ≠ x₀ := fun he => hx (by rw [he])
    simp [Objects.single, hne] at hY

/-- What a destructor of an empty object does: nothing. -/
theorem destroy_of_empty_object {Y : ForcedException w}
    (h : Y.originalData = [] ∧ Y.pException = none) (W : World w) :
    Y.destroy env W = (.ok (), W) := by
  rw [ForcedException.destroy_of_empty h.1, h.2]
  rfl

/-- Any step but the destructor of the owner leaves the world alone. -/
theorem Owns.step_world (h : Owns env X W₀ owner S) (hs : S.step env op = (o, S'))
    (hop : ∀ x, owner = some x → op ≠ .destroy x) : S'.world = S.world := by
  cases op with
  | move src dst =>
    unfold Objects.step at hs
    dsimp only at hs
    split at hs <;> cases hs <;> rfl
  | destroy x =>
    unfold Objects.step at hs
    cases hx : S.live x with
    | none =>
      simp only [hx] at hs
      cases hs
      rfl
    | some Y =>
      have hempty := h.empty x Y hx fun he => hop x he rfl
      simp only [hx, destroy_of_empty_object hempty] at hs
      cases hs
      rfl

/-- The destructor of the owner puts the code back, and then the pointer goes.
Without write access it does neither, and ends the process. -/
theorem Owns.step_owner {x : κ} (h : Owns env X W₀ (some x) S) (hne : X.originalData ≠ [])
    (hs : S.step env (.destroy x) = (o, S')) :
    (o = .ok () ∧
        S'.world = (S.world.patched env X.fnStart X.originalData).delete X.pException) ∨
      (o = .error .terminated ∧ S'.world = S.world.refused env) := by
  unfold Objects.step at hs
  simp only [(h.held x rfl).1] at hs
  cases hg : env.mprotectGrants S.world.calls .readWriteExec with
  | true =>
    rw [ForcedException.destroy_of_granted hne hg] at hs
    cases hs
    exact Or.inl ⟨rfl, rfl⟩
  | false =>
    rw [ForcedException.destroy_of_refused hne hg] at hs
    cases hs
    exact Or.inr ⟨rfl, rfl⟩

/-- A move passes the patch on when the old object owns it, and else nothing. -/
theorem Owns.move {src dst : κ} (h : Owns env X W₀ owner S)
    (hs : S.step env (.move src dst) = (.ok (), S')) :
    Owns env X W₀ ((ObjectOp.move src dst).owner owner) S' := by
  obtain ⟨Y, hsrc, hdst, hworld, hdst', hsrc', hother⟩ := Objects.step_move hs
  have hleft : Y.move.2.originalData = [] ∧ Y.move.2.pException = none := ⟨rfl, rfl⟩
  by_cases howner : owner = some src
  · obtain ⟨hX, hW⟩ := h.held src howner
    cases hX.symm.trans hsrc
    rw [ObjectOp.owner, if_pos howner]
    refine ⟨fun x hx => ?_, fun hx => ?_, fun x Z hZ hx => ?_⟩
    · cases hx
      exact ⟨hdst', hworld.trans hW⟩
    · cases hx
    · have hxd : x ≠ dst := fun he => hx (by rw [he])
      by_cases hxs : x = src
      · cases (hxs ▸ hZ).symm.trans hsrc'
        exact hleft
      · rw [hother x hxs hxd] at hZ
        exact h.empty x Z hZ fun he => hxs (Option.some.inj (he.symm.trans howner))
  · rw [ObjectOp.owner, if_neg howner]
    refine ⟨fun x hx => ?_, fun hx => hworld.trans (h.given_back hx), fun x Z hZ hx => ?_⟩
    · obtain ⟨hX, hW⟩ := h.held x hx
      have hxd : x ≠ dst := fun he => by simp [he, hdst] at hX
      have hxs : x ≠ src := fun he => howner (by rw [hx, he])
      exact ⟨(hother x hxs hxd).trans hX, hworld.trans hW⟩
    · by_cases hxd : x = dst
      · cases (hxd ▸ hZ).symm.trans hdst'
        exact h.empty src Y hsrc howner
      by_cases hxs : x = src
      · cases (hxs ▸ hZ).symm.trans hsrc'
        exact hleft
      · rw [hother x hxs hxd] at hZ
        exact h.empty x Z hZ hx

/-- A destructor ends the patch when its object owns it, and else nothing. -/
theorem Owns.destroy {x : κ} (h : Owns env X W₀ owner S) (hne : X.originalData ≠ [])
    (hs : S.step env (.destroy x) = (.ok (), S')) :
    Owns env X W₀ ((ObjectOp.destroy x).owner owner) S' := by
  obtain ⟨Y, -, -, hgone, hother⟩ := Objects.step_destroy hs
  have hlive : ∀ y Z, S'.live y = some Z → y ≠ x ∧ S.live y = some Z := by
    intro y Z hZ
    have hy : y ≠ x := fun he => by simp [he, hgone] at hZ
    exact ⟨hy, (hother y hy).symm.trans hZ⟩
  by_cases howner : owner = some x
  · subst howner
    rw [ObjectOp.owner, if_pos rfl]
    refine ⟨fun y hy => ?_, fun _ => ?_, fun y Z hZ _ => ?_⟩
    · cases hy
    · rcases h.step_owner hne hs with ⟨-, hworld⟩ | ⟨hterm, -⟩
      · rw [hworld, (h.held x rfl).2]
      · cases hterm
    · obtain ⟨hy, hZ⟩ := hlive y Z hZ
      exact h.empty y Z hZ fun he => hy (Option.some.inj he).symm
  · have hworld := h.step_world hs fun y hy he => howner (by cases he; exact hy)
    rw [ObjectOp.owner, if_neg howner]
    refine ⟨fun y hy => ?_, fun hy => ?_, fun y Z hZ hy => ?_⟩
    · obtain ⟨hX, hW⟩ := h.held y hy
      have hyx : y ≠ x := fun he => howner (by rw [hy, he])
      exact ⟨(hother y hyx).trans hX, hworld.trans hW⟩
    · exact hworld.trans (h.given_back hy)
    · exact h.empty y Z (hlive y Z hZ).2 hy

end Step

/-- Through every run, the owner has the patch and nobody else has anything. -/
theorem Objects.Run.owns {env : Env w} {X : ForcedException w} {W₀ : World w} {x₀ : κ}
    {ops : List (ObjectOp κ)} {S : Objects κ w} (hne : X.originalData ≠ [])
    (h : Objects.Run env (.single x₀ X W₀) ops S) : Owns env X W₀ (ownerOf x₀ ops) S := by
  induction h with
  | nil => exact owns_single env X W₀ x₀
  | @snoc ops op S S' _ hs ih =>
    rw [ownerOf_snoc]
    cases op with
    | move src dst => exact ih.move hs
    | destroy x => exact ih.destroy hne hs

/-- What was written to the code between two worlds. -/
def World.Wrote (W W' : World w) (writes : List (Addr w × List Byte)) : Prop :=
  ∃ events, W'.trace = W.trace ++ events ∧ writesOf events = writes

theorem World.wrote_nothing {W W' : World w} (h : W' = W) : W.Wrote W' [] :=
  ⟨[], by rw [h, List.append_nil], rfl⟩

/-- The saved bytes are written back once, by the destructor of the object that
owns them at the time, and all else writes nothing. The exception that the code
throws is alive until the bytes are back. A destructor without write access
ends the process and writes nothing. -/
theorem a_patch_is_written_back_once {env : Env w} {fn : FunctionT w} {error : ExceptionPtr}
    {r : ProgOffsetResolver w} {allocs : Allocs w} {W W₀ : World w} {X : ForcedException w}
    {x₀ : κ} {ops : List (ObjectOp κ)} {S : Objects κ w} (hsize : 0 < env.generator.size)
    (hmade : ForcedException.construct env fn error r allocs W = (.ok X, W₀))
    (h : Objects.Run env (.single x₀ X W₀) ops S) :
    ∃ p, X.pException = some p ∧ env.Embeds W₀.memory X.fnStart p ∧
      (∀ x, ownerOf x₀ ops = some x →
        S.live x = some X ∧ W₀.Wrote S.world [] ∧ S.world.heap p = some error) ∧
      (ownerOf x₀ ops = none → W₀.Wrote S.world [(X.fnStart, X.originalData)]) ∧
      (∀ x Y, S.live x = some Y → ownerOf x₀ ops ≠ some x →
        Y.originalData = [] ∧ Y.pException = none) ∧
      (∀ x o S', ownerOf x₀ ops = some x → S.step env (.destroy x) = (o, S') →
        (o = .ok () ∧ ∃ W₁, S.world.Wrote W₁ [(X.fnStart, X.originalData)] ∧
          W₁.heap p = some error ∧ S'.world = W₁.delete (some p)) ∨
        (o = .error .terminated ∧ S.world.Wrote S'.world [] ∧ S'.world.heap p = some error)) ∧
      ∀ op o S', S.step env op = (o, S') → (∀ x, ownerOf x₀ ops = some x → op ≠ .destroy x) →
        S.world.Wrote S'.world [] := by
  obtain ⟨p, code, hcode, hlen, rfl, rfl⟩ := ForcedException.construct_ok hmade
  have hopcode := getThrowOpcode_ok hcode
  have hcodesize := env.generator.length_eq hopcode
  have hne : read W.memory (r.fromOffset fn.startOffset) code.length ≠ [] := by
    intro he
    have hzero := congrArg List.length he
    rw [length_read, hcodesize] at hzero
    simp at hzero
    omega
  have howns := h.owns hne
  have hheap : ((W.new p error).patched env (r.fromOffset fn.startOffset) code).heap p =
      some error := by simp [World.new]
  refine ⟨p, rfl, ?_, fun x hx => ?_, fun hnone => ?_, howns.empty, fun x o S' hx hs => ?_,
    fun op o S' hs hop => World.wrote_nothing (howns.step_world hs hop)⟩
  · unfold Env.Embeds
    rw [← hcodesize, World.patched_memory, World.new_memory,
      read_write _ _ _ (hlen.trans (BitVec.isLt _).le)]
    exact hopcode
  · obtain ⟨hlive, hworld⟩ := howns.held x hx
    exact ⟨hlive, World.wrote_nothing hworld, hworld ▸ hheap⟩
  · obtain ⟨events, htrace, hwrites⟩ := patched_writes env
      ((W.new p error).patched env (r.fromOffset fn.startOffset) code)
      (r.fromOffset fn.startOffset) (read W.memory (r.fromOffset fn.startOffset) code.length)
    refine ⟨events, ?_, hwrites⟩
    rw [howns.given_back hnone, World.delete_trace, htrace]
  · have hworld := (howns.held x hx).2
    rcases (hx ▸ howns).step_owner hne hs with ⟨rfl, hback⟩ | ⟨rfl, hback⟩
    · refine Or.inl ⟨rfl, _, patched_writes env _ _ _, ?_, hback⟩
      rw [World.patched_heap, hworld, hheap]
    · refine Or.inr ⟨rfl, ⟨_, by rw [hback]; rfl, rfl⟩, ?_⟩
      rw [hback, hworld]
      exact hheap

theorem Objects.Run.call {env : Env w} {S₀ S : Objects κ w} {ops : List (ObjectOp κ)}
    (h : Objects.Run env S₀ ops S) (op : ObjectOp κ) (ho : (S.step env op).1 = .ok ()) :
    Objects.Run env S₀ (ops ++ [op]) (S.step env op).2 :=
  h.snoc (Prod.ext ho rfl)

/-- A patch of the first function moves on twice, and its owner goes first. -/
theorem a_patch_is_written_back_once_sample :
    ∃ X W₀ S, Objects.Run sample (.single 0 X W₀)
        [.move 0 1, .move 1 2, .destroy 2, .destroy 0, .destroy 1] S ∧
      W₀.Wrote S.world [(0x401000, X.originalData)] := by
  obtain ⟨X, W₀, hmade, hX⟩ : ∃ X W₀, ForcedException.construct sample ⟨0x1000, 0x1040, "f"⟩
      (some 1) sample.resolver { exceptionPtr := some 0x7000 } sampleWorld = (.ok X, W₀) ∧
      X.fnStart = 0x401000 := ⟨_, _, rfl, rfl⟩
  have hrun : ∃ S, Objects.Run sample (.single 0 X W₀)
      [.move 0 1, .move 1 2, .destroy 2, .destroy 0, .destroy 1] S := by
    cases hmade
    exact ⟨_, ((((Objects.Run.nil.call (.move 0 1) rfl).call (.move 1 2) rfl).call
      (.destroy 2) rfl).call (.destroy 0) rfl).call (.destroy 1) rfl⟩
  obtain ⟨S, hrun⟩ := hrun
  obtain ⟨p, -, -, -, hback, -⟩ := a_patch_is_written_back_once (by decide) hmade hrun
  exact ⟨X, W₀, S, hrun, hX ▸ hback rfl⟩

/-! ## The move assignment -/

/-- `std::swap`: a move construction, two move assignments, and the destructor
of the temporary. A call that is nested too deep gives `none`. -/
def swap (env : Env w)
    (assign : ForcedException w → ForcedException w → World w →
      Option (Outcome (ForcedException w × ForcedException w) × World w))
    (a b : ForcedException w) (W : World w) :
    Option (Outcome (ForcedException w × ForcedException w) × World w) :=
  let (tmp, a) := a.move
  match assign a b W with
  | none => none
  | some (.error e, W) => some (.error e, W)
  | some (.ok (a, b), W) =>
    match assign b tmp W with
    | none => none
    | some (.error e, W) => some (.error e, W)
    | some (.ok (b, tmp), W) =>
      match tmp.destroy env W with
      | (.ok (), W) => some (.ok (a, b), W)
      | (.error e, W) => some (.error e, W)

/-- `operator=` of a moved object, with calls nested to some depth. It gives
both objects back. -/
def moveAssign (env : Env w) : Nat → ForcedException w → ForcedException w → World w →
    Option (Outcome (ForcedException w × ForcedException w) × World w)
  | 0, _, _, _ => none
  | depth + 1, self, other, W =>
    let (tmp, other) := other.move
    match swap env (moveAssign env depth) self tmp W with
    | none => none
    | some (.error e, W) => some (.error e, W)
    | some (.ok (self, tmp), W) =>
      match tmp.destroy env W with
      | (.ok (), W) => some (.ok (self, other), W)
      | (.error e, W) => some (.error e, W)

/-- What a move assignment is for: the patch of `other` has a new owner, and the
old patch of `self` is gone from the code. -/
structure Transfers (self other : ForcedException w) (W : World w)
    (result : ForcedException w × ForcedException w) (W' : World w) : Prop where
  owns : result.1.fnStart = other.fnStart ∧ result.1.pException = other.pException ∧
    result.1.originalData = other.originalData
  written_back : W.Wrote W' (if self.originalData = [] then []
    else [(self.fnStart, self.originalData)])
  empty : result.2.originalData = []

/-- The assignment swaps, and the swap assigns. -/
theorem moveAssign_eq_none (env : Env w) (depth : Nat) (self other : ForcedException w)
    (W : World w) : moveAssign env depth self other W = none := by
  induction depth generalizing self other W with
  | zero => rfl
  | succ depth ih =>
    unfold moveAssign swap
    simp only [ih]

/-- At no depth does the assignment come to an end, neither with a return nor
with a failure, whatever the two objects hold. -/
theorem a_move_assignment_never_returns (env : Env w) (self other : ForcedException w)
    (W : World w) : ¬ ∃ depth result, moveAssign env depth self other W = some result := by
  rintro ⟨depth, result, hreturns⟩
  rw [moveAssign_eq_none] at hreturns
  cases hreturns

/-- The patches of the two functions of the small program, one assigned to the
other. -/
theorem two_patches_are_not_assigned : ¬ ∀ (env : Env 64) (self other : ForcedException 64)
    (W : World 64), ∃ depth result W',
      moveAssign env depth self other W = some (.ok result, W') ∧
        Transfers self other W result W' := by
  intro h
  obtain ⟨depth, result, W', hreturns, -⟩ := h sample
    ⟨0x401000, some 0x7000, [0x90], sample.resolver⟩
    ⟨0x401040, some 0x7010, [0x90], sample.resolver⟩ sampleWorld
  rw [moveAssign_eq_none] at hreturns
  cases hreturns

end eforce
