-- What the code looks like behind any run of forces, unforces and
-- destructors. A forcer saves what it finds, which may be the patch of another
-- location, so the order of the calls decides. Each law names the order that
-- it needs, and a run of the small program shows what goes wrong without it.
import Eforce.Agreement

namespace eforce

open byte_memory overlay

variable {ι : Type} {w : Nat}

/-! ## States of a run -/

/-- The start of the function of an address. -/
def Env.startOf (env : Env w) (loc : Addr w) : Option (Addr w) := (env.extentAt loc).map (·.1)

namespace Process

/-- No forcer has a forced location. -/
def Idle (P : Process ι w) : Prop := ∀ k, P.patches.held k = none

/-- The code at `start` throws the exception of a location in that function
that is forced now, and the exception is there to be thrown. -/
def InForce (env : Env w) (P : Process ι w) (start : Addr w) : Prop :=
  ∃ k X p, P.patches.held k = some X ∧ env.startOf k.2 = some start ∧ X.pException = some p ∧
    (P.world.heap p).isSome ∧ env.Embeds P.world.memory start p

/-- A check of every entry of every forcer. -/
theorem forall_held {P : Process ι w} {p : ι × Addr w → ForcedException w → Prop}
    (h : ∀ i, ∀ F ∈ P.forcers i, ∀ e ∈ F.forcedExceptions.toList, p (i, e.1) e.2)
    {k : ι × Addr w} {X : ForcedException w} (hX : P.patches.held k = some X) : p k X := by
  obtain ⟨F, hF, hloc⟩ := Option.bind_eq_some_iff.1 hX
  exact h k.1 F hF (k.2, X) (Std.ExtTreeMap.mem_toList_iff_getElem?_eq_some.2 hloc)

theorem idle_of_isEmpty {P : Process ι w}
    (h : ∀ i, ∀ F ∈ P.forcers i, F.forcedExceptions.isEmpty = true) : P.Idle := by
  rintro ⟨i, loc⟩
  unfold patches
  cases hi : P.forcers i with
  | none => simp [hi]
  | some F => simp [hi, Std.ExtTreeMap.isEmpty_iff.1 (h i F hi)]

theorem not_inForce {env : Env w} {P : Process ι w} {start : Addr w}
    (h : ∀ i, ∀ F ∈ P.forcers i, ∀ e ∈ F.forcedExceptions.toList,
      e.2.pException.all fun p => !decide (env.Embeds P.world.memory start p)) :
    ¬ P.InForce env start := by
  rintro ⟨k, X, p, hX, -, hp, -, hembeds⟩
  have hall := forall_held
    (p := fun _ X => X.pException.all fun p => !decide (env.Embeds P.world.memory start p)) h hX
  simp [hp, hembeds] at hall

end Process

namespace Ledger

/-- A location that is the last one to leave its function was forced when the
function had its own code. -/
def LastFoundOwn (L : Ledger ι w) (k : ι × Addr w) : Prop :=
  ∀ start, (L start).LastFoundBase none k

/-- A location that leaves was forced over the patch of a location that stays,
or it is the last one and was forced over the function's own code. -/
def FoundHeld (L : Ledger ι w) (k : ι × Addr w) : Prop := ∀ start, (L start).FoundHeld none k

def Restored (L : Ledger ι w) : Prop := ∀ start, (L start).Restored none

def Sound (L : Ledger ι w) : Prop := ∀ start, (L start).Sound none

variable [DecidableEq ι]

theorem Restored.force {L : Ledger ι w} (h : L.Restored) (k : ι × Addr w) (start : Addr w)
    (p : Option (Addr w)) : (L.force k start p).Restored := by
  intro s
  by_cases hs : s = start
  · subst hs
    rw [Ledger.force, Function.update_self]
    exact Cell.restored_put none _ k p
  · rw [Ledger.force, Function.update_of_ne hs]
    exact h s

theorem Sound.force {L : Ledger ι w} (h : L.Sound) (k : ι × Addr w) (start : Addr w)
    (p : Option (Addr w)) : (L.force k start p).Sound := by
  intro s
  by_cases hs : s = start
  · subst hs
    rw [Ledger.force, Function.update_self]
    exact Cell.sound_put none _ k p
  · rw [Ledger.force, Function.update_of_ne hs]
    exact h s

/-- A force that is given up at once has left nothing in the ledger. -/
theorem unforce_force {L : Ledger ι w} {k : ι × Addr w}
    (hk : ∀ start, (L start).layers k = none) (start : Addr w) (p : Option (Addr w)) :
    (L.force k start p).unforce k = L := by
  funext s
  unfold Ledger.unforce Ledger.force
  by_cases hs : s = start
  · subst hs
    rw [Function.update_self, Cell.undo_put (hk s)]
  · rw [Function.update_of_ne hs, Cell.undo_of_none (hk s)]

theorem layers_force_of_ne (L : Ledger ι w) {k k' : ι × Addr w} (hne : k' ≠ k)
    (start : Addr w) (p : Option (Addr w)) (s : Addr w) :
    ((L.force k start p) s).layers k' = (L s).layers k' := by
  unfold Ledger.force
  by_cases hs : s = start
  · subst hs
    simp [Cell.put, hne]
  · rw [Function.update_of_ne hs]

omit [DecidableEq ι] in
theorem FoundHeld.lastFoundOwn {L : Ledger ι w} {k : ι × Addr w} (h : L.FoundHeld k) :
    L.LastFoundOwn k :=
  fun start => (h start).lastFoundBase

theorem restored_unforce_iff {L : Ledger ι w} {k : ι × Addr w} (h : L.Restored) :
    (L.unforce k).Restored ↔ L.LastFoundOwn k :=
  forall_congr' fun start => Cell.restored_undo_iff (h start)

theorem sound_unforce_iff {L : Ledger ι w} {k : ι × Addr w} (h : L.Sound) :
    (L.unforce k).Sound ↔ L.FoundHeld k :=
  forall_congr' fun start => Cell.sound_undo_iff (h start)

/-- The location that was forced last may go first. -/
theorem foundHeld_last {L : Ledger ι w} (h : L.Sound) {k : ι × Addr w}
    (hk : ∀ start, (L start).layers k = none) (start : Addr w) (p : Option (Addr w)) :
    (L.force k start p).FoundHeld k := by
  refine (sound_unforce_iff (h.force k start p)).1 ?_
  rwa [unforce_force hk]

omit [DecidableEq ι] in
theorem sound_fresh : (fresh : Ledger ι w).Sound := fun _ => Cell.sound_fresh none

/-- Two locations may be given up in the opposite order of their forces. -/
theorem meets_two {k k' : ι × Addr w} (hne : k' ≠ k) (start start' : Addr w)
    (p p' : Option (Addr w)) :
    notes.Meets FoundHeld ((fresh.force k start p).force k' start' p') [k', k] := by
  have hfree : ∀ s, ((fresh.force k start p) s).layers k' = none := by
    intro s
    rw [layers_force_of_ne _ hne]
    rfl
  have hback : notes.unforce ((fresh.force k start p).force k' start' p') k' =
      fresh.force k start p := unforce_force hfree start' p'
  refine ⟨foundHeld_last (sound_fresh.force k start p) hfree start' p', ?_, trivial⟩
  rw [hback]
  exact foundHeld_last sound_fresh (fun _ => rfl) start p

end Ledger

/-! ## From the ledger to the code -/

namespace Patches.Agrees

variable {env : Env w} {m₀ : Memory w} {V : Patches ι w} {L : Ledger ι w} {start : Addr w}

/-- A function that has its own code in the ledger has its own bytes. -/
theorem own_code (h : V.Agrees env m₀ L) (hs : env.Patchable start)
    (hown : (L start).content = none) {a : Addr w} (ha : Within start env.generator.size a) :
    V.memory a = m₀ a := by
  have hread := h.read hs
  rw [hown] at hread
  exact eq_of_read_eq hread ha

/-- Where every function has its own code, all the memory is the old one. -/
theorem memory_of_own_code (h : V.Agrees env m₀ L)
    (hown : ∀ start, env.Patchable start → (L start).content = none) : V.memory = m₀ := by
  funext a
  by_cases hplace : ∃ s, env.Patchable s ∧ Within s env.generator.size a
  · obtain ⟨s, hs, has⟩ := hplace
    exact h.own_code hs (hown s hs) has
  · push Not at hplace
    exact h.frame a hplace

/-- Nobody holds a function where no held patch starts. -/
theorem idle (h : V.Agrees env m₀ L) (hs : env.Patchable start)
    (hnone : ∀ k X, V.held k = some X → X.fnStart ≠ start) : (L start).Idle := by
  intro k
  cases hl : (L start).layers k with
  | none => rfl
  | some l =>
    obtain ⟨X, hX, hstart, -⟩ := h.held_of_layers hs hl
    exact absurd hstart (hnone k X hX)

end Patches.Agrees

/-- Where the ledger is in force, so is the code. -/
theorem inForce_of_ledger {env : Env w} {m₀ : Memory w} {P : Process ι w} {L : Ledger ι w}
    (h : P.patches.Agrees env m₀ L) {start : Addr w} (hs : env.Patchable start)
    (hL : (L start).InForce) : P.InForce env start := by
  obtain ⟨k, l, hl, hcontent⟩ := hL
  obtain ⟨X, hX, hstart, hwritten⟩ := h.held_of_layers hs hl
  obtain ⟨p, code, hheld⟩ := h.good.held k X hX
  refine ⟨k, X, p, hX, ?_, hheld.owns, hheld.live, ?_⟩
  · obtain ⟨-, stop, hext, -⟩ := hheld.room
    simp [Env.startOf, hext, hstart]
  · have hread : read P.world.memory start env.generator.size = code := by
      rw [← hheld.written, hwritten, ← hcontent]
      exact h.read hs
    unfold Env.Embeds
    rw [hread, ← hstart]
    exact hheld.opcode

/-- A byte of a function that nobody holds is the program's own. -/
theorem own_byte {env : Env w} {m₀ : Memory w} {V : Patches ι w} {L : Ledger ι w}
    (hd : env.FunctionsDisjoint) (h : V.Agrees env m₀ L) {loc start stop : Addr w}
    (hreg : env.Registered loc) (hext : env.extentAt loc = some (start, stop))
    (hown : env.Patchable start → (L start).content = none) {a : Addr w}
    (ha : Within start (stop - start).toNat a) : V.memory a = m₀ a := by
  by_cases hplace : ∃ s, env.Patchable s ∧ Within s env.generator.size a
  · obtain ⟨s, hs, has⟩ := hplace
    obtain ⟨loc', hreg', stop', hext', hsize⟩ := id hs
    rcases hd _ _ _ _ _ _ hreg hreg' hext hext' with rfl | hapart
    · exact h.own_code hs (hown hs) has
    · exact absurd (has.mono hsize) (hapart a ha)
  · push Not at hplace
    exact h.frame a hplace

/-! ## The code comes back -/

section

variable [DecidableEq ι]

/-- The locations that a call gives up meet a condition, each at its turn. -/
def GivesUp (cond : Ledger ι w → ι × Addr w → Prop) (P : Process ι w) (L : Ledger ι w) (i : ι)
    (op : Op w) : Prop := Ledger.notes.Meets cond L (P.removals i op)

theorem Run.restored {env : Env w} {P₀ P : Process ι w} {L₀ L : Ledger ι w}
    (h : Run env (GivesUp Ledger.LastFoundOwn) P₀ L₀ P L) (h₀ : L₀.Restored) : L.Restored := by
  refine h.invariant (fun L k start p hL => hL.force k start p) (fun P L i op hc hL => ?_) h₀
  exact hc.foldl (fun L k hL hk => (Ledger.restored_unforce_iff hL).2 hk) hL

end

/-- The first throw of the small program, forced and then given up. -/
def firstForced : Process Unit 64 :=
  ((Process.start sample sampleWorld).step sample () forceFirst).2

def firstLedger : Ledger Unit 64 :=
  Ledger.fresh.after (Process.start sample sampleWorld) firstForced () forceFirst

def firstGivenUp : Process Unit 64 := (firstForced.step sample () (.unforceException 0x401010)).2

theorem run_firstForced {cond : Process Unit 64 → Ledger Unit 64 → Unit → Op 64 → Prop}
    (hc : cond (Process.start sample sampleWorld) Ledger.fresh () forceFirst) :
    Run sample cond (Process.start sample sampleWorld) Ledger.fresh firstForced firstLedger :=
  Run.refl.call (by decide) hc (by decide)

/-- The second throw of the first function, forced over the first one. -/
def bothForced : Process Unit 64 := (firstForced.step sample () forceSecond).2

def bothLedger : Ledger Unit 64 := firstLedger.after firstForced bothForced () forceSecond

def secondGivenUp : Process Unit 64 := (bothForced.step sample () (.unforceException 0x401020)).2

def secondLedger : Ledger Unit 64 :=
  bothLedger.after bothForced secondGivenUp () (.unforceException 0x401020)

theorem run_bothForced {cond : Process Unit 64 → Ledger Unit 64 → Unit → Op 64 → Prop}
    (hc : cond (Process.start sample sampleWorld) Ledger.fresh () forceFirst)
    (hc' : cond firstForced firstLedger () forceSecond) :
    Run sample cond (Process.start sample sampleWorld) Ledger.fresh bothForced bothLedger :=
  (run_firstForced hc).call (by decide) hc' (by decide)

theorem run_secondGivenUp {cond : Process Unit 64 → Ledger Unit 64 → Unit → Op 64 → Prop}
    (hc : cond bothForced bothLedger () (.unforceException 0x401020)) :
    Run sample cond bothForced bothLedger secondGivenUp secondLedger :=
  Run.refl.call (by decide) hc (by decide)

theorem meets_bothLedger :
    Ledger.notes.Meets Ledger.FoundHeld bothLedger [((), 0x401020), ((), 0x401010)] := by
  have hne : ((), (0x401020 : Addr 64)) ≠ ((), 0x401010) := by decide
  have hboth : bothLedger = (Ledger.fresh.force ((), 0x401010) 0x401000 (some 0x7000)).force
      ((), 0x401020) 0x401000 (some 0x7010) := rfl
  rw [hboth]
  exact Ledger.meets_two hne _ _ _ _

/-- When no location is forced any more, every byte of the code is what it was
before the run. -/
theorem nothing_forced_is_nothing_patched {env : Env w} {W₀ : World w} {P : Process Unit w}
    {L : Ledger Unit w} (hd : env.FunctionsDisjoint)
    (h : Run env (GivesUp Ledger.LastFoundOwn) (Process.start env W₀) Ledger.fresh P L)
    (hidle : P.Idle) : P.world.memory = W₀.memory := by
  have hagrees := h.agrees hd (ready_start env W₀) (agrees_start env W₀)
  have hrestored := h.restored fun start => Cell.restored_fresh none
  refine hagrees.memory_of_own_code fun start hs => hrestored start (hagrees.idle hs ?_)
  intro k X hX
  rw [hidle k] at hX
  cases hX

/-- Both throws of the first function, given up one by one and by the destructor
of the forcer. -/
theorem nothing_forced_is_nothing_patched_sample :
    (secondGivenUp.step sample () (.unforceException 0x401010)).2.world.memory =
        sampleWorld.memory ∧
      (bothForced.step sample () (.destroy .descending)).2.world.memory = sampleWorld.memory := by
  have hrun : Run sample (GivesUp Ledger.LastFoundOwn) (Process.start sample sampleWorld)
      Ledger.fresh bothForced bothLedger := run_bothForced trivial trivial
  have hmeets : Ledger.notes.Meets Ledger.LastFoundOwn bothLedger
      [((), 0x401020), ((), 0x401010)] :=
    meets_bothLedger.mono fun _ _ => Ledger.FoundHeld.lastFoundOwn
  obtain ⟨hsecond, hfirst, -⟩ := id hmeets
  refine ⟨?_, ?_⟩
  · exact nothing_forced_is_nothing_patched sample_disjoint
      ((hrun.trans (run_secondGivenUp ⟨hsecond, trivial⟩)).call (by decide) ⟨hfirst, trivial⟩
        (by decide))
      (Process.idle_of_isEmpty (by decide))
  · exact nothing_forced_is_nothing_patched sample_disjoint
      (hrun.call (by decide) hmeets (by decide)) (Process.idle_of_isEmpty (by decide))

/-- Both throws of the first function are forced, and given up in the same
order. -/
def inOrder : List (Unit × Op 64) :=
  [((), forceFirst), ((), forceSecond), ((), .unforceException 0x401010),
    ((), .unforceException 0x401020)]

/-- The first one out restores the function's own code, and the last one out
puts the patch of the first one back. -/
theorem in_order_leaves_a_patch : ¬ ∀ (env : Env 64) (W₀ : World 64) (P : Process Unit 64)
    (L : Ledger Unit 64), env.FunctionsDisjoint → (∀ n prot, env.mprotectGrants n prot = true) →
    Run env (fun _ _ _ _ => True) (Process.start env W₀) Ledger.fresh P L → P.Idle →
    P.world.memory = W₀.memory := by
  intro h
  have hplays : (Process.start sample sampleWorld).Plays sample inOrder := by decide
  obtain ⟨L, hrun⟩ := Run.of_plays Ledger.fresh hplays
  have hidle : ((Process.start sample sampleWorld).runCalls sample inOrder).2.Idle :=
    Process.idle_of_isEmpty (by decide)
  have hsame := h sample sampleWorld _ L sample_disjoint (fun _ _ => rfl) hrun hidle
  exact absurd (congrFun hsame 0x401000) (by decide)

/-! ## A force stays in force -/

/-- A function that someone holds is in force in the ledger. -/
theorem ledger_inForce {env : Env w} {m₀ : Memory w} {V : Patches ι w} {L : Ledger ι w}
    (h : V.Agrees env m₀ L) (hL : L.Sound) {k : ι × Addr w} {X : ForcedException w}
    (hX : V.held k = some X) : (L X.fnStart).InForce := by
  rcases hL X.fnStart with hin | ⟨hidle, -⟩
  · exact hin
  · obtain ⟨l, hl⟩ := h.layers_of_held hX
    simp [hidle k] at hl

/-- Every function with a forced location is in force. -/
theorem held_inForce {env : Env w} {m₀ : Memory w} {P : Process ι w} {L : Ledger ι w}
    (h : P.patches.Agrees env m₀ L) (hL : L.Sound) {k : ι × Addr w} {X : ForcedException w}
    (hX : P.patches.held k = some X) :
    ∃ start, env.startOf k.2 = some start ∧ P.InForce env start := by
  obtain ⟨p, code, hheld⟩ := h.good.held k X hX
  refine ⟨X.fnStart, ?_, inForce_of_ledger h ⟨k.2, hheld.room⟩ (ledger_inForce h hL hX)⟩
  obtain ⟨-, stop, hext, -⟩ := hheld.room
  simp [Env.startOf, hext]

/-- A place where the code of a program can hold a throw opcode: the start of
a function with room for a patch, or a place apart from all of these. -/
def Env.Entry (env : Env w) (start : Addr w) : Prop :=
  env.Patchable start ∨
    ∀ t, env.Patchable t → Apart start env.generator.size t env.generator.size

/-- The allocator does not give out a pointer that the program's own code
throws. -/
def Op.Unseen (env : Env w) (m₀ : Memory w) (op : Op w) : Prop :=
  match op with
  | .forceException _ _ allocs =>
    ∀ p ∈ allocs.exceptionPtr, ∀ start, env.Entry start → ¬ env.Embeds m₀ start p
  | _ => True

/-- The program's own code does not throw the pointers of the held patches. -/
def Patches.Unseen (env : Env w) (m₀ : Memory w) (V : Patches ι w) : Prop :=
  ∀ k X p, V.held k = some X → X.pException = some p →
    ∀ start, env.Entry start → ¬ env.Embeds m₀ start p

theorem unseen_step [DecidableEq ι] {env : Env w} {m₀ : Memory w} {P P' : Process ι w} {i : ι}
    {op : Op w} {o : Outcome Unit} (hP : P.Ready env) (h : P.patches.Unseen env m₀)
    (hop : op.Fresh P.world) (hu : op.Unseen env m₀) (hs : P.step env i op = (o, P'))
    (ho : o.Completes) : P'.patches.Unseen env m₀ := by
  intro k X p hX
  refine Process.held_step (q := fun X => X.pException = some p → ∀ start, env.Entry start →
    ¬ env.Embeds m₀ start p) hP hop hs ho ?_ (fun k X hX => h k X p hX) k X hX
  rintro loc pError allocs patch rfl hpatch hp
  cases hp
  exact hu _ (Env.patchAt_opcode hpatch).2.2

/-- The code at a place is the program's own, or the opcode of a held patch. -/
theorem entry_code {env : Env w} {m₀ : Memory w} {V : Patches ι w} {L : Ledger ι w}
    (h : V.Agrees env m₀ L) (hL : L.Sound) {start : Addr w} (hs : env.Entry start) :
    read V.memory start env.generator.size = read m₀ start env.generator.size ∨
      ∃ k X p, V.held k = some X ∧ X.pException = some p ∧
        env.Opcode start p (read V.memory start env.generator.size) := by
  rcases hs with hs | hapart
  · rcases hL start with ⟨k, l, hl, hcontent⟩ | ⟨-, hown⟩
    · obtain ⟨X, hX, hstart, hwritten⟩ := h.held_of_layers hs hl
      obtain ⟨p, code, hheld⟩ := h.good.held k X hX
      refine Or.inr ⟨k, X, p, hX, hheld.owns, ?_⟩
      rw [h.read hs, hcontent, ← hwritten, hheld.written, ← hstart]
      exact hheld.opcode
    · have hread := h.read hs
      rw [hown] at hread
      exact Or.inl hread
  · left
    by_cases hsize : env.generator.size ≤ 2 ^ w
    · exact read_congr hsize fun a ha => h.frame a fun t ht hta => hapart t ht a ha hta
    · have hmem : V.memory = m₀ := by
        funext a
        exact h.frame a fun t ht => absurd ht.size_le hsize
      rw [hmem]

section

variable [DecidableEq ι]

theorem Run.sound {env : Env w} {cond : Process ι w → Ledger ι w → ι → Op w → Prop}
    (hcond : ∀ P L i op, cond P L i op → GivesUp Ledger.FoundHeld P L i op)
    {P₀ P : Process ι w} {L₀ L : Ledger ι w} (h : Run env cond P₀ L₀ P L) (h₀ : L₀.Sound) :
    L.Sound := by
  refine h.invariant (fun L k start p hL => hL.force k start p) (fun P L i op hc hL => ?_) h₀
  exact (hcond P L i op hc).foldl (fun L k hL hk => (Ledger.sound_unforce_iff hL).2 hk) hL

theorem Run.unseen {env : Env w} {m₀ : Memory w}
    {cond : Process ι w → Ledger ι w → ι → Op w → Prop}
    (hcond : ∀ P L i op, cond P L i op → op.Unseen env m₀) {P₀ P : Process ι w}
    {L₀ L : Ledger ι w} (h : Run env cond P₀ L₀ P L) (hP₀ : P₀.Ready env)
    (h₀ : P₀.patches.Unseen env m₀) : P.patches.Unseen env m₀ := by
  induction h with
  | refl => exact h₀
  | step hrun hop hc hs ho ih =>
    exact unseen_step (hrun.ready hP₀) ih hop (hcond _ _ _ _ hc) hs ho

end

/-- A forced location is in force as long as it is forced, with an exception
that is alive. Once the entry of an exception is gone, no function throws it. -/
theorem a_force_stays_in_force {env : Env w} {W₀ : World w} {P : Process Unit w}
    {L : Ledger Unit w} (hd : env.FunctionsDisjoint) (hcarries : env.generator.Carries)
    (h : Run env (fun P L i op => GivesUp Ledger.FoundHeld P L i op ∧ op.Unseen env W₀.memory)
      (Process.start env W₀) Ledger.fresh P L) :
    (∀ k X, P.patches.held k = some X →
      ∃ start, env.startOf k.2 = some start ∧ P.InForce env start) ∧
    ∀ P' L', Run env (fun P L i op => GivesUp Ledger.FoundHeld P L i op ∧ op.Unseen env W₀.memory)
      P L P' L' → ∀ k X p, P.patches.held k = some X → X.pException = some p →
      (∀ k' X', P'.patches.held k' = some X' → X'.pException ≠ some p) →
      ∀ start, env.Entry start → ¬ env.Embeds P'.world.memory start p := by
  have hready : (Process.start env W₀ : Process Unit w).Ready env := ready_start env W₀
  have hfresh : (Process.start env W₀ : Process Unit w).patches.Unseen env W₀.memory := by
    intro k X p hX
    rw [held_start] at hX
    cases hX
  have hunseen := h.unseen (fun _ _ _ _ hc => hc.2) hready hfresh
  refine ⟨?_, ?_⟩
  · intro k X hX
    exact held_inForce (h.agrees hd hready (agrees_start env W₀))
      (h.sound (fun _ _ _ _ hc => hc.1) fun start => Cell.sound_fresh none) hX
  · intro P' L' h' k X p hX hp hgone start hs hembeds
    have hrun := h.trans h'
    have hagrees := hrun.agrees hd hready (agrees_start env W₀)
    have hsound := hrun.sound (fun _ _ _ _ hc => hc.1) fun start => Cell.sound_fresh none
    rcases entry_code hagrees hsound hs with hown | ⟨k', X', p', hX', hp', hcode⟩
    · refine hunseen k X p hX hp start hs ?_
      unfold Env.Embeds at hembeds ⊢
      exact hown ▸ hembeds
    · have hpp : p' = p := hcarries _ _ _ _ _ hcode hembeds
      exact hgone k' X' hX' (hpp ▸ hp')

/-- The code of the small program throws nothing of itself. -/
theorem sample_unseen (op : Op 64) : op.Unseen sample sampleWorld.memory := by
  unfold Op.Unseen
  split
  · intro p _ start _ hembeds
    have hcode := opcode_generator_x64.getThrowOpcode_take hembeds
    have hread : ∀ s : Addr 64,
        (read sampleWorld.memory s sample.generator.size).take 2 = [0x90, 0x90] := fun _ => rfl
    rw [hread] at hcode
    revert hcode
    decide
  · trivial

/-- Both throws of the first function are forced. When the second one is given
up, the first one is in force, and no function throws the exception that is gone. -/
theorem a_force_stays_in_force_sample :
    (∃ start, sample.startOf 0x401020 = some start ∧ bothForced.InForce sample start) ∧
      (∃ start, sample.startOf 0x401010 = some start ∧ secondGivenUp.InForce sample start) ∧
      ¬ sample.Embeds secondGivenUp.world.memory 0x401000 0x7010 := by
  have hboth : Run sample (fun P L i op => GivesUp Ledger.FoundHeld P L i op ∧
      op.Unseen sample sampleWorld.memory) (Process.start sample sampleWorld) Ledger.fresh
      bothForced bothLedger := run_bothForced ⟨trivial, sample_unseen _⟩ ⟨trivial, sample_unseen _⟩
  have hsecond : Run sample (fun P L i op => GivesUp Ledger.FoundHeld P L i op ∧
      op.Unseen sample sampleWorld.memory) bothForced bothLedger secondGivenUp secondLedger :=
    run_secondGivenUp ⟨⟨meets_bothLedger.1, trivial⟩, sample_unseen _⟩
  obtain ⟨X, hX, hp⟩ : ∃ X, bothForced.patches.held ((), 0x401020) = some X ∧
      X.pException = some 0x7010 := ⟨_, rfl, rfl⟩
  obtain ⟨Y, hY⟩ : ∃ Y, secondGivenUp.patches.held ((), 0x401010) = some Y := ⟨_, rfl⟩
  obtain ⟨hforced, hgone⟩ := a_force_stays_in_force sample_disjoint OpcodeGeneratorX64_carries hboth
  obtain ⟨hstays, -⟩ := a_force_stays_in_force sample_disjoint OpcodeGeneratorX64_carries
    (hboth.trans hsecond)
  refine ⟨hforced _ X hX, hstays _ Y hY, ?_⟩
  refine hgone _ _ hsecond _ X _ hX hp (fun k' X' hX' => ?_) 0x401000
    (Or.inl ⟨0x401010, sample_registered, _, rfl, by decide⟩)
  exact Process.forall_held (p := fun _ X' => X'.pException ≠ some 0x7010) (by decide) hX'

/-- With both locations forced, the first one out puts both out of force. -/
theorem first_out_cancels_the_other : ¬ ∀ (env : Env 64) (W₀ : World 64) (P : Process Unit 64)
    (L : Ledger Unit 64), env.FunctionsDisjoint → env.generator.Carries →
    (∀ n prot, env.mprotectGrants n prot = true) →
    Run env (fun _ _ _ _ => True) (Process.start env W₀) Ledger.fresh P L →
    (∀ k X, P.patches.held k = some X →
      ∃ start, env.startOf k.2 = some start ∧ P.InForce env start) ∧
    ∀ P' L', Run env (fun _ _ _ _ => True) P L P' L' →
      ∀ k X p, P.patches.held k = some X → X.pException = some p →
      (∀ k' X', P'.patches.held k' = some X' → X'.pException ≠ some p) →
      ∀ start, env.Entry start → ¬ env.Embeds P'.world.memory start p := by
  intro h
  have hplays : (Process.start sample sampleWorld).Plays sample (inOrder.take 3) := by decide
  obtain ⟨L, hrun⟩ := Run.of_plays Ledger.fresh hplays
  obtain ⟨X, hX⟩ : ∃ X, ((Process.start sample sampleWorld).runCalls sample
      (inOrder.take 3)).2.patches.held ((), 0x401020) = some X := ⟨_, rfl⟩
  obtain ⟨start, hstart, hin⟩ := (h sample sampleWorld _ L sample_disjoint
    OpcodeGeneratorX64_carries (fun _ _ => rfl) hrun).1 _ X hX
  have hentry : sample.startOf 0x401020 = some 0x401000 := rfl
  cases hentry.symm.trans hstart
  exact Process.not_inForce (by decide) hin

/-! ## Forcers do not get in each other's way -/

section

variable [DecidableEq ι]

/-- A function with a location that some forcer holds throws for a location
that some forcer holds. A function with no such location has its own code. -/
theorem no_forcer_cancels_another {env : Env w} {W₀ : World w} {P : Process ι w}
    {L : Ledger ι w} (hd : env.FunctionsDisjoint)
    (h : Run env (GivesUp Ledger.FoundHeld) (Process.start env W₀) Ledger.fresh P L) :
    (∀ k X, P.patches.held k = some X →
      ∃ start, env.startOf k.2 = some start ∧ P.InForce env start) ∧
    ∀ loc start stop, env.Registered loc → env.extentAt loc = some (start, stop) →
      (∀ k X, P.patches.held k = some X → env.startOf k.2 ≠ some start) →
      ∀ a, Within start (stop - start).toNat a → P.world.memory a = W₀.memory a := by
  have hagrees := h.agrees hd (ready_start env W₀) (agrees_start env W₀)
  have hsound := h.sound (fun _ _ _ _ hc => hc) fun start => Cell.sound_fresh none
  refine ⟨?_, ?_⟩
  · intro k X hX
    exact held_inForce hagrees hsound hX
  · intro loc start stop hreg hext hnone a ha
    refine own_byte hd hagrees hreg hext (fun hs => ?_) ha
    refine (hsound start).restored (hagrees.idle hs fun k X hX hstart => ?_)
    obtain ⟨p, code, hheld⟩ := hagrees.good.held k X hX
    obtain ⟨-, stop', hext', -⟩ := hheld.room
    exact hnone k X hX (by simp [Env.startOf, hext', hstart])

end

def elderHolds : Process Bool 64 :=
  ((Process.start sample sampleWorld).step sample true forceFirst).2

/-- Two forcers hold the two throws of the first function. -/
def bothHold : Process Bool 64 := (elderHolds.step sample false forceSecond).2

def bothHoldLedger : Ledger Bool 64 :=
  (Ledger.fresh.force (true, 0x401010) 0x401000 (some 0x7000)).force (false, 0x401020) 0x401000
    (some 0x7010)

/-- The younger forcer goes, and then the older one. -/
def youngerGone : Process Bool 64 := (bothHold.step sample false (.destroy .descending)).2

def bothGone : Process Bool 64 := (youngerGone.step sample true (.destroy .descending)).2

/-- The function throws for the older forcer when the younger one is gone, and has
its own code when both are. -/
theorem no_forcer_cancels_another_sample :
    (∃ start, sample.startOf 0x401010 = some start ∧ youngerGone.InForce sample start) ∧
      read bothGone.world.memory 0x401000 64 =
        read sampleWorld.memory (0x401000 : Addr 64) 64 := by
  have hne : (false, (0x401020 : Addr 64)) ≠ (true, 0x401010) := by decide
  have elderFresh : forceFirst.Fresh sampleWorld := by decide
  have youngerFresh : forceSecond.Fresh elderHolds.world := by decide
  have destroyFresh : ∀ W, (Op.destroy .descending : Op 64).Fresh W := fun _ => trivial
  have hboth : Run sample (GivesUp Ledger.FoundHeld) (Process.start sample sampleWorld)
      Ledger.fresh bothHold bothHoldLedger :=
    (Run.refl.call elderFresh trivial (by decide)).call youngerFresh trivial (by decide)
  obtain ⟨hsecond, hfirst, -⟩ := Ledger.meets_two hne 0x401000 0x401000 (some 0x7000) (some 0x7010)
  have hyounger : Run sample (GivesUp Ledger.FoundHeld) (Process.start sample sampleWorld)
      Ledger.fresh youngerGone (bothHoldLedger.unforce (false, 0x401020)) :=
    hboth.call (destroyFresh _) ⟨hsecond, trivial⟩ (by decide)
  have hgone : Run sample (GivesUp Ledger.FoundHeld) (Process.start sample sampleWorld)
      Ledger.fresh bothGone
      ((bothHoldLedger.unforce (false, 0x401020)).unforce (true, 0x401010)) :=
    hyounger.call (destroyFresh _) ⟨hfirst, trivial⟩ (by decide)
  obtain ⟨X, hX⟩ : ∃ X, youngerGone.patches.held (true, 0x401010) = some X := ⟨_, rfl⟩
  obtain ⟨hforced, -⟩ := no_forcer_cancels_another sample_disjoint hyounger
  obtain ⟨-, hown⟩ := no_forcer_cancels_another sample_disjoint hgone
  refine ⟨hforced _ X hX, read_congr (by decide) fun a ha => ?_⟩
  refine hown 0x401010 0x401000 0x401040 sample_registered (by decide) (fun k X hX => ?_) a ha
  have hidle : bothGone.Idle := Process.idle_of_isEmpty (by decide)
  cases (hidle k).symm.trans hX

/-- Two forcers hold the two throws of the first function, and the older one
goes. -/
def olderGoes : List (Bool × Op 64) :=
  [(true, forceFirst), (false, forceSecond), (true, .destroy .descending)]

/-- The destructor of the older forcer cancels what the younger one holds. -/
theorem older_forcer_cancels_the_younger : ¬ ∀ (env : Env 64) (W₀ : World 64)
    (P : Process Bool 64) (L : Ledger Bool 64), env.FunctionsDisjoint →
    (∀ n prot, env.mprotectGrants n prot = true) →
    Run env (fun _ _ _ _ => True) (Process.start env W₀) Ledger.fresh P L →
    (∀ k X, P.patches.held k = some X →
      ∃ start, env.startOf k.2 = some start ∧ P.InForce env start) ∧
    ∀ loc start stop, env.Registered loc → env.extentAt loc = some (start, stop) →
      (∀ k X, P.patches.held k = some X → env.startOf k.2 ≠ some start) →
      ∀ a, Within start (stop - start).toNat a → P.world.memory a = W₀.memory a := by
  intro h
  have hplays : (Process.start sample sampleWorld).Plays sample olderGoes := by decide
  obtain ⟨L, hrun⟩ := Run.of_plays Ledger.fresh hplays
  obtain ⟨X, hX⟩ : ∃ X, ((Process.start sample sampleWorld).runCalls sample
      olderGoes).2.patches.held (false, 0x401020) = some X := ⟨_, rfl⟩
  obtain ⟨start, hstart, hin⟩ := (h sample sampleWorld _ L sample_disjoint
    (fun _ _ => rfl) hrun).1 _ X hX
  have hentry : sample.startOf 0x401020 = some 0x401000 := rfl
  cases hentry.symm.trans hstart
  exact Process.not_inForce (by decide) hin

end eforce
