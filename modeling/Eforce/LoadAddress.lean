-- One program at two load addresses. The same calls go the same way at both:
-- all that a forcer looks at is an offset or a distance. Only a null end of a
-- function and the top of the address space tell the addresses apart.
import Eforce.Arch
import Eforce.Listing

namespace eforce

open byte_memory

variable {ι : Type} {w : Nat}

/-! ## What moves with the image -/

def ProgOffsetResolver.shift (d : Addr w) (r : ProgOffsetResolver w) : ProgOffsetResolver w where
  progStartAddr := r.progStartAddr + d

def ThrowInfo.shift (d : Addr w) (throwInfo : ThrowInfo w) : ThrowInfo w :=
  { throwInfo with throwAddr := throwInfo.throwAddr + d }

def ExceptionInfo.shift (d : Addr w) (info : ExceptionInfo w) : ExceptionInfo w :=
  { info with
    addr := info.addr + d
    parentFn := { info.parentFn with
      start := info.parentFn.start + d
      stop := info.parentFn.stop + d } }

def ForcedException.shift (d : Addr w) (X : ForcedException w) : ForcedException w :=
  { X with
    fnStart := X.fnStart + d
    offsetResolver := X.offsetResolver.shift d }

def Event.shift (d : Addr w) : Event w → Event w
  | .mprotect start length prot granted => .mprotect (start + d) length prot granted
  | .write start bytes => .write (start + d) bytes

/-- The heap does not move. -/
def World.shift (d : Addr w) (W : World w) : World w :=
  { W with
    memory := byte_memory.shift d W.memory
    trace := W.trace.map (Event.shift d) }

def Op.shift (d : Addr w) : Op w → Op w
  | .forceException loc pError allocs => .forceException (loc + d) pError allocs
  | .unforceException loc => .unforceException (loc + d)
  | .getExceptions => .getExceptions
  | .destroy order => .destroy order

/-- The maps hold the same entries, each moved with its key. The keys are
registered throws. -/
structure Impl.Moved (env : Env w) (d : Addr w) (F F' : Impl w) : Prop where
  entries : ∀ loc,
    F'.forcedExceptions[loc + d]? = (F.forcedExceptions[loc]?).map (ForcedException.shift d)
  registered : ∀ loc ∈ F.forcedExceptions, env.Registered loc

/-- What it takes of a function that its patch moves with it: its ends are not
null, and its opcodes are the same at both places. -/
structure Env.MovesFunction (env : Env w) (d : Addr w) (fn : FunctionT w) : Prop where
  start_ne : fn.startOffset ≠ 0
  end_ne : fn.endOffset ≠ 0
  opcode : ∀ p, env.generator.getThrowOpcode (env.resolver.fromOffset fn.startOffset + d)
    (env.throwFn + d) p =
      env.generator.getThrowOpcode (env.resolver.fromOffset fn.startOffset) env.throwFn p

/-- The second program is the first one, moved up by `d`. -/
structure Env.Moved (d : Addr w) (env env' : Env w) : Prop where
  elf : env'.toElfEnv = env.toElfEnv
  throwInfos : env'.throwInfos = env.throwInfos.map (ThrowInfo.shift d)
  generator : env'.generator = env.generator
  throwFn : env'.throwFn = env.throwFn + d
  progStartAddr : env'.progStartAddr = env.progStartAddr + d
  areaStart : env'.executableArea.start = env.executableArea.start + d
  areaStop : env'.executableArea.stop = env.executableArea.stop + d
  mprotectGrants : env'.mprotectGrants = env.mprotectGrants
  throwAddr_ne : ∀ throwInfo ∈ env.throwInfos,
    throwInfo.throwAddr ≠ 0 ∧ throwInfo.throwAddr + d ≠ 0
  ordered : ∀ loc loc', env.Registered loc → env.Registered loc' → loc < loc' →
    loc + d < loc' + d
  functions : ∀ throwInfo ∈ env.throwInfos, ∀ fn, env.functionAt throwInfo.throwAddr = .ok fn →
    env.MovesFunction d fn

theorem ProgOffsetResolver.fromOffset_shift {r : ProgOffsetResolver w} {offset : Addr w}
    (h : offset ≠ 0) (d : Addr w) : (r.shift d).fromOffset offset = r.fromOffset offset + d := by
  rw [fromOffset_of_ne h, fromOffset_of_ne h, shift]
  ring

theorem ProgOffsetResolver.toOffset_shift {r : ProgOffsetResolver w} {addr d : Addr w}
    (h : addr ≠ 0) (hd : addr + d ≠ 0) : (r.shift d).toOffset (addr + d) = r.toOffset addr := by
  rw [toOffset_of_ne h, toOffset_of_ne hd, shift]
  ring

/-! ## One patch at two places -/

section Moved

variable {env env' : Env w} {d : Addr w}

theorem Env.Moved.resolver (h : env.Moved d env') : env'.resolver = env.resolver.shift d := by
  unfold Env.resolver ProgOffsetResolver.shift
  rw [h.progStartAddr]

theorem Env.Moved.mprotect (h : env.Moved d env') (W : World w) (prot : Protection) :
    (W.shift d).mprotect env' prot =
      ((W.mprotect env prot).1, (W.mprotect env prot).2.shift d) := by
  have hlength : env.executableArea.stop + d - (env.executableArea.start + d) =
      env.executableArea.stop - env.executableArea.start := by ring
  simp only [World.mprotect, World.shift, h.areaStart, h.areaStop, h.mprotectGrants, hlength,
    List.map_append, List.map_cons, List.map_nil, Event.shift]

theorem World.copy_shift (W : World w) (d start : Addr w) (bytes : List Byte) :
    (W.shift d).copy (start + d) bytes = (W.copy start bytes).shift d := by
  simp only [World.copy, World.shift, write_shift, List.map_append, List.map_cons, List.map_nil,
    Event.shift]

theorem World.delete_shift (W : World w) (d : Addr w) (p : Option (Addr w)) :
    (W.shift d).delete p = (W.delete p).shift d := by
  cases p <;> rfl

theorem Env.Moved.guard (h : env.Moved d env') {W W' : World w} {o : Outcome Unit}
    (hc : ScopedMprotect.construct env W = (o, W')) :
    ScopedMprotect.construct env' (W.shift d) = (o, W'.shift d) := by
  unfold ScopedMprotect.construct at hc ⊢
  rw [h.mprotect]
  rcases hm : W.mprotect env .readWriteExec with ⟨granted, W₁⟩
  rw [hm] at hc
  cases granted with
  | true =>
    cases hc
    rfl
  | false =>
    cases hc
    rfl

theorem Env.Moved.unguard (h : env.Moved d env') (W : World w) :
    ScopedMprotect.destroy env' (W.shift d) = (ScopedMprotect.destroy env W).shift d := by
  unfold ScopedMprotect.destroy
  rw [h.mprotect]

theorem Env.Moved.destroy (h : env.Moved d env') {X : ForcedException w} {W W' : World w}
    {o : Outcome Unit} (hd : X.destroy env W = (o, W')) :
    (X.shift d).destroy env' (W.shift d) = (o, W'.shift d) := by
  have hdata : (X.shift d).originalData = X.originalData := rfl
  have hstart : (X.shift d).fnStart = X.fnStart + d := rfl
  have hpointer : (X.shift d).pException = X.pException := rfl
  unfold ForcedException.destroy at hd ⊢
  rw [hdata, hstart, hpointer]
  by_cases he : X.originalData.isEmpty = true
  · rw [if_pos he] at hd ⊢
    cases hd
    rw [World.delete_shift]
  · rw [if_neg he] at hd ⊢
    rcases hc : ScopedMprotect.construct env W with ⟨o₁, W₁⟩
    rw [hc] at hd
    rw [h.guard hc]
    cases o₁ with
    | ok _ =>
      cases hd
      simp only [World.copy_shift, h.unguard, World.delete_shift]
    | error e =>
      cases hd
      rfl

theorem Env.Moved.construct (h : env.Moved d env') {fn : FunctionT w}
    (hfn : env.MovesFunction d fn) {error : ExceptionPtr} {allocs : Allocs w} {W W' : World w}
    {o : Outcome (ForcedException w)}
    (hc : ForcedException.construct env fn error env.resolver allocs W = (o, W')) :
    ForcedException.construct env' fn error env'.resolver allocs (W.shift d) =
      (o.map (ForcedException.shift d), W'.shift d) := by
  have hstart : env'.resolver.fromOffset fn.startOffset =
      env.resolver.fromOffset fn.startOffset + d := by
    rw [h.resolver, ProgOffsetResolver.fromOffset_shift hfn.start_ne]
  have hsize : env'.resolver.fromOffset fn.endOffset -
      (env.resolver.fromOffset fn.startOffset + d) =
        env.resolver.fromOffset fn.endOffset - env.resolver.fromOffset fn.startOffset := by
    rw [h.resolver, ProgOffsetResolver.fromOffset_shift hfn.end_ne]
    ring
  have hopcode : ∀ p, getThrowOpcode env' allocs (env.resolver.fromOffset fn.startOffset + d) p =
      getThrowOpcode env allocs (env.resolver.fromOffset fn.startOffset) p := by
    intro p
    unfold getThrowOpcode
    rw [h.generator, h.throwFn, hfn.opcode]
  have hread : ∀ (W : World w) (s : Addr w) n, read (W.shift d).memory (s + d) n =
      read W.memory s n := fun W s n => read_shift W.memory d s n
  have hnew : ∀ p, (W.shift d).new p error = (W.new p error).shift d := fun _ => rfl
  unfold ForcedException.construct at hc ⊢
  simp only [hstart, hsize, hopcode, hnew, World.delete_shift]
  dsimp only at hc
  split at hc
  · cases hc
    rfl
  rename_i p hp
  split at hc
  · cases hc
    rfl
  rename_i code hcode
  split at hc
  · rename_i hlarge
    cases hc
    rw [if_pos hlarge]
    rfl
  rename_i hfits
  rw [if_neg hfits]
  split at hc
  · rename_i hdata
    cases hc
    rw [if_pos hdata]
    rfl
  rename_i hdata
  rw [if_neg hdata]
  rcases hg : ScopedMprotect.construct env (W.new p error) with ⟨o₁, W₁⟩
  rw [hg] at hc
  rw [h.guard hg]
  cases o₁ with
  | ok _ =>
    cases hc
    simp only [World.copy_shift, h.unguard, hread, h.resolver]
    rfl
  | error e =>
    cases hc
    simp only [World.delete_shift]
    rfl

/-! ## The maps at two places -/

/-- A map with the entries of another one, under keys that a monotone function
gives, has them in the same order. -/
theorem toList_eq_map {α β α' β' : Type} [Ord α] [Std.TransOrd α] [Std.LawfulEqOrd α] [Ord α']
    [Std.TransOrd α'] [Std.LawfulEqOrd α'] {m : Std.ExtTreeMap α β} {m' : Std.ExtTreeMap α' β'}
    (f : α → α') (g : β → β')
    (hmono : ∀ a ∈ m, ∀ b ∈ m, compare a b = .lt → compare (f a) (f b) = .lt)
    (h : ∀ a' b', m'[a']? = some b' ↔ ∃ a b, m[a]? = some b ∧ f a = a' ∧ g b = b') :
    m'.toList = m.toList.map (Prod.map f g) := by
  have hkey : ∀ e ∈ m.toList, e.1 ∈ m := by
    rintro ⟨a, b⟩ he
    rw [Std.ExtTreeMap.mem_iff_isSome_getElem?, Std.ExtTreeMap.mem_toList_iff_getElem?_eq_some.1 he]
    rfl
  have hordered : (m.toList.map (Prod.map f g)).Pairwise fun a b => compare a.1 b.1 = .lt := by
    rw [List.pairwise_map]
    exact Std.ExtTreeMap.ordered_keys_toList.imp_of_mem fun ha hb hab =>
      hmono _ (hkey _ ha) _ (hkey _ hb) hab
  have hnodup : ∀ l : List (α' × β'), (l.Pairwise fun a b => compare a.1 b.1 = .lt) → l.Nodup := by
    intro l hl
    refine hl.imp fun hab he => ?_
    subst he
    simp at hab
  have hperm : m'.toList.Perm (m.toList.map (Prod.map f g)) := by
    rw [List.perm_ext_iff_of_nodup (hnodup _ Std.ExtTreeMap.ordered_keys_toList)
      (hnodup _ hordered)]
    rintro ⟨a', b'⟩
    rw [Std.ExtTreeMap.mem_toList_iff_getElem?_eq_some, h, List.mem_map]
    refine ⟨?_, ?_⟩
    · rintro ⟨a, b, hab, rfl, rfl⟩
      exact ⟨(a, b), Std.ExtTreeMap.mem_toList_iff_getElem?_eq_some.2 hab, rfl⟩
    · rintro ⟨⟨a, b⟩, hab, he⟩
      cases he
      exact ⟨a, b, Std.ExtTreeMap.mem_toList_iff_getElem?_eq_some.1 hab, rfl, rfl⟩
  refine hperm.eq_of_pairwise (fun a b _ _ hab hba => ?_) Std.ExtTreeMap.ordered_keys_toList
    hordered
  have hswap : compare a.1 b.1 = (compare b.1 a.1).swap := Std.OrientedCmp.eq_swap
  rw [hab, hba] at hswap
  cases hswap

theorem compare_eq_lt {a b : Addr w} : compare a b = .lt ↔ a < b := compareOfLessAndEq_eq_lt

theorem Impl.Moved.mem_iff {F F' : Impl w} (h : F.Moved env d F') (loc : Addr w) :
    loc + d ∈ F'.forcedExceptions ↔ loc ∈ F.forcedExceptions := by
  rw [Std.ExtTreeMap.mem_iff_isSome_getElem?, Std.ExtTreeMap.mem_iff_isSome_getElem?, h.entries loc]
  cases F.forcedExceptions[loc]? <;> simp

theorem Impl.Moved.insert {F F' : Impl w} (h : F.Moved env d F') {loc : Addr w}
    (hreg : env.Registered loc) (X : ForcedException w) :
    ({ F with forcedExceptions := F.forcedExceptions.insert loc X } : Impl w).Moved env d
      { F' with forcedExceptions := F'.forcedExceptions.insert (loc + d) (X.shift d) } := by
  refine ⟨fun loc' => ?_, fun loc' hmem => ?_⟩
  · by_cases hl : loc = loc'
    · subst hl
      simp
    · have hl' : loc + d ≠ loc' + d := fun he => hl (add_right_cancel he)
      have := h.entries loc'
      simpa [Std.ExtTreeMap.getElem?_insert, hl, hl'] using this
  · rcases Std.ExtTreeMap.mem_insert.1 hmem with he | hmem
    · rw [← Std.LawfulEqOrd.eq_of_compare he]
      exact hreg
    · exact h.registered loc' hmem

theorem Impl.Moved.erase {F F' : Impl w} (h : F.Moved env d F') (loc : Addr w) :
    ({ F with forcedExceptions := F.forcedExceptions.erase loc } : Impl w).Moved env d
      { F' with forcedExceptions := F'.forcedExceptions.erase (loc + d) } := by
  refine ⟨fun loc' => ?_, fun loc' hmem => ?_⟩
  · by_cases hl : loc = loc'
    · subst hl
      simp
    · have hl' : loc + d ≠ loc' + d := fun he => hl (add_right_cancel he)
      have := h.entries loc'
      simpa [Std.ExtTreeMap.getElem?_erase, hl, hl'] using this
  · exact h.registered loc' (Std.ExtTreeMap.mem_of_mem_erase hmem)

/-- The moved entries come in the same order. -/
theorem Env.Moved.entries (h : env.Moved d env') {F F' : Impl w} (hF : F.Moved env d F') :
    F'.forcedExceptions.toList.map (·.2) =
      (F.forcedExceptions.toList.map (·.2)).map (ForcedException.shift d) := by
  have hlist : F'.forcedExceptions.toList =
      F.forcedExceptions.toList.map (Prod.map (· + d) (ForcedException.shift d)) := by
    refine toList_eq_map _ _ (fun loc hloc loc' hloc' hlt => ?_) fun loc' X' => ?_
    · rw [compare_eq_lt] at hlt ⊢
      exact h.ordered _ _ (hF.registered loc hloc) (hF.registered loc' hloc') hlt
    · have hloc' : loc' - d + d = loc' := by ring
      have hentry := hF.entries (loc' - d)
      rw [hloc'] at hentry
      rw [hentry]
      refine ⟨?_, ?_⟩
      · intro hmap
        obtain ⟨X, hX, rfl⟩ := Option.map_eq_some_iff.1 hmap
        exact ⟨loc' - d, X, hX, hloc', rfl⟩
      · rintro ⟨loc, X, hX, rfl, rfl⟩
        simp [hX]
  rw [hlist, List.map_map, List.map_map]
  rfl

/-! ## One call at two places -/

theorem Env.Moved.emplace (h : env.Moved d env') {F F' G : Impl w} (hF : F.Moved env d F')
    {loc : Addr w} (hreg : env.Registered loc) {tmp : ForcedException w} {allocs : Allocs w}
    {W W' : World w} {o : Outcome Unit} (he : F.emplace env loc tmp allocs W = (o, G, W')) :
    ∃ G', F'.emplace env' (loc + d) (tmp.shift d) allocs (W.shift d) = (o, G', W'.shift d) ∧
      G.Moved env d G' := by
  have hnode : tmp.move.1 = tmp := rfl
  have hnode' : (tmp.shift d).move.1 = tmp.shift d := rfl
  rcases hd : tmp.destroy env W with ⟨o₁, W₁⟩
  have hd' := h.destroy hd
  unfold Impl.emplace at he ⊢
  by_cases hn : allocs.node = false
  · rw [if_pos hn, hd] at he
    rw [if_pos hn, hd']
    cases o₁ with
    | ok _ =>
      cases he
      exact ⟨F', rfl, hF⟩
    | error e =>
      cases he
      exact ⟨F', rfl, hF⟩
  · rw [if_neg hn] at he ⊢
    simp only [ForcedException.destroy_moved, hnode, hnode', hF.mem_iff] at he ⊢
    by_cases hmem : loc ∈ F.forcedExceptions
    · rw [if_pos hmem, hd] at he
      rw [if_pos hmem, hd']
      cases o₁ with
      | ok _ =>
        cases he
        exact ⟨F', rfl, hF⟩
      | error e =>
        cases he
        exact ⟨F', rfl, hF⟩
    · rw [if_neg hmem] at he ⊢
      cases he
      exact ⟨_, rfl, hF.insert hreg tmp⟩

theorem Env.Moved.throwInfoAt (h : env.Moved d env') (loc : Addr w) :
    env'.throwInfoAt (loc + d) = (env.throwInfoAt loc).map (ThrowInfo.shift d) := by
  unfold Env.throwInfoAt
  rw [h.throwInfos, List.find?_map]
  congr 2
  funext throwInfo
  simp [ThrowInfo.shift]

theorem Env.Moved.functionAt (h : env.Moved d env') {throwInfo : ThrowInfo w}
    (hmem : throwInfo ∈ env.throwInfos) :
    env'.functionAt (throwInfo.throwAddr + d) = env.functionAt throwInfo.throwAddr := by
  obtain ⟨hne, hne'⟩ := h.throwAddr_ne throwInfo hmem
  unfold Env.functionAt
  rw [h.resolver, ProgOffsetResolver.toOffset_shift hne hne', h.elf]

theorem Env.Moved.forceException (h : env.Moved d env') {F F' G : Impl w} (hR : F.Ready env)
    (hR' : F'.Ready env') (hF : F.Moved env d F') {loc : Addr w} {pError : ExceptionPtr}
    {allocs : Allocs w} {W W' : World w} {o : Outcome Unit}
    (he : F.forceException env loc pError allocs W = (o, G, W')) :
    ∃ G', F'.forceException env' (loc + d) pError allocs (W.shift d) = (o, G', W'.shift d) ∧
      G.Moved env d G' := by
  have hload : ({ F with elf := F.elf.load env.toElfEnv } : Impl w).Moved env d
      { F' with elf := F'.elf.load env'.toElfEnv } := ⟨hF.entries, hF.registered⟩
  have hfind := h.throwInfoAt loc
  unfold Env.throwInfoAt at hfind
  unfold Impl.forceException at he ⊢
  rw [hfind]
  cases hinfo : env.throwInfos.find? fun throwInfo => throwInfo.throwAddr = loc with
  | none =>
    simp only [hinfo] at he
    cases he
    exact ⟨F', rfl, hF⟩
  | some throwInfo =>
    have hmem := List.mem_of_find?_eq_some hinfo
    have hreg : env.Registered loc := Env.registered_of_throwInfoAt hinfo
    have hat : F.elf.getContainingFunction env.toElfEnv
        (F.offsetResolver.toOffset throwInfo.throwAddr) =
          (env.functionAt throwInfo.throwAddr, F.elf.load env.toElfEnv) := by
      rw [hR.cached.getContainingFunction, hR.resolver]
      rfl
    have hat' : F'.elf.getContainingFunction env'.toElfEnv
        (F'.offsetResolver.toOffset (throwInfo.shift d).throwAddr) =
          (env.functionAt throwInfo.throwAddr, F'.elf.load env'.toElfEnv) := by
      rw [← h.functionAt hmem, hR'.cached.getContainingFunction, hR'.resolver]
      rfl
    have herr : ∀ e, Impl.errorToThrow (throwInfo.shift d) e = Impl.errorToThrow throwInfo e :=
      fun _ => rfl
    simp only [hinfo, hat] at he
    simp only [Option.map_some, hat', herr]
    cases hfn : env.functionAt throwInfo.throwAddr with
    | error e =>
      simp only [hfn] at he
      cases he
      exact ⟨_, rfl, hload⟩
    | ok fn =>
      simp only [hfn] at he
      cases herror : Impl.errorToThrow throwInfo pError with
      | error e =>
        simp only [herror] at he
        cases he
        exact ⟨_, rfl, hload⟩
      | ok error =>
        have hresolver : F.offsetResolver = env.resolver := hR.resolver
        have hresolver' : F'.offsetResolver = env'.resolver := hR'.resolver
        simp only [herror, hresolver] at he
        simp only [hresolver']
        rcases hc : ForcedException.construct env fn error env.resolver allocs W with ⟨o₁, W₁⟩
        have hc' := h.construct (h.functions throwInfo hmem fn hfn) hc
        simp only [hc] at he
        simp only [hc']
        cases o₁ with
        | error e =>
          cases he
          exact ⟨_, rfl, by simpa only [hresolver, hresolver'] using hload⟩
        | ok tmp => exact h.emplace (by simpa only [hresolver, hresolver'] using hload) hreg he

theorem Env.Moved.unforceException (h : env.Moved d env') {F F' G : Impl w} (hF : F.Moved env d F')
    {loc : Addr w} {W W' : World w} {o : Outcome Unit}
    (hu : F.unforceException env loc W = (o, G, W')) :
    ∃ G', F'.unforceException env' (loc + d) (W.shift d) = (o, G', W'.shift d) ∧
      G.Moved env d G' := by
  unfold Impl.unforceException at hu ⊢
  rw [hF.entries loc]
  cases hloc : F.forcedExceptions[loc]? with
  | none =>
    simp only [hloc] at hu
    cases hu
    exact ⟨F', rfl, hF⟩
  | some X =>
    rcases hd : X.destroy env W with ⟨o₁, W₁⟩
    simp only [hloc, hd] at hu
    cases hu
    simp only [Option.map_some, h.destroy hd]
    exact ⟨_, rfl, hF.erase loc⟩

/-- The entries of a map, one after the other. -/
theorem Env.Moved.destroyEntries (h : env.Moved d env') {Xs : List (ForcedException w)}
    {W W' : World w} {o : Outcome Unit} (hd : Impl.destroyEntries env Xs W = (o, W')) :
    Impl.destroyEntries env' (Xs.map (ForcedException.shift d)) (W.shift d) =
      (o, W'.shift d) := by
  induction Xs generalizing W with
  | nil =>
    cases hd
    rfl
  | cons X Xs ih =>
    unfold Impl.destroyEntries at hd
    rcases hX : X.destroy env W with ⟨o₁, W₁⟩
    simp only [hX] at hd
    simp only [List.map_cons, Impl.destroyEntries, h.destroy hX]
    cases o₁ with
    | ok _ => exact ih hd
    | error e =>
      cases hd
      rfl

theorem Env.Moved.destroyForcer (h : env.Moved d env') {F F' : Impl w} (hF : F.Moved env d F')
    {order : DestroyOrder} {W W' : World w} {o : Outcome Unit}
    (hd : F.destroy env order W = (o, W')) :
    F'.destroy env' order (W.shift d) = (o, W'.shift d) := by
  unfold Impl.destroy at hd ⊢
  rw [← order.entries_map] at hd ⊢
  rw [h.entries hF, order.entries_map]
  exact h.destroyEntries hd

theorem Env.Moved.infoOf (h : env.Moved d env') (throwInfo : ThrowInfo w) {fn : FunctionT w}
    (hfn : env.MovesFunction d fn) :
    env'.infoOf (throwInfo.shift d) fn = (env.infoOf throwInfo fn).shift d := by
  have hresolver : ∀ env : Env w, (Impl.construct env).offsetResolver = env.resolver := fun _ => rfl
  unfold Env.infoOf Impl.exceptionInfo
  simp only [hresolver, h.resolver, ProgOffsetResolver.fromOffset_shift hfn.start_ne,
    ProgOffsetResolver.fromOffset_shift hfn.end_ne]
  rfl

theorem Env.Moved.listing (h : env.Moved d env') {throwInfos : List (ThrowInfo w)}
    (hsub : ∀ throwInfo ∈ throwInfos, throwInfo ∈ env.throwInfos) :
    env'.listing (throwInfos.map (ThrowInfo.shift d)) =
      (env.listing throwInfos).map (List.map (ExceptionInfo.shift d)) := by
  induction throwInfos with
  | nil => rfl
  | cons throwInfo rest ih =>
    have hmem := hsub throwInfo List.mem_cons_self
    have hrest := ih fun t ht => hsub t (List.mem_cons_of_mem _ ht)
    have haddr : (throwInfo.shift d).throwAddr = throwInfo.throwAddr + d := rfl
    unfold Env.listing
    simp only [List.map_cons, haddr, h.functionAt hmem, hrest]
    cases hfn : env.functionAt throwInfo.throwAddr with
    | error e => rfl
    | ok fn =>
      cases env.listing rest with
      | error e => rfl
      | ok infos =>
        simp only [h.infoOf throwInfo (h.functions throwInfo hmem fn hfn)]
        rfl

theorem Env.Moved.getExceptions (h : env.Moved d env') {F F' : Impl w} (hR : F.Ready env)
    (hR' : F'.Ready env') :
    (F'.getExceptions env').1 =
      (F.getExceptions env).1.map (List.map (ExceptionInfo.shift d)) := by
  unfold Impl.getExceptions
  rw [hR.listExceptions_eq, hR'.listExceptions_eq, h.throwInfos]
  exact h.listing fun _ ht => ht

end Moved

/-! ## The same calls at two places -/

/-- Each forcer of the one process has its like in the other one. -/
structure Process.Moved (env : Env w) (d : Addr w) (P P' : Process ι w) : Prop where
  world : P'.world = P.world.shift d
  forcers : ∀ i, Option.Rel (Impl.Moved env d) (P.forcers i) (P'.forcers i)

theorem Process.Moved.start (env env' : Env w) (d : Addr w) (W : World w) :
    (Process.start env W : Process ι w).Moved env d (Process.start env' (W.shift d)) := by
  refine ⟨rfl, fun _ => .some ⟨fun loc => ?_, fun loc hmem => ?_⟩⟩
  · simp [Impl.construct]
  · simp [Impl.construct] at hmem

theorem Process.Moved.alive {env : Env w} {d : Addr w} {P P' : Process ι w}
    (h : P.Moved env d P') {i : ι} {F : Impl w} (hi : P.forcers i = some F) :
    ∃ F', P'.forcers i = some F' := by
  have hforcers := h.forcers i
  rw [hi] at hforcers
  generalize P'.forcers i = f at hforcers
  cases hforcers with
  | some _ => exact ⟨_, rfl⟩

section Process

variable {env env' : Env w} {d : Addr w} [DecidableEq ι]

theorem Process.Moved.set {P P' : Process ι w} (h : P.Moved env d P') (i : ι)
    {F F' : Option (Impl w)} (hF : Option.Rel (Impl.Moved env d) F F') (W : World w) :
    (P.set i F W).Moved env d (P'.set i F' (W.shift d)) := by
  refine ⟨rfl, fun j => ?_⟩
  unfold Process.set
  by_cases he : j = i
  · subst he
    simpa using hF
  · simpa [he] using h.forcers j

/-- One call, at the two places of its location, ends alike and leaves both
processes alike. -/
theorem Env.Moved.step (h : env.Moved d env') {P P₁ P' : Process ι w} (hR : P.Ready env)
    (hR' : P'.Ready env') (hP : P.Moved env d P') {i : ι} {op : Op w} {o : Outcome Unit}
    (hs : P.step env i op = (o, P₁)) :
    ∃ P₁', P'.step env' i (op.shift d) = (o, P₁') ∧ P₁.Moved env d P₁' := by
  have hforcers := hP.forcers i
  unfold Process.step at hs ⊢
  generalize hi : P.forcers i = f at hforcers hs
  generalize hi' : P'.forcers i = f' at hforcers
  cases hforcers with
  | none =>
    cases hs
    exact ⟨P', rfl, hP⟩
  | @some F F' hF =>
    simp only [hP.world]
    cases op with
    | destroy order =>
      rcases hd : F.destroy env order P.world with ⟨o₁, W₁⟩
      simp only [hd] at hs
      cases hs
      simp only [Op.shift, h.destroyForcer hF hd]
      exact ⟨_, rfl, hP.set i .none W₁⟩
    | getExceptions =>
      have hlist := h.getExceptions (hR i F hi) (hR' i F' hi')
      have hmap := (Impl.ready_listExceptions (hR i F hi) env.throwInfos).2
      have hmap' := (Impl.ready_listExceptions (hR' i F' hi') env'.throwInfos).2
      have hG : (F.getExceptions env).2.Moved env d (F'.getExceptions env').2 := by
        unfold Impl.getExceptions
        refine ⟨?_, ?_⟩
        · rw [hmap, hmap']
          exact hF.entries
        · rw [hmap]
          exact hF.registered
      cases hs
      simp only [Op.shift]
      refine ⟨_, Prod.ext ?_ rfl, hP.set i (.some hG) P.world⟩
      change Except.map _ (F'.getExceptions env').1 = Except.map _ (F.getExceptions env).1
      rw [hlist]
      cases (F.getExceptions env).1 <;> rfl
    | forceException loc pError allocs =>
      rcases hf : F.forceException env loc pError allocs P.world with ⟨o₁, G, W₁⟩
      obtain ⟨G', hf', hG⟩ := h.forceException (hR i F hi) (hR' i F' hi') hF hf
      simp only [hf] at hs
      cases hs
      simp only [Op.shift, hf']
      exact ⟨_, rfl, hP.set i (.some hG) W₁⟩
    | unforceException loc =>
      rcases hu : F.unforceException env loc P.world with ⟨o₁, G, W₁⟩
      obtain ⟨G', hu', hG⟩ := h.unforceException hF hu
      simp only [hu] at hs
      cases hs
      simp only [Op.shift, hu']
      exact ⟨_, rfl, hP.set i (.some hG) W₁⟩

/-- The same calls, one after the other. -/
theorem Env.Moved.runCalls (h : env.Moved d env') {P P' : Process ι w} (hR : P.Ready env)
    (hR' : P'.Ready env') (hP : P.Moved env d P') (calls : List (ι × Op w)) :
    (P'.runCalls env' (calls.map fun call => (call.1, call.2.shift d))).1 =
        (P.runCalls env calls).1 ∧
      (P.runCalls env calls).2.Moved env d
        (P'.runCalls env' (calls.map fun call => (call.1, call.2.shift d))).2 ∧
      (P.runCalls env calls).2.Ready env ∧
      (P'.runCalls env' (calls.map fun call => (call.1, call.2.shift d))).2.Ready env' := by
  induction calls generalizing P P' with
  | nil => exact ⟨rfl, hP, hR, hR'⟩
  | cons call rest ih =>
    obtain ⟨i, op⟩ := call
    rcases hs : P.step env i op with ⟨o, P₁⟩
    obtain ⟨P₁', hs', hP₁⟩ := h.step hR hR' hP hs
    obtain ⟨hos, hmoved, hready, hready'⟩ := ih (Process.step_ready hR hs)
      (Process.step_ready hR' hs') hP₁
    simp only [List.map_cons, Process.runCalls, hs, hs', hos]
    exact ⟨trivial, hmoved, hready, hready'⟩

end Process

/-! ## Images -/

/-- A program before it is loaded: the addresses of its throws and of the throw
helper are offsets. -/
structure Image (w : Nat) extends ElfEnv w where
  throwInfos : List (ThrowInfo w)
  throwOffset : Addr w
  areaSize : Addr w

namespace Image

/-- The program behind its loader. -/
def load (img : Image w) (generator : IOpcodeGenerator w) (grants : Nat → Protection → Bool)
    (B : Addr w) : Env w where
  toElfEnv := img.toElfEnv
  throwInfos := img.throwInfos.map (ThrowInfo.shift B)
  generator := generator
  throwFn := img.throwOffset + B
  progStartAddr := B
  executableArea := ⟨B, img.areaSize + B⟩
  mprotectGrants := grants

/-- No function symbol and no throw is at offset 0. -/
structure Defined (img : Image w) : Prop where
  symbols : ∀ a ∈ img.sortedFunctions, 0 < a.value.toNat + a.sect.filepos.toNat
  throwInfos : ∀ throwInfo ∈ img.throwInfos, throwInfo.throwAddr ≠ 0

/-- The load address is not null, and the functions, the throws and the throw
helper are in the address space. -/
structure FitsAt (img : Image w) (B : Addr w) : Prop where
  ne : B ≠ 0
  symbols : ∀ a ∈ img.sortedFunctions,
    a.value.toNat + a.sect.filepos.toNat + B.toNat < 2 ^ w
  throwInfos : ∀ throwInfo ∈ img.throwInfos, throwInfo.throwAddr.toNat + B.toNat < 2 ^ w
  helper : img.throwOffset.toNat + B.toNat < 2 ^ w

/-- The end that a lookup computes, from the next value and the place of this
section, is not null. -/
def EndsNotNull (img : Image w) : Prop :=
  ∀ throwInfo ∈ img.throwInfos, ∀ thisFn nextFn,
    neighbours img.sortedFunctions throwInfo.throwAddr = some (thisFn, nextFn) →
    nextFn.value + thisFn.sect.filepos ≠ 0

/-- Behind the start of each function there is room for `room` bytes before the
address space ends. -/
def RoomAt (img : Image w) (room : Nat) (B : Addr w) : Prop :=
  ∀ throwInfo ∈ img.throwInfos, ∀ thisFn nextFn,
    neighbours img.sortedFunctions throwInfo.throwAddr = some (thisFn, nextFn) →
    thisFn.offset.toNat + room + B.toNat < 2 ^ w

/-- The same calls at two load addresses: every call ends the same way, the
worlds behind them differ by the move, which includes every write, and so do
the lists of every forcer that lives. -/
def RunsAlike (img : Image w) (generator : IOpcodeGenerator w)
    (grants : Nat → Protection → Bool) (B₁ B₂ : Addr w) (ι : Type) [DecidableEq ι] : Prop :=
  ∀ (W : World w) (calls : List (ι × Op w)),
    let env₁ := img.load generator grants B₁
    let env₂ := img.load generator grants B₂
    let r₁ := (Process.start env₁ W).runCalls env₁ calls
    let r₂ := (Process.start env₂ (W.shift (B₂ - B₁))).runCalls env₂
      (calls.map fun call => (call.1, call.2.shift (B₂ - B₁)))
    r₂.1 = r₁.1 ∧ r₂.2.world = r₁.2.world.shift (B₂ - B₁) ∧
      ∀ i F₁, r₁.2.forcers i = some F₁ → ∃ F₂, r₂.2.forcers i = some F₂ ∧
        (F₂.getExceptions env₂).1 =
          (F₁.getExceptions env₁).1.map (List.map (ExceptionInfo.shift (B₂ - B₁)))

theorem FitsAt.toNat_offset {img : Image w} {B : Addr w} (h : img.FitsAt B) {a : Asymbol w}
    (hmem : a ∈ img.sortedFunctions) : a.offset.toNat = a.value.toNat + a.sect.filepos.toNat := by
  have hfits := h.symbols a hmem
  rw [Asymbol.offset, BitVec.toNat_add, Nat.mod_eq_of_lt (by omega)]

theorem FitsAt.offset_ne {img : Image w} {B : Addr w} (h : img.FitsAt B) (hdef : img.Defined)
    {a : Asymbol w} (hmem : a ∈ img.sortedFunctions) : a.offset ≠ 0 := by
  have hpos := hdef.symbols a hmem
  rw [← h.toNat_offset hmem] at hpos
  intro hz
  simp [hz] at hpos

/-- A function that fits starts in the address space. -/
theorem FitsAt.roomAt {img : Image w} {B : Addr w} (h : img.FitsAt B) : img.RoomAt 0 B := by
  intro throwInfo _ thisFn nextFn hn
  have hmem := (mem_of_neighbours hn).1
  rw [h.toNat_offset hmem]
  exact h.symbols thisFn hmem

theorem FitsAt.toNat_add {img : Image w} {B : Addr w} (h : img.FitsAt B)
    {throwInfo : ThrowInfo w} (hmem : throwInfo ∈ img.throwInfos) :
    (throwInfo.throwAddr + B).toNat = throwInfo.throwAddr.toNat + B.toNat := by
  rw [BitVec.toNat_add, Nat.mod_eq_of_lt (h.throwInfos throwInfo hmem)]

theorem FitsAt.add_ne {img : Image w} {B : Addr w} (h : img.FitsAt B) {throwInfo : ThrowInfo w}
    (hmem : throwInfo ∈ img.throwInfos) : throwInfo.throwAddr + B ≠ 0 := by
  have hne : B.toNat ≠ 0 := fun hz => h.ne (BitVec.eq_of_toNat_eq (by simpa using hz))
  intro hz
  have hzero := congrArg BitVec.toNat hz
  rw [h.toNat_add hmem] at hzero
  simp at hzero
  omega

/-- An address of the one image, moved to the other. -/
theorem add_move (a B₁ B₂ : Addr w) : a + B₁ + (B₂ - B₁) = a + B₂ := by
  ring

/-- The function of a throw moves with the image. -/
theorem movesFunction {img : Image w} {generator : IOpcodeGenerator w} {room : Nat}
    (hg : generator.Relative room) (grants : Nat → Protection → Bool) {B₁ B₂ : Addr w}
    (hdef : img.Defined) (h₁ : img.FitsAt B₁) (h₂ : img.FitsAt B₂) (hends : img.EndsNotNull)
    (hroom₁ : img.RoomAt room B₁) (hroom₂ : img.RoomAt room B₂) {throwInfo : ThrowInfo w}
    (hmem : throwInfo ∈ img.throwInfos) {fn : FunctionT w}
    (hfn : (img.load generator grants B₁).functionAt (throwInfo.throwAddr + B₁) = .ok fn) :
    (img.load generator grants B₁).MovesFunction (B₂ - B₁) fn := by
  have htoOffset : (img.load generator grants B₁).resolver.toOffset (throwInfo.throwAddr + B₁) =
      throwInfo.throwAddr := by
    rw [ProgOffsetResolver.toOffset_of_ne (h₁.add_ne hmem)]
    simp [Env.resolver, load]
  obtain ⟨thisFn, nextFn, hn, hstart, hend⟩ := containingFunction_ok hfn
  rw [htoOffset] at hn
  have hne : thisFn.offset ≠ 0 := h₁.offset_ne hdef (mem_of_neighbours hn).1
  refine ⟨?_, ?_, fun p => ?_⟩
  · rw [hstart]
    exact hne
  · rw [hend]
    exact hends throwInfo hmem thisFn nextFn hn
  · rw [hstart, ProgOffsetResolver.fromOffset_of_ne hne]
    simp only [Env.resolver, load, add_move]
    exact hg _ _ p _ _ (hroom₂ throwInfo hmem thisFn nextFn hn)
      (hroom₁ throwInfo hmem thisFn nextFn hn) h₂.helper h₁.helper

/-- A program at two load addresses is one program that is moved. -/
theorem moved {img : Image w} {generator : IOpcodeGenerator w} {room : Nat}
    (hg : generator.Relative room) (grants : Nat → Protection → Bool) {B₁ B₂ : Addr w}
    (hdef : img.Defined) (h₁ : img.FitsAt B₁) (h₂ : img.FitsAt B₂) (hends : img.EndsNotNull)
    (hroom₁ : img.RoomAt room B₁) (hroom₂ : img.RoomAt room B₂) :
    (img.load generator grants B₁).Moved (B₂ - B₁) (img.load generator grants B₂) := by
  refine {
    elf := rfl
    generator := rfl
    mprotectGrants := rfl
    throwFn := (add_move _ _ _).symm
    areaStop := (add_move _ _ _).symm
    progStartAddr := by simp [load]
    areaStart := by simp [load]
    throwInfos := ?_
    throwAddr_ne := ?_
    ordered := ?_
    functions := ?_ }
  · simp only [load, List.map_map]
    congr 1
    funext throwInfo
    simp [ThrowInfo.shift]
  · intro throwInfo hmem
    obtain ⟨offset, hoffset, rfl⟩ := List.mem_map.1 hmem
    refine ⟨h₁.add_ne hoffset, ?_⟩
    change offset.throwAddr + B₁ + (B₂ - B₁) ≠ 0
    rw [add_move]
    exact h₂.add_ne hoffset
  · rintro loc loc' ⟨throwInfo, hmem, rfl⟩ ⟨throwInfo', hmem', rfl⟩ hlt
    obtain ⟨offset, hoffset, rfl⟩ := List.mem_map.1 hmem
    obtain ⟨offset', hoffset', rfl⟩ := List.mem_map.1 hmem'
    simp only [ThrowInfo.shift, add_move] at hlt ⊢
    rw [BitVec.lt_def, h₁.toNat_add hoffset, h₁.toNat_add hoffset'] at hlt
    rw [BitVec.lt_def, h₂.toNat_add hoffset, h₂.toNat_add hoffset']
    omega
  · intro throwInfo hmem fn hfn
    obtain ⟨offset, hoffset, rfl⟩ := List.mem_map.1 hmem
    exact movesFunction hg grants hdef h₁ h₂ hends hroom₁ hroom₂ hoffset hfn

end Image

/-- An image without a null end runs alike at any two addresses at which it
fits. For the x86-64 generator the opcodes have to fit, too. -/
theorem an_image_runs_alike_wherever_it_is_loaded {arch : Arch} {img : Image arch.width}
    {B₁ B₂ : Addr arch.width} (hdef : img.Defined) (h₁ : img.FitsAt B₁) (h₂ : img.FitsAt B₂)
    (hends : img.EndsNotNull) (hroom : arch = .amd64 → img.RoomAt 15 B₁ ∧ img.RoomAt 15 B₂)
    (grants : Nat → Protection → Bool) (ι : Type) [DecidableEq ι] :
    img.RunsAlike (getOpcodeGenerator arch) grants B₁ B₂ ι := by
  have hmoved : (img.load (getOpcodeGenerator arch) grants B₁).Moved (B₂ - B₁)
      (img.load (getOpcodeGenerator arch) grants B₂) := by
    by_cases harch : arch = .amd64
    · obtain ⟨hroom₁, hroom₂⟩ := hroom harch
      subst harch
      exact img.moved OpcodeGeneratorX64_relative grants hdef h₁ h₂ hends hroom₁ hroom₂
    · exact img.moved (getOpcodeGenerator_relative harch) grants hdef h₁ h₂ hends h₁.roomAt
        h₂.roomAt
  intro W calls
  obtain ⟨houtcomes, hP, hready₁, hready₂⟩ := hmoved.runCalls (ready_start _ W)
    (ready_start _ _) (Process.Moved.start _ _ _ W (ι := ι)) calls
  refine ⟨houtcomes, hP.world, fun i F₁ hF₁ => ?_⟩
  obtain ⟨F₂, hF₂⟩ := hP.alive hF₁
  exact ⟨F₂, hF₂, hmoved.getExceptions (hready₁ i F₁ hF₁) (hready₂ i F₂ hF₂)⟩

/-- The small program, before it is loaded. -/
def sampleImage : Image 64 where
  toElfEnv := sample.toElfEnv
  throwInfos := [⟨0x1010, "f.cpp", 3, "F(1)", some (.ok (some 1))⟩]
  throwOffset := 0x2000
  areaSize := 0x3000

theorem an_image_runs_alike_wherever_it_is_loaded_sample :
    sampleImage.RunsAlike (getOpcodeGenerator .amd64) (fun _ _ => true) 0x400000
      0x7f0000400000 Unit := by
  have hn : ∀ throwInfo ∈ sampleImage.throwInfos,
      neighbours sampleImage.sortedFunctions throwInfo.throwAddr = some (sampleF, sampleG) := by
    decide
  have hdef : sampleImage.Defined := ⟨by decide, by decide⟩
  have h₁ : sampleImage.FitsAt 0x400000 := ⟨by decide, by decide, by decide, by decide⟩
  have h₂ : sampleImage.FitsAt 0x7f0000400000 := ⟨by decide, by decide, by decide, by decide⟩
  have hroom : ∀ B : Addr 64, B.toNat < 2 ^ 63 → sampleImage.RoomAt 15 B := by
    intro B hB throwInfo hmem thisFn nextFn h
    cases (hn throwInfo hmem).symm.trans h
    have hstart : sampleF.offset.toNat = 0x1000 := rfl
    omega
  have hends : sampleImage.EndsNotNull := by
    intro throwInfo hmem thisFn nextFn h
    cases (hn throwInfo hmem).symm.trans h
    decide
  exact @an_image_runs_alike_wherever_it_is_loaded .amd64 sampleImage _ _ hdef h₁ h₂ hends
    (fun _ => ⟨hroom _ (by decide), hroom _ (by decide)⟩) _ Unit _

/-! ## What the two conditions are for -/

def topF : Asymbol 64 := ⟨"f", 0x0, sampleText, 0x8⟩

def topG : Asymbol 64 := ⟨"g", 0x8, sampleText, 0x8⟩

/-- A function that is shorter than an opcode, which is not found out first
when the code behind its opcode would wrap around. -/
def topImage : Image 64 where
  toElfEnv := .ofSymtab [topF, topG]
  throwInfos := [⟨0x1004, "f.cpp", 3, "F(1)", some (.ok (some 1))⟩]
  throwOffset := 0x800
  areaSize := 0x1008

def mixedF : Asymbol 32 := ⟨"f", 0x10, ⟨0x80000000⟩, 0x8⟩

def mixedG : Asymbol 32 := ⟨"g", 0x80000000, ⟨0x1000⟩, 0x8⟩

/-- Two sections. The value of the one function and the place of the other
one add up to null. -/
def mixedImage : Image 32 where
  toElfEnv := .ofSymtab [mixedF, mixedG]
  throwInfos := [⟨0x80000014, "f.cpp", 3, "F(1)", some (.ok (some 1))⟩]
  throwOffset := 0x800
  areaSize := 0x80001008

/-- At the top of the address space the same call fails with another error, and
an end that is null does not move with its function. -/
theorem an_image_may_run_unlike :
    (topImage.Defined ∧ topImage.FitsAt 0x400000 ∧ topImage.FitsAt 0xffffffffffffeff6 ∧
      topImage.EndsNotNull ∧
      ¬ topImage.RunsAlike (getOpcodeGenerator .amd64) (fun _ _ => true) 0x400000
        0xffffffffffffeff6 Unit) ∧
    (mixedImage.Defined ∧ mixedImage.FitsAt 0x1000 ∧ mixedImage.FitsAt 0x2000 ∧
      ¬ mixedImage.RunsAlike (getOpcodeGenerator .armThumb2) (fun _ _ => true) 0x1000
        0x2000 Unit) := by
  have htop : ∀ throwInfo ∈ topImage.throwInfos,
      neighbours topImage.sortedFunctions throwInfo.throwAddr = some (topF, topG) := by
    decide
  refine ⟨⟨⟨by decide, by decide⟩, ⟨by decide, by decide, by decide, by decide⟩,
    ⟨by decide, by decide, by decide, by decide⟩, ?_, fun h => ?_⟩,
    ⟨by decide, by decide⟩, ⟨by decide, by decide, by decide, by decide⟩,
    ⟨by decide, by decide, by decide, by decide⟩, fun h => ?_⟩
  · intro throwInfo hmem thisFn nextFn h
    cases (htop throwInfo hmem).symm.trans h
    decide
  · obtain ⟨houtcomes, -⟩ := h sampleWorld
      [((), .forceException 0x401004 none { exceptionPtr := some 0x7000 })]
    exact absurd houtcomes (by decide)
  · obtain ⟨-, -, hlists⟩ := h sampleWorld []
    obtain ⟨F₂, hF₂, hlist⟩ := hlists () _ rfl
    cases hF₂
    exact absurd hlist (by decide)

end eforce
