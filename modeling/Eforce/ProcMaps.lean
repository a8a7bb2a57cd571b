-- The two readers of /proc/self/maps. `GetExecutableArea` cuts the first word
-- of the text in two (ExceptionForcer.cpp), and the constructor of the resolver
-- reads a pointer off its front (priv/ProgOffsetResolver.h).
import Mathlib.Data.List.TakeWhile
import Eforce.TextStream
import Eforce.World
import Eforce.ProgOffsetResolver

namespace eforce

open text_stream

variable {w : Nat}

/-- The first line is taken for the mapping of the program. The pointers stay as
they are where nothing can be read. -/
def getExecutableArea (maps : List Char) (start stop : Addr w) : Addr w × Addr w :=
  let (input, _) := (IStream.ofText maps).readWord []
  -- Without a dash both parts are the whole word: the position wraps around.
  let (startS, endS) :=
    match input.idxOf? '-' with
    | none => (input, input)
    | some delimPos => (input.take delimPos, input.drop (delimPos + 1))
  let ss := (IStream.ofText []).put startS
  let (start, ss) := ss.readPointer start
  let ss := ss.clear.put endS
  let (stop, _) := ss.readPointer stop
  (start, stop)

/-- The constructor of `ExecutableArea`. -/
def ExecutableArea.ofMaps (maps : List Char) : ExecutableArea w :=
  let (start, stop) := getExecutableArea maps 0 0
  { start, stop }

/-- The constructor of `ProgOffsetResolver`. -/
def ProgOffsetResolver.ofMaps (maps : List Char) : ProgOffsetResolver w where
  progStartAddr := ((IStream.ofText maps).readPointer 0).1

/-- The same program with another text in /proc/self/maps. -/
def Env.readMaps (env : Env w) (maps : List Char) : Env w :=
  { env with
    executableArea := .ofMaps maps
    progStartAddr := (ProgOffsetResolver.ofMaps maps).progStartAddr }

theorem stops_nil : Stops [] := fun c hc => by cases hc

theorem stops_dash (cs : List Char) : Stops ('-' :: cs) := by
  intro c hc
  cases hc
  exact ⟨rfl, by decide, by decide⟩

/-- The dash behind a numeral is the first one. -/
theorem idxOf_dash {s : List Char} (hs : ∀ c ∈ s, isHexDigit c) (e : List Char) :
    (s ++ '-' :: e).idxOf? '-' = some s.length := by
  induction s with
  | nil => rfl
  | cons c s ih =>
    have hc : c ≠ '-' := ne_of_isHexDigit (hs c List.mem_cons_self) rfl
    rw [List.cons_append, List.idxOf?_cons, ih fun d hd => hs d (List.mem_cons_of_mem _ hd)]
    simp [hc]

/-- The first word of the text is the pair of numerals. -/
theorem first_word {s e : List Char} (hs : Numeral w s) (he : Numeral w e) (rest : List Char) :
    (IStream.ofText (s ++ '-' :: (e ++ ' ' :: rest))).readWord [] =
      (s ++ '-' :: e, { unread := ' ' :: rest }) := by
  have hword : ∀ c ∈ s ++ '-' :: e, isSpace c = false := by
    intro c hc
    simp only [List.mem_append, List.mem_cons] at hc
    rcases hc with hc | rfl | hc
    · exact not_isSpace_of_isHexDigit (hs.digits c hc)
    · rfl
    · exact not_isSpace_of_isHexDigit (he.digits c hc)
  have htext : s ++ '-' :: (e ++ ' ' :: rest) = (s ++ '-' :: e) ++ ' ' :: rest := by simp
  rw [htext, IStream.readWord_run (by simp) hword]
  · rfl
  · intro c hc
    cases hc
    rfl

/-- Whatever follows the pair of numerals that the text starts with, the area
runs from one to the other, and the resolver starts where the area does. -/
theorem the_readers_of_the_maps_agree {s e : List Char} (hs : Numeral w s) (he : Numeral w e)
    (rest : List Char) (start stop : Addr w) :
    getExecutableArea (s ++ '-' :: (e ++ ' ' :: rest)) start stop =
        (BitVec.ofNat w (numeralValue s), BitVec.ofNat w (numeralValue e)) ∧
      (ProgOffsetResolver.ofMaps (s ++ '-' :: (e ++ ' ' :: rest))).progStartAddr =
        BitVec.ofNat w (numeralValue s) := by
  refine ⟨?_, ?_⟩
  · have hstart : ((IStream.ofText []).put s).readPointer start =
        (BitVec.ofNat w (numeralValue s), { unread := [], eof := true }) :=
      IStream.readPointer_numeral rfl (List.append_nil s).symm hs stops_nil start
    -- The end of the first numeral is the end of the stream, until it is cleared.
    have hstop : ((IStream.clear { unread := [], eof := true }).put e).readPointer stop =
        (BitVec.ofNat w (numeralValue e), { unread := [], eof := true }) :=
      IStream.readPointer_numeral rfl (List.append_nil e).symm he stops_nil stop
    have htake : (s ++ '-' :: e).take s.length = s := List.take_left
    have hdrop : (s ++ '-' :: e).drop (s.length + 1) = e := by simp
    unfold getExecutableArea
    simp only [first_word hs he rest, idxOf_dash hs.digits, htake, hdrop, hstart, hstop]
  · have hread := IStream.readPointer_numeral (s := .ofText (s ++ '-' :: (e ++ ' ' :: rest))) rfl
      rfl hs (stops_dash _) 0
    exact congrArg Prod.fst hread

/-- One numeral has leading zeros, and the other one has upper case digits. -/
theorem the_readers_of_the_maps_agree_sample :
    getExecutableArea "00400000-40FF00 r--p".toList 0 0 =
        ((0x400000, 0x40ff00) : Addr 64 × Addr 64) ∧
      (ProgOffsetResolver.ofMaps "00400000-40FF00 r--p".toList).progStartAddr =
        (0x400000 : Addr 64) := by
  have hstart : numeralValue "00400000".toList = 0x400000 := rfl
  have hstop : numeralValue "40FF00".toList = 0x40ff00 := rfl
  have hs : Numeral 64 "00400000".toList :=
    ⟨by decide, List.all_eq_true.1 rfl, by rw [hstart]; omega⟩
  have he : Numeral 64 "40FF00".toList :=
    ⟨by decide, List.all_eq_true.1 rfl, by rw [hstop]; omega⟩
  exact the_readers_of_the_maps_agree hs he "r--p".toList 0 0

/-! ## Any text -/

theorem stops_space {c : Char} (hc : isSpace c) (cs : List Char) : Stops (c :: cs) := by
  intro d hd
  cases hd
  refine ⟨?_, ?_, ?_⟩
  · by_contra hdigit
    have hno := not_isSpace_of_isHexDigit (by simpa using hdigit)
    rw [hc] at hno
    cases hno
  · rintro rfl
    cases hc
  · rintro rfl
    cases hc

/-- The first part of the word ends in front of the first dash. -/
theorem take_idxOf_dash (word : List Char) :
    (match word.idxOf? '-' with
      | none => word
      | some delimPos => word.take delimPos) = word.takeWhile (· != '-') := by
  induction word with
  | nil => rfl
  | cons c word ih =>
    rw [List.idxOf?_cons]
    by_cases hc : c = '-'
    · subst hc
      rfl
    · rw [List.takeWhile_cons_of_pos (by simpa using hc), ← ih]
      simp only [beq_iff_eq, hc, if_false]
      cases word.idxOf? '-' <;> rfl

/-- The part of a text that the start of the area is read from. -/
theorem ofMaps_start (maps : List Char) :
    (ExecutableArea.ofMaps maps : ExecutableArea w).start =
      ((IStream.ofText (((maps.dropWhile isSpace).takeWhile (!isSpace ·)).takeWhile
        (· != '-'))).readPointer 0).1 := by
  rw [← IStream.readWord_ofText, ← take_idxOf_dash]
  unfold ExecutableArea.ofMaps getExecutableArea
  rcases hword : (IStream.ofText maps).readWord [] with ⟨word, s⟩
  simp only
  cases word.idxOf? '-' <;> rfl

/-- The area starts where the resolver does, whatever the text is, unless the
first word starts with a dash. The area then starts at null. -/
theorem the_readers_start_alike_on_every_text (maps : List Char) :
    (ExecutableArea.ofMaps maps : ExecutableArea w).start =
      if (maps.dropWhile isSpace).head? = some '-' then 0
      else (ProgOffsetResolver.ofMaps maps).progStartAddr := by
  have hresolver : (ProgOffsetResolver.ofMaps maps : ProgOffsetResolver w).progStartAddr =
      ((IStream.ofText maps).readPointer 0).1 := rfl
  rw [ofMaps_start, hresolver, IStream.readPointer_ofText, IStream.readPointer_ofText]
  cases htext : maps.dropWhile isSpace with
  | nil => simp
  | cons c cs =>
    have hc : isSpace c = false := by
      have hhead := List.head?_dropWhile_not isSpace maps
      rw [htext] at hhead
      exact hhead
    by_cases hdash : c = '-'
    · subst hdash
      simp [hc]
    · -- The number ends in the first part of the word, or with it.
      set p : Char → Bool := fun d => d != '-' && !isSpace d with hp
      have hpart : ((c :: cs).takeWhile (!isSpace ·)).takeWhile (· != '-') =
          (c :: cs).takeWhile p := by
        rw [List.takeWhile_takeWhile]
        congr 1
        funext d
        by_cases hd : d = '-' <;> simp [hp, hd]
      have hpc : p c = true := by simp [hp, hdash, hc]
      have hne : (c :: cs).takeWhile p ≠ [] := by simp [hpc]
      have hstart : ((c :: cs).takeWhile p).dropWhile isSpace = (c :: cs).takeWhile p := by
        rw [List.takeWhile_cons_of_pos hpc, List.dropWhile_cons_of_neg (by simp [hc])]
      have hstops : Stops ((c :: cs).dropWhile p) := by
        have hhead := List.head?_dropWhile_not p (c :: cs)
        cases hrest : (c :: cs).dropWhile p with
        | nil => exact stops_nil
        | cons d rest =>
          rw [hrest] at hhead
          have hd : (d != '-') = false ∨ (!isSpace d) = false := Bool.and_eq_false_iff.1 hhead
          rcases hd with hd | hd
          · obtain rfl : d = '-' := by simpa using hd
            exact stops_dash rest
          · exact stops_space (by simpa using hd) rest
      have hvalue := extractPointer_append (w := w) hne hstops
      rw [List.takeWhile_append_dropWhile] at hvalue
      rw [hpart, hstart, if_neg hne, if_neg (List.cons_ne_nil c cs), hvalue]
      simp [hdash]

end eforce
