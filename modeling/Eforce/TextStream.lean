-- Formatted input from a stream of characters, as the C++ library has it: words,
-- and pointers in hexadecimal. A stream that came to its end or failed gives
-- nothing more until it is cleared.
import Mathlib.Data.BitVec
import Mathlib.Data.Nat.Digits.Defs

namespace text_stream

/-! ## Numerals -/

def hexDigit (c : Char) : Option Nat :=
  let n := c.toNat
  if 48 ≤ n ∧ n ≤ 57 then some (n - 48)
  else if 97 ≤ n ∧ n ≤ 102 then some (n - 87)
  else if 65 ≤ n ∧ n ≤ 70 then some (n - 55)
  else none

def isHexDigit (c : Char) : Bool := (hexDigit c).isSome

/-- A blank, a tab, or one of the characters that break lines and pages. -/
def isSpace (c : Char) : Bool := c.toNat = 32 ∨ (9 ≤ c.toNat ∧ c.toNat ≤ 13)

def hexValue (c : Char) : Nat := (hexDigit c).getD 0

/-- The number that a run of digits stands for. -/
def numeralValue (cs : List Char) : Nat := Nat.ofDigits 16 (cs.map hexValue).reverse

/-- Digit by digit from the left, as a loop has it. -/
def accumulate (cs : List Char) : Nat := cs.foldl (fun n c => n * 16 + hexValue c) 0

/-- One or more digits of a number that fits into `w` bits. -/
structure Numeral (w : Nat) (cs : List Char) : Prop where
  nonempty : cs ≠ []
  digits : ∀ c ∈ cs, isHexDigit c
  fits : numeralValue cs < 2 ^ w

theorem accumulate_eq (cs : List Char) : accumulate cs = numeralValue cs := by
  induction cs using List.reverseRecOn with
  | nil => rfl
  | append_singleton cs c ih =>
    unfold accumulate numeralValue at *
    rw [List.foldl_append, ih]
    simp only [List.foldl_cons, List.foldl_nil, List.map_append, List.map_cons, List.map_nil,
      List.reverse_append, List.reverse_cons, List.reverse_nil, List.nil_append,
      List.singleton_append, Nat.ofDigits_cons]
    omega

theorem not_isSpace_of_isHexDigit {c : Char} (h : isHexDigit c) : isSpace c = false := by
  unfold isHexDigit hexDigit at h
  unfold isSpace
  simp only [decide_eq_false_iff_not]
  intro hspace
  dsimp only at h
  rw [if_neg (by omega), if_neg (by omega), if_neg (by omega)] at h
  cases h

theorem ne_of_isHexDigit {c d : Char} (h : isHexDigit c) (hd : isHexDigit d = false) : c ≠ d := by
  rintro rfl
  rw [h] at hd
  cases hd

/-! ## A pointer from a text -/

/-- A sign in front of a number. -/
def skipSign : List Char → Bool × List Char
  | '-' :: cs => (true, cs)
  | '+' :: cs => (false, cs)
  | cs => (false, cs)

/-- The mark of a hexadecimal number. -/
def skipBase : List Char → List Char
  | '0' :: 'x' :: cs => cs
  | '0' :: 'X' :: cs => cs
  | cs => cs

/-- The number that a text starts with, whether that failed, and what is behind
it. A number that does not fit fails with the largest one. -/
def extractPointer (w : Nat) (cs : List Char) : BitVec w × Bool × List Char :=
  let (negative, cs) := skipSign cs
  let cs := skipBase cs
  let digits := cs.takeWhile isHexDigit
  let rest := cs.dropWhile isHexDigit
  let n := accumulate digits
  if digits = [] then (0, true, rest)
  else if 2 ^ w ≤ n then (BitVec.allOnes w, true, rest)
  else (if negative then -BitVec.ofNat w n else BitVec.ofNat w n, false, rest)

/-- The text goes on with something that is no digit and no mark of a base. -/
def Stops (rest : List Char) : Prop :=
  ∀ c ∈ rest.head?, isHexDigit c = false ∧ c ≠ 'x' ∧ c ≠ 'X'

theorem skipSign_digit {c : Char} (h : isHexDigit c) (cs : List Char) :
    skipSign (c :: cs) = (false, c :: cs) := by
  unfold skipSign
  split
  · rename_i he
    cases he
    cases h
  · rename_i he
    cases he
    cases h
  · rfl

theorem skipBase_numeral {cs rest : List Char} (hcs : ∀ c ∈ cs, isHexDigit c) (hrest : Stops rest)
    (hne : cs ≠ []) : skipBase (cs ++ rest) = cs ++ rest := by
  have hsecond : ∀ d ds, cs ++ rest = '0' :: d :: ds → d ≠ 'x' ∧ d ≠ 'X' := by
    intro d ds he
    rcases cs with _ | ⟨c, _ | ⟨c', cs⟩⟩
    · exact absurd rfl hne
    · simp only [List.cons_append, List.nil_append, List.cons.injEq] at he
      exact (hrest d (by simp [he.2])).2
    · simp only [List.cons_append, List.cons.injEq] at he
      have hd : isHexDigit d := he.2.1 ▸ hcs c' (by simp)
      exact ⟨ne_of_isHexDigit hd rfl, ne_of_isHexDigit hd rfl⟩
  unfold skipBase
  split
  · rename_i ds he
    exact absurd rfl (hsecond _ ds he).1
  · rename_i ds he
    exact absurd rfl (hsecond _ ds he).2
  · rfl

/-- The digits of a run end where the run does. -/
theorem takeWhile_run {p : Char → Bool} {cs rest : List Char} (hcs : ∀ c ∈ cs, p c)
    (hrest : ∀ c ∈ rest.head?, p c = false) :
    (cs ++ rest).takeWhile p = cs ∧ (cs ++ rest).dropWhile p = rest := by
  rw [List.takeWhile_append_of_pos hcs, List.dropWhile_append_of_pos hcs]
  cases rest with
  | nil => simp
  | cons c rest =>
    have hc : p c = false := hrest c (by simp)
    simp [hc]

/-- A numeral is read to its end. -/
theorem extractPointer_numeral {w : Nat} {cs rest : List Char} (hcs : Numeral w cs)
    (hrest : Stops rest) :
    extractPointer w (cs ++ rest) = (BitVec.ofNat w (numeralValue cs), false, rest) := by
  have hsign : skipSign (cs ++ rest) = (false, cs ++ rest) := by
    cases cs with
    | nil => exact absurd rfl hcs.nonempty
    | cons c cs => exact skipSign_digit (hcs.digits c (by simp)) _
  obtain ⟨htake, hdrop⟩ := takeWhile_run hcs.digits fun c hc => (hrest c hc).1
  have hfits : ¬ 2 ^ w ≤ accumulate cs := by
    rw [accumulate_eq]
    exact Nat.not_le.2 hcs.fits
  unfold extractPointer
  simp only [hsign, skipBase_numeral hcs.digits hrest hcs.nonempty, htake, hdrop]
  rw [if_neg hcs.nonempty, if_neg hfits, accumulate_eq]
  rfl

theorem skipSign_append {cs : List Char} (hne : cs ≠ []) (rest : List Char) :
    skipSign (cs ++ rest) = ((skipSign cs).1, (skipSign cs).2 ++ rest) := by
  cases cs with
  | nil => exact absurd rfl hne
  | cons c cs =>
    by_cases hminus : c = '-'
    · subst hminus
      rfl
    · by_cases hplus : c = '+'
      · subst hplus
        rfl
      · simp [skipSign, hminus, hplus]

theorem skipBase_append (cs : List Char) {rest : List Char} (hrest : Stops rest) :
    skipBase (cs ++ rest) = skipBase cs ++ rest := by
  have hhead : ∀ c ds, rest = c :: ds → c ≠ '0' ∧ c ≠ 'x' ∧ c ≠ 'X' := by
    rintro c ds rfl
    obtain ⟨hdigit, hx, hX⟩ := hrest c rfl
    refine ⟨?_, hx, hX⟩
    rintro rfl
    cases hdigit
  rcases cs with _ | ⟨c, _ | ⟨d, ds⟩⟩
  · cases rest with
    | nil => rfl
    | cons r rest => simp [skipBase, (hhead r rest rfl).1]
  · cases rest with
    | nil => simp [skipBase]
    | cons r rest =>
      obtain ⟨-, hx, hX⟩ := hhead r rest rfl
      simp [skipBase, hx, hX]
  · by_cases hmark : c = '0' ∧ (d = 'x' ∨ d = 'X')
    · obtain ⟨rfl, rfl | rfl⟩ := hmark <;> rfl
    · unfold skipBase
      split <;> simp_all

/-- What is behind the end of a number does not count for its value. -/
theorem extractPointer_append {w : Nat} {cs rest : List Char} (hne : cs ≠ [])
    (hrest : Stops rest) :
    (extractPointer w (cs ++ rest)).1 = (extractPointer w cs).1 := by
  have hdigits : ∀ ds : List Char,
      (ds ++ rest).takeWhile isHexDigit = ds.takeWhile isHexDigit := by
    intro ds
    have hnone : rest.takeWhile isHexDigit = [] := by
      cases rest with
      | nil => rfl
      | cons r rest => simp [(hrest r rfl).1]
    rw [List.takeWhile_append, hnone, List.append_nil]
    split
    · rename_i hlength
      exact ((List.takeWhile_prefix _).eq_of_length hlength).symm
    · rfl
  unfold extractPointer
  simp only [skipSign_append hne, skipBase_append _ hrest, hdigits]
  split
  · rfl
  · split <;> rfl

/-! ## Streams -/

/-- What is left to read, and whether the stream came to its end or failed. -/
structure IStream where
  unread : List Char
  eof : Bool := false
  fail : Bool := false
  deriving DecidableEq, Repr

namespace IStream

/-- The constructor of a file stream or a string stream. -/
def ofText (text : List Char) : IStream := { unread := text }

def good (s : IStream) : Bool := !s.eof && !s.fail

/-- `clear()` -/
def clear (s : IStream) : IStream := { s with eof := false, fail := false }

/-- What every formatted input does first: it skips the white space. -/
def sentry (s : IStream) : Bool × IStream :=
  if s.good then
    match s.unread.dropWhile isSpace with
    | [] => (false, { unread := [], eof := true, fail := true })
    | rest => (true, { s with unread := rest })
  else (false, { s with fail := true })

/-- `s >> word`. The word stays as it is when there is nothing to read. -/
def readWord (s : IStream) (word : List Char) : List Char × IStream :=
  match s.sentry with
  | (false, s) => (word, s)
  | (true, s) =>
    let rest := s.unread.dropWhile (!isSpace ·)
    (s.unread.takeWhile (!isSpace ·), { s with unread := rest, eof := rest.isEmpty })

/-- `s >> pointer`. The pointer stays as it is when there is nothing to read. -/
def readPointer {w : Nat} (s : IStream) (pointer : BitVec w) : BitVec w × IStream :=
  match s.sentry with
  | (false, s) => (pointer, s)
  | (true, s) =>
    let (value, failed, rest) := extractPointer w s.unread
    (value, { unread := rest, eof := rest.isEmpty, fail := failed })

/-- `s << text` for a string stream: the text goes behind what is left to read. -/
def put (s : IStream) (text : List Char) : IStream :=
  if s.good then { s with unread := s.unread ++ text } else { s with fail := true }

theorem sentry_of_good {s : IStream} {c : Char} {cs : List Char} (h : s.good = true)
    (hs : s.unread = c :: cs) (hc : isSpace c = false) : s.sentry = (true, s) := by
  obtain ⟨unread, eof, fail⟩ := s
  dsimp only at hs
  subst hs
  unfold sentry
  rw [if_pos h, List.dropWhile_cons_of_neg (by simp [hc])]

/-- A word is read up to the next white space. -/
theorem readWord_run {cs rest : List Char} (hne : cs ≠ [])
    (hcs : ∀ c ∈ cs, isSpace c = false) (hrest : ∀ c ∈ rest.head?, isSpace c) (word : List Char) :
    (ofText (cs ++ rest)).readWord word = (cs, { unread := rest, eof := rest.isEmpty }) := by
  have hrun : (cs ++ rest).takeWhile (!isSpace ·) = cs ∧
      (cs ++ rest).dropWhile (!isSpace ·) = rest :=
    takeWhile_run (fun c hc => by simp [hcs c hc]) (fun c hc => by simp [hrest c hc])
  have hsentry : (ofText (cs ++ rest)).sentry = (true, ofText (cs ++ rest)) := by
    cases cs with
    | nil => exact absurd rfl hne
    | cons c cs => exact sentry_of_good rfl rfl (hcs c (by simp))
  unfold readWord
  rw [hsentry]
  simp only [ofText, hrun]

/-- A pointer is read up to the end of its numeral. -/
theorem readPointer_numeral {w : Nat} {s : IStream} {cs rest : List Char} (hgood : s.good = true)
    (hs : s.unread = cs ++ rest) (hcs : Numeral w cs) (hrest : Stops rest) (pointer : BitVec w) :
    s.readPointer pointer =
      (BitVec.ofNat w (numeralValue cs), { unread := rest, eof := rest.isEmpty }) := by
  have hsentry : s.sentry = (true, s) := by
    cases cs with
    | nil => exact absurd rfl hcs.nonempty
    | cons c cs =>
      exact sentry_of_good hgood hs (not_isSpace_of_isHexDigit (hcs.digits c (by simp)))
  unfold readPointer
  rw [hsentry]
  simp only [hs, extractPointer_numeral hcs hrest]

theorem sentry_ofText (text : List Char) : (ofText text).sentry =
    if text.dropWhile isSpace = [] then (false, { unread := [], eof := true, fail := true })
    else (true, ofText (text.dropWhile isSpace)) := by
  have hgood : (ofText text).good = true := rfl
  unfold sentry
  rw [if_pos hgood]
  cases h : text.dropWhile isSpace with
  | nil => simp [ofText, h]
  | cons c cs => simp [ofText, h]

/-- A pointer is read behind the white space that a text starts with. -/
theorem readPointer_ofText {w : Nat} (text : List Char) (pointer : BitVec w) :
    ((ofText text).readPointer pointer).1 =
      if text.dropWhile isSpace = [] then pointer
      else (extractPointer w (text.dropWhile isSpace)).1 := by
  unfold readPointer
  rw [sentry_ofText]
  by_cases h : text.dropWhile isSpace = []
  · rw [if_pos h, if_pos h]
  · rw [if_neg h, if_neg h]
    rfl

theorem readWord_ofText (text : List Char) :
    ((ofText text).readWord []).1 = (text.dropWhile isSpace).takeWhile (!isSpace ·) := by
  unfold readWord
  rw [sentry_ofText]
  by_cases h : text.dropWhile isSpace = []
  · rw [if_pos h, h]
    rfl
  · rw [if_neg h]
    rfl

end IStream

end text_stream
