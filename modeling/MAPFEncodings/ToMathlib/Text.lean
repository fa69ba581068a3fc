import Mathlib.Data.Int.Basic
import Mathlib.Data.List.Basic
import Mathlib.Tactic.Positivity

/-! # Reading and writing text

The parts of formatted input which read lines, words and decimal numbers, as functions on lists of
characters, and what they read from a text which was written.
-/

namespace Text

/-- The characters of a string. -/
def chars (s : String) : List Char := s.toList

/-! ## Lines -/

/-- What a loop of `getline` with a delimiter delivers: the piece behind the last delimiter counts only
if it is not empty. -/
def getlines (d : Char) (s : List Char) : List (List Char) :=
  let pieces := s.splitOn d
  if pieces.getLast? = some [] then pieces.dropLast else pieces

/-- Pieces, each followed by the delimiter. -/
def terminated (d : Char) (pieces : List (List Char)) : List Char := pieces.flatMap (· ++ [d])

/-- What follows the first line. -/
def dropLine (s : List Char) : List Char := (s.dropWhile (· ≠ '\n')).drop 1

section

variable {d : Char} {s p : List Char} {pieces : List (List Char)}

theorem terminated_cons : terminated d (p :: pieces) = p ++ d :: terminated d pieces := by
  rw [terminated, List.flatMap_cons, List.append_assoc]
  rfl

theorem intercalate_concat (d : Char) (pieces : List (List Char)) (p : List Char) :
    [d].intercalate (pieces ++ [p]) = terminated d pieces ++ p := by
  induction pieces with
  | nil => simp [terminated]
  | cons q pieces ih =>
    rw [terminated_cons, List.append_assoc, List.cons_append, List.cons_append, ← ih]
    cases pieces <;> simp

theorem intercalate_append_nil (d : Char) (pieces : List (List Char)) :
    [d].intercalate (pieces ++ [[]]) = terminated d pieces := by
  rw [intercalate_concat, List.append_nil]

theorem not_mem_of_mem_splitOn (member : p ∈ s.splitOn d) : d ∉ p := by
  induction s generalizing p with
  | nil =>
    obtain rfl := List.mem_singleton.mp (List.splitOn_nil d ▸ member)
    exact List.not_mem_nil
  | cons c s ih =>
    rw [List.splitOn_cons_eq_if_modifyHead] at member
    split at member
    · rcases List.mem_cons.mp member with rfl | earlier
      · exact List.not_mem_nil
      · exact ih earlier
    · next other =>
      cases split : s.splitOn d with
      | nil => exact absurd split (List.splitOn_ne_nil d s)
      | cons q qs =>
        rw [split, List.modifyHead_cons] at member
        rcases List.mem_cons.mp member with rfl | later
        · rintro (_ | ⟨_, inside⟩)
          · exact other (beq_self_eq_true d)
          · exact ih (split ▸ List.mem_cons_self) inside
        · exact ih (split ▸ List.mem_cons_of_mem _ later)

/-- All texts which are read as the given pieces: the last delimiter may be left out, unless the last
piece is empty. -/
theorem getlines_eq_iff : getlines d s = pieces ↔ (∀ p ∈ pieces, d ∉ p) ∧
    (s = terminated d pieces ∨
      pieces ≠ [] ∧ pieces.getLast? ≠ some [] ∧ s = [d].intercalate pieces) := by
  constructor
  · rintro rfl
    unfold getlines
    dsimp only
    split
    · next last =>
      refine ⟨fun p member => not_mem_of_mem_splitOn (List.dropLast_subset _ member), .inl ?_⟩
      rw [← intercalate_append_nil, List.dropLast_append_getLast? _ last]
      exact (List.intercalate_splitOn d).symm
    · next last =>
      exact ⟨fun p member => not_mem_of_mem_splitOn member,
        .inr ⟨List.splitOn_ne_nil d s, last, (List.intercalate_splitOn d).symm⟩⟩
  · rintro ⟨free, rfl | ⟨some_, last, rfl⟩⟩
    · have free' : ∀ p ∈ pieces ++ [[]], d ∉ p := by
        intro p member
        rcases List.mem_append.mp member with earlier | empty
        · exact free p earlier
        · exact List.mem_singleton.mp empty ▸ List.not_mem_nil
      unfold getlines
      rw [← intercalate_append_nil, List.splitOn_intercalate d free' (by simp)]
      simp
    · unfold getlines
      rw [List.splitOn_intercalate d free some_]
      exact if_neg last

theorem getlines_terminated (free : ∀ p ∈ pieces, d ∉ p) : getlines d (terminated d pieces) = pieces :=
  getlines_eq_iff.mpr ⟨free, .inl rfl⟩

theorem getlines_intercalate (free : ∀ p ∈ pieces, d ∉ p) (some_ : pieces ≠ [])
    (last : pieces.getLast? ≠ some []) : getlines d ([d].intercalate pieces) = pieces :=
  getlines_eq_iff.mpr ⟨free, .inr ⟨some_, last, rfl⟩⟩

theorem not_mem_intercalate {c : Char} (other : c ≠ d) (free : ∀ p ∈ pieces, c ∉ p) :
    c ∉ [d].intercalate pieces := by
  induction pieces with
  | nil => exact List.not_mem_nil
  | cons p pieces ih =>
    have rest := ih fun q member => free q (List.mem_cons_of_mem _ member)
    cases pieces with
    | nil => simpa using free
    | cons q pieces =>
      rw [List.intercalate_cons_cons]
      simp only [List.mem_append, List.mem_singleton, not_or]
      exact ⟨⟨free p List.mem_cons_self, other⟩, rest⟩

/-- An empty last piece is not delivered, which does not change the others. -/
theorem getlines_concat (free : ∀ q ∈ pieces ++ [p], d ∉ q) :
    ∃ rest, getlines d ([d].intercalate (pieces ++ [p])) = pieces ++ rest := by
  by_cases empty : p = []
  · subst empty
    rw [intercalate_append_nil, getlines_terminated fun q member =>
      free q (List.mem_append_left _ member)]
    exact ⟨[], (List.append_nil _).symm⟩
  · exact ⟨[p], getlines_intercalate free (by simp) (by simpa using empty)⟩

theorem dropLine_append (free : '\n' ∉ p) : dropLine (p ++ '\n' :: s) = s := by
  have inside (c : Char) (member : c ∈ p) : decide (c ≠ '\n') = true :=
    decide_eq_true fun same => free (same ▸ member)
  unfold dropLine
  rw [List.dropWhile_append_of_pos inside]
  simp

end

/-! ## Words -/

/-- What `>>` skips: the blank and the characters from the tab to the carriage return. -/
def isSpace (c : Char) : Bool := c.toNat = 32 || (9 ≤ c.toNat && c.toNat ≤ 13)

/-- `>>` of a string: the next word and what follows it. -/
def word (s : List Char) : Option (List Char × List Char) :=
  let s := s.dropWhile isSpace
  if s = [] then none else some (s.takeWhile (!isSpace ·), s.dropWhile (!isSpace ·))

/-- A text which `>>` does not skip and reads as one word. -/
structure Word (w : List Char) : Prop where
  ne_nil : w ≠ []
  solid : ∀ c ∈ w, isSpace c = false

instance (w : List Char) : Decidable (Word w) :=
  decidable_of_iff (w.isEmpty = false ∧ w.all (!isSpace ·) = true)
    ⟨fun both => ⟨by simpa using both.1, by simpa using both.2⟩,
      fun isWord => ⟨by simpa using isWord.ne_nil, by simpa using isWord.solid⟩⟩

section

variable {w s : List Char} {c : Char}

theorem Word.skip (isWord : Word w) (s : List Char) : (w ++ s).dropWhile isSpace = w ++ s := by
  obtain ⟨ne_nil, solid⟩ := isWord
  cases w with
  | nil => exact absurd rfl ne_nil
  | cons c w =>
    rw [List.cons_append, List.dropWhile_cons_of_neg]
    rw [solid c List.mem_cons_self]
    decide

theorem Word.read (isWord : Word w) (stops : ∀ c ∈ s.head?, isSpace c = true) :
    word (w ++ s) = some (w, s) := by
  have solid : ∀ c ∈ w, (!isSpace c) = true := fun c member => by rw [isWord.solid c member]; rfl
  unfold word
  dsimp only
  rw [isWord.skip, if_neg (by simp [isWord.ne_nil]), List.takeWhile_append_of_pos solid,
    List.dropWhile_append_of_pos solid]
  cases s with
  | nil => simp
  | cons c s => simp [stops c rfl]

theorem dropWhile_isSpace_append {spaces : List Char} (all : ∀ c ∈ spaces, isSpace c = true)
    (s : List Char) : (spaces ++ s).dropWhile isSpace = s.dropWhile isSpace :=
  List.dropWhile_append_of_pos all

/-- Spaces in front of a word do not matter. -/
theorem word_spaces {spaces : List Char} (all : ∀ c ∈ spaces, isSpace c = true) (s : List Char) :
    word (spaces ++ s) = word s := by
  unfold word
  rw [dropWhile_isSpace_append all]

/-- What can be read character by character. -/
def solid (s : List Char) : List Char := s.filter (!isSpace ·)

theorem solid_dropWhile (s : List Char) : solid (s.dropWhile isSpace) = solid s := by
  induction s with
  | nil => rfl
  | cons c s ih =>
    cases space : isSpace c
    · rw [List.dropWhile_cons_of_neg (by rw [space]; decide)]
    · rw [List.dropWhile_cons_of_pos space, ih, solid, solid,
        List.filter_cons_of_neg (by rw [space]; decide)]

theorem solid_append (s t : List Char) : solid (s ++ t) = solid s ++ solid t := List.filter_append ..

theorem solid_eq_nil {s : List Char} (all : ∀ c ∈ s, isSpace c = true) : solid s = [] :=
  List.filter_eq_nil_iff.mpr fun c member => by rw [all c member]; decide

theorem solid_eq_self {s : List Char} (all : ∀ c ∈ s, isSpace c = false) : solid s = s :=
  List.filter_eq_self.mpr fun c member => by rw [all c member]; rfl

/-- The first character which is not skipped. -/
theorem head_dropWhile_isSpace {s t : List Char} (split : s.dropWhile isSpace = c :: t) :
    isSpace c = false := by
  have first := List.head?_dropWhile_not isSpace s
  rw [split] at first
  simpa using first

end

/-! ## Numbers -/

/-- An optional sign and digits at the beginning of a text. -/
structure Numeral where
  negative : Bool
  digits : List Char
  rest : List Char
deriving DecidableEq

def numeral : List Char → Numeral
  | '-' :: s => ⟨true, s.takeWhile Char.isDigit, s.dropWhile Char.isDigit⟩
  | '+' :: s => ⟨false, s.takeWhile Char.isDigit, s.dropWhile Char.isDigit⟩
  | s => ⟨false, s.takeWhile Char.isDigit, s.dropWhile Char.isDigit⟩

/-- `>>` of an unsigned integer with a number of bits: what is assigned, if anything, and what can
still be read, which is nothing after a failure. -/
def readUnsigned (bits : ℕ) (s : List Char) : Option (ℕ × List Char) :=
  let s := s.dropWhile isSpace
  let value := Nat.ofDigitChars 10 (numeral s).digits 0
  if s = [] then none
  else if (numeral s).digits = [] then some (0, [])
  else if 2 ^ bits ≤ value then some (2 ^ bits - 1, [])
  else some (if (numeral s).negative then (2 ^ bits - value) % 2 ^ bits else value, (numeral s).rest)

/-- `stoi` for a number of bits. It throws if there is no number or if it is out of range. -/
def toInt (bits : ℕ) (s : List Char) : Option ℤ :=
  let n := numeral (s.dropWhile isSpace)
  let size : ℤ := Nat.ofDigitChars 10 n.digits 0
  let value := if n.negative then -size else size
  if n.digits = [] then none
  else if -2 ^ (bits - 1) ≤ value ∧ value < 2 ^ (bits - 1) then some value else none

/-- `atoi`, which is zero if there is no number. -/
def atoi (s : List Char) : ℤ :=
  let n := numeral (s.dropWhile isSpace)
  let size : ℤ := Nat.ofDigitChars 10 n.digits 0
  if n.negative then -size else size

/-- `<<` of an integer. -/
def ofInt (n : ℤ) : List Char :=
  if n < 0 then '-' :: Nat.toDigits 10 n.natAbs else Nat.toDigits 10 n.natAbs

section

variable {ds s : List Char} {n : ℕ}

theorem isDigit_toDigits (n : ℕ) : ∀ c ∈ Nat.toDigits 10 n, c.isDigit = true := fun _ =>
  Nat.isDigit_of_mem_toDigits (by decide) (by decide)

theorem isSpace_of_isDigit {c : Char} (digit : c.isDigit = true) : isSpace c = false := by
  unfold Char.isDigit at digit
  simp only [Bool.and_eq_true, decide_eq_true_eq, ge_iff_le, UInt32.le_iff_toNat_le] at digit
  change 48 ≤ c.toNat ∧ c.toNat ≤ 57 at digit
  unfold isSpace
  simp only [Bool.or_eq_false_iff, Bool.and_eq_false_iff, decide_eq_false_iff_not]
  omega

theorem word_toDigits (n : ℕ) : Word (Nat.toDigits 10 n) :=
  ⟨Nat.toDigits_ne_nil, fun c member => isSpace_of_isDigit (isDigit_toDigits n c member)⟩

/-- Nothing which could continue a number. -/
def Stops (s : List Char) : Prop := ∀ c ∈ s.head?, c.isDigit = false

theorem span_isDigit (digits : ∀ c ∈ ds, c.isDigit = true) (stops : Stops s) :
    (ds ++ s).takeWhile Char.isDigit = ds ∧ (ds ++ s).dropWhile Char.isDigit = s := by
  rw [List.takeWhile_append_of_pos digits, List.dropWhile_append_of_pos digits]
  cases s with
  | nil => exact ⟨List.append_nil _, rfl⟩
  | cons c s =>
    have stop : ¬c.isDigit = true := by rw [stops c rfl]; decide
    exact ⟨by rw [List.takeWhile_cons_of_neg stop, List.append_nil], List.dropWhile_cons_of_neg stop⟩

theorem numeral_append (digits : ∀ c ∈ ds, c.isDigit = true) (ne_nil : ds ≠ []) (stops : Stops s) :
    numeral (ds ++ s) = ⟨false, ds, s⟩ := by
  obtain ⟨taken, dropped⟩ := span_isDigit digits stops
  cases ds with
  | nil => exact absurd rfl ne_nil
  | cons c ds =>
    have digit := digits c List.mem_cons_self
    rw [List.cons_append] at taken dropped ⊢
    rw [numeral, taken, dropped]
    · rintro t ⟨rfl, -⟩
      exact absurd digit (by decide)
    · rintro t ⟨rfl, -⟩
      exact absurd digit (by decide)

theorem numeral_neg_append (digits : ∀ c ∈ ds, c.isDigit = true) (stops : Stops s) :
    numeral ('-' :: (ds ++ s)) = ⟨true, ds, s⟩ := by
  obtain ⟨taken, dropped⟩ := span_isDigit digits stops
  rw [numeral, taken, dropped]

/-- A number which was written is read, up to what stops it. -/
theorem readUnsigned_toDigits {bits : ℕ} (fits : n < 2 ^ bits) (stops : Stops s) :
    readUnsigned bits (Nat.toDigits 10 n ++ s) = some (n, s) := by
  have ne_nil : Nat.toDigits 10 n ≠ [] := Nat.toDigits_ne_nil
  unfold readUnsigned
  dsimp only
  rw [(word_toDigits n).skip, numeral_append (isDigit_toDigits n) ne_nil stops,
    Nat.ofDigitChars_ten_toDigits, if_neg (by simp), if_neg ne_nil, if_neg (by omega)]
  rfl

theorem readUnsigned_spaces {bits : ℕ} {spaces : List Char} (all : ∀ c ∈ spaces, isSpace c = true)
    (s : List Char) : readUnsigned bits (spaces ++ s) = readUnsigned bits s := by
  unfold readUnsigned
  rw [dropWhile_isSpace_append all]

theorem word_ofInt (n : ℤ) : Word (ofInt n) := by
  unfold ofInt
  split
  · refine ⟨List.cons_ne_nil _ _, fun c member => ?_⟩
    rcases List.mem_cons.mp member with rfl | digit
    · decide
    · exact (word_toDigits _).solid c digit
  · exact word_toDigits _

/-- The sign and the digits of a number which was written. -/
theorem numeral_ofInt (n : ℤ) (stops : Stops s) :
    numeral (ofInt n ++ s) = ⟨decide (n < 0), Nat.toDigits 10 n.natAbs, s⟩ := by
  have digits := isDigit_toDigits n.natAbs
  unfold ofInt
  split
  · next negative =>
    rw [List.cons_append, numeral_neg_append digits stops, decide_eq_true negative]
  · next positive =>
    rw [numeral_append digits Nat.toDigits_ne_nil stops, decide_eq_false positive]

theorem atoi_ofInt (n : ℤ) (stops : Stops s) : atoi (ofInt n ++ s) = n := by
  unfold atoi
  rw [(word_ofInt n).skip, numeral_ofInt n stops]
  dsimp only
  rw [Nat.ofDigitChars_ten_toDigits]
  split
  · next negative =>
    have := of_decide_eq_true negative
    omega
  · next positive =>
    have : ¬n < 0 := fun negative => positive (decide_eq_true negative)
    omega

theorem toInt_ofInt {bits : ℕ} {n : ℤ} (fits : -2 ^ (bits - 1) ≤ n ∧ n < 2 ^ (bits - 1))
    (stops : Stops s) : toInt bits (ofInt n ++ s) = some n := by
  have value := atoi_ofInt n stops
  unfold atoi at value
  unfold toInt
  dsimp only at value ⊢
  rw [value, (word_ofInt n).skip, numeral_ofInt n stops, if_neg Nat.toDigits_ne_nil]
  exact if_pos fits

theorem ofInt_natCast (n : ℕ) : ofInt n = Nat.toDigits 10 n := if_neg (by omega)

theorem toInt_toDigits {bits : ℕ} (fits : n < 2 ^ (bits - 1)) (stops : Stops s) :
    toInt bits (Nat.toDigits 10 n ++ s) = some n := by
  rw [← ofInt_natCast]
  have negative : (0 : ℤ) ≤ 2 ^ (bits - 1) := by positivity
  exact toInt_ofInt ⟨by omega, by exact_mod_cast fits⟩ stops

end

end Text
