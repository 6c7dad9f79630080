import Samaritan.Lib.Decimal

/-!
# Comparing Texts Without Regard to Case

Two ways to compare a UTF-8 text with an ASCII text: under Unicode case folding, and by lower
case. They differ: the long s folds to `s` but is its own lower case, and the dotted capital I
has the lower case `i` but does not fold to it.
-/

namespace Samaritan.Lib

/-- Strip a UTF-8 rune that folds to the lower-case letter `c`. The letters `k` and `s` have a third
    case variant outside ASCII: the Kelvin sign and the long s. -/
def foldRune (c : UInt8) : Bytes → Option Bytes
  | [] => none
  | x :: rest =>
    if x = c ∨ x + 32 = c then some rest
    else if c = 107 ∧ x = 0xE2 ∧ rest.take 2 = [0x84, 0xAA] then some (rest.drop 2)
    else if c = 115 ∧ x = 0xC5 ∧ rest.take 1 = [0xBF] then some (rest.drop 1)
    else none

/-- `bytes.EqualFold(s, t)` for a text `t` of lower-case ASCII letters. -/
def equalFold (s : Bytes) : Bytes → Bool
  | [] => s.isEmpty
  | c :: t =>
    match foldRune c s with
    | some rest => equalFold rest t
    | none => false

/-- Strip a UTF-8 rune whose lower case is the character `c`, which is ASCII and no capital. The
    Kelvin sign and the dotted capital I are the runes outside ASCII with such a lower case. -/
def lowerRune (c : UInt8) : Bytes → Option Bytes
  | [] => none
  | x :: rest =>
    if x = c ∨ 97 ≤ c ∧ c ≤ 122 ∧ x + 32 = c then some rest
    else if c = 107 ∧ x = 0xE2 ∧ rest.take 2 = [0x84, 0xAA] then some (rest.drop 2)
    else if c = 105 ∧ x = 0xC4 ∧ rest.take 1 = [0xB0] then some (rest.drop 1)
    else none

/-- `strings.ToLower(s) == t` for a text `t` of ASCII characters other than capitals. -/
def lowersTo (s : Bytes) : Bytes → Bool
  | [] => s.isEmpty
  | c :: t =>
    match lowerRune c s with
    | some rest => lowersTo rest t
    | none => false

/-- The text consists of lower-case ASCII letters. -/
def IsLower (t : Bytes) : Prop := ∀ c ∈ t, 97 ≤ c ∧ c ≤ 122

instance (t : Bytes) : Decidable (IsLower t) := inferInstanceAs (Decidable (∀ c ∈ t, _))

/-- A rune has one lower case. -/
theorem lowerRune_unique {c d : UInt8} (hc : 97 ≤ c ∧ c ≤ 122) (hd : 97 ≤ d ∧ d ≤ 122)
    {s rest rest' : Bytes} (h : lowerRune c s = some rest) (h' : lowerRune d s = some rest') :
    c = d ∧ rest = rest' := by
  cases s with
  | nil => cases h
  | cons x s => grind [lowerRune]

/-- A text has one lower case. -/
theorem lowersTo_unique {s t u : Bytes} (ht : IsLower t) (hu : IsLower u)
    (h : lowersTo s t = true) (h' : lowersTo s u = true) : t = u := by
  induction t generalizing s u with
  | nil =>
    cases u with
    | nil => rfl
    | cons d u =>
      obtain rfl : s = [] := by simpa [lowersTo] using h
      simp [lowersTo, lowerRune] at h'
  -- both texts take the same rune away, and it has one lower case
  | cons c t ih =>
    rw [lowersTo] at h
    split at h
    · rename_i rest hrest
      cases u with
      | nil =>
        obtain rfl : s = [] := by simpa [lowersTo] using h'
        simp [lowerRune] at hrest
      | cons d u =>
        rw [lowersTo] at h'
        split at h'
        · rename_i rest' hrest'
          obtain ⟨rfl, rfl⟩ := lowerRune_unique (ht c (by simp)) (hu d (by simp)) hrest hrest'
          rw [ih (fun e he => ht e (by simp [he])) (fun e he => hu e (by simp [he])) h h']
        · cases h'
    · cases h

/-- A rune that folds to a letter has it as its lower case, but for the long s. -/
theorem lowerRune_of_foldRune {c : UInt8} (hc : 97 ≤ c ∧ c ≤ 122) (hs : c ≠ 115) {s rest : Bytes}
    (h : foldRune c s = some rest) : lowerRune c s = some rest := by
  cases s with
  | nil => cases h
  | cons x s => grind [foldRune, lowerRune]

/-- A text that folds to one without the letter `s` has it as its lower case. -/
theorem lowersTo_of_equalFold {s t : Bytes} (ht : IsLower t) (hs : 115 ∉ t)
    (h : equalFold s t = true) : lowersTo s t = true := by
  induction t generalizing s with
  | nil => exact h
  | cons c t ih =>
    rw [List.mem_cons, not_or] at hs
    rw [equalFold] at h
    split at h
    · rename_i rest hrest
      rw [lowersTo, lowerRune_of_foldRune (ht c (by simp)) (Ne.symm hs.1) hrest]
      exact ih (fun d hd => ht d (by simp [hd])) hs.2 h
    · cases h

/-- The letter `s` and the long s both fold to `s`, and only the former has it as its lower case. -/
theorem lowerRune_s_iff {s rest : Bytes} (h : foldRune 115 s = some rest) :
    if [0xC5, 0xBF] <+: s then lowerRune 115 s = none else lowerRune 115 s = some rest := by
  cases s with
  | nil => cases h
  | cons x s => cases s <;> grind [foldRune, lowerRune]

/-- The two comparisons disagree on the long s. -/
example : equalFold [97, 0xC5, 0xBF, 107] [97, 115, 107] = true ∧
    lowersTo [97, 0xC5, 0xBF, 107] [97, 115, 107] = false := by decide

end Samaritan.Lib
