import Mathlib.Data.List.Infix
import Mathlib.Tactic

/-!
# Searching a Text That Arrives in Parts

The first occurrence of a pattern in a text, and how much of the part that has arrived a search has
to keep: an occurrence that is not complete yet begins with a proper prefix of the pattern at the
end of the part, and the longest such prefix is early enough for all of them.
-/

namespace Samaritan.Lib

variable {α : Type*} {p l rest : List α} {n k : Nat}

/-! ## Occurrences -/

/-- The pattern occurs in the text at place `n` and at no earlier one. -/
structure FirstAt (p l : List α) (n : Nat) : Prop where
  here : p <+: l.drop n
  first : ∀ m < n, ¬p <+: l.drop m

/-- The pattern does not occur in the text. -/
def Absent (p l : List α) : Prop := ∀ m, ¬p <+: l.drop m

theorem isInfix_iff_exists_drop : p <:+: l ↔ ∃ m, p <+: l.drop m := by
  rw [List.infix_iff_prefix_suffix]
  constructor
  · rintro ⟨t, hprefix, hsuffix⟩
    refine ⟨l.length - t.length, ?_⟩
    rwa [← List.suffix_iff_eq_drop.mp hsuffix]
  · rintro ⟨m, h⟩
    exact ⟨l.drop m, h, List.drop_suffix m l⟩

theorem absent_iff_not_isInfix : Absent p l ↔ ¬p <:+: l := by
  rw [isInfix_iff_exists_drop, not_exists]
  rfl

theorem FirstAt.unique {n' : Nat} (h : FirstAt p l n) (h' : FirstAt p l n') : n = n' := by
  rcases lt_trichotomy n n' with hlt | heq | hlt
  · exact absurd h.here (h'.first n hlt)
  · exact heq
  · exact absurd h'.here (h.first n' hlt)

/-- An occurrence that fits into the first part of a text is one in that part. -/
theorem prefix_drop_append_iff {m : Nat} (hfits : m + p.length ≤ l.length) :
    p <+: (l ++ rest).drop m ↔ p <+: l.drop m := by
  rw [List.drop_append_of_le_length (by omega)]
  constructor
  · intro h
    refine List.prefix_of_prefix_length_le h (List.prefix_append _ _) ?_
    rw [List.length_drop]
    omega
  · intro h
    exact h.trans (List.prefix_append _ _)

/-- The first occurrence in a part is that in the whole text. -/
theorem FirstAt.append (hp : p ≠ []) (h : FirstAt p l n) (rest : List α) :
    FirstAt p (l ++ rest) n := by
  have hfits : n + p.length ≤ l.length := by
    have hlen := h.here.length_le
    have hpos := List.length_pos_iff.mpr hp
    rw [List.length_drop] at hlen
    omega
  constructor
  · exact (prefix_drop_append_iff hfits).mpr h.here
  · intro m hm hprefix
    exact h.first m hm ((prefix_drop_append_iff (by omega)).mp hprefix)

/-- Texts in front of which nothing begins are skipped. -/
theorem FirstAt.drop (h : FirstAt p l n) (hk : ∀ m < k, ¬p <+: l.drop m) :
    k ≤ n ∧ FirstAt p (l.drop k) (n - k) := by
  have hkn : k ≤ n := by
    by_contra hlt
    exact hk n (by omega) h.here
  refine ⟨hkn, ?_, ?_⟩
  · rw [List.drop_drop, Nat.add_sub_cancel' hkn]
    exact h.here
  · intro m hm
    rw [List.drop_drop]
    exact h.first (k + m) (by omega)

/-! ## The search -/

variable [DecidableEq α]

/-- The place of the first occurrence. -/
def indexIn (p : List α) : List α → Option Nat
  | [] => if p = [] then some 0 else none
  | x :: l => if p <+: x :: l then some 0 else (indexIn p l).map (· + 1)

/-- What follows the first occurrence. -/
def afterFirst (p l : List α) : Option (List α) :=
  (indexIn p l).map fun n => l.drop (n + p.length)

theorem indexIn_cases (p l : List α) :
    (∃ n, indexIn p l = some n ∧ FirstAt p l n) ∨ (indexIn p l = none ∧ Absent p l) := by
  induction l with
  | nil =>
    by_cases hp : p = []
    · exact .inl ⟨0, by simp [indexIn, hp], by simp [hp], by simp⟩
    · exact .inr ⟨by simp [indexIn, hp], by simp [Absent, hp]⟩
  | cons x l ih =>
    by_cases hx : p <+: x :: l
    · exact .inl ⟨0, by simp [indexIn, hx], hx, by simp⟩
    · -- an occurrence is one in the tail, one place further on
      have hsucc : ∀ {n}, (∀ m < n, ¬p <+: l.drop m) → ∀ m < n + 1, ¬p <+: (x :: l).drop m := by
        intro n h m hm
        cases m with
        | zero => exact hx
        | succ m => exact h m (by omega)
      rcases ih with ⟨n, hn, hfirst⟩ | ⟨hnone, habsent⟩
      · exact .inl ⟨n + 1, by simp [indexIn, hx, hn], hfirst.here, hsucc hfirst.first⟩
      · refine .inr ⟨by simp [indexIn, hx, hnone], fun m => ?_⟩
        exact hsucc (fun m _ => habsent m) m (Nat.lt_succ_self m)

theorem indexIn_of_firstAt (h : FirstAt p l n) : indexIn p l = some n := by
  rcases indexIn_cases p l with ⟨n', hn', hfirst⟩ | ⟨-, habsent⟩
  · rw [hn', h.unique hfirst]
  · exact absurd h.here (habsent n)

theorem indexIn_of_absent (h : Absent p l) : indexIn p l = none := by
  rcases indexIn_cases p l with ⟨n', -, hfirst⟩ | ⟨hnone, -⟩
  · exact absurd hfirst.here (h n')
  · exact hnone

theorem afterFirst_of_firstAt (h : FirstAt p l n) :
    afterFirst p l = some (l.drop (n + p.length)) := by
  simp [afterFirst, indexIn_of_firstAt h]

theorem afterFirst_of_absent (h : Absent p l) : afterFirst p l = none := by
  simp [afterFirst, indexIn_of_absent h]

/-- Skipping what no occurrence begins in changes nothing. -/
theorem afterFirst_drop (hk : ∀ m < k, ¬p <+: l.drop m) :
    afterFirst p (l.drop k) = afterFirst p l := by
  rcases indexIn_cases p l with ⟨n, -, hfirst⟩ | ⟨-, habsent⟩
  · obtain ⟨hkn, hdrop⟩ := hfirst.drop hk
    rw [afterFirst_of_firstAt hfirst, afterFirst_of_firstAt hdrop, List.drop_drop]
    congr 2
    omega
  · rw [afterFirst_of_absent habsent, afterFirst_of_absent]
    intro m
    rw [List.drop_drop]
    exact habsent (k + m)

/-- What the search finds, in terms of the text: it finds nothing exactly if the pattern is not in
    it. -/
theorem afterFirst_eq_none_iff : afterFirst p l = none ↔ ¬p <:+: l := by
  rw [← absent_iff_not_isInfix]
  constructor
  · intro h
    rcases indexIn_cases p l with ⟨n, -, hfirst⟩ | ⟨-, habsent⟩
    · rw [afterFirst_of_firstAt hfirst] at h
      cases h
    · exact habsent
  · exact afterFirst_of_absent

/-- What follows the first occurrence: the text ends with it behind the pattern, and every other
    occurrence comes later. -/
theorem afterFirst_eq_some_iff {post : List α} : afterFirst p l = some post ↔
    ∃ before, l = before ++ p ++ post ∧
      ∀ before' post', l = before' ++ p ++ post' → before.length ≤ before'.length := by
  constructor
  · intro h
    rcases indexIn_cases p l with ⟨n, -, hfirst⟩ | ⟨-, habsent⟩
    · rw [afterFirst_of_firstAt hfirst, Option.some.injEq] at h
      refine ⟨l.take n, ?_, ?_⟩
      · obtain ⟨t, ht⟩ := hfirst.here
        have hpost : t = post := by rw [← h, ← List.drop_drop, ← ht, List.drop_left]
        rw [List.append_assoc, ← hpost, ht, List.take_append_drop]
      · intro before' post' heq
        rw [List.length_take]
        refine (min_le_left _ _).trans (le_of_not_gt fun hlt => hfirst.first _ hlt ?_)
        rw [heq, List.append_assoc, List.drop_left]
        exact List.prefix_append p post'
    · rw [afterFirst_of_absent habsent] at h
      cases h
  · rintro ⟨before, rfl, hfirst⟩
    -- an earlier occurrence would split the text, too
    have hat : FirstAt p (before ++ p ++ post) before.length := by
      constructor
      · rw [List.append_assoc, List.drop_left]
        exact List.prefix_append p post
      · rintro m hm ⟨t, ht⟩
        have hle := hfirst ((before ++ p ++ post).take m) t
          (by rw [List.append_assoc _ p t, ht, List.take_append_drop])
        rw [List.length_take] at hle
        omega
    rw [afterFirst_of_firstAt hat, ← List.length_append, List.drop_left]

/-! ## Partial occurrences -/

/-- The longest prefix of the pattern of at most `n` and at least one element at the end of the
    text. -/
def longestPartial (p l : List α) : Nat → Option Nat
  | 0 => none
  | i + 1 => if p.take (i + 1) <:+ l then some (i + 1) else longestPartial p l i

theorem longestPartial_le {i : Nat} (h : longestPartial p l n = some i) : i ≤ n := by
  induction n with
  | zero => cases h
  | succ n ih =>
    rw [longestPartial] at h
    split at h
    · cases h
      exact le_rfl
    · exact (ih h).trans (Nat.le_succ n)

theorem le_longestPartial {j : Nat} (hj : 0 < j) (hjn : j ≤ n) (hsuffix : p.take j <:+ l) :
    ∃ i, longestPartial p l n = some i ∧ j ≤ i := by
  induction n with
  | zero => omega
  | succ n ih =>
    rw [longestPartial]
    split
    · exact ⟨n + 1, rfl, hjn⟩
    · rename_i hnot
      have hne : j ≠ n + 1 := by
        rintro rfl
        exact hnot hsuffix
      exact ih (by omega)

/-- **What has to be kept**: nothing begins in front of the longest partial occurrence at the end of
    a part without an occurrence, whatever follows the part. -/
theorem not_prefix_of_lt_partial (habsent : Absent p l) (rest : List α) {m : Nat}
    (hm : m < l.length - (longestPartial p l (p.length - 1)).getD 0) :
    ¬p <+: (l ++ rest).drop m := by
  intro hprefix
  by_cases hfits : m + p.length ≤ l.length
  · exact habsent m ((prefix_drop_append_iff hfits).mp hprefix)
  · -- the part ends inside of the occurrence
    have hpart : l.drop m <+: p := by
      rw [List.drop_append_of_le_length (by omega)] at hprefix
      refine List.prefix_of_prefix_length_le (List.prefix_append _ _) hprefix ?_
      rw [List.length_drop]
      omega
    have htake : p.take (l.length - m) <:+ l := by
      rw [← List.length_drop, ← List.prefix_iff_eq_take.mp hpart]
      exact List.drop_suffix m l
    obtain ⟨i, hi, hle⟩ := le_longestPartial (n := p.length - 1) (by omega) (by omega) htake
    rw [hi, Option.getD_some] at hm
    omega

end Samaritan.Lib
