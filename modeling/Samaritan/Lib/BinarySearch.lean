import Mathlib.Data.List.Basic

/-!
# Binary Search

Search for the first index below a bound at which a test is true, by halving the range. The test
has to be true from its first true index on.
-/

namespace Samaritan.Lib

/-- The loop over the range from `i` to `j`; each turn makes the range smaller. -/
def searchFrom (f : Nat → Bool) : Nat → Nat → Nat → Nat
  | 0, i, _ => i
  | fuel + 1, i, j =>
    if i < j then
      if f ((i + j) / 2) then searchFrom f fuel i ((i + j) / 2)
      else searchFrom f fuel ((i + j) / 2 + 1) j
    else i

def search (n : Nat) (f : Nat → Bool) : Nat := searchFrom f n 0 n

/-- The test is false in front of `i` and true from `i` on. -/
structure Separates (n : Nat) (f : Nat → Bool) (i : Nat) : Prop where
  le : i ≤ n
  below : ∀ k, k < i → f k = false
  above : ∀ k, i ≤ k → k < n → f k = true

theorem separates_searchFrom {n : Nat} {f : Nat → Bool}
    (hf : ∀ a b, a ≤ b → b < n → f a = true → f b = true) {fuel i j : Nat}
    (hfuel : j ≤ i + fuel) (hij : i ≤ j) (hj : j ≤ n) (hbelow : ∀ k, k < i → f k = false)
    (habove : ∀ k, j ≤ k → k < n → f k = true) : Separates n f (searchFrom f fuel i j) := by
  induction fuel generalizing i j with
  | zero =>
    obtain rfl : i = j := Nat.le_antisymm hij hfuel
    exact ⟨hj, hbelow, habove⟩
  | succ fuel ih =>
    unfold searchFrom
    by_cases hlt : i < j
    · rw [if_pos hlt]
      by_cases hmid : f ((i + j) / 2) = true
      · -- the test is true from the middle on
        rw [if_pos hmid]
        refine ih (by omega) (by omega) (by omega) hbelow fun k hk hkn => ?_
        exact hf _ k hk hkn hmid
      · rw [if_neg hmid]
        refine ih (by omega) (by omega) hj (fun k hk => ?_) habove
        rw [← Bool.not_eq_true]
        intro hk'
        exact hmid (hf k _ (by omega) (by omega) hk')
    · rw [if_neg hlt]
      obtain rfl : i = j := by omega
      exact ⟨hj, hbelow, habove⟩

/-- The search finds where a test turns true. -/
theorem separates_search {n : Nat} {f : Nat → Bool}
    (hf : ∀ a b, a ≤ b → b < n → f a = true → f b = true) : Separates n f (search n f) := by
  apply separates_searchFrom hf
  · exact Nat.le_add_left n 0
  · exact Nat.zero_le n
  · exact Nat.le_refl n
  · intro k hk
    exact absurd hk (Nat.not_lt_zero k)
  · intro k hk hkn
    omega

end Samaritan.Lib
