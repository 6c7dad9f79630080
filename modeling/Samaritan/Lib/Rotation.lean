import Mathlib.Data.Int.CardIntervalMod

/-!
# Rotations

A counter goes up by one at each turn, and the turn belongs to its residue modulo `n`. In any window
of turns two residues come up equally often, up to one. A counter with finitely many values `W`
wraps around, and at a wrap the rotation may jump; each wrap adds at most one to the difference.
-/

namespace Samaritan.Lib

variable {n W : Nat}

/-- How many of `len` turns from the counter value `start` on belong to the residue `r`, when the
    counter has `W` values. -/
def turns (W n r start len : Nat) : Nat := Nat.count (fun k => (start + k) % W % n = r) len

/-- The turns of a window that does not wrap are those up to its end without those before it. -/
theorem count_add_turns {r start len : Nat} (hlen : start + len ≤ W) :
    Nat.count (fun k => k % n = r) start + turns W n r start len =
      Nat.count (fun k => k % n = r) (start + len) := by
  rw [Nat.count_add]
  congr 1
  unfold turns
  rw [Nat.count_eq_card_filter_range, Nat.count_eq_card_filter_range]
  congr 1
  refine Finset.filter_congr fun k hk => ?_
  have hk := Finset.mem_range.mp hk
  rw [Nat.mod_eq_of_lt (a := start + k) (by omega)]

theorem count_residue (hn : 0 < n) {r : Nat} (hr : r < n) (b : Nat) :
    Nat.count (fun k => k % n = r) b = b / n + if r < b % n then 1 else 0 := by
  have hcount := Nat.count_modEq_card b hn r
  simp only [Nat.ModEq, Nat.mod_eq_of_lt hr] at hcount
  exact hcount

/-- In a window that does not wrap two residues come up equally often, up to one. -/
theorem turns_le_succ {r r' : Nat} (hr : r < n) (hr' : r' < n) (start len : Nat)
    (hlen : start + len ≤ W) : turns W n r start len ≤ turns W n r' start len + 1 := by
  have hn : 0 < n := by omega
  have hturns := count_add_turns (n := n) (r := r) hlen
  have hturns' := count_add_turns (n := n) (r := r') hlen
  rw [count_residue hn hr, count_residue hn hr] at hturns
  rw [count_residue hn hr', count_residue hn hr'] at hturns'
  -- both residues are passed once more in each full round; what is left of a round starts and
  -- ends at the same places for both
  split at hturns <;> split at hturns <;> split at hturns' <;> split at hturns' <;> omega

/-- A window that goes beyond the last value of the counter is one up to the wrap and one from
    zero on. -/
theorem turns_wrap {r start len : Nat} (hstart : start ≤ W) :
    turns W n r start (W - start + len) = turns W n r start (W - start) + turns W n r 0 len := by
  unfold turns
  rw [Nat.count_add]
  simp only [← add_assoc, Nat.add_sub_cancel' hstart, Nat.add_mod_left, zero_add]

/-- **Fairness**: over any number of turns two residues come up equally often, up to one and one
    more for each time the counter wraps around. -/
theorem turns_le {r r' start len : Nat} (hr : r < n) (hr' : r' < n) (hstart : start < W) :
    turns W n r start len ≤ turns W n r' start len + 1 + (start + len - 1) / W := by
  -- induction on the length; what comes after a wrap is a shorter window
  induction len using Nat.strong_induction_on generalizing start with
  | _ len ih =>
    by_cases hlen : start + len ≤ W
    · exact (turns_le_succ hr hr' start len hlen).trans (Nat.le_add_right _ _)
    · obtain ⟨rest, rfl⟩ : ∃ rest, len = W - start + (rest + 1) :=
        ⟨len - (W - start) - 1, by omega⟩
      have hbefore := turns_le_succ hr hr' start (W - start) (Nat.add_sub_cancel' hstart.le).le
      have hafter := @ih (rest + 1) (by omega) 0 (by omega)
      have hwraps : (start + (W - start + (rest + 1)) - 1) / W = rest / W + 1 := by
        rw [← add_assoc, Nat.add_sub_cancel' hstart.le, ← add_assoc, Nat.add_sub_cancel,
          Nat.add_div_left _ (by omega)]
      rw [turns_wrap hstart.le, turns_wrap hstart.le, hwraps]
      rw [zero_add, Nat.add_sub_cancel] at hafter
      omega

end Samaritan.Lib
