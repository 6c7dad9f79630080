import Mathlib.Data.List.Nodup
import Mathlib.Data.List.Count
import Mathlib.Data.List.Range

/-!
# Ownership of Numbered Tokens

Tokens are numbered in the order in which they are made. Each place of a system holds some of
them. A system owns its tokens when each is at one place only, and once there. An exchange among a
few places, which may lose tokens and add new ones, keeps this.
-/

namespace Samaritan.Lib

variable {ι : Type}

/-- The tokens below `next` are made; each is at one place at most, and once there. -/
structure Owned (next : Nat) (tokens : ι → List Nat) : Prop where
  nodup : ∀ i, (tokens i).Nodup
  unique : ∀ i j x, x ∈ tokens i → x ∈ tokens j → i = j
  below : ∀ i x, x ∈ tokens i → x < next

namespace Owned

variable {next next' : Nat} {tokens tokens' : ι → List Nat}

theorem of_nil (h : ∀ i, tokens i = []) : Owned next tokens where
  nodup i := by simp [h i]
  unique i j x hx := by simp [h i] at hx
  below i x hx := by simp [h i] at hx

theorem nodup_flatMap (h : Owned next tokens) {is : List ι} (his : is.Nodup) :
    (is.flatMap tokens).Nodup := by
  refine List.nodup_flatMap.mpr ⟨fun i _ => h.nodup i, his.imp ?_⟩
  intro i j hij x hx hx'
  exact hij (h.unique i j x hx hx')

/-- **Exchange**: the places `is` pass tokens to each other, lose some and get some of the tokens
    that are made. -/
theorem exchange (h : Owned next tokens) (is : List ι) (his : is.Nodup) (hle : next ≤ next')
    (hout : ∀ i, i ∉ is → tokens' i = tokens i)
    (hin : ∀ x, (is.flatMap tokens').count x ≤
      (is.flatMap tokens).count x + (List.range' next (next' - next)).count x) :
    Owned next' tokens' := by
  -- a token of one of the places was at one of them, or is new
  have hsource : ∀ i x, i ∈ is → x ∈ tokens' i →
      (∃ j ∈ is, x ∈ tokens j) ∨ next ≤ x ∧ x < next' := by
    intro i x hi hx
    have hpos := List.count_pos_iff.mpr (List.mem_flatMap.mpr ⟨i, hi, hx⟩)
    have hcount := hin x
    by_cases hold : 0 < (is.flatMap tokens).count x
    · obtain ⟨j, hj, hxj⟩ := List.mem_flatMap.mp (List.count_pos_iff.mp hold)
      exact .inl ⟨j, hj, hxj⟩
    · have hnew : x ∈ List.range' next (next' - next) := List.count_pos_iff.mp (by omega)
      rw [List.mem_range'_1] at hnew
      exact .inr (by omega)
  -- none of the places gets a token twice
  have hnodup : (is.flatMap tokens').Nodup := by
    rw [List.nodup_iff_count_le_one]
    intro x
    have hcount := hin x
    have hold := List.nodup_iff_count_le_one.mp (h.nodup_flatMap his) x
    have hnew := List.nodup_iff_count_le_one.mp
      (List.nodup_range' (s := next) (n := next' - next)) x
    by_cases hx : x ∈ is.flatMap tokens
    -- an old token is below `next`, so it is not among the new ones as well
    · obtain ⟨j, -, hxj⟩ := List.mem_flatMap.mp hx
      have hlt := h.below j x hxj
      have hzero : (List.range' next (next' - next)).count x = 0 :=
        List.count_eq_zero.mpr fun hmem => by
          rw [List.mem_range'_1] at hmem
          omega
      omega
    · rw [List.count_eq_zero.mpr hx] at hcount
      omega
  -- a token of one of the places is at no other place
  have hcross : ∀ i j x, i ∈ is → j ∉ is → x ∈ tokens' i → x ∉ tokens' j := by
    intro i j x hi hj hx hxj
    rw [hout j hj] at hxj
    rcases hsource i x hi hx with ⟨k, hk, hxk⟩ | hnew
    · obtain rfl := h.unique k j x hxk hxj
      exact hj hk
    · have hlt := h.below j x hxj
      omega
  have hsplit := List.nodup_flatMap.mp hnodup
  refine ⟨fun i => ?_, fun i j x hi hj => ?_, fun i x hi => ?_⟩
  · by_cases hmem : i ∈ is
    · exact hsplit.1 i hmem
    · rw [hout i hmem]
      exact h.nodup i
  · by_cases hmem : i ∈ is <;> by_cases hmem' : j ∈ is
    · by_contra hne
      have hsymm : Std.Symm (Function.onFun List.Disjoint tokens') :=
        ⟨fun _ _ hd _ hx hx' => hd hx' hx⟩
      exact hsplit.2.forall hmem hmem' hne hi hj
    · exact absurd hj (hcross i j x hmem hmem' hi)
    · exact absurd hi (hcross j i x hmem' hmem hj)
    · rw [hout i hmem] at hi
      rw [hout j hmem'] at hj
      exact h.unique i j x hi hj
  · by_cases hmem : i ∈ is
    · rcases hsource i x hmem hi with ⟨j, -, hxj⟩ | hnew
      · have hlt := h.below j x hxj
        omega
      · exact hnew.2
    · rw [hout i hmem] at hi
      have hlt := h.below i x hi
      omega

end Owned

end Samaritan.Lib
