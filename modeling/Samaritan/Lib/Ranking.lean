import Mathlib.Data.List.Sort
import Mathlib.Tactic

/-!
# Rankings

The `k` largest of some elements, in descending order of their values, and how a ranking goes on
when one more element comes: it is put in front of the first one that is not larger, and what then
goes over `k` is dropped. Which of several elements with equal values are kept is left open; their
values are determined.
-/

namespace Samaritan.Lib

open scoped List

variable {α β : Type*} [LinearOrder β]

/-- `data` are the `k` largest of the elements `all`, or all of them if there are not so many, in
    descending order. -/
structure Ranks (val : α → β) (k : Nat) (all data : List α) : Prop where
  descending : data.Pairwise fun a b => val b ≤ val a
  length : data.length = min k all.length
  largest : ∃ rest, (data ++ rest).Perm all ∧ ∀ a ∈ data, ∀ b ∈ rest, val b ≤ val a

variable {val : α → β} {k i : Nat} {all data : List α} {x : α}

theorem ranks_nil (val : α → β) (k : Nat) : Ranks val k [] [] where
  descending := .nil
  length := by simp
  largest := ⟨[], .refl _, by simp⟩

/-- An element between those that are not smaller and those that are not larger. -/
theorem descending_insert (hdata : data.Pairwise fun a b => val b ≤ val a)
    (hfront : ∀ a ∈ data.take i, val x ≤ val a) (hback : ∀ a ∈ data.drop i, val a ≤ val x) :
    (data.take i ++ x :: data.drop i).Pairwise fun a b => val b ≤ val a := by
  rw [← List.take_append_drop i data, List.pairwise_append] at hdata
  refine List.pairwise_append.mpr ⟨hdata.1, List.pairwise_cons.mpr ⟨hback, hdata.2.1⟩, ?_⟩
  intro a ha b hb
  rcases List.mem_cons.mp hb with rfl | hb
  · exact hfront a ha
  · exact hdata.2.2 a ha b hb

theorem perm_insert (i : Nat) (x : α) (data : List α) :
    (data.take i ++ x :: data.drop i).Perm (x :: data) := by
  have hmiddle : (data.take i ++ x :: data.drop i).Perm (x :: (data.take i ++ data.drop i)) :=
    List.perm_middle
  rwa [List.take_append_drop] at hmiddle

/-- As long as an element is left out, the ranking is full. -/
theorem Ranks.length_eq_of_rest {rest : List α} (h : Ranks val k all data)
    (hperm : (data ++ rest).Perm all) (hrest : rest ≠ []) : data.length = k := by
  have hlen := hperm.length_eq
  have hpos := List.length_pos_of_ne_nil hrest
  have hmin := h.length
  rw [List.length_append] at hlen
  omega

/-- **One more element.** -/
theorem Ranks.insert (h : Ranks val k all data) (hfront : ∀ a ∈ data.take i, val x ≤ val a)
    (hback : ∀ a ∈ data.drop i, val a ≤ val x) :
    Ranks val k (all ++ [x]) ((data.take i ++ x :: data.drop i).take k) := by
  have hdesc := descending_insert h.descending hfront hback
  have hperm := perm_insert i x data
  have hlen := hperm.length_eq
  obtain ⟨rest, hall, hlargest⟩ := h.largest
  refine ⟨hdesc.sublist (List.take_sublist _ _), ?_, ?_⟩
  · have hmin := h.length
    simp only [List.length_take, hlen, List.length_cons, List.length_append, List.length_nil]
    omega
  · -- what is dropped joins those that were left out before
    refine ⟨(data.take i ++ x :: data.drop i).drop k ++ rest, ?_, ?_⟩
    · rw [← List.append_assoc, List.take_append_drop]
      calc (data.take i ++ x :: data.drop i) ++ rest
        _ ~ x :: data ++ rest := hperm.append_right rest
        _ ~ x :: all := hall.cons x
        _ ~ all ++ [x] := (List.perm_append_singleton x all).symm
    · intro a ha b hb
      rcases List.mem_append.mp hb with hdropped | hleft
      · rw [← List.take_append_drop k (data.take i ++ x :: data.drop i),
          List.pairwise_append] at hdesc
        exact hdesc.2.2 a ha b hdropped
      · have hfull := h.length_eq_of_rest hall (List.ne_nil_of_mem hleft)
        rcases List.mem_cons.mp (hperm.mem_iff.mp (List.mem_of_mem_take ha)) with rfl | hmem
        · cases hdrop : data.drop i with
          | cons y ys =>
            -- an element behind the new one is not smaller than those left out
            have hy : y ∈ data.drop i := by simp [hdrop]
            exact (hlargest y (List.mem_of_mem_drop hy) b hleft).trans (hback y hy)
          | nil =>
            -- the new element came last, so it is kept only if it was there before
            have htake : data.take i = data :=
              List.take_of_length_le (List.drop_eq_nil_iff.mp hdrop)
            rw [htake, hdrop, ← hfull, List.take_left' rfl] at ha
            exact hlargest a ha b hleft
        · exact hlargest a hmem b hleft

/-- The values of a ranking are the first ones of all values in descending order. -/
theorem Ranks.values_eq (h : Ranks val k all data) :
    data.map val = ((all.map val).insertionSort (· ≥ ·)).take k := by
  obtain ⟨rest, hall, hlargest⟩ := h.largest
  -- the ranking in front of the sorted rest is sorted, and there is one sorted list
  have hsorted : data.map val ++ (rest.map val).insertionSort (· ≥ ·) =
      (all.map val).insertionSort (· ≥ ·) := by
    apply List.Perm.eq_of_pairwise fun a b _ _ (hab : a ≥ b) hba => le_antisymm hba hab
    · refine List.pairwise_append.mpr ⟨List.pairwise_map.mpr h.descending,
        List.pairwise_insertionSort _ _, ?_⟩
      intro u hu v hv
      obtain ⟨a, ha, rfl⟩ := List.mem_map.mp hu
      obtain ⟨b, hb, rfl⟩ := List.mem_map.mp ((List.mem_insertionSort _).mp hv)
      exact hlargest a ha b hb
    · exact List.pairwise_insertionSort _ _
    · calc data.map val ++ (rest.map val).insertionSort (· ≥ ·)
        _ ~ data.map val ++ rest.map val := (List.perm_insertionSort _ _).append_left _
        _ ~ all.map val := by
          rw [← List.map_append]
          exact hall.map val
        _ ~ (all.map val).insertionSort (· ≥ ·) := (List.perm_insertionSort _ _).symm
  rw [← hsorted]
  by_cases hrest : rest = []
  · subst hrest
    have hle : (data.map val).length ≤ k := by
      rw [List.length_map, h.length]
      exact Nat.min_le_left _ _
    rw [List.map_nil, List.insertionSort_nil, List.append_nil, List.take_of_length_le hle]
  · have hfull : (data.map val).length = k := by
      rw [List.length_map]
      exact h.length_eq_of_rest hall hrest
    exact (List.take_left' hfull).symm

end Samaritan.Lib
