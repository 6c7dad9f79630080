import Samaritan.HotKeys.Collector

/-!
# The Hottest Keys

`collect` inserts the keys it has counted one by one into a list of bounded length. `Insert` looks
for the place of a key by a binary search, makes room at the end if the capacity allows it, and
otherwise overwrites the last key. Whatever the order of the insertions, what is in the list at the
end are the keys with the largest counters.

The counters do not change between the insertions: `collect` updates the counter of a key before it
inserts the key.
-/

namespace Samaritan.HotKeys.SortedHotKeys

open Samaritan.Lib

variable {s : SortedHotKeys} {key : HotKey}

/-- The list after some insertions. -/
def ofKeys (capacity : UInt8) (keys : List HotKey) : SortedHotKeys :=
  keys.foldl insert (newSortedHotKeys capacity)

theorem ofKeys_concat (capacity : UInt8) (keys : List HotKey) (key : HotKey) :
    ofKeys capacity (keys ++ [key]) = (ofKeys capacity keys).insert key := by
  simp [ofKeys]

theorem ofKeys_capacity (capacity : UInt8) (keys : List HotKey) :
    (ofKeys capacity keys).capacity = capacity := by
  induction keys using List.reverseRecOn with
  | nil => rfl
  | append_singleton keys key ih =>
    rw [ofKeys_concat]
    exact ih

/-- The list is a ranking of the keys inserted so far. -/
theorem ranks_ofKeys (capacity : UInt8) (keys : List HotKey) :
    Ranks value capacity.toNat keys (ofKeys capacity keys).data := by
  -- one insertion after the other
  induction keys using List.reverseRecOn with
  | nil => exact ranks_nil value capacity.toNat
  | append_singleton keys key ih =>
    have hplace := placeOf_search (descending_iff.mpr ih.descending) key
    have hroom : (ofKeys capacity keys).data.length ≤ (ofKeys capacity keys).capacity.toNat := by
      rw [ofKeys_capacity, ih.length]
      exact Nat.min_le_left _ _
    rw [ofKeys_concat, insert_data hroom rfl hplace.le, ofKeys_capacity]
    exact ih.insert hplace.value_front hplace.value_back

/-- `Insert` reports success exactly if the key is in the list then. A key that is refused is
    smaller than all keys of the list, so that no equal one was there before. -/
theorem insertSuccess_iff (hdesc : Descending s.data) (hroom : s.data.length ≤ s.capacity.toNat) :
    s.insertSuccess key = true ↔ key ∈ (s.insert key).data := by
  have hplace := placeOf_search hdesc key
  have hdata := insert_data hroom rfl hplace.le
  have hgrow := ofNat_lt_capacity_iff hroom
  unfold insertSuccess
  generalize search s.data.length (notAbove s.data key) = i at hplace hdata
  rw [hdata]
  have hle := hplace.le
  have hfront : (s.data.take i).length = i := by
    rw [List.length_take]
    omega
  by_cases hkept : i < s.capacity.toNat
  · -- the place of the key is within the capacity
    have hmem : key ∈ (s.data.take i ++ key :: s.data.drop i).take s.capacity.toNat := by
      rw [List.take_append, hfront,
        show s.capacity.toNat - i = s.capacity.toNat - i - 1 + 1 by omega, List.take_succ_cons]
      simp
    refine iff_of_true ?_ hmem
    simp only
    split
    · rfl
    · rename_i hend
      rw [decide_eq_true_eq, hgrow]
      omega
  · have hend : i = s.data.length := by omega
    have hnot : key ∉ (s.data.take i ++ key :: s.data.drop i).take s.capacity.toNat := by
      rw [List.take_left' (by omega)]
      intro hmem
      exact absurd (hplace.front key hmem) (UInt8.lt_irrefl _)
    refine iff_of_false ?_ hnot
    simp only [hend, lt_irrefl, if_false, decide_eq_true_eq, hgrow]
    omega

/-- **The hottest keys**: after any insertions the list is in descending order, it has as many keys
    as the capacity allows, its values are the largest ones of all keys inserted so far, and the
    next `Insert` reports success exactly if it places its key. -/
theorem ofKeys_top (capacity : UInt8) (keys : List HotKey) :
    Descending (ofKeys capacity keys).data ∧
    (ofKeys capacity keys).data.length = min capacity.toNat keys.length ∧
    (∃ rest, ((ofKeys capacity keys).data ++ rest).Perm keys ∧
      ∀ a ∈ (ofKeys capacity keys).data, ∀ b ∈ rest, b.counter.val ≤ a.counter.val) ∧
    (ofKeys capacity keys).data.map value =
      ((keys.map value).insertionSort (· ≥ ·)).take capacity.toNat ∧
    ∀ key, (ofKeys capacity keys).insertSuccess key = true ↔
      key ∈ ((ofKeys capacity keys).insert key).data := by
  have hranks := ranks_ofKeys capacity keys
  have hdesc : Descending (ofKeys capacity keys).data := descending_iff.mpr hranks.descending
  have hroom : (ofKeys capacity keys).data.length ≤ (ofKeys capacity keys).capacity.toNat := by
    rw [ofKeys_capacity, hranks.length]
    exact Nat.min_le_left _ _
  obtain ⟨rest, hperm, hlargest⟩ := hranks.largest
  refine ⟨hdesc, hranks.length, ⟨rest, hperm, fun a ha b hb => ?_⟩, hranks.values_eq,
    fun key => insertSuccess_iff hdesc hroom⟩
  exact UInt8.le_iff_toNat_le.mpr (hlargest a ha b hb)

end Samaritan.HotKeys.SortedHotKeys
