import Mathlib.Data.List.AList

/-!
# Maps of Objects by a Key

Objects that carry their key are registered in maps under it, several at a time. After a list of
objects is inserted, the last one under each key is registered; after a list is erased, none is
under any of its keys. These two lookups are all that proofs about such maps need. An index leads
from the key of each object of a list to the object, and to no other one.
-/

namespace Samaritan.Lib

/-- A map from keys to objects. -/
abbrev KeyMap (κ α : Type*) := AList fun _ : κ => α

section

variable {κ α : Type*} [DecidableEq κ] (key : α → κ)

/-- The last object of a list under a key. -/
def lastAt (xs : List α) (k : κ) : Option α := xs.reverse.find? fun x => key x = k

/-- Register the objects of a list, one after another. -/
def insertAll (m : KeyMap κ α) (xs : List α) : KeyMap κ α :=
  xs.foldl (fun m x => m.insert (key x) x) m

/-- Take away what is registered under the keys of a list of objects. -/
def eraseAll (m : KeyMap κ α) (xs : List α) : KeyMap κ α := xs.foldl (fun m x => m.erase (key x)) m

/-- Every object is registered under its own key. -/
def Keyed (m : KeyMap κ α) : Prop := ∀ k x, m.lookup k = some x → key x = k

/-- The map leads from the key of each object of a list to the object. -/
def Indexes (m : KeyMap κ α) (xs : List α) : Prop := ∀ k x, m.lookup k = some x ↔ x ∈ xs ∧ key x = k

/-- An order in which the entries of a map may be visited. -/
structure IterationOrder (κ α : Type*) where
  keys : KeyMap κ α → List κ
  perm : ∀ m, (keys m).Perm m.keys

/-- The objects of a map. -/
def values (m : KeyMap κ α) : List α := m.entries.map Sigma.snd

variable {key} {m : KeyMap κ α} {xs : List α} {k : κ} {x : α}

/-! ## The last object -/

theorem lastAt_cons : lastAt key (x :: xs) k =
    (lastAt key xs k).or (if key x = k then some x else none) := by
  rw [lastAt, List.reverse_cons, List.find?_append]
  by_cases h : key x = k <;> simp [lastAt, h]

theorem lastAt_eq_some (h : lastAt key xs k = some x) : x ∈ xs ∧ key x = k :=
  ⟨List.mem_reverse.mp (List.mem_of_find?_eq_some h), by simpa using List.find?_some h⟩

theorem lastAt_eq_none : lastAt key xs k = none ↔ ∀ x ∈ xs, key x ≠ k := by
  simp [lastAt]

variable (key) in
theorem exists_lastAt (hx : x ∈ xs) : ∃ y, lastAt key xs (key x) = some y := by
  cases h : lastAt key xs (key x) with
  | none => exact absurd rfl (lastAt_eq_none.mp h x hx)
  | some y => exact ⟨y, rfl⟩

theorem lastAt_of_nodup (hnodup : (xs.map key).Nodup) (hx : x ∈ xs) :
    lastAt key xs (key x) = some x := by
  obtain ⟨y, hy⟩ := exists_lastAt key hx
  obtain ⟨hmem, hkey⟩ := lastAt_eq_some hy
  rw [hy, List.inj_on_of_nodup_map hnodup hmem hx hkey]

theorem lastAt_map {β : Type*} (f : β → α) (ys : List β) :
    lastAt key (ys.map f) k = (lastAt (fun y => key (f y)) ys k).map f := by
  rw [lastAt, lastAt, ← List.map_reverse, List.find?_map]
  rfl

/-- The last object is also the last one among those that share a property with it. -/
theorem lastAt_filter {p : α → Bool} (h : lastAt key xs k = some x) (hp : p x = true) :
    lastAt key (xs.filter p) k = some x := by
  induction xs with
  | nil => cases h
  | cons y ys ih =>
    rw [lastAt_cons] at h
    cases hys : lastAt key ys k with
    | some z =>
      rw [hys, Option.some_or] at h
      cases h
      by_cases hy : p y = true
      · rw [List.filter_cons_of_pos hy, lastAt_cons, ih hys, Option.some_or]
      · rw [List.filter_cons_of_neg hy, ih hys]
    | none =>
      rw [hys, Option.none_or] at h
      split at h <;> cases h
      rename_i hkey
      have hnone : lastAt key (ys.filter p) k = none :=
        lastAt_eq_none.mpr fun z hz => lastAt_eq_none.mp hys z (List.mem_of_mem_filter hz)
      rw [List.filter_cons_of_pos hp, lastAt_cons, hnone, Option.none_or, if_pos hkey]

/-! ## Lookups -/

theorem lookup_insertAll : (insertAll key m xs).lookup k = (lastAt key xs k).or (m.lookup k) := by
  induction xs generalizing m with
  | nil => rfl
  | cons y ys ih =>
    rw [insertAll, List.foldl_cons, ← insertAll, ih, lastAt_cons, Option.or_assoc]
    congr 1
    by_cases h : key y = k
    · rw [if_pos h, Option.some_or, ← h, AList.lookup_insert]
    · rw [if_neg h, Option.none_or, AList.lookup_insert_ne (Ne.symm h)]

theorem lookup_eraseAll : (eraseAll key m xs).lookup k =
    if k ∈ xs.map key then none else m.lookup k := by
  induction xs generalizing m with
  | nil => simp [eraseAll]
  | cons y ys ih =>
    rw [eraseAll, List.foldl_cons, ← eraseAll, ih]
    by_cases hk : k = key y
    · subst hk
      simp
    · rw [AList.lookup_erase_ne hk]
      simp [hk]

variable (key) in
/-- The order in which entries are taken away does not matter. -/
theorem eraseAll_comm (m : KeyMap κ α) (xs ys : List α) :
    eraseAll key (eraseAll key m xs) ys = eraseAll key (eraseAll key m ys) xs := by
  unfold eraseAll
  rw [← List.foldl_append, ← List.foldl_append]
  apply List.perm_append_comm.foldl_eq'
  intro x _ y _ m
  exact AList.erase_erase (key x) (key y) m

/-- Every order of the entries of one map is that of some iteration. -/
theorem exists_iterationOrder {ks : List κ} (h : ks.Perm m.keys) :
    ∃ order : IterationOrder κ α, order.keys m = ks := by
  classical
  refine ⟨⟨fun m' => if m' = m then ks else m'.keys, fun m' => ?_⟩, if_pos rfl⟩
  split
  · rename_i hm
    rwa [hm]
  · exact .refl _

theorem Keyed.insertAll (h : Keyed key m) : Keyed key (insertAll key m xs) := by
  intro k x hx
  rw [lookup_insertAll] at hx
  cases hlast : lastAt key xs k with
  | some y =>
    rw [hlast, Option.some_or] at hx
    cases hx
    exact (lastAt_eq_some hlast).2
  | none =>
    rw [hlast, Option.none_or] at hx
    exact h k x hx

theorem Keyed.eraseAll (h : Keyed key m) : Keyed key (eraseAll key m xs) := by
  intro k x hx
  rw [lookup_eraseAll] at hx
  split at hx
  · cases hx
  · exact h k x hx

theorem mem_values : x ∈ values m ↔ ∃ k, m.lookup k = some x := by
  constructor
  · intro h
    obtain ⟨⟨k, y⟩, hmem, rfl⟩ := List.mem_map.mp h
    exact ⟨k, AList.mem_lookup_iff.mpr hmem⟩
  · rintro ⟨k, hk⟩
    exact List.mem_map.mpr ⟨⟨k, x⟩, AList.mem_lookup_iff.mp hk, rfl⟩

theorem Keyed.mem_values (h : Keyed key m) : x ∈ values m ↔ m.lookup (key x) = some x := by
  refine ⟨fun hx => ?_, fun hx => Lib.mem_values.mpr ⟨_, hx⟩⟩
  obtain ⟨k, hk⟩ := Lib.mem_values.mp hx
  rwa [h k x hk]

theorem Keyed.nodup_values (h : Keyed key m) : (values m).Nodup := by
  have hkeys : (values m).map key = m.keys := by
    rw [values, List.map_map]
    refine List.map_congr_left fun e he => ?_
    exact h e.1 e.2 (AList.mem_lookup_iff.mpr he)
  apply List.Nodup.of_map key
  rw [hkeys]
  exact m.keys_nodup

/-- Different objects of an index have different keys. -/
theorem Indexes.inj {xs : List α} (h : Indexes key m xs) (hx : x ∈ xs) {y : α} (hy : y ∈ xs)
    (hkey : key x = key y) : x = y := by
  have hlookup := (h (key y) x).mpr ⟨hx, hkey⟩
  rw [(h _ y).mpr ⟨hy, rfl⟩] at hlookup
  exact (Option.some.inj hlookup).symm

/-- An object with a new key. -/
theorem Indexes.insert {xs ys : List α} (h : Indexes key m xs) (hnew : ∀ y ∈ xs, key y ≠ key x)
    (hmem : ∀ y, y ∈ ys ↔ y = x ∨ y ∈ xs) : Indexes key (m.insert (key x) x) ys := by
  intro k y
  rw [hmem]
  by_cases hk : k = key x
  · subst hk
    rw [AList.lookup_insert]
    constructor
    · intro heq
      cases heq
      exact ⟨.inl rfl, rfl⟩
    · rintro ⟨rfl | hy, hkey⟩
      · rfl
      · exact absurd hkey (hnew y hy)
  · rw [AList.lookup_insert_ne hk, h]
    constructor
    · rintro ⟨hy, hkey⟩
      exact ⟨.inr hy, hkey⟩
    · rintro ⟨rfl | hy, hkey⟩
      · exact absurd hkey.symm hk
      · exact ⟨hy, hkey⟩

/-- An object is taken out. -/
theorem Indexes.erase {xs ys : List α} (h : Indexes key m xs) (hx : x ∉ ys)
    (hmem : ∀ y, y ∈ xs ↔ y = x ∨ y ∈ ys) : Indexes key (m.erase (key x)) ys := by
  intro k y
  by_cases hk : k = key x
  · subst hk
    rw [AList.lookup_erase]
    refine iff_of_false (by simp) ?_
    rintro ⟨hy, hkey⟩
    obtain rfl := h.inj ((hmem y).mpr (.inr hy)) ((hmem x).mpr (.inl rfl)) hkey
    exact hx hy
  · rw [AList.lookup_erase_ne hk, h, hmem]
    constructor
    · rintro ⟨rfl | hy, hkey⟩
      · exact absurd hkey.symm hk
      · exact ⟨hy, hkey⟩
    · rintro ⟨hy, hkey⟩
      exact ⟨.inr hy, hkey⟩

end

end Samaritan.Lib
