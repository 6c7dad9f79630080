import Samaritan.Hosts.Set

/-!
# Readers During a Replacement

`ReplaceAll` holds the lock of the set, and `Healthy` does not take it: a reader loads the cached
list that was stored last. The replacement stores one list for each host it removes and one more
for the hosts it adds, so a reader may see any of these.

The registered hosts that serve are what decides which lists these are. Removing a host that does
not serve leaves the serving map alone; removing one that does changes the list at once. So a
reader sees the list before or the list after only when at most one registered host serves, and
when, with this host gone, the replacement has nothing left to change.
-/

namespace Samaritan.Hosts

open Samaritan.Lib

namespace HostSet

/-! ## What a reader may see -/

/-- The type of the hosts in the map that serves. -/
def servingType (set : HostSet) : HostType :=
  if set.healthyMain.keys.length = 0 then .backup else .main

/-- The sets between the removals of hosts one by one, from the first to the last. -/
def removals (set : HostSet) : List Host → List HostSet
  | [] => [set]
  | h :: order => set :: (set.remove [h]).removals order

/-- `ReplaceAll`, with the order in which it ranges over the registered hosts. A removal deletes
    the entry of its own host only, so every host is visited. -/
def replaceAllIn (set : HostSet) (order hosts : List Host) : HostSet :=
  (set.removeEach order).add hosts

/-- The lists that `Healthy` may load from the start of `ReplaceAll` to its end. -/
def published (set : HostSet) (order hosts : List Host) : List (List Host) :=
  (set.removals order).map healthyCache ++ [(set.replaceAllIn order hosts).healthyCache]

/-- Readers see the list before the call or the list after it, whatever the order of the map. -/
def ReplacesAtomically (set : HostSet) (hosts : List Host) : Prop :=
  ∀ order, order.Perm (values set.all) → ∀ l ∈ set.published order hosts,
    l = set.healthyCache ∨ l = (set.replaceAllIn order hosts).healthyCache

/-- A host serves when the map of its type does, and there is an entry under its address. -/
def Serves (set : HostSet) (h : Host) : Prop :=
  h.type = set.servingType ∧ (set.healthy.lookup h.addr).isSome

instance (set : HostSet) (h : Host) : Decidable (set.Serves h) :=
  inferInstanceAs (Decidable (_ ∧ _))

/-- The registered hosts that serve. -/
def serving (set : HostSet) : List Host := (values set.all).filter fun h => set.Serves h

/-- Hosts that would add nothing to the map that serves: main hosts would take over from backup
    hosts, and the last host under an address is the one that stays. -/
def BringsNothing (set : HostSet) (hosts : List Host) : Prop :=
  (set.servingType = .backup → ofType .main hosts = []) ∧
    ∀ h ∈ ofType set.servingType hosts,
      set.healthy.lookup h.addr = lastAt Host.addr (ofType set.servingType hosts) h.addr

instance (set : HostSet) (hosts : List Host) : Decidable (set.BringsNothing hosts) :=
  inferInstanceAs (Decidable ((_ → _) ∧ _))

/-- At most one registered host serves, and with this host gone neither the other removals nor
    the new hosts change what serves. -/
def ReplacesAtMostOne (set : HostSet) (hosts : List Host) : Prop :=
  set.serving = [] ∨
    ∃ h ∈ set.serving, set.serving = [h] ∧ (set.remove [h]).serving = [] ∧
      (set.remove [h]).BringsNothing hosts

instance (set : HostSet) (hosts : List Host) : Decidable (set.ReplacesAtMostOne hosts) :=
  inferInstanceAs (Decidable (_ ∨ _))

variable {set set' : HostSet} {order hosts : List Host} {g h : Host} {a : Bytes}

theorem servingType_ne : set.servingType ≠ .unknown := by
  unfold servingType
  split <;> decide

theorem healthy_eq : set.healthy = set.healthyMap set.servingType := by
  unfold healthy servingType
  split <;> rfl

theorem mem_removals {s : HostSet} :
    s ∈ set.removals order ↔ ∃ done rest, order = done ++ rest ∧ s = set.removeEach done := by
  induction order generalizing set with
  | nil =>
    simp only [removals, List.mem_singleton, List.nil_eq_append_iff]
    constructor
    · rintro rfl
      exact ⟨[], [], ⟨rfl, rfl⟩, rfl⟩
    · rintro ⟨done, rest, ⟨rfl, rfl⟩, rfl⟩
      rfl
  | cons h order ih =>
    rw [removals, List.mem_cons, ih]
    constructor
    · rintro (rfl | ⟨done, rest, rfl, rfl⟩)
      · exact ⟨[], h :: order, rfl, rfl⟩
      · exact ⟨h :: done, rest, rfl, rfl⟩
    · rintro ⟨done, rest, horder, rfl⟩
      cases done with
      | nil => exact .inl rfl
      | cons k done =>
        obtain ⟨rfl, rfl⟩ := List.cons.inj horder
        exact .inr ⟨done, rest, rfl, rfl⟩

/-! ## Maps that serve alike -/

theorem keys_length_eq_zero {m : KeyMap Bytes Host} :
    m.keys.length = 0 ↔ ∀ a, m.lookup a = none := by
  rw [List.length_eq_zero_iff, List.eq_nil_iff_forall_not_mem]
  apply forall_congr'
  intro a
  rw [AList.lookup_eq_none]
  rfl

theorem servingType_eq_backup :
    set.servingType = .backup ↔ ∀ a, set.healthyMain.lookup a = none := by
  rw [← keys_length_eq_zero]
  unfold servingType
  split <;> simp_all

theorem servingType_eq_main (h : set.servingType ≠ .backup) : set.servingType = .main := by
  unfold servingType at h ⊢
  split
  · rename_i hzero
    rw [if_pos hzero] at h
    exact absurd rfl h
  · rfl

/-- The list of a map depends on its lookups only. -/
theorem sortedHosts_congr {m m' : KeyMap Bytes Host} (h : ∀ a, m.lookup a = m'.lookup a) :
    sortedHosts m = sortedHosts m' := by
  have hkeys : m.keys.Perm m'.keys := by
    rw [List.perm_ext_iff_of_nodup m.keys_nodup m'.keys_nodup]
    intro a
    rw [← AList.mem_keys, ← AList.mem_keys, ← AList.lookup_isSome, ← AList.lookup_isSome, h a]
  have hsorted : m.keys.insertionSort (· ≤ ·) = m'.keys.insertionSort (· ≤ ·) := by
    apply List.Perm.eq_of_pairwise fun a b _ _ (hab : a ≤ b) hba => antisymm hab hba
    · exact List.pairwise_insertionSort _ _
    · exact List.pairwise_insertionSort _ _
    · exact (List.perm_insertionSort _ _).trans (hkeys.trans (List.perm_insertionSort _ _).symm)
  rw [sortedHosts, sortedHosts, hsorted]
  exact List.filterMap_congr fun a _ => h a

/-- The same hosts serve. -/
structure SameServing (set set' : HostSet) : Prop where
  type : set'.servingType = set.servingType
  lookup : ∀ a, set'.healthy.lookup a = set.healthy.lookup a

theorem SameServing.refl (set : HostSet) : SameServing set set := ⟨rfl, fun _ => rfl⟩

theorem SameServing.trans {set'' : HostSet} (h : SameServing set set')
    (h' : SameServing set' set'') : SameServing set set'' :=
  ⟨h'.type.trans h.type, fun a => (h'.lookup a).trans (h.lookup a)⟩

theorem SameServing.cache (h : SameServing set set') (hset : Shape set) (hset' : Shape set') :
    set'.healthyCache = set.healthyCache := by
  rw [hset.cached, hset'.cached]
  exact sortedHosts_congr h.lookup

theorem SameServing.serves (h : SameServing set set') : set'.Serves g ↔ set.Serves g := by
  unfold Serves
  rw [h.type, h.lookup]

theorem SameServing.bringsNothing (h : SameServing set set') :
    set'.BringsNothing hosts ↔ set.BringsNothing hosts := by
  unfold BringsNothing
  rw [h.type]
  simp only [h.lookup]

/-- Two sets serve alike when the map that serves in one has the same hosts in the other, and main
    hosts do not take over from backup hosts. -/
theorem sameServing_of_map
    (hmap : ∀ a, (set'.healthyMap set.servingType).lookup a = set.healthy.lookup a)
    (hmain : set.servingType = .backup → ∀ a, set'.healthyMain.lookup a = none) :
    SameServing set set' := by
  have htype : set'.servingType = set.servingType := by
    by_cases hback : set.servingType = .backup
    · rw [hback, servingType_eq_backup]
      exact hmain hback
    · have hserve := servingType_eq_main hback
      rw [hserve]
      apply servingType_eq_main
      intro hback'
      apply hback
      rw [servingType_eq_backup] at hback' ⊢
      intro a
      have ha := hmap a
      rw [healthy_eq, hserve] at ha
      exact ha.symm.trans (hback' a)
  refine ⟨htype, fun a => ?_⟩
  rw [healthy_eq, htype, hmap]

/-- Sets whose healthy maps agree serve alike. -/
theorem sameServing_of_maps
    (h : ∀ typ a, (set'.healthyMap typ).lookup a = (set.healthyMap typ).lookup a) :
    SameServing set set' := by
  apply sameServing_of_map
  · intro a
    rw [h, healthy_eq]
  · intro hback a
    exact (h .main a).trans (servingType_eq_backup.mp hback a)

/-! ## One removal -/

theorem healthyMap_remove_one (set : HostSet) (h : Host) (typ : HostType) (a : Bytes) :
    ((set.remove [h]).healthyMap typ).lookup a =
      if h.type = typ ∧ a = h.addr then none else (set.healthyMap typ).lookup a := by
  by_cases htyp : typ = .unknown
  · subst htyp
    simp [healthyMap]
  · rw [healthyMap_remove htyp, lookup_eraseAll]
    by_cases htype : h.type = typ <;> simp [ofType, htype]

/-- Main hosts do not come back by a removal. -/
theorem servingType_remove (hback : set.servingType = .backup) :
    (set.remove [g]).servingType = .backup := by
  rw [servingType_eq_backup] at hback ⊢
  intro a
  show ((set.remove [g]).healthyMap .main).lookup a = none
  rw [healthyMap_remove_one, show (set.healthyMap .main).lookup a = none from hback a, ite_self]

/-- A host that does not serve can go unnoticed. -/
theorem sameServing_remove (h : ¬ set.Serves g) : SameServing set (set.remove [g]) := by
  apply sameServing_of_map
  · intro a
    rw [healthyMap_remove_one, healthy_eq]
    split
    · rename_i hg
      obtain ⟨htype, rfl⟩ := hg
      -- its type serves, so there is no entry under its address
      have hnone : ¬ (set.healthy.lookup g.addr).isSome := fun hsome => h ⟨htype, hsome⟩
      rw [Option.not_isSome_iff_eq_none, healthy_eq] at hnone
      exact hnone.symm
    · rfl
  · intro hback
    exact servingType_eq_backup.mp (servingType_remove hback)

theorem sameServing_removeEach (h : ∀ g ∈ order, ¬ set.Serves g) :
    SameServing set (set.removeEach order) := by
  induction order generalizing set with
  | nil => exact .refl set
  | cons k order ih =>
    have hone := sameServing_remove (h k List.mem_cons_self)
    refine hone.trans (ih fun g hg => ?_)
    rw [hone.serves]
    exact h g (List.mem_cons_of_mem _ hg)

/-- What is left of the healthy maps does not depend on the order of the removals. -/
theorem sameServing_of_perm {order' : List Host} (h : order.Perm order') :
    SameServing (set.removeEach order) (set.removeEach order') := by
  apply sameServing_of_maps
  intro typ a
  by_cases htyp : typ = .unknown
  · subst htyp
    rfl
  · rw [healthyMap_removeEach htyp, healthyMap_removeEach htyp, lookup_eraseAll, lookup_eraseAll]
    have hmem : a ∈ (ofType typ order').map Host.addr ↔ a ∈ (ofType typ order).map Host.addr :=
      ((h.filter _).map _).mem_iff.symm
    by_cases ha : a ∈ (ofType typ order).map Host.addr
    · rw [if_pos ha, if_pos (hmem.mpr ha)]
    · rw [if_neg ha, if_neg fun ha' => ha (hmem.mp ha')]

/-- The list holds the hosts of the type that serves, under their addresses. -/
theorem Shape.mem_cache (hset : Shape set) :
    g ∈ set.healthyCache ↔ g.type = set.servingType ∧ set.healthy.lookup g.addr = some g := by
  rw [hset.cached, mem_sortedHosts, mem_values, healthy_eq]
  constructor
  · rintro ⟨a, ha⟩
    obtain ⟨rfl, htype⟩ := hset.healthy _ _ _ ha
    exact ⟨htype, ha⟩
  · rintro ⟨-, hlookup⟩
    exact ⟨_, hlookup⟩

/-- The host in the list under the address of a host that serves. -/
theorem Serves.exists_mem (hset : Shape set) (h : set.Serves g) :
    ∃ k ∈ set.healthyCache, k.addr = g.addr ∧ k.type = g.type := by
  obtain ⟨k, hk⟩ := Option.isSome_iff_exists.mp h.2
  have hentry := hk
  rw [healthy_eq] at hentry
  obtain ⟨haddr, htype⟩ := hset.healthy _ _ _ hentry
  refine ⟨k, hset.mem_cache.mpr ⟨htype, ?_⟩, haddr, htype.trans h.1.symm⟩
  rwa [haddr]

/-- After a host is removed, nothing in the list has its type and its address. -/
theorem not_mem_cache_removeEach (hset : Shape set) (h : g ∈ order) {k : Host}
    (haddr : k.addr = g.addr) (htype : k.type = g.type) :
    k ∉ (set.removeEach order).healthyCache := by
  intro hmem
  obtain ⟨hserve, hlookup⟩ := hset.removeEach.mem_cache.mp hmem
  rw [healthy_eq, healthyMap_removeEach servingType_ne, lookup_eraseAll, if_pos] at hlookup
  · cases hlookup
  · rw [haddr]
    exact List.mem_map_of_mem (mem_ofType.mpr ⟨h, htype.symm.trans hserve⟩)

/-- So the removal of a host that serves changes the list. -/
theorem Serves.cache_removeEach_ne (hset : Shape set) (h : set.Serves g) (hmem : g ∈ order) :
    (set.removeEach order).healthyCache ≠ set.healthyCache := by
  obtain ⟨k, hk, haddr, htype⟩ := h.exists_mem hset
  intro heq
  rw [← heq] at hk
  exact not_mem_cache_removeEach hset hmem haddr htype hk

/-- A host that serves goes on serving when one at another address is removed. -/
theorem Serves.remove (h : set.Serves g) {k : Host} (hne : g.addr ≠ k.addr) :
    (set.remove [k]).Serves g := by
  have hentry : ((set.remove [k]).healthyMap set.servingType).lookup g.addr =
      set.healthy.lookup g.addr := by
    rw [healthyMap_remove_one, if_neg fun hk => hne hk.2, healthy_eq]
  have htype : (set.remove [k]).servingType = set.servingType := by
    by_cases hback : set.servingType = .backup
    · rw [hback]
      exact servingType_remove hback
    · have hserve := servingType_eq_main hback
      rw [hserve]
      apply servingType_eq_main
      intro hback'
      have hnone := servingType_eq_backup.mp hback' g.addr
      rw [hserve] at hentry
      have hsome := h.2
      rw [← hentry] at hsome
      rw [show ((set.remove [k]).healthyMap .main).lookup g.addr = none from hnone] at hsome
      cases hsome
  refine ⟨h.1.trans htype.symm, ?_⟩
  rw [healthy_eq, htype, hentry]
  exact h.2

/-! ## The addition -/

/-- The last new host under an address is in the list when its type serves. -/
theorem Shape.mem_cache_add (hset : Shape set)
    (hlast : lastAt Host.addr (ofType (set.add hosts).servingType hosts) a = some g) :
    g ∈ (set.add hosts).healthyCache := by
  obtain ⟨hmem, rfl⟩ := lastAt_eq_some hlast
  refine hset.add.mem_cache.mpr ⟨(mem_ofType.mp hmem).2, ?_⟩
  rw [healthy_eq, healthyMap_add servingType_ne, lookup_insertAll, hlast, Option.some_or]

theorem lookup_add_main : (set.add hosts).healthyMain.lookup a =
    (lastAt Host.addr (ofType .main hosts) a).or (set.healthyMain.lookup a) := by
  have hadd : (set.add hosts).healthyMap .main =
      insertAll Host.addr (set.healthyMap .main) (ofType .main hosts) := healthyMap_add (by decide)
  show ((set.add hosts).healthyMap .main).lookup a = _
  rw [hadd, lookup_insertAll]
  rfl

/-- A main host serves when one is added or one served before. -/
theorem servingType_add : (set.add hosts).servingType = .backup ↔
    ofType .main hosts = [] ∧ set.servingType = .backup := by
  rw [servingType_eq_backup, servingType_eq_backup]
  simp only [lookup_add_main, Option.or_eq_none_iff, forall_and]
  apply and_congr_left
  intro _
  simp only [lastAt_eq_none]
  constructor
  · intro h
    rw [List.eq_nil_iff_forall_not_mem]
    intro g hg
    exact h g.addr g hg rfl
  · intro h a g hg
    rw [h] at hg
    cases hg

theorem Shape.cache_add_iff (hset : Shape set) :
    (set.add hosts).healthyCache = set.healthyCache ↔ set.BringsNothing hosts := by
  constructor
  · intro heq
    -- what serves behind the addition serves before it
    have hold : ∀ g ∈ (set.add hosts).healthyCache,
        g.type = set.servingType ∧ set.healthy.lookup g.addr = some g := by
      intro g hg
      rw [heq] at hg
      exact hset.mem_cache.mp hg
    have hmain : set.servingType = .backup → ofType .main hosts = [] := by
      intro hback
      rw [List.eq_nil_iff_forall_not_mem]
      intro g hg
      have hserve : (set.add hosts).servingType = .main := by
        apply servingType_eq_main
        intro hback'
        rw [(servingType_add.mp hback').1] at hg
        cases hg
      obtain ⟨k, hk⟩ := exists_lastAt Host.addr hg
      have htype := (hold k (hset.mem_cache_add (by rwa [hserve]))).1
      rw [hback, (mem_ofType.mp (lastAt_eq_some hk).1).2] at htype
      cases htype
    refine ⟨hmain, fun g hg => ?_⟩
    have htype : (set.add hosts).servingType = set.servingType := by
      by_cases hback : set.servingType = .backup
      · rw [hback]
        exact servingType_add.mpr ⟨hmain hback, hback⟩
      · rw [servingType_eq_main hback]
        exact servingType_eq_main fun hback' => hback (servingType_add.mp hback').2
    obtain ⟨k, hk⟩ := exists_lastAt Host.addr hg
    have hlookup := (hold k (hset.mem_cache_add (by rwa [htype]))).2
    rw [hk, ← (lastAt_eq_some hk).2]
    exact hlookup
  · rintro ⟨hmain, hlast⟩
    have hsame : SameServing set (set.add hosts) := by
      apply sameServing_of_map
      · intro a
        rw [healthyMap_add servingType_ne, lookup_insertAll, healthy_eq]
        cases hcase : lastAt Host.addr (ofType set.servingType hosts) a with
        | none => rfl
        | some g =>
          obtain ⟨hmem, rfl⟩ := lastAt_eq_some hcase
          have hg := hlast g hmem
          rw [hcase, healthy_eq] at hg
          exact hg.symm
      · intro hback
        exact servingType_eq_backup.mp (servingType_add.mpr ⟨hmain hback, hback⟩)
    exact hsame.cache hset hset.add

/-! ## Every order of the removals -/

theorem mem_serving : g ∈ set.serving ↔ g ∈ values set.all ∧ set.Serves g := by
  simp [serving]

theorem Shape.mem_values_remove (hset : Shape set) (hg : g ∈ values set.all)
    (hh : h ∈ values set.all) (hne : g ≠ h) :
    g.addr ≠ h.addr ∧ g ∈ values (set.remove [h]).all := by
  have hreg := hset.all.mem_values.mp hg
  have haddr : g.addr ≠ h.addr := by
    intro haddr
    have hreg' := hset.all.mem_values.mp hh
    rw [← haddr, hreg] at hreg'
    exact hne (Option.some.inj hreg')
  refine ⟨haddr, ?_⟩
  rw [hset.remove.all.mem_values, remove_all, lookup_eraseAll, if_neg (by simpa using haddr)]
  exact hreg

/-- With the one host removed that serves, the others can go unnoticed. -/
theorem Shape.sameServing_rest (hset : Shape set) (hh : h ∈ values set.all)
    (hserving : (set.remove [h]).serving = []) (done : List Host) (hdone : h ∈ done)
    (hsub : ∀ g ∈ done, g ∈ values set.all) (hnodup : done.Nodup) :
    SameServing (set.remove [h]) (set.removeEach done) := by
  have hperm : (h :: done.erase h).Perm done := (List.perm_cons_erase hdone).symm
  have hrest : SameServing (set.remove [h]) ((set.remove [h]).removeEach (done.erase h)) := by
    apply sameServing_removeEach
    intro g hg hserves
    rw [hnodup.mem_erase_iff] at hg
    have hmem := (hset.mem_values_remove (hsub g hg.2) hh hg.1).2
    have hin : g ∈ (set.remove [h]).serving := mem_serving.mpr ⟨hmem, hserves⟩
    rw [hserving] at hin
    cases hin
  exact hrest.trans (sameServing_of_perm hperm)

theorem mem_published {l : List Host} : l ∈ set.published order hosts ↔
    (∃ done rest, order = done ++ rest ∧ l = (set.removeEach done).healthyCache) ∨
      l = (set.replaceAllIn order hosts).healthyCache := by
  rw [published, List.mem_append, List.mem_map, List.mem_singleton]
  apply or_congr_left
  constructor
  · rintro ⟨s, hs, rfl⟩
    obtain ⟨done, rest, horder, rfl⟩ := mem_removals.mp hs
    exact ⟨done, rest, horder, rfl⟩
  · rintro ⟨done, rest, horder, rfl⟩
    exact ⟨_, mem_removals.mpr ⟨done, rest, horder, rfl⟩, rfl⟩

/-- When no registered host serves, the list changes at the addition only. -/
theorem Shape.atomic_of_serving_nil (hset : Shape set) (hserving : set.serving = []) :
    set.ReplacesAtomically hosts := by
  intro order horder l hl
  rcases mem_published.mp hl with ⟨done, rest, rfl, rfl⟩ | rfl
  · left
    refine SameServing.cache (sameServing_removeEach fun g hg hserves => ?_) hset hset.removeEach
    have hmem : g ∈ values set.all := horder.mem_iff.mp (List.mem_append_left _ hg)
    have hin : g ∈ set.serving := mem_serving.mpr ⟨hmem, hserves⟩
    rw [hserving] at hin
    cases hin
  · exact .inr rfl

/-- When one registered host serves, the list may change at its removal only. -/
theorem Shape.atomic_of_serving_one (hset : Shape set) (hserving : set.serving = [h])
    (hrest : (set.remove [h]).serving = []) (hnew : (set.remove [h]).BringsNothing hosts) :
    set.ReplacesAtomically hosts := by
  intro order horder l hl
  have hh : h ∈ set.serving := by rw [hserving]; exact List.mem_singleton_self h
  have hreg := (mem_serving.mp hh).1
  have hnodup : order.Nodup := horder.nodup_iff.mpr hset.all.nodup_values
  -- the list behind the removal of `h` is the list at the end
  have hafter : (set.replaceAllIn order hosts).healthyCache = (set.remove [h]).healthyCache := by
    have hsame := hset.sameServing_rest hreg hrest order (horder.mem_iff.mpr hreg)
      (fun g hg => horder.mem_iff.mp hg) hnodup
    rw [replaceAllIn, hset.removeEach.cache_add_iff.mpr (hsame.bringsNothing.mpr hnew)]
    exact hsame.cache hset.remove hset.removeEach
  rcases mem_published.mp hl with ⟨done, rest, rfl, rfl⟩ | rfl
  · have hsub : ∀ g ∈ done, g ∈ values set.all := fun g hg =>
      horder.mem_iff.mp (List.mem_append_left _ hg)
    by_cases hdone : h ∈ done
    · right
      rw [hafter]
      have hsame := hset.sameServing_rest hreg hrest done hdone hsub hnodup.of_append_left
      exact hsame.cache hset.remove hset.removeEach
    · left
      refine SameServing.cache (sameServing_removeEach fun g hg hserves => ?_) hset hset.removeEach
      have hin : g ∈ set.serving := mem_serving.mpr ⟨hsub g hg, hserves⟩
      rw [hserving, List.mem_singleton] at hin
      exact hdone (hin ▸ hg)
  · exact .inr rfl

/-- Once a host that serves is removed first, the list is the last one. -/
theorem Shape.cache_of_atomic (hset : Shape set) (hatomic : set.ReplacesAtomically hosts)
    (hh : h ∈ set.serving) (done rest : List Host)
    (horder : (h :: (done ++ rest)).Perm (values set.all)) :
    ((set.remove [h]).removeEach done).healthyCache =
      (set.replaceAllIn (h :: (done ++ rest)) hosts).healthyCache := by
  have hpub : ((set.remove [h]).removeEach done).healthyCache ∈
      set.published (h :: (done ++ rest)) hosts :=
    mem_published.mpr (.inl ⟨h :: done, rest, rfl, rfl⟩)
  rcases hatomic _ horder _ hpub with hbefore | hafter
  · have hne : (set.removeEach (h :: done)).healthyCache ≠ set.healthyCache :=
      (mem_serving.mp hh).2.cache_removeEach_ne hset List.mem_cons_self
    exact absurd hbefore hne
  · exact hafter

/-- So nothing that is left serves, and the new hosts bring nothing. -/
theorem Shape.rest_of_atomic (hset : Shape set) (hatomic : set.ReplacesAtomically hosts)
    (hh : h ∈ set.serving) :
    (set.remove [h]).serving = [] ∧ (set.remove [h]).BringsNothing hosts := by
  have hreg := (mem_serving.mp hh).1
  have hperm : (h :: (values set.all).erase h).Perm (values set.all) :=
    (List.perm_cons_erase hreg).symm
  have hnone : (set.remove [h]).serving = [] := by
    rw [List.eq_nil_iff_forall_not_mem]
    intro g hg
    obtain ⟨hmem, hserves⟩ := mem_serving.mp hg
    have hgreg : g ∈ (values set.all).erase h := by
      rw [hset.all.nodup_values.mem_erase_iff, hset.all.mem_values]
      rw [hset.remove.all.mem_values, remove_all, lookup_eraseAll] at hmem
      split at hmem
      · cases hmem
      · rename_i haddr
        exact ⟨fun heq => haddr (by simp [heq]), hmem⟩
    -- the removals start with `h` and `g`, and both lists behind them would be the last one
    have horder : (h :: ([g] ++ ((values set.all).erase h).erase g)).Perm (values set.all) :=
      ((List.perm_cons_erase hgreg).symm.cons h).trans hperm
    have hone := hset.cache_of_atomic hatomic hh [] _ horder
    have htwo := hset.cache_of_atomic hatomic hh [g] _ horder
    exact hserves.cache_removeEach_ne hset.remove (List.mem_singleton_self g)
      (htwo.trans hone.symm)
  refine ⟨hnone, ?_⟩
  have hall := hset.cache_of_atomic hatomic hh ((values set.all).erase h) []
    (by rwa [List.append_nil])
  rw [List.append_nil, replaceAllIn] at hall
  have hkeeps := hset.removeEach.cache_add_iff.mp hall.symm
  have hsame := hset.sameServing_rest hreg hnone (h :: (values set.all).erase h)
    List.mem_cons_self (fun g hg => hperm.mem_iff.mp hg)
    (hperm.nodup_iff.mpr hset.all.nodup_values)
  exact hsame.bringsNothing.mp hkeeps

theorem Shape.replacesAtMostOne (hset : Shape set) (hatomic : set.ReplacesAtomically hosts) :
    set.ReplacesAtMostOne hosts := by
  by_cases hserving : set.serving = []
  · exact .inl hserving
  · obtain ⟨h, hh⟩ := List.exists_mem_of_ne_nil _ hserving
    obtain ⟨hnone, hnew⟩ := hset.rest_of_atomic hatomic hh
    refine .inr ⟨h, hh, ?_, hnone, hnew⟩
    -- any other host would still serve without `h`
    have honly : ∀ g ∈ set.serving, g = h := by
      intro g hg
      by_contra hne
      obtain ⟨hmem, hserves⟩ := mem_serving.mp hg
      obtain ⟨haddr, hmem'⟩ := hset.mem_values_remove hmem (mem_serving.mp hh).1 hne
      have hin : g ∈ (set.remove [h]).serving := mem_serving.mpr ⟨hmem', hserves.remove haddr⟩
      rw [hnone] at hin
      cases hin
    have hnodup : set.serving.Nodup := hset.all.nodup_values.filter _
    apply List.perm_singleton.mp
    rw [List.perm_ext_iff_of_nodup hnodup (List.nodup_singleton h)]
    intro g
    rw [List.mem_singleton]
    exact ⟨honly g, fun heq => heq ▸ hh⟩

/-- Readers see the list before `ReplaceAll` or the list after it exactly when it replaces at most
    one host that serves. -/
theorem replacesAtomically_iff {ops : List SetOp} (hrun : runFrom step emptySet ops = some set)
    (hosts : List Host) : set.ReplacesAtomically hosts ↔ set.ReplacesAtMostOne hosts := by
  have hset := shape_of_run hrun
  constructor
  · exact hset.replacesAtMostOne
  · rintro (hserving | ⟨h, -, hserving, hrest, hnew⟩)
    · exact hset.atomic_of_serving_nil hserving
    · exact hset.atomic_of_serving_one hserving hrest hnew

/-- A main host with an address of its own. -/
def mainAt (n : Nat) : Host := ⟨n, [UInt8.ofNat n], .main⟩

/-- The only main host goes away: no list stands between the two. -/
theorem replacesAtomically_last :
    ∃ set, runFrom step emptySet [.add [mainAt 1]] = some set ∧ set.ReplacesAtMostOne [] ∧
      set.ReplacesAtomically [] := by
  have hrun : runFrom step emptySet [.add [mainAt 1]] = some (emptySet.add [mainAt 1]) := rfl
  have hone : (emptySet.add [mainAt 1]).ReplacesAtMostOne [] := by decide +kernel
  exact ⟨_, hrun, hone, (replacesAtomically_iff hrun []).mpr hone⟩

/-- Two main hosts are replaced by two others: readers find no host at all in between. -/
theorem not_replacesAtomically_two :
    ∃ set, runFrom step emptySet [.add [mainAt 1, mainAt 2]] = some set ∧
      set.healthyCache = [mainAt 1, mainAt 2] ∧
      (set.replaceAll [mainAt 3, mainAt 4]).healthyCache = [mainAt 3, mainAt 4] ∧
      [] ∈ set.published (values set.all) [mainAt 3, mainAt 4] ∧
      ¬ set.ReplacesAtomically [mainAt 3, mainAt 4] := by
  refine ⟨emptySet.add [mainAt 1, mainAt 2], rfl, by decide +kernel, by decide +kernel,
    by decide +kernel, fun hatomic => ?_⟩
  have hempty := hatomic _ (List.Perm.refl _) [] (by decide +kernel)
  revert hempty
  decide +kernel

end HostSet

end Samaritan.Hosts
