import Samaritan.Hosts.Replace

/-!
# The Order of the Healthy Hosts

`Healthy` returns a cached list. A cursor of `SCAN` and the round robin of a service keep an index
into this list from one call to the next, so they count on a list that only depends on the hosts
that serve, and not on how the set came to hold them.

The list of a map is described without the sort that builds it: it has the hosts of the map, in
strictly ascending order of their addresses. There is only one such list. Every operation leaves
the cache as the list of the map that serves, on all of its paths.
-/

namespace Samaritan.Hosts

open Samaritan.Lib

namespace HostSet

variable {set : HostSet} {m m' : KeyMap Bytes Host} {l l' : List Host}

/-! ## The list of a map -/

/-- The hosts of a map in ascending order of their addresses, no address twice. -/
structure ListsInOrder (m : KeyMap Bytes Host) (l : List Host) : Prop where
  mem_iff : ∀ h, h ∈ l ↔ h ∈ values m
  ascending : l.Pairwise fun g h => g.addr < h.addr

theorem ListsInOrder.nodup (h : ListsInOrder m l) : l.Nodup := by
  apply h.ascending.imp
  rintro g _ hlt rfl
  exact List.lt_irrefl _ hlt

/-- There is one list of the hosts of a map. -/
theorem ListsInOrder.unique (h : ListsInOrder m l) (h' : ListsInOrder m' l')
    (hmaps : ∀ g, g ∈ values m' ↔ g ∈ values m) : l' = l := by
  have hperm : l'.Perm l := by
    rw [List.perm_ext_iff_of_nodup h'.nodup h.nodup]
    intro g
    rw [h'.mem_iff, h.mem_iff, hmaps]
  -- two hosts cannot come in both orders
  apply hperm.eq_of_pairwise _ h'.ascending h.ascending
  intro g k _ _ hgk hkg
  exact absurd (List.lt_trans hgk hkg) (List.lt_irrefl _)

theorem map_addr_filterMap (hm : Keyed Host.addr m) {ks : List Bytes} (hks : ∀ a ∈ ks, a ∈ m) :
    (ks.filterMap m.lookup).map Host.addr = ks := by
  induction ks with
  | nil => rfl
  | cons a ks ih =>
    obtain ⟨h, hh⟩ := Option.isSome_iff_exists.mp (AList.lookup_isSome.mpr (hks a (by simp)))
    have htail := ih fun b hb => hks b (List.mem_cons_of_mem _ hb)
    simp only [List.filterMap_cons, hh, List.map_cons, hm a h hh, htail]

/-- The keys of a map are sorted, and no key comes twice. -/
theorem listsInOrder_sortedHosts (hm : Keyed Host.addr m) : ListsInOrder m (sortedHosts m) where
  mem_iff := fun _ => mem_sortedHosts
  ascending := by
    have haddr : (sortedHosts m).map Host.addr = m.keys.insertionSort (· ≤ ·) := by
      apply map_addr_filterMap hm
      intro a ha
      exact (List.mem_insertionSort _).mp ha
    have hsorted : (m.keys.insertionSort (· ≤ ·)).Pairwise (· ≤ ·) :=
      List.pairwise_insertionSort _ _
    have hnodup : (m.keys.insertionSort (· ≤ ·)).Nodup :=
      (List.perm_insertionSort _ _).nodup_iff.mpr m.keys_nodup
    have hstrict := hsorted.and hnodup
    rw [← haddr, List.pairwise_map] at hstrict
    apply hstrict.imp
    rintro g h ⟨hle, hne⟩
    by_contra hlt
    exact hne (List.le_antisymm hle (List.not_lt.mp hlt))

theorem Shape.keyed_healthy (hset : Shape set) : Keyed Host.addr set.healthy := by
  intro a h hlookup
  rw [healthy_eq] at hlookup
  exact (hset.healthy _ a h hlookup).1

theorem Shape.listsInOrder (hset : Shape set) : ListsInOrder set.healthy set.healthyCache := by
  rw [hset.cached]
  exact listsInOrder_sortedHosts hset.keyed_healthy

theorem keys_length_ne_zero (hm : m ≠ ∅) : m.keys.length ≠ 0 := by
  intro hlen
  apply hm
  apply AList.ext
  have hkeys : m.entries.map Sigma.fst = [] := List.length_eq_zero_iff.mp hlen
  exact List.map_eq_nil_iff.mp hkeys

/-! ## Sequences of operations -/

theorem remove_remove_comm (set : HostSet) (g h : Host) :
    (set.remove [g]).remove [h] = (set.remove [h]).remove [g] := by
  have hremoved : (fun k => set.removed k || decide (k ∈ [g]) || decide (k ∈ [h])) =
      fun k => set.removed k || decide (k ∈ [h]) || decide (k ∈ [g]) := by
    funext k
    rw [Bool.or_assoc, Bool.or_assoc, Bool.or_comm (decide (k ∈ [g]))]
  simp only [remove_eq, removeFromHealthy_cons, buildHealthyCache, hremoved]
  rw [eraseAll_comm Host.addr set.all [g] [h],
    eraseAll_comm Host.addr set.healthyMain (ofType .main [g]) (ofType .main [h]),
    eraseAll_comm Host.addr set.healthyBackup (ofType .backup [g]) (ofType .backup [h])]
  -- the list is that of the maps, whatever was cached before
  rfl

/-- The order in which `ReplaceAll` ranges over the registered hosts does not matter. -/
theorem replaceAllIn_of_perm {order hosts : List Host} (horder : order.Perm (values set.all)) :
    set.replaceAllIn order hosts = set.replaceAll hosts := by
  have hremoved : set.removeEach order = set.removeEach (values set.all) := by
    apply horder.foldl_eq'
    intro g _ h _ set
    exact remove_remove_comm set g h
  rw [replaceAllIn, hremoved, replaceAll]

/-- A set without hosts; the hosts may have been in other sets before. -/
def startSet (stats : Host → Stats) (removed : Host → Bool) : HostSet :=
  { emptySet with stats := stats, removed := removed }

theorem shape_foldl_apply (hset : Shape set) (ops : List SetOp) : Shape (ops.foldl apply set) := by
  induction ops generalizing set with
  | nil => exact hset
  | cons op ops ih => exact ih (hset.apply op)

theorem shape_startSet (stats : Host → Stats) (removed : Host → Bool) :
    Shape (startSet stats removed) :=
  shape_emptySet.of_same shape_emptySet.all rfl rfl rfl

/-- **The healthy hosts are listed in order**: after any operations, `Healthy` is the list of the
    healthy main hosts in ascending order of their addresses, or of the healthy backup hosts if
    there is no main host. Whenever other operations lead to the same hosts, they lead to the same
    list. -/
theorem healthyCache_listsInOrder (stats : Host → Stats) (removed : Host → Bool)
    (ops : List SetOp) :
    ((ops.foldl apply (startSet stats removed)).healthyMain ≠ ∅ →
      ListsInOrder (ops.foldl apply (startSet stats removed)).healthyMain
        (ops.foldl apply (startSet stats removed)).healthyCache) ∧
    ((ops.foldl apply (startSet stats removed)).healthyMain = ∅ →
      ListsInOrder (ops.foldl apply (startSet stats removed)).healthyBackup
        (ops.foldl apply (startSet stats removed)).healthyCache) ∧
    ∀ (stats' : Host → Stats) (removed' : Host → Bool) (ops' : List SetOp),
      (∀ h, h ∈ values (ops'.foldl apply (startSet stats' removed')).healthy ↔
        h ∈ values (ops.foldl apply (startSet stats removed)).healthy) →
      (ops'.foldl apply (startSet stats' removed')).healthyCache =
        (ops.foldl apply (startSet stats removed)).healthyCache := by
  have hshape := shape_foldl_apply (shape_startSet stats removed) ops
  have hlist := hshape.listsInOrder
  refine ⟨fun hmain => ?_, fun hmain => ?_, fun stats' removed' ops' hsame => ?_⟩
  · rwa [healthy, if_neg (keys_length_ne_zero hmain)] at hlist
  · rwa [healthy, hmain, if_pos (by rfl)] at hlist
  · exact hlist.unique (shape_foldl_apply (shape_startSet stats' removed') ops').listsInOrder hsame

end HostSet

end Samaritan.Hosts
