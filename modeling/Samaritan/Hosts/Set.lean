import Mathlib.Data.List.Sort
import Samaritan.Lib.Decimal
import Samaritan.Lib.KeyMap
import Samaritan.Lib.Machine

/-!
# The Host Set

A host set (`host/host.go`) holds the backend hosts of a service in three maps from addresses:
all hosts, the healthy main hosts and the healthy backup hosts. A host is an object: two hosts
may have the same address and the same type, and what was registered under an address is
replaced by what is added under it later.

The flags of the hosts (`isHealthy` with the counters of the health checks, and whether
`removeCh` is closed) are part of the state of this model, as functions on the hosts.
-/

namespace Samaritan.Hosts

open Samaritan.Lib

/-! ## Hosts -/

/-- The type of a host; the source has the integers 0 and 1 for the first two, and any other
    integer is an unknown type. -/
inductive HostType where
  | main
  | backup
  | unknown
  deriving DecidableEq, Repr

/-- A host object; objects that agree in address and type are told apart by `id`. -/
structure Host where
  id : Nat
  addr : Bytes
  type : HostType
  deriving DecidableEq, Repr

/-- What the health checks keep on a host. -/
structure Stats where
  isHealthy : Bool
  failedCount : UInt64
  successfulCount : UInt64
  deriving DecidableEq, Repr

/-- `NewStats`. -/
def newStats : Stats := ⟨true, 0, 0⟩

/-- The counter and the stats after a failed check. -/
def Stats.incFailedCount (stats : Stats) : UInt64 × Stats :=
  (stats.failedCount + 1,
    { stats with successfulCount := 0, failedCount := stats.failedCount + 1 })

/-- The counter and the stats after a successful check. -/
def Stats.incSuccessfulCount (stats : Stats) : UInt64 × Stats :=
  (stats.successfulCount + 1,
    { stats with failedCount := 0, successfulCount := stats.successfulCount + 1 })

/-! ## The set -/

structure HostSet where
  all : KeyMap Bytes Host
  healthyMain : KeyMap Bytes Host
  healthyBackup : KeyMap Bytes Host
  healthyCache : List Host
  /-- the stats of the hosts -/
  stats : Host → Stats
  /-- the hosts whose `removeCh` is closed -/
  removed : Host → Bool

namespace HostSet

/-- `healthy`: the backup hosts serve when there is no main host. -/
def healthy (set : HostSet) : KeyMap Bytes Host :=
  if set.healthyMain.keys.length = 0 then set.healthyBackup else set.healthyMain

/-- The hosts of a map in the order of their addresses. -/
def sortedHosts (hostMap : KeyMap Bytes Host) : List Host :=
  (hostMap.keys.insertionSort (· ≤ ·)).filterMap hostMap.lookup

def buildHealthyCache (set : HostSet) : HostSet :=
  { set with healthyCache := sortedHosts set.healthy }

/-- The body of the loop of `addToHealthy`. -/
def putHealthy (set : HostSet) (h : Host) : HostSet :=
  match h.type with
  | .main => { set with healthyMain := set.healthyMain.insert h.addr h }
  | .backup => { set with healthyBackup := set.healthyBackup.insert h.addr h }
  | .unknown => set

/-- The body of the loop of `removeFromHealthy`. -/
def deleteHealthy (set : HostSet) (h : Host) : HostSet :=
  match h.type with
  | .main => { set with healthyMain := set.healthyMain.erase h.addr }
  | .backup => { set with healthyBackup := set.healthyBackup.erase h.addr }
  | .unknown => set

def addToHealthy (set : HostSet) (hosts : List Host) : HostSet :=
  if hosts.length = 0 then set else (hosts.foldl putHealthy set).buildHealthyCache

def removeFromHealthy (set : HostSet) (hosts : List Host) : HostSet :=
  if hosts.length = 0 then set else (hosts.foldl deleteHealthy set).buildHealthyCache

def add (set : HostSet) (hosts : List Host) : HostSet :=
  if hosts.length = 0 then set
  else addToHealthy { set with all := insertAll Host.addr set.all hosts } hosts

/-- `markRemoved`; `removeCh` is closed once. -/
def markRemoved (set : HostSet) (h : Host) : HostSet :=
  { set with removed := Function.update set.removed h true }

def remove (set : HostSet) (hosts : List Host) : HostSet :=
  if hosts.length = 0 then set
  else
    removeFromHealthy
      (hosts.foldl (fun set h => markRemoved { set with all := set.all.erase h.addr } h) set) hosts

/-- Remove hosts one by one. -/
def removeEach (set : HostSet) (hosts : List Host) : HostSet :=
  hosts.foldl (fun set h => set.remove [h]) set

/-- `ReplaceAll`: the registered hosts are removed one by one, then the given ones are added. -/
def replaceAll (set : HostSet) (hosts : List Host) : HostSet :=
  (set.removeEach (values set.all)).add hosts

/-- `setHealthy`: the counters are cleared; the result says whether the flag has changed. -/
def setHealthy (set : HostSet) (h : Host) : HostSet × Bool :=
  ({ set with stats := Function.update set.stats h ⟨true, 0, 0⟩ }, !(set.stats h).isHealthy)

/-- `setUnhealthy`. -/
def setUnhealthy (set : HostSet) (h : Host) : HostSet × Bool :=
  ({ set with stats := Function.update set.stats h ⟨false, 0, 0⟩ }, (set.stats h).isHealthy)

/-- The part of `MarkHostHealthy` that runs under the lock. -/
def putBack (set : HostSet) (h : Host) : HostSet × Bool :=
  match set.all.lookup h.addr with
  | none => (set, false)
  | some _ => (set.addToHealthy [h], true)

/-- The part of `MarkHostUnhealthy` that runs under the lock. -/
def evict (set : HostSet) (h : Host) : HostSet × Bool :=
  match set.all.lookup h.addr with
  | none => (set, false)
  | some _ => (set.removeFromHealthy [h], true)

def markHostHealthy (set : HostSet) (h : Host) : HostSet × Bool :=
  match set.setHealthy h with
  | (set, false) => (set, false)
  | (set, true) => set.putBack h

def markHostUnhealthy (set : HostSet) (h : Host) : HostSet × Bool :=
  match set.setUnhealthy h with
  | (set, false) => (set, false)
  | (set, true) => set.evict h

/-- `Random`, for the number drawn; a map is ranged over in any order. -/
def random (set : HostSet) (target : Nat) : Option Host := (values set.healthy)[target]?

end HostSet

/-- A set before any host is added, with new hosts. -/
def emptySet : HostSet where
  all := ∅
  healthyMain := ∅
  healthyBackup := ∅
  healthyCache := []
  stats := fun _ => newStats
  removed := fun _ => false

/-- `NewSet`. -/
def newSet (hosts : List Host) : HostSet := emptySet.add hosts

/-! ## The effect of the operations

What the loops do is said once, for the whole list of hosts they are given; every invariant is
derived from these equations. -/

namespace HostSet

variable {set : HostSet} {hosts : List Host} {h : Host} {typ : HostType}

/-- The healthy map of a type; hosts of an unknown type are in none. -/
def healthyMap (set : HostSet) : HostType → KeyMap Bytes Host
  | .main => set.healthyMain
  | .backup => set.healthyBackup
  | .unknown => ∅

/-- The hosts of a list that have a type. -/
def ofType (typ : HostType) (hosts : List Host) : List Host := hosts.filter fun h => h.type = typ

theorem mem_ofType : h ∈ ofType typ hosts ↔ h ∈ hosts ∧ h.type = typ := by
  simp [ofType]

/-- Putting hosts back one by one inserts them all, by their type. -/
theorem foldl_putHealthy : hosts.foldl putHealthy set = { set with
    healthyMain := insertAll Host.addr set.healthyMain (ofType .main hosts)
    healthyBackup := insertAll Host.addr set.healthyBackup (ofType .backup hosts) } := by
  induction hosts generalizing set with
  | nil => rfl
  | cons h hosts ih =>
    rw [List.foldl_cons, ih]
    cases htype : h.type <;> simp [putHealthy, ofType, htype, insertAll]

/-- Deleting hosts one by one erases them all, by their type. -/
theorem foldl_deleteHealthy : hosts.foldl deleteHealthy set = { set with
    healthyMain := eraseAll Host.addr set.healthyMain (ofType .main hosts)
    healthyBackup := eraseAll Host.addr set.healthyBackup (ofType .backup hosts) } := by
  induction hosts generalizing set with
  | nil => rfl
  | cons h hosts ih =>
    rw [List.foldl_cons, ih]
    cases htype : h.type <;> simp [deleteHealthy, ofType, htype, eraseAll]

/-- Removing hosts one by one erases them from the set and marks them. -/
theorem foldl_markRemoved :
    hosts.foldl (fun set h => markRemoved { set with all := set.all.erase h.addr } h) set =
      { set with
        all := eraseAll Host.addr set.all hosts
        removed := fun h => set.removed h || decide (h ∈ hosts) } := by
  induction hosts generalizing set with
  | nil => simp [eraseAll]
  | cons h hosts ih =>
    rw [List.foldl_cons, ih]
    simp only [markRemoved, eraseAll, List.foldl_cons, mk.injEq, true_and]
    funext g
    by_cases hg : g = h <;> simp [hg]

theorem addToHealthy_cons : set.addToHealthy (h :: hosts) = buildHealthyCache { set with
    healthyMain := insertAll Host.addr set.healthyMain (ofType .main (h :: hosts))
    healthyBackup := insertAll Host.addr set.healthyBackup (ofType .backup (h :: hosts)) } := by
  rw [addToHealthy, if_neg (by simp), foldl_putHealthy]

theorem removeFromHealthy_cons : set.removeFromHealthy (h :: hosts) = buildHealthyCache { set with
    healthyMain := eraseAll Host.addr set.healthyMain (ofType .main (h :: hosts))
    healthyBackup := eraseAll Host.addr set.healthyBackup (ofType .backup (h :: hosts)) } := by
  rw [removeFromHealthy, if_neg (by simp), foldl_deleteHealthy]

/-- What the healthy maps have no part in. -/
structure SameHosts (set set' : HostSet) : Prop where
  all : set'.all = set.all
  stats : set'.stats = set.stats
  removed : set'.removed = set.removed

theorem sameHosts_addToHealthy : SameHosts set (set.addToHealthy hosts) := by
  cases hosts with
  | nil => exact ⟨rfl, rfl, rfl⟩
  | cons h hosts =>
    rw [addToHealthy_cons]
    exact ⟨rfl, rfl, rfl⟩

theorem sameHosts_removeFromHealthy : SameHosts set (set.removeFromHealthy hosts) := by
  cases hosts with
  | nil => exact ⟨rfl, rfl, rfl⟩
  | cons h hosts =>
    rw [removeFromHealthy_cons]
    exact ⟨rfl, rfl, rfl⟩

theorem healthyMap_addToHealthy (htyp : typ ≠ .unknown) :
    (set.addToHealthy hosts).healthyMap typ =
      insertAll Host.addr (set.healthyMap typ) (ofType typ hosts) := by
  cases hosts with
  | nil => rfl
  | cons h hosts =>
    rw [addToHealthy_cons]
    cases typ with
    | main | backup => rfl
    | unknown => exact absurd rfl htyp

theorem healthyMap_removeFromHealthy (htyp : typ ≠ .unknown) :
    (set.removeFromHealthy hosts).healthyMap typ =
      eraseAll Host.addr (set.healthyMap typ) (ofType typ hosts) := by
  cases hosts with
  | nil => rfl
  | cons h hosts =>
    rw [removeFromHealthy_cons]
    cases typ with
    | main | backup => rfl
    | unknown => exact absurd rfl htyp

/-- `Add` registers the hosts and puts them among the healthy ones. -/
theorem add_eq : set.add hosts =
    addToHealthy { set with all := insertAll Host.addr set.all hosts } hosts := by
  cases hosts with
  | nil => rfl
  | cons h hosts => rw [add, if_neg (by simp)]

/-- `Remove` takes the hosts out of all three maps and marks them. -/
theorem remove_eq : set.remove hosts =
    removeFromHealthy { set with
      all := eraseAll Host.addr set.all hosts
      removed := fun h => set.removed h || decide (h ∈ hosts) } hosts := by
  cases hosts with
  | nil => simp [remove, removeFromHealthy, eraseAll]
  | cons h hosts => rw [remove, if_neg (by simp), foldl_markRemoved]

@[simp] theorem add_all : (set.add hosts).all = insertAll Host.addr set.all hosts := by
  rw [add_eq, sameHosts_addToHealthy.all]

@[simp] theorem add_stats : (set.add hosts).stats = set.stats := by
  rw [add_eq, sameHosts_addToHealthy.stats]

@[simp] theorem add_removed : (set.add hosts).removed = set.removed := by
  rw [add_eq, sameHosts_addToHealthy.removed]

theorem healthyMap_add (htyp : typ ≠ .unknown) : (set.add hosts).healthyMap typ =
    insertAll Host.addr (set.healthyMap typ) (ofType typ hosts) := by
  rw [add_eq, healthyMap_addToHealthy htyp]
  cases typ <;> rfl

@[simp] theorem remove_all : (set.remove hosts).all = eraseAll Host.addr set.all hosts := by
  rw [remove_eq, sameHosts_removeFromHealthy.all]

@[simp] theorem remove_stats : (set.remove hosts).stats = set.stats := by
  rw [remove_eq, sameHosts_removeFromHealthy.stats]

@[simp] theorem remove_removed :
    (set.remove hosts).removed = fun h => set.removed h || decide (h ∈ hosts) := by
  rw [remove_eq, sameHosts_removeFromHealthy.removed]

theorem healthyMap_remove (htyp : typ ≠ .unknown) : (set.remove hosts).healthyMap typ =
    eraseAll Host.addr (set.healthyMap typ) (ofType typ hosts) := by
  rw [remove_eq, healthyMap_removeFromHealthy htyp]
  cases typ <;> rfl

@[simp] theorem removeEach_all :
    (set.removeEach hosts).all = eraseAll Host.addr set.all hosts := by
  induction hosts generalizing set with
  | nil => rfl
  | cons h hosts ih => rw [removeEach, List.foldl_cons, ← removeEach, ih, remove_all]; rfl

@[simp] theorem removeEach_stats : (set.removeEach hosts).stats = set.stats := by
  induction hosts generalizing set with
  | nil => rfl
  | cons h hosts ih => rw [removeEach, List.foldl_cons, ← removeEach, ih, remove_stats]

@[simp] theorem removeEach_removed :
    (set.removeEach hosts).removed = fun h => set.removed h || decide (h ∈ hosts) := by
  induction hosts generalizing set with
  | nil => simp [removeEach]
  | cons h hosts ih =>
    rw [removeEach, List.foldl_cons, ← removeEach, ih, remove_removed]
    funext g
    simp [Bool.or_assoc]

theorem healthyMap_removeEach (htyp : typ ≠ .unknown) : (set.removeEach hosts).healthyMap typ =
    eraseAll Host.addr (set.healthyMap typ) (ofType typ hosts) := by
  induction hosts generalizing set with
  | nil => rfl
  | cons h hosts ih =>
    rw [removeEach, List.foldl_cons, ← removeEach, ih, healthyMap_remove htyp]
    by_cases htype : h.type = typ <;> simp [ofType, htype, eraseAll]

/-! ## The shape of the set -/

/-- Hosts stand under their own addresses, the healthy maps hold the hosts of one type each, and
    the cache holds the hosts of the map that serves. -/
structure Shape (set : HostSet) : Prop where
  all : Keyed Host.addr set.all
  healthy : ∀ typ a h, (set.healthyMap typ).lookup a = some h → h.addr = a ∧ h.type = typ
  cached : set.healthyCache = sortedHosts set.healthy

theorem not_mem_unknown {a : Bytes} : (set.healthyMap .unknown).lookup a ≠ some h := by
  simp [healthyMap]

/-- The shape rests on the healthy maps and on the keys of the set. -/
theorem Shape.of_same {set' : HostSet} (hset : Shape set) (hall : Keyed Host.addr set'.all)
    (hmain : set'.healthyMain = set.healthyMain) (hbackup : set'.healthyBackup = set.healthyBackup)
    (hcache : set'.healthyCache = set.healthyCache) : Shape set' where
  all := hall
  healthy := by
    intro typ
    have hmap : set'.healthyMap typ = set.healthyMap typ := by
      cases typ <;> simp [healthyMap, hmain, hbackup]
    rw [hmap]
    exact hset.healthy typ
  cached := by
    rw [hcache, hset.cached]
    simp [HostSet.healthy, hmain, hbackup]

/-- The cache is built again whenever a map has changed. -/
theorem Shape.addToHealthy (hset : Shape set) : Shape (set.addToHealthy hosts) where
  all := by
    rw [sameHosts_addToHealthy.all]
    exact hset.all
  healthy := by
    intro typ a h hlookup
    by_cases htyp : typ = .unknown
    · subst htyp
      exact absurd hlookup not_mem_unknown
    · rw [healthyMap_addToHealthy htyp, lookup_insertAll] at hlookup
      cases hlast : lastAt Host.addr (ofType typ hosts) a with
      | some g =>
        rw [hlast, Option.some_or] at hlookup
        cases hlookup
        obtain ⟨hmem, haddr⟩ := lastAt_eq_some hlast
        exact ⟨haddr, (mem_ofType.mp hmem).2⟩
      | none =>
        rw [hlast, Option.none_or] at hlookup
        exact hset.healthy typ a h hlookup
  cached := by
    cases hosts with
    | nil => exact hset.cached
    | cons h hosts => rw [addToHealthy_cons]; rfl

theorem Shape.removeFromHealthy (hset : Shape set) : Shape (set.removeFromHealthy hosts) where
  all := by
    rw [sameHosts_removeFromHealthy.all]
    exact hset.all
  healthy := by
    intro typ a h hlookup
    by_cases htyp : typ = .unknown
    · subst htyp
      exact absurd hlookup not_mem_unknown
    · rw [healthyMap_removeFromHealthy htyp, lookup_eraseAll] at hlookup
      split at hlookup
      · cases hlookup
      · exact hset.healthy typ a h hlookup
  cached := by
    cases hosts with
    | nil => exact hset.cached
    | cons h hosts => rw [removeFromHealthy_cons]; rfl

theorem Shape.add (hset : Shape set) : Shape (set.add hosts) := by
  rw [add_eq]
  apply Shape.addToHealthy
  exact hset.of_same hset.all.insertAll rfl rfl rfl

theorem Shape.remove (hset : Shape set) : Shape (set.remove hosts) := by
  rw [remove_eq]
  apply Shape.removeFromHealthy
  exact hset.of_same hset.all.eraseAll rfl rfl rfl

theorem Shape.removeEach (hset : Shape set) : Shape (set.removeEach hosts) := by
  induction hosts generalizing set with
  | nil => exact hset
  | cons h hosts ih => exact ih hset.remove

theorem Shape.replaceAll (hset : Shape set) : Shape (set.replaceAll hosts) := hset.removeEach.add

theorem Shape.putBack (hset : Shape set) : Shape (set.putBack h).1 := by
  rw [HostSet.putBack]
  split
  · exact hset
  · show Shape (set.addToHealthy [h])
    exact hset.addToHealthy

theorem Shape.evict (hset : Shape set) : Shape (set.evict h).1 := by
  rw [HostSet.evict]
  split
  · exact hset
  · show Shape (set.removeFromHealthy [h])
    exact hset.removeFromHealthy

/-- A host of the cache is in one of the maps. -/
theorem Shape.mem_healthy (hset : Shape set) {g : Host} (hg : g ∈ values set.healthy) :
    ∃ typ, (set.healthyMap typ).lookup g.addr = some g := by
  obtain ⟨a, ha⟩ := mem_values.mp hg
  have hmap : ∃ typ, set.healthy = set.healthyMap typ := by
    rw [HostSet.healthy]
    split
    · exact ⟨.backup, rfl⟩
    · exact ⟨.main, rfl⟩
  obtain ⟨typ, htyp⟩ := hmap
  rw [htyp] at ha
  refine ⟨typ, ?_⟩
  rwa [(hset.healthy typ a g ha).1]

theorem mem_sortedHosts {m : KeyMap Bytes Host} : h ∈ sortedHosts m ↔ h ∈ values m := by
  rw [sortedHosts, List.mem_filterMap, mem_values]
  constructor
  · rintro ⟨a, -, ha⟩
    exact ⟨a, ha⟩
  · rintro ⟨a, ha⟩
    refine ⟨a, ?_, ha⟩
    rw [List.mem_insertionSort]
    exact AList.lookup_isSome.mp (by rw [ha]; rfl)

end HostSet

/-! ## Sequences of operations -/

inductive SetOp where
  | add (hosts : List Host)
  | remove (hosts : List Host)
  | replaceAll (hosts : List Host)
  | markHostHealthy (h : Host)
  | markHostUnhealthy (h : Host)
  deriving DecidableEq

namespace HostSet

def apply (set : HostSet) : SetOp → HostSet
  | .add hosts => set.add hosts
  | .remove hosts => set.remove hosts
  | .replaceAll hosts => set.replaceAll hosts
  | .markHostHealthy h => (set.markHostHealthy h).1
  | .markHostUnhealthy h => (set.markHostUnhealthy h).1

/-- Every operation can be called in every state. -/
def step (set : HostSet) (op : SetOp) : Option HostSet := some (set.apply op)

variable {set : HostSet} {hosts : List Host} {h : Host}

/-- `MarkHostHealthy` when the flag is set already. -/
theorem markHostHealthy_of_healthy (hflag : (set.stats h).isHealthy = true) :
    set.markHostHealthy h = ((set.setHealthy h).1, false) := by
  simp [markHostHealthy, setHealthy, hflag]

theorem markHostHealthy_of_unhealthy (hflag : (set.stats h).isHealthy = false) :
    set.markHostHealthy h = (set.setHealthy h).1.putBack h := by
  simp [markHostHealthy, setHealthy, hflag]

theorem markHostUnhealthy_of_unhealthy (hflag : (set.stats h).isHealthy = false) :
    set.markHostUnhealthy h = ((set.setUnhealthy h).1, false) := by
  simp [markHostUnhealthy, setUnhealthy, hflag]

theorem markHostUnhealthy_of_healthy (hflag : (set.stats h).isHealthy = true) :
    set.markHostUnhealthy h = (set.setUnhealthy h).1.evict h := by
  simp [markHostUnhealthy, setUnhealthy, hflag]

/-- Every operation keeps the shape. -/
theorem Shape.apply (hset : Shape set) (op : SetOp) : Shape (set.apply op) := by
  cases op with
  | add hosts => exact hset.add
  | remove hosts => exact hset.remove
  | replaceAll hosts => exact hset.replaceAll
  | markHostHealthy h =>
    have hflagged : Shape (set.setHealthy h).1 := hset.of_same hset.all rfl rfl rfl
    rw [HostSet.apply]
    cases hflag : (set.stats h).isHealthy with
    | true => rwa [markHostHealthy_of_healthy hflag]
    | false => rw [markHostHealthy_of_unhealthy hflag]; exact hflagged.putBack
  | markHostUnhealthy h =>
    have hflagged : Shape (set.setUnhealthy h).1 := hset.of_same hset.all rfl rfl rfl
    rw [HostSet.apply]
    cases hflag : (set.stats h).isHealthy with
    | true => rw [markHostUnhealthy_of_healthy hflag]; exact hflagged.evict
    | false => rwa [markHostUnhealthy_of_unhealthy hflag]

theorem shape_emptySet : Shape emptySet where
  all := by
    intro a h hlookup
    cases hlookup
  healthy := by
    intro typ a h hlookup
    cases typ <;> cases hlookup
  cached := rfl

theorem shape_of_run {ops : List SetOp} (hrun : runFrom step emptySet ops = some set) :
    Shape set := by
  have hstep : ∀ (s : HostSet) (op : SetOp) (s' : HostSet), Shape s → step s op = some s' →
      Shape s' := by
    intro s op s' hs h
    cases h
    exact hs.apply op
  exact invariant_of_run hstep shape_emptySet hrun

end HostSet

end Samaritan.Hosts
