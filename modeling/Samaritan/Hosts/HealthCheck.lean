import Samaritan.Hosts.Set

/-!
# Health Checks

The monitor of a host set (`proc/internal/hc/monitor.go`) checks all hosts in rounds. The workers
of a round hold the host objects that were registered when the round began, while the controller
adds and removes hosts. Marking a host as healthy or unhealthy is two steps: the compare-and-swap
on the flag of the object, then an update of the healthy maps by the address under the lock.

A host and its healthy map disagree for good once the update falls on the entry of another
object. The module proves that they agree whenever no mark is in progress, as long as no update
does that and hosts are added with their flag set.
-/

namespace Samaritan.Hosts

open Samaritan.Lib

/-! ## The machine -/

/-- `MaximumConcurrency`. -/
def maximumConcurrency : Nat := 2048

/-- Where a worker is with its host. -/
inductive Phase where
  /-- the host is being checked -/
  | checking
  /-- the counter of the host has passed the threshold -/
  | counted (healthy : Bool)
  /-- the flag of the host has been changed, and the healthy maps are to be updated -/
  | marking (healthy : Bool)
  deriving DecidableEq

structure Monitor where
  hostSet : HostSet
  riseThreshold : UInt32
  fallThreshold : UInt32
  /-- the hosts of the round that no worker has taken -/
  hostCh : List Host
  /-- the number of workers of the round -/
  concurrency : Nat
  /-- the workers that have a host -/
  workers : List (Host × Phase)

inductive MonitorStep where
  | add (hosts : List Host)
  | remove (hosts : List Host)
  | replaceAll (hosts : List Host)
  /-- `ResetHealthCheck` -/
  | reset (riseThreshold fallThreshold : UInt32)
  /-- a round begins; the map of all hosts is ranged over in any order -/
  | tick (hosts : List Host)
  /-- a worker takes the next host -/
  | take
  /-- the check of a host ends -/
  | check (h : Host) (ok : Bool)
  /-- the compare-and-swap of a mark -/
  | swap (h : Host) (ok : Bool)
  /-- the update of a mark under the lock -/
  | update (h : Host) (ok : Bool)

namespace Monitor

/-- A worker goes on to another phase. -/
def advance (m : Monitor) (h : Host) (old new : Phase) : List (Host × Phase) :=
  (h, new) :: m.workers.erase (h, old)

/-- A worker is done with its host. -/
def finish (m : Monitor) (h : Host) (phase : Phase) : List (Host × Phase) :=
  m.workers.erase (h, phase)

def setStats (set : HostSet) (h : Host) (stats : Stats) : HostSet :=
  { set with stats := Function.update set.stats h stats }

/-- The counter of a check and the stats behind it. -/
def count (stats : Stats) (ok : Bool) : UInt64 × Stats :=
  if ok then stats.incSuccessfulCount else stats.incFailedCount

/-- The threshold that the counter of a check has to pass. -/
def threshold (m : Monitor) (ok : Bool) : UInt64 :=
  if ok then m.riseThreshold.toUInt64 else m.fallThreshold.toUInt64

/-- The compare-and-swap. -/
def setFlag (set : HostSet) (h : Host) (ok : Bool) : HostSet × Bool :=
  if ok then set.setHealthy h else set.setUnhealthy h

/-- The update under the lock. -/
def updateMaps (set : HostSet) (h : Host) (ok : Bool) : HostSet :=
  if ok then (set.putBack h).1 else (set.evict h).1

/-- The effect of one step; `none` when it is not enabled. -/
def step (m : Monitor) : MonitorStep → Option Monitor
  | .add hosts => some { m with hostSet := m.hostSet.add hosts }
  | .remove hosts => some { m with hostSet := m.hostSet.remove hosts }
  | .replaceAll hosts => some { m with hostSet := m.hostSet.replaceAll hosts }
  | .reset rise fall => some { m with riseThreshold := rise, fallThreshold := fall }
  | .tick hosts =>
    -- `checkHosts` has waited for the workers of the last round
    if m.hostCh = [] ∧ m.workers = [] ∧ hosts.Perm (values m.hostSet.all) then
      some { m with hostCh := hosts, concurrency := min hosts.length maximumConcurrency }
    else none
  | .take =>
    match m.hostCh with
    | h :: hosts =>
      if m.workers.length < m.concurrency then
        some { m with hostCh := hosts, workers := (h, .checking) :: m.workers }
      else none
    | [] => none
  | .check h ok =>
    if (h, .checking) ∈ m.workers then
      let (counter, stats) := count (m.hostSet.stats h) ok
      some { m with
        hostSet := setStats m.hostSet h stats
        workers :=
          if m.threshold ok < counter then m.advance h .checking (.counted ok)
          else m.finish h .checking }
    else none
  | .swap h ok =>
    if (h, .counted ok) ∈ m.workers then
      let (set, changed) := setFlag m.hostSet h ok
      some { m with
        hostSet := set
        workers :=
          if changed then m.advance h (.counted ok) (.marking ok) else m.finish h (.counted ok) }
    else none
  | .update h ok =>
    if (h, .marking ok) ∈ m.workers then
      some { m with
        hostSet := updateMaps m.hostSet h ok
        workers := m.finish h (.marking ok) }
    else none

end Monitor

/-- A monitor of an empty set. -/
def newMonitor (riseThreshold fallThreshold : UInt32) : Monitor where
  hostSet := emptySet
  riseThreshold := riseThreshold
  fallThreshold := fallThreshold
  hostCh := []
  concurrency := 0
  workers := []

namespace Monitor

/-- A transition. -/
inductive Step (m : Monitor) : MonitorStep → Monitor → Prop where
  | add {hosts : List Host} : Step m (.add hosts) { m with hostSet := m.hostSet.add hosts }
  | remove {hosts : List Host} :
      Step m (.remove hosts) { m with hostSet := m.hostSet.remove hosts }
  | replaceAll {hosts : List Host} :
      Step m (.replaceAll hosts) { m with hostSet := m.hostSet.replaceAll hosts }
  | reset {rise fall : UInt32} :
      Step m (.reset rise fall) { m with riseThreshold := rise, fallThreshold := fall }
  | tick {hosts : List Host} (hhostCh : m.hostCh = []) (hworkers : m.workers = [])
      (hhosts : hosts.Perm (values m.hostSet.all)) :
      Step m (.tick hosts)
        { m with hostCh := hosts, concurrency := min hosts.length maximumConcurrency }
  | take {h : Host} {hosts : List Host} (hhostCh : m.hostCh = h :: hosts)
      (hfree : m.workers.length < m.concurrency) :
      Step m .take { m with hostCh := hosts, workers := (h, .checking) :: m.workers }
  | check {h : Host} {ok : Bool} {workers : List (Host × Phase)}
      (hworker : (h, .checking) ∈ m.workers)
      (hworkers : workers = m.advance h .checking (.counted ok) ∨
        workers = m.finish h .checking) :
      Step m (.check h ok) { m with
        hostSet := setStats m.hostSet h (count (m.hostSet.stats h) ok).2
        workers := workers }
  | swap {h : Host} {ok : Bool} (hworker : (h, .counted ok) ∈ m.workers)
      (hflag : (m.hostSet.stats h).isHealthy = !ok) :
      Step m (.swap h ok) { m with
        hostSet := setStats m.hostSet h ⟨ok, 0, 0⟩
        workers := m.advance h (.counted ok) (.marking ok) }
  | skip {h : Host} {ok : Bool} (hworker : (h, .counted ok) ∈ m.workers)
      (hflag : (m.hostSet.stats h).isHealthy = ok) :
      Step m (.swap h ok) { m with
        hostSet := setStats m.hostSet h ⟨ok, 0, 0⟩
        workers := m.finish h (.counted ok) }
  | update {h : Host} {ok : Bool} (hworker : (h, .marking ok) ∈ m.workers) :
      Step m (.update h ok) { m with
        hostSet := updateMaps m.hostSet h ok
        workers := m.finish h (.marking ok) }

theorem setFlag_eq (set : HostSet) (h : Host) (ok : Bool) : setFlag set h ok =
    (setStats set h ⟨ok, 0, 0⟩, (set.stats h).isHealthy == !ok) := by
  cases ok <;> simp [setFlag, setStats, HostSet.setHealthy, HostSet.setUnhealthy]

theorem step_cases {m m' : Monitor} {a : MonitorStep} (h : m.step a = some m') : Step m a m' := by
  cases a with
  | add hosts =>
    cases h
    exact .add
  | remove hosts =>
    cases h
    exact .remove
  | replaceAll hosts =>
    cases h
    exact .replaceAll
  | reset rise fall =>
    cases h
    exact .reset
  | tick hosts =>
    simp only [step] at h
    split at h <;> cases h
    rename_i hguard
    exact .tick hguard.1 hguard.2.1 hguard.2.2
  | take =>
    simp only [step] at h
    split at h
    · split at h <;> cases h
      exact .take ‹_› ‹_›
    · cases h
  | check g ok =>
    simp only [step] at h
    split at h <;> cases h
    refine .check ‹_› ?_
    split
    · exact .inl rfl
    · exact .inr rfl
  | swap g ok =>
    simp only [step, setFlag_eq] at h
    split at h <;> cases h
    by_cases hflag : (m.hostSet.stats g).isHealthy = !ok
    · rw [if_pos (beq_iff_eq.mpr hflag)]
      exact .swap ‹_› hflag
    · rw [if_neg (by simpa using hflag)]
      exact .skip ‹_› (by simpa using hflag)
  | update g ok =>
    simp only [step] at h
    split at h <;> cases h
    exact .update ‹_›

/-! ## Workers -/

variable {m m' : Monitor} {h g : Host} {old new phase : Phase}

/-- A mark of the host is in progress. -/
def Marking (m : Monitor) (h : Host) : Prop := ∃ ok, (h, .marking ok) ∈ m.workers

instance (m : Monitor) (h : Host) : Decidable (m.Marking h) :=
  inferInstanceAs (Decidable (∃ _ : Bool, _))

/-- A worker that is done is the only one that goes. -/
theorem mem_finish (hnodup : (m.workers.map Prod.fst).Nodup) (hworker : (h, old) ∈ m.workers) :
    (g, phase) ∈ m.finish h old ↔ (g, phase) ∈ m.workers ∧ g ≠ h := by
  rw [finish, (hnodup.of_map _).mem_erase_iff, and_comm, and_congr_right_iff]
  intro hmem
  refine ⟨fun hne hg => hne ?_, fun hne heq => hne (Prod.mk.inj heq).1⟩
  -- a host is with one worker only
  subst hg
  exact List.inj_on_of_nodup_map hnodup hmem hworker rfl

/-- A worker that goes on is the only one that changes its phase. -/
theorem mem_advance (hnodup : (m.workers.map Prod.fst).Nodup) (hworker : (h, old) ∈ m.workers) :
    (g, phase) ∈ m.advance h old new ↔
      g = h ∧ phase = new ∨ (g, phase) ∈ m.workers ∧ g ≠ h := by
  rw [advance, List.mem_cons, Prod.mk.injEq, ← finish, mem_finish hnodup hworker]

theorem advance_perm (hworker : (h, old) ∈ m.workers) :
    ((m.advance h old new).map Prod.fst).Perm (m.workers.map Prod.fst) := by
  rw [advance, List.map_cons]
  exact ((List.perm_cons_erase hworker).map Prod.fst).symm

theorem finish_sublist : ((m.finish h old).map Prod.fst).Sublist (m.workers.map Prod.fst) :=
  List.erase_sublist.map _

/-! ## Flags and maps -/

end Monitor

namespace HostSet

variable {set : HostSet} {hosts : List Host} {h g : Host} {typ : HostType} {a : Bytes}

/-- The host is in its healthy map exactly if its flag is set. -/
def Agrees (set : HostSet) (h : Host) : Prop :=
  (set.healthyMap h.type).lookup h.addr = some h ↔ (set.stats h).isHealthy = true

/-- `Add` leaves the addresses alone that it is not given. -/
theorem lookup_healthyMap_add (htyp : typ ≠ .unknown) (ha : lastAt Host.addr hosts a = none) :
    ((set.add hosts).healthyMap typ).lookup a = (set.healthyMap typ).lookup a := by
  have hnone : lastAt Host.addr (ofType typ hosts) a = none :=
    lastAt_eq_none.mpr fun g hg => lastAt_eq_none.mp ha g (mem_ofType.mp hg).1
  rw [healthyMap_add htyp, lookup_insertAll, hnone, Option.none_or]

/-- The last host added under an address is put into the healthy map of its type. -/
theorem lookup_healthyMap_lastAt (htype : h.type ≠ .unknown)
    (hlast : lastAt Host.addr hosts h.addr = some h) :
    ((set.add hosts).healthyMap h.type).lookup h.addr = some h := by
  have hh : lastAt Host.addr (ofType h.type hosts) h.addr = some h :=
    lastAt_filter hlast (by simp)
  rw [healthyMap_add htype, lookup_insertAll, hh, Option.some_or]

/-- `Remove` leaves the addresses alone that it is not given. -/
theorem lookup_healthyMap_remove (htyp : typ ≠ .unknown) (ha : a ∉ hosts.map Host.addr) :
    ((set.remove hosts).healthyMap typ).lookup a = (set.healthyMap typ).lookup a := by
  rw [healthyMap_remove htyp, lookup_eraseAll, if_neg]
  intro hmem
  obtain ⟨g, hg, rfl⟩ := List.mem_map.mp hmem
  exact ha (List.mem_map_of_mem (mem_ofType.mp hg).1)

/-- A registered host was given to `Add`, as the last of its address, or was there before. -/
theorem add_registered (hreg : (set.add hosts).all.lookup h.addr = some h) :
    lastAt Host.addr hosts h.addr = some h ∨
      lastAt Host.addr hosts h.addr = none ∧ set.all.lookup h.addr = some h := by
  rw [add_all, lookup_insertAll] at hreg
  cases hlast : lastAt Host.addr hosts h.addr with
  | some l => exact .inl (by rwa [hlast, Option.some_or] at hreg)
  | none => exact .inr ⟨rfl, by rwa [hlast, Option.none_or] at hreg⟩

end HostSet

namespace Monitor

open HostSet

variable {set : HostSet} {h g : Host} {typ : HostType} {a : Bytes} {ok : Bool}

theorem updateMaps_same : (updateMaps set h ok).all = set.all ∧
    (updateMaps set h ok).stats = set.stats := by
  cases ok with
  | true =>
    rw [updateMaps, if_pos rfl, putBack]
    split
    · exact ⟨rfl, rfl⟩
    · exact ⟨sameHosts_addToHealthy.all, sameHosts_addToHealthy.stats⟩
  | false =>
    rw [updateMaps, if_neg (by decide), evict]
    split
    · exact ⟨rfl, rfl⟩
    · exact ⟨sameHosts_removeFromHealthy.all, sameHosts_removeFromHealthy.stats⟩

theorem shape_updateMaps (hset : Shape set) : Shape (updateMaps set h ok) := by
  cases ok with
  | true => exact hset.putBack
  | false => exact hset.evict

/-- When a host is registered under the address, the update is on the entry of that address in
    the map of the type of the object. -/
theorem lookup_updateMaps (htyp : typ ≠ .unknown) {r : Host}
    (hreg : set.all.lookup h.addr = some r) :
    ((updateMaps set h ok).healthyMap typ).lookup a =
      if typ = h.type ∧ a = h.addr then (if ok then some h else none)
      else (set.healthyMap typ).lookup a := by
  cases ok with
  | true =>
    rw [updateMaps, if_pos rfl, putBack, hreg]
    show ((set.addToHealthy [h]).healthyMap typ).lookup a = _
    rw [healthyMap_addToHealthy htyp, lookup_insertAll]
    -- the entry that is written, and all others
    by_cases hboth : typ = h.type ∧ a = h.addr
    · obtain ⟨rfl, rfl⟩ := hboth
      simp [ofType, lastAt]
    · rw [if_neg hboth]
      by_cases htype : h.type = typ
      · have haddr : ¬ h.addr = a := fun haddr => hboth ⟨htype.symm, haddr.symm⟩
        simp [ofType, lastAt, htype, haddr]
      · simp [ofType, lastAt, htype]
  | false =>
    rw [updateMaps, if_neg (by decide), evict, hreg]
    show ((set.removeFromHealthy [h]).healthyMap typ).lookup a = _
    rw [healthyMap_removeFromHealthy htyp, lookup_eraseAll]
    by_cases htype : h.type = typ
    · simp [ofType, htype]
    · have hne : ¬ typ = h.type := fun heq => htype heq.symm
      simp [ofType, htype, hne]

/-- The maps do not change for a host that is not registered. -/
theorem updateMaps_unregistered (hreg : set.all.lookup h.addr = none) :
    updateMaps set h ok = set := by
  cases ok <;> simp [updateMaps, putBack, evict, hreg]

theorem healthyMap_setStats {stats : Stats} :
    (setStats set h stats).healthyMap typ = set.healthyMap typ := by
  cases typ <;> rfl

theorem isHealthy_setStats {stats : Stats}
    (hsame : g = h → stats.isHealthy = (set.stats h).isHealthy) :
    ((setStats set h stats).stats g).isHealthy = (set.stats g).isHealthy := by
  by_cases hg : g = h
  · subst hg
    simp [setStats, hsame rfl]
  · simp [setStats, hg]

/-- A check alone does not change the flag. -/
theorem isHealthy_count (stats : Stats) : (count stats ok).2.isHealthy = stats.isHealthy := by
  cases ok <;> rfl

/-! ## Agreement -/

variable {m m' : Monitor} {s : MonitorStep}

/-- The host is the object registered under its address. -/
def Holds (m : Monitor) (h : Host) : Prop := m.hostSet.all.lookup h.addr = some h

instance (m : Monitor) (h : Host) : Decidable (m.Holds h) := inferInstanceAs (Decidable (_ = _))

/-- The hosts a list registers have a known type, and their flag is set or being changed. -/
def AddsHealthy (m : Monitor) (hosts : List Host) : Prop :=
  ∀ l ∈ hosts, lastAt Host.addr hosts l.addr = some l →
    l.type ≠ .unknown ∧ ((m.hostSet.stats l).isHealthy = true ∨ m.Marking l)

/-- The condition on the steps: hosts are added with their flag set, and the update of a mark does
    not fall on the entry of another healthy host. -/
def KeepsAgreement (m : Monitor) : MonitorStep → Prop
  | .add hosts => m.AddsHealthy hosts
  | .replaceAll hosts => m.AddsHealthy hosts
  | .update h _ => ∀ r ∈ m.hostSet.all.lookup h.addr,
      r = h ∨ r.type ≠ h.type ∨ (m.hostSet.stats r).isHealthy = false
  | _ => True

instance (m : Monitor) (hosts : List Host) : Decidable (m.AddsHealthy hosts) :=
  inferInstanceAs (Decidable (∀ l ∈ _, _ → _ ∧ (_ ∨ _)))

instance (m : Monitor) (s : MonitorStep) : Decidable (m.KeepsAgreement s) :=
  match s with
  | .add hosts => inferInstanceAs (Decidable (m.AddsHealthy hosts))
  | .replaceAll hosts => inferInstanceAs (Decidable (m.AddsHealthy hosts))
  | .update _ _ => inferInstanceAs (Decidable (∀ r ∈ _, _ ∨ _ ∨ _))
  | .remove _ => isTrue trivial
  | .reset _ _ => isTrue trivial
  | .tick _ => isTrue trivial
  | .take => isTrue trivial
  | .check _ _ => isTrue trivial
  | .swap _ _ => isTrue trivial

/-- The workers of a round have different hosts, and the hosts of a set are kept by address. -/
structure Tidy (m : Monitor) : Prop where
  shape : Shape m.hostSet
  nodup : (m.workers.map Prod.fst ++ m.hostCh).Nodup

theorem Tidy.nodup_workers (hm : Tidy m) : (m.workers.map Prod.fst).Nodup :=
  hm.nodup.of_append_left

theorem Tidy.step (hm : Tidy m) (hstep : Step m s m') : Tidy m' := by
  cases hstep with
  | add => exact ⟨hm.shape.add, hm.nodup⟩
  | remove => exact ⟨hm.shape.remove, hm.nodup⟩
  | replaceAll => exact ⟨hm.shape.replaceAll, hm.nodup⟩
  | reset => exact ⟨hm.shape, hm.nodup⟩
  -- the channel is empty and no worker is at work, so the hosts of the round are alone
  | tick hhostCh hworkers hhosts =>
    refine ⟨hm.shape, ?_⟩
    rw [hworkers]
    exact hhosts.nodup_iff.mpr hm.shape.all.nodup_values
  -- a host goes from the channel to a worker
  | take hhostCh hfree =>
    refine ⟨hm.shape, ?_⟩
    have hnodup := hm.nodup
    rw [hhostCh] at hnodup
    exact List.perm_middle.nodup_iff.mp hnodup
  | check hworker hworkers =>
    refine ⟨hm.shape.of_same hm.shape.all rfl rfl rfl, ?_⟩
    rcases hworkers with rfl | rfl
    · exact ((advance_perm hworker).append_right _).nodup_iff.mpr hm.nodup
    · exact hm.nodup.sublist (finish_sublist.append_right _)
  | swap hworker _ =>
    exact ⟨hm.shape.of_same hm.shape.all rfl rfl rfl,
      ((advance_perm hworker).append_right _).nodup_iff.mpr hm.nodup⟩
  | skip hworker _ =>
    exact ⟨hm.shape.of_same hm.shape.all rfl rfl rfl,
      hm.nodup.sublist (finish_sublist.append_right _)⟩
  | update hworker =>
    exact ⟨shape_updateMaps hm.shape, hm.nodup.sublist (finish_sublist.append_right _)⟩

/-- What holds of the monitor and its set in every state. -/
structure Inv (m : Monitor) : Prop where
  shape : Shape m.hostSet
  nodup : (m.workers.map Prod.fst ++ m.hostCh).Nodup
  /-- the flag of a host stays as the mark has left it -/
  flagged : ∀ h ok, (h, .marking ok) ∈ m.workers → (m.hostSet.stats h).isHealthy = ok
  known : ∀ h, m.Holds h → h.type ≠ .unknown
  agrees : ∀ h, m.Holds h → ¬ m.Marking h → m.hostSet.Agrees h

theorem inv_newMonitor (rise fall : UInt32) : Inv (newMonitor rise fall) where
  shape := shape_emptySet
  nodup := List.nodup_nil
  flagged := by
    intro h ok hmem
    cases hmem
  known := by
    intro h hreg
    cases hreg
  agrees := by
    intro h hreg
    cases hreg

theorem Inv.tidy (hm : Inv m) : Tidy m := ⟨hm.shape, hm.nodup⟩

theorem Inv.nodup_workers (hm : Inv m) : (m.workers.map Prod.fst).Nodup := hm.tidy.nodup_workers

/-- The controller adds hosts, behind the removal of others. -/
theorem Inv.add (hm : Inv m) {hosts : List Host} (hadds : m.AddsHealthy hosts) :
    Inv { m with hostSet := m.hostSet.add hosts } where
  shape := hm.shape.add
  nodup := hm.nodup
  flagged := by
    intro h ok hmem
    rw [add_stats]
    exact hm.flagged h ok hmem
  known := by
    intro h hreg
    rcases add_registered hreg with hlast | ⟨-, hold⟩
    · exact (hadds h (lastAt_eq_some hlast).1 hlast).1
    · exact hm.known h hold
  agrees := by
    intro h hreg hnot
    rw [Agrees, add_stats]
    rcases add_registered hreg with hlast | ⟨hnone, hold⟩
    · obtain ⟨htype, hflag⟩ := hadds h (lastAt_eq_some hlast).1 hlast
      exact iff_of_true (lookup_healthyMap_lastAt htype hlast) (hflag.resolve_right hnot)
    · rw [lookup_healthyMap_add (hm.known h hold) hnone]
      exact hm.agrees h hold hnot

/-- The hosts that are left are as they were. -/
theorem Inv.remove (hm : Inv m) (hosts : List Host) :
    Inv { m with hostSet := m.hostSet.remove hosts } := by
  have hreg : ∀ h, Holds { m with hostSet := m.hostSet.remove hosts } h →
      h.addr ∉ hosts.map Host.addr ∧ m.Holds h := by
    intro h hreg
    rw [Holds, remove_all, lookup_eraseAll] at hreg
    split at hreg
    · cases hreg
    · exact ⟨‹_›, hreg⟩
  exact
    { shape := hm.shape.remove
      nodup := hm.nodup
      flagged := by
        intro h ok hmem
        rw [remove_stats]
        exact hm.flagged h ok hmem
      known := fun h hh => hm.known h (hreg h hh).2
      agrees := by
        intro h hh hnot
        obtain ⟨haddr, hold⟩ := hreg h hh
        rw [Agrees, remove_stats, lookup_healthyMap_remove (hm.known h hold) haddr]
        exact hm.agrees h hold hnot }

theorem Inv.removeEach (hm : Inv m) (hosts : List Host) :
    Inv { m with hostSet := m.hostSet.removeEach hosts } := by
  induction hosts generalizing m with
  | nil => exact hm
  | cons h hosts ih => exact ih (hm.remove [h])

/-- Steps that change neither the maps nor a flag, nor which marks are in progress. -/
theorem Inv.of_same (hm : Inv m) (htidy : Tidy m')
    (hall : m'.hostSet.all = m.hostSet.all)
    (hmaps : ∀ typ, m'.hostSet.healthyMap typ = m.hostSet.healthyMap typ)
    (hflags : ∀ g, (m'.hostSet.stats g).isHealthy = (m.hostSet.stats g).isHealthy)
    (hmarks : ∀ g ok, (g, .marking ok) ∈ m'.workers ↔ (g, .marking ok) ∈ m.workers) : Inv m' where
  shape := htidy.shape
  nodup := htidy.nodup
  flagged := by
    intro h ok hmem
    rw [hflags]
    exact hm.flagged h ok ((hmarks h ok).mp hmem)
  known := by
    intro h hreg
    rw [Holds, hall] at hreg
    exact hm.known h hreg
  agrees := by
    intro h hreg hnot
    rw [Holds, hall] at hreg
    rw [Agrees, hmaps, hflags]
    refine hm.agrees h hreg fun ⟨ok, hmem⟩ => hnot ⟨ok, (hmarks h ok).mpr hmem⟩

/-- The worker that has set the flag brings the maps in line with it. -/
theorem Inv.update (hm : Inv m) (hworker : (h, .marking ok) ∈ m.workers)
    (hkeeps : m.KeepsAgreement (.update h ok)) :
    Inv { m with
      hostSet := updateMaps m.hostSet h ok
      workers := m.finish h (.marking ok) } where
  shape := shape_updateMaps hm.shape
  nodup := hm.nodup.sublist (finish_sublist.append_right _)
  flagged := by
    intro g ok' hmem
    rw [updateMaps_same.2]
    exact hm.flagged g ok' ((mem_finish hm.nodup_workers hworker).mp hmem).1
  known := by
    intro g hreg
    rw [Holds, updateMaps_same.1] at hreg
    exact hm.known g hreg
  agrees := by
    intro g hreg hnot
    rw [Holds, updateMaps_same.1] at hreg
    have htype := hm.known g hreg
    rw [Agrees, updateMaps_same.2]
    by_cases hgh : g = h
    · -- the entry is now as the flag says
      subst hgh
      rw [lookup_updateMaps htype hreg, if_pos ⟨rfl, rfl⟩, hm.flagged g ok hworker]
      cases ok <;> simp
    · have hold : m.hostSet.Agrees g := hm.agrees g hreg fun ⟨ok', hmem⟩ =>
        hnot ⟨ok', (mem_finish hm.nodup_workers hworker).mpr ⟨hmem, hgh⟩⟩
      cases hr : m.hostSet.all.lookup h.addr with
      | none =>
        rw [updateMaps_unregistered hr]
        exact hold
      | some r =>
        rw [lookup_updateMaps htype hr]
        split
        · -- the entry of `g` is gone, and it was not there before
          rename_i hboth
          obtain rfl : r = g := Option.some.inj (hr.symm.trans (hboth.2 ▸ hreg))
          have hflag : (m.hostSet.stats r).isHealthy = false :=
            ((hkeeps r hr).resolve_left hgh).resolve_left (not_not.mpr hboth.1)
          rw [hflag]
          refine iff_of_false ?_ (by decide)
          cases ok with
          | true => exact fun heq => hgh (Option.some.inj heq).symm
          | false => exact fun heq => by cases heq
        · exact hold

/-- A host that is checked is not being marked. -/
theorem Inv.ne_of_marking (hm : Inv m) {phase : Phase} (hworker : (h, phase) ∈ m.workers)
    (hphase : ∀ ok, phase ≠ .marking ok) (hmem : (g, .marking ok) ∈ m.workers) : g ≠ h := by
  rintro rfl
  have heq := List.inj_on_of_nodup_map hm.nodup_workers hmem hworker rfl
  exact hphase ok (Prod.mk.inj heq).2.symm

/-- A worker is done with a host that it does not mark. -/
theorem Inv.marking_finish (hm : Inv m) {phase : Phase} (hworker : (h, phase) ∈ m.workers)
    (hphase : ∀ ok, phase ≠ .marking ok) :
    (g, .marking ok) ∈ m.finish h phase ↔ (g, .marking ok) ∈ m.workers := by
  rw [mem_finish hm.nodup_workers hworker, and_iff_left_iff_imp]
  exact hm.ne_of_marking hworker hphase

/-- The flag changes before the maps do; the worker knows that it has to go on. -/
theorem Inv.swap (hm : Inv m) (hworker : (h, .counted ok) ∈ m.workers) :
    Inv { m with
      hostSet := setStats m.hostSet h ⟨ok, 0, 0⟩
      workers := m.advance h (.counted ok) (.marking ok) } where
  shape := hm.shape.of_same hm.shape.all rfl rfl rfl
  nodup := ((advance_perm hworker).append_right _).nodup_iff.mpr hm.nodup
  flagged := by
    intro g ok' hmem
    rcases (mem_advance hm.nodup_workers hworker).mp hmem with ⟨rfl, hphase⟩ | ⟨hold, hne⟩
    · cases hphase
      simp [setStats]
    · rw [isHealthy_setStats fun heq => absurd heq hne]
      exact hm.flagged g ok' hold
  known := hm.known
  agrees := by
    intro g hreg hnot
    have hne : g ≠ h := by
      rintro rfl
      exact hnot ⟨ok, (mem_advance hm.nodup_workers hworker).mpr (.inl ⟨rfl, rfl⟩)⟩
    have hold : m.hostSet.Agrees g := hm.agrees g hreg fun ⟨ok', hmem⟩ =>
      hnot ⟨ok', (mem_advance hm.nodup_workers hworker).mpr (.inr ⟨hmem, hne⟩)⟩
    rw [Agrees, healthyMap_setStats, isHealthy_setStats fun heq => absurd heq hne]
    exact hold

theorem Inv.step (hm : Inv m) (hkeeps : m.KeepsAgreement s) (h : Step m s m') : Inv m' := by
  have htidy := hm.tidy.step h
  cases h with
  | add => exact hm.add hkeeps
  | remove => exact hm.remove _
  | replaceAll =>
    refine (hm.removeEach (values m.hostSet.all)).add fun l hl hlast => ?_
    obtain ⟨htype, hflag⟩ := hkeeps l hl hlast
    exact ⟨htype, by rwa [removeEach_stats]⟩
  | reset | tick => exact hm.of_same htidy rfl (fun _ => rfl) (fun _ => rfl) fun _ _ => Iff.rfl
  | take => exact hm.of_same htidy rfl (fun _ => rfl) (fun _ => rfl) fun g ok => by simp
  | check hworker hworkers =>
    refine hm.of_same htidy rfl (fun _ => healthyMap_setStats)
      (fun g => isHealthy_setStats fun _ => isHealthy_count _) fun g ok' => ?_
    rcases hworkers with rfl | rfl
    · rw [advance, List.mem_cons, ← finish, hm.marking_finish hworker (by simp)]
      simp
    · exact hm.marking_finish hworker (by simp)
  | swap hworker hflag => exact hm.swap hworker
  | skip hworker hflag =>
    refine hm.of_same htidy rfl (fun _ => healthyMap_setStats)
      (fun g => isHealthy_setStats fun _ => hflag.symm) fun g ok' => ?_
    exact hm.marking_finish hworker (by simp)
  | update hworker => exact hm.update hworker hkeeps

/-- **Agreement of flags and maps**: in every run that meets `KeepsAgreement`, in every state
    where no mark is in progress, each registered host is in its healthy map exactly if its flag
    is set. -/
theorem agrees_of_runMeets {rise fall : UInt32} {as : List MonitorStep}
    (hmeets : RunMeets step KeepsAgreement (newMonitor rise fall) as) :
    ∀ bs t, bs <+: as → runFrom step (newMonitor rise fall) bs = some t →
      (∀ h, ¬ t.Marking h) → ∀ h, t.Holds h → t.hostSet.Agrees h := by
  intro bs t hbs hrun hquiet h hreg
  have hstep : ∀ (m : Monitor) (s : MonitorStep) (m' : Monitor), Inv m → KeepsAgreement m s →
      m.step s = some m' → Inv m' := fun m s m' hm hkeeps h => hm.step hkeeps (step_cases h)
  have hinv := invariant_of_runMeets hstep (inv_newMonitor rise fall)
    (runMeets_of_isPrefix hmeets hbs) hrun
  exact hinv.agrees h hreg (hquiet h)

end Monitor

/-! ## Sample runs -/

def oldHost : Host := ⟨1, [1], .main⟩

/-- Another object with the address of `oldHost`. -/
def newHost : Host := ⟨2, [1], .main⟩

/-- Two rounds in which the check of `oldHost` fails, up to the swap of the mark. -/
def failingRounds : List MonitorStep :=
  [.add [oldHost], .tick [oldHost], .take, .check oldHost false,
    .tick [oldHost], .take, .check oldHost false, .swap oldHost false]

theorem run_evicting :
    (runFrom Monitor.step (newMonitor 1 1)
      (failingRounds ++ [.remove [oldHost], .add [newHost], .update oldHost false])).any
      fun t => t.workers = [] ∧ t.Holds newHost ∧ (t.hostSet.stats newHost).isHealthy = true ∧
        t.hostSet.healthyMain.lookup newHost.addr = none := by
  decide +kernel

/-- While `oldHost` is marked as unhealthy it is replaced under its address; the update evicts the
    new host, whose flag is set. -/
theorem not_agrees_newHost :
    ∃ t, runFrom Monitor.step (newMonitor 1 1)
        (failingRounds ++ [.remove [oldHost], .add [newHost], .update oldHost false]) = some t ∧
      (∀ h, ¬ t.Marking h) ∧ t.Holds newHost ∧ ¬ t.hostSet.Agrees newHost := by
  obtain ⟨t, hrun, hworkers, hreg, hflag, hlookup⟩ := exists_of_any run_evicting
  refine ⟨t, hrun, ?_, hreg, fun hagrees => ?_⟩
  · rintro h ⟨ok, hmem⟩
    rw [hworkers] at hmem
    cases hmem
  · have hin : t.hostSet.healthyMain.lookup newHost.addr = some newHost := hagrees.mpr hflag
    rw [hlookup] at hin
    cases hin

/-- The update comes before the host is replaced. -/
def replacedLater : List MonitorStep :=
  failingRounds ++ [.update oldHost false, .remove [oldHost], .add [newHost]]

theorem run_replacedLater :
    (runFrom Monitor.step (newMonitor 1 1) replacedLater).any
      fun t => t.workers = [] ∧ t.Holds newHost := by
  decide +kernel

theorem runMeets_replacedLater :
    RunMeets Monitor.step Monitor.KeepsAgreement (newMonitor 1 1) replacedLater := by
  decide +kernel

theorem agrees_of_runMeets_replacedLater :
    ∃ t, runFrom Monitor.step (newMonitor 1 1) replacedLater = some t ∧ t.Holds newHost ∧
      t.hostSet.Agrees newHost := by
  obtain ⟨t, hrun, hworkers, hholds⟩ := exists_of_any run_replacedLater
  have hquiet : ∀ h, ¬ t.Marking h := by
    rintro h ⟨ok, hmem⟩
    rw [hworkers] at hmem
    cases hmem
  exact ⟨t, hrun, hholds, Monitor.agrees_of_runMeets runMeets_replacedLater _ t
    (List.prefix_refl _) hrun hquiet newHost hholds⟩

end Samaritan.Hosts
