import Samaritan.Hosts.Set

/-!
# Registered Hosts

A host in a healthy map should be the object that is registered under its address, and a host
that is not registered any more should have its `removeCh` closed. The operations find hosts by
address, but choose the healthy map by the type of the object they are given and close the
channel of that object. The module finds exactly which sequences of operations keep the two
properties.
-/

namespace Samaritan.Hosts

open Samaritan.Lib

namespace HostSet

variable {set : HostSet} {hosts : List Host} {h : Host} {op : SetOp} {ops : List SetOp}

/-! ## Hosts that are returned -/

/-- The hosts of the two healthy maps. -/
def healthyHosts (set : HostSet) : List Host :=
  values set.healthyMain ++ values set.healthyBackup

/-- The host may be returned by `Healthy` or `Random`. -/
def Returned (set : HostSet) (h : Host) : Prop :=
  h ∈ set.healthyCache ∨ ∃ target, set.random target = some h

/-- The hosts of the healthy maps, and those that are returned, are the registered objects. -/
structure Registered (set : HostSet) : Prop where
  maps : ∀ h ∈ set.healthyHosts, set.all.lookup h.addr = some h
  returned : ∀ h, set.Returned h → set.all.lookup h.addr = some h

/-- Exactly the operations that keep the healthy hosts registered. -/
def KeepsRegistered (set : HostSet) : SetOp → Prop
  -- the last host added under an address leaves no host of another type in a healthy map
  | .add hosts => ∀ h ∈ hosts ++ set.healthyHosts, h.type ≠ .unknown →
      ∀ l ∈ lastAt Host.addr hosts h.addr, l.type = h.type
  -- a healthy host is removed by its address and its type
  | .remove hosts => ∀ h ∈ set.healthyHosts, h.addr ∈ hosts.map Host.addr →
      ∃ r ∈ hosts, r.addr = h.addr ∧ r.type = h.type
  | .replaceAll hosts => ∀ h ∈ hosts, h.type ≠ .unknown →
      ∀ l ∈ lastAt Host.addr hosts h.addr, l.type = h.type
  -- a host that recovers has not been replaced
  | .markHostHealthy h => (set.stats h).isHealthy = false → h.type ≠ .unknown →
      ∀ r ∈ set.all.lookup h.addr, r = h
  | .markHostUnhealthy _ => True

instance (set : HostSet) (op : SetOp) : Decidable (KeepsRegistered set op) :=
  match op with
  | .add _ => inferInstanceAs (Decidable (∀ h ∈ _, _ → ∀ l ∈ _, _))
  | .remove _ => inferInstanceAs (Decidable (∀ h ∈ _, _ → ∃ r ∈ _, _ ∧ _))
  | .replaceAll _ => inferInstanceAs (Decidable (∀ h ∈ _, _ → ∀ l ∈ _, _))
  | .markHostHealthy _ => inferInstanceAs (Decidable (_ → _ → ∀ r ∈ _, _))
  | .markHostUnhealthy _ => isTrue trivial

/-- The healthy hosts are registered, with the map of a host named by its type. -/
def Sound (set : HostSet) : Prop :=
  ∀ h, (set.healthyMap h.type).lookup h.addr = some h → set.all.lookup h.addr = some h

/-- A healthy host is in the map of its type. -/
theorem Shape.mem_healthyHosts (hset : Shape set) :
    h ∈ set.healthyHosts ↔ (set.healthyMap h.type).lookup h.addr = some h := by
  rw [healthyHosts, List.mem_append, mem_values, mem_values]
  constructor
  · rintro (⟨a, ha⟩ | ⟨a, ha⟩)
    · obtain ⟨haddr, htype⟩ := hset.healthy .main a h ha
      rwa [haddr, htype]
    · obtain ⟨haddr, htype⟩ := hset.healthy .backup a h ha
      rwa [haddr, htype]
  · intro hlookup
    cases htype : h.type with
    | main => exact .inl ⟨h.addr, by rwa [htype] at hlookup⟩
    | backup => exact .inr ⟨h.addr, by rwa [htype] at hlookup⟩
    | unknown => exact absurd (htype ▸ hlookup) not_mem_unknown

theorem Shape.of_returned (hset : Shape set) (hret : set.Returned h) :
    (set.healthyMap h.type).lookup h.addr = some h := by
  have hmem : h ∈ values set.healthy := by
    rcases hret with hcache | ⟨target, hrandom⟩
    · rw [hset.cached] at hcache
      exact mem_sortedHosts.mp hcache
    · exact List.mem_of_getElem? hrandom
  obtain ⟨typ, htyp⟩ := hset.mem_healthy hmem
  rwa [(hset.healthy typ _ h htyp).2]

/-- That only registered hosts are returned is a property of the maps. -/
theorem Shape.registered_iff_sound (hset : Shape set) : Registered set ↔ Sound set := by
  constructor
  · intro hreg h hlookup
    exact hreg.maps h (hset.mem_healthyHosts.mpr hlookup)
  · intro hsound
    refine ⟨fun h hmem => ?_, fun h hret => ?_⟩
    · exact hsound h (hset.mem_healthyHosts.mp hmem)
    · exact hsound h (hset.of_returned hret)

theorem ne_unknown (hlookup : (set.healthyMap h.type).lookup h.addr = some h) :
    h.type ≠ .unknown := by
  intro htype
  rw [htype] at hlookup
  exact not_mem_unknown hlookup

/-- `Add` breaks it when hosts of one address have different types. -/
theorem Sound.add_iff (hset : Shape set) (hsound : Sound set) :
    Sound (set.add hosts) ↔ KeepsRegistered set (.add hosts) := by
  constructor
  · intro hafter h hmem htype l hl
    -- some host of this type is in the healthy map behind the addition, so it is registered
    have hsome : ∃ g, ((set.add hosts).healthyMap h.type).lookup h.addr = some g := by
      rw [healthyMap_add htype, lookup_insertAll]
      rcases List.mem_append.mp hmem with hnew | hold
      · obtain ⟨g, hg⟩ := exists_lastAt Host.addr (mem_ofType.mpr ⟨hnew, rfl⟩)
        exact ⟨g, by rw [hg, Option.some_or]⟩
      · rw [hset.mem_healthyHosts.mp hold]
        cases lastAt Host.addr (ofType h.type hosts) h.addr with
        | some g => exact ⟨g, rfl⟩
        | none => exact ⟨h, rfl⟩
    obtain ⟨g, hg⟩ := hsome
    obtain ⟨haddr, htypes⟩ := hset.add.healthy h.type h.addr g hg
    have hreg := hafter g (by rwa [htypes, haddr])
    rw [add_all, lookup_insertAll, haddr, Option.mem_def.mp hl, Option.some_or] at hreg
    rw [Option.some.inj hreg, htypes]
  · intro hkeeps h hlookup
    have htype := ne_unknown hlookup
    rw [healthyMap_add htype, lookup_insertAll] at hlookup
    rw [add_all, lookup_insertAll]
    cases hlast : lastAt Host.addr hosts h.addr with
    | none =>
      have hnone : lastAt Host.addr (ofType h.type hosts) h.addr = none :=
        lastAt_eq_none.mpr fun g hg => lastAt_eq_none.mp hlast g (mem_ofType.mp hg).1
      rw [hnone, Option.none_or] at hlookup
      rw [Option.none_or]
      exact hsound h hlookup
    | some l =>
      -- the last host has the type of `h`, so it is also the last one in the map of that type
      have hmem : h ∈ hosts ++ set.healthyHosts := by
        rw [List.mem_append]
        cases hg : lastAt Host.addr (ofType h.type hosts) h.addr with
        | some g =>
          rw [hg, Option.some_or] at hlookup
          cases hlookup
          exact .inl (mem_ofType.mp (lastAt_eq_some hg).1).1
        | none =>
          rw [hg, Option.none_or] at hlookup
          exact .inr (hset.mem_healthyHosts.mpr hlookup)
      have hl := lastAt_filter (p := fun g => g.type = h.type) hlast
        (by simpa using hkeeps h hmem htype l hlast)
      rw [ofType, hl, Option.some_or] at hlookup
      rw [Option.some_or, hlookup]

theorem Sound.remove_iff (hset : Shape set) (hsound : Sound set) :
    Sound (set.remove hosts) ↔ KeepsRegistered set (.remove hosts) := by
  constructor
  · intro hafter h hmem haddr
    by_contra hnone
    have hlookup := hset.mem_healthyHosts.mp hmem
    -- a healthy host that is not erased outlives the registered one
    have hstays : ((set.remove hosts).healthyMap h.type).lookup h.addr = some h := by
      rw [healthyMap_remove (ne_unknown hlookup), lookup_eraseAll, if_neg, hlookup]
      intro hr
      obtain ⟨r, hr, hraddr⟩ := List.mem_map.mp hr
      exact hnone ⟨r, (mem_ofType.mp hr).1, hraddr, (mem_ofType.mp hr).2⟩
    have hreg := hafter h hstays
    rw [remove_all, lookup_eraseAll, if_pos haddr] at hreg
    cases hreg
  · intro hkeeps h hlookup
    rw [healthyMap_remove (ne_unknown hlookup), lookup_eraseAll] at hlookup
    split at hlookup
    · cases hlookup
    · rename_i hother
      rw [remove_all, lookup_eraseAll, if_neg]
      · exact hsound h hlookup
      · intro haddr
        obtain ⟨r, hr, hraddr, hrtype⟩ :=
          hkeeps h (hset.mem_healthyHosts.mpr hlookup) haddr
        exact hother (List.mem_map.mpr ⟨r, mem_ofType.mpr ⟨hr, hrtype⟩, hraddr⟩)

/-- All hosts are removed first, so that nothing of them is left. -/
theorem Shape.lookup_removeEach (hset : Shape set) (a : Bytes) :
    (set.removeEach (values set.all)).all.lookup a = none := by
  rw [removeEach_all, lookup_eraseAll]
  split
  · rfl
  · rename_i hnot
    cases hlookup : set.all.lookup a with
    | none => rfl
    | some h =>
      exact absurd (List.mem_map.mpr ⟨h, mem_values.mpr ⟨a, hlookup⟩, hset.all a h hlookup⟩) hnot

/-- When the registered hosts are removed one by one, no healthy host is left. -/
theorem Sound.healthyHosts_removeEach (hset : Shape set) (hsound : Sound set) :
    h ∉ (set.removeEach (values set.all)).healthyHosts := by
  intro hmem
  have hlookup := hset.removeEach.mem_healthyHosts.mp hmem
  rw [healthyMap_removeEach (ne_unknown hlookup), lookup_eraseAll] at hlookup
  split at hlookup
  · cases hlookup
  · rename_i hnot
    have hreg : h ∈ values set.all := hset.all.mem_values.mpr (hsound h hlookup)
    exact hnot (List.mem_map.mpr ⟨h, mem_ofType.mpr ⟨hreg, rfl⟩, rfl⟩)

theorem Sound.replaceAll_iff (hset : Shape set) (hsound : Sound set) :
    Sound (set.replaceAll hosts) ↔ KeepsRegistered set (.replaceAll hosts) := by
  have hempty : ∀ h, h ∉ (set.removeEach (values set.all)).healthyHosts := fun h =>
    Sound.healthyHosts_removeEach hset hsound
  have hcleared : Sound (set.removeEach (values set.all)) := fun h hlookup =>
    absurd (hset.removeEach.mem_healthyHosts.mpr hlookup) (hempty h)
  rw [HostSet.replaceAll, Sound.add_iff hset.removeEach hcleared]
  constructor
  · intro hkeeps h hmem
    exact hkeeps h (List.mem_append_left _ hmem)
  · intro hkeeps h hmem
    rcases List.mem_append.mp hmem with hnew | hold
    · exact hkeeps h hnew
    · exact absurd hold (hempty h)

/-- A late check may put back a host whose address another one has by now. -/
theorem Sound.putBack_iff (hsound : Sound set) :
    Sound (set.putBack h).1 ↔ (h.type ≠ .unknown → ∀ r ∈ set.all.lookup h.addr, r = h) := by
  rw [HostSet.putBack]
  cases hreg : set.all.lookup h.addr with
  | none => simp [hsound]
  | some r =>
    show Sound (set.addToHealthy [h]) ↔ _
    constructor
    · intro hafter htype r' hr'
      obtain rfl := Option.some.inj hr'
      -- the object itself is in the map now, so it has to be the registered one
      have hput : ((set.addToHealthy [h]).healthyMap h.type).lookup h.addr = some h := by
        simp [healthyMap_addToHealthy htype, lookup_insertAll, ofType, lastAt]
      have hsame := hafter h hput
      rw [sameHosts_addToHealthy.all, hreg] at hsame
      exact Option.some.inj hsame
    · intro hkeeps g hlookup
      have htype := ne_unknown hlookup
      rw [sameHosts_addToHealthy.all]
      rw [healthyMap_addToHealthy htype, lookup_insertAll] at hlookup
      cases hlast : lastAt Host.addr (ofType g.type [h]) g.addr with
      | none =>
        rw [hlast, Option.none_or] at hlookup
        exact hsound g hlookup
      | some x =>
        rw [hlast, Option.some_or] at hlookup
        cases hlookup
        obtain rfl := List.mem_singleton.mp (mem_ofType.mp (lastAt_eq_some hlast).1).1
        rw [hreg, hkeeps htype r rfl]

theorem Sound.evict (hsound : Sound set) : Sound (set.evict h).1 := by
  rw [HostSet.evict]
  split
  · exact hsound
  · show Sound (set.removeFromHealthy [h])
    intro g hlookup
    rw [healthyMap_removeFromHealthy (ne_unknown hlookup), lookup_eraseAll] at hlookup
    split at hlookup
    · cases hlookup
    · rw [sameHosts_removeFromHealthy.all]
      exact hsound g hlookup

/-- One operation. -/
theorem Sound.apply_iff (hset : Shape set) (hsound : Sound set) :
    Sound (set.apply op) ↔ KeepsRegistered set op := by
  cases op with
  | add hosts => exact Sound.add_iff hset hsound
  | remove hosts => exact Sound.remove_iff hset hsound
  | replaceAll hosts => exact Sound.replaceAll_iff hset hsound
  -- the maps are touched only when the flag has changed
  | markHostHealthy h =>
    have hflagged : Sound (set.setHealthy h).1 := hsound
    rw [HostSet.apply]
    cases hflag : (set.stats h).isHealthy with
    | true =>
      rw [markHostHealthy_of_healthy hflag]
      simp [KeepsRegistered, hflag, hflagged]
    | false =>
      rw [markHostHealthy_of_unhealthy hflag, hflagged.putBack_iff]
      simp [KeepsRegistered, hflag, setHealthy]
  | markHostUnhealthy h =>
    have hflagged : Sound (set.setUnhealthy h).1 := hsound
    rw [HostSet.apply]
    cases hflag : (set.stats h).isHealthy with
    | true =>
      rw [markHostUnhealthy_of_healthy hflag]
      simp [KeepsRegistered, hflagged.evict]
    | false =>
      rw [markHostUnhealthy_of_unhealthy hflag]
      simp [KeepsRegistered, hflagged]

/-- No host with the address of a host that was removed last is returned. -/
def RemovedAway (ops : List SetOp) (set : HostSet) : Prop :=
  ∀ hosts, ops.getLast? = some (.remove hosts) → ∀ h ∈ hosts, ∀ g, set.Returned g →
    g.addr ≠ h.addr

theorem Registered.of_remove {set' : HostSet} (hreg : Registered set') {hosts : List Host}
    (hremove : set' = set.remove hosts) {g : Host} (hh : h ∈ hosts) (hret : set'.Returned g) :
    g.addr ≠ h.addr := by
  intro haddr
  have hlookup := hreg.returned g hret
  rw [hremove, remove_all, lookup_eraseAll, if_pos] at hlookup
  · cases hlookup
  · exact List.mem_map.mpr ⟨h, hh, haddr.symm⟩

/-- **Registered hosts**: along a sequence of operations the hosts of the healthy maps, and those
    that `Healthy` or `Random` may return, are always the objects registered under their
    addresses, and no host with the address of a host just removed is returned, exactly when
    every operation meets `KeepsRegistered`. -/
theorem registered_iff_keepsRegistered (ops : List SetOp) :
    (∀ bs t, bs <+: ops → runFrom step emptySet bs = some t →
      Registered t ∧ RemovedAway bs t) ↔ RunMeets step KeepsRegistered emptySet ops := by
  obtain ⟨t, hrun⟩ := exists_runFrom step (fun set op => ⟨set.apply op, rfl⟩) emptySet ops
  refine good_iff_runMeets (fun bs t => Registered t ∧ RemovedAway bs t) ?_ ?_ hrun
  · refine ⟨shape_emptySet.registered_iff_sound.mpr fun h hlookup => ?_, fun hosts hlast => ?_⟩
    · cases htype : h.type <;> rw [htype] at hlookup <;> cases hlookup
    · cases hlast
  · rintro bs s op t - hbs ⟨hreg, -⟩ hstep
    cases hstep
    have hshape := shape_of_run hbs
    have hsound := hshape.registered_iff_sound.mp hreg
    rw [(hshape.apply op).registered_iff_sound, ← Sound.apply_iff hshape hsound]
    refine ⟨And.left, fun hafter => ⟨hafter, fun hosts hlast h hh g hret => ?_⟩⟩
    rw [List.getLast?_concat] at hlast
    cases hlast
    exact ((hshape.apply _).registered_iff_sound.mpr hafter).of_remove rfl hh hret

end HostSet

def mainHost : Host := ⟨1, [1], .main⟩

/-- The endpoint of `mainHost` in a removal that gives it another type. -/
def backupHost : Host := ⟨2, [1], .backup⟩

/-- A main host is removed by its address as a backup host and goes on being returned. -/
theorem not_registered_backupHost :
    ∃ t, runFrom HostSet.step emptySet [.add [mainHost], .remove [backupHost]] = some t ∧
      t.all.lookup mainHost.addr = none ∧ t.Returned mainHost ∧ ¬ t.Registered := by
  refine ⟨_, rfl, by decide +kernel, ?_, fun hreg => ?_⟩
  · exact .inl (by decide +kernel)
  · exact absurd (hreg.maps mainHost (by decide +kernel)) (by decide +kernel)

/-! ## Hosts that are removed -/

/-- The hosts an operation puts into the map of all hosts. -/
def SetOp.registers : SetOp → List Host
  | .add hosts => hosts
  | .replaceAll hosts => hosts
  | _ => []

namespace HostSet

variable {set : HostSet} {hosts : List Host} {h : Host} {op : SetOp} {ops : List SetOp}

/-- Every host that was registered once and is not registered now has its `removeCh` closed. -/
def Released (ops : List SetOp) (set : HostSet) : Prop :=
  ∀ h, (∃ op ∈ ops, h ∈ op.registers) → set.all.lookup h.addr = some h ∨ set.removed h = true

/-- Exactly the operations that close the channels of the hosts they take out of the map. -/
def KeepsReleased (set : HostSet) : SetOp → Prop
  -- a host is overwritten only when it was removed before
  | .add hosts => ∀ h ∈ hosts ++ values set.all, ∀ l ∈ lastAt Host.addr hosts h.addr,
      l = h ∨ set.removed h = true
  -- the object itself is removed, not only its address
  | .remove hosts => ∀ h ∈ values set.all, h.addr ∈ hosts.map Host.addr →
      h ∈ hosts ∨ set.removed h = true
  | .replaceAll hosts => ∀ h ∈ hosts, ∀ l ∈ lastAt Host.addr hosts h.addr,
      l = h ∨ set.removed h = true ∨ set.all.lookup h.addr = some h
  | .markHostHealthy _ => True
  | .markHostUnhealthy _ => True

instance (set : HostSet) (op : SetOp) : Decidable (KeepsReleased set op) :=
  match op with
  | .add _ => inferInstanceAs (Decidable (∀ h ∈ _, ∀ l ∈ _, _ ∨ _))
  | .remove _ => inferInstanceAs (Decidable (∀ h ∈ _, _ → _ ∨ _))
  | .replaceAll _ => inferInstanceAs (Decidable (∀ h ∈ _, ∀ l ∈ _, _ ∨ _ ∨ _))
  | .markHostHealthy _ => isTrue trivial
  | .markHostUnhealthy _ => isTrue trivial

theorem putBack_same :
    (set.putBack h).1.all = set.all ∧ (set.putBack h).1.removed = set.removed := by
  rw [putBack]
  split
  · exact ⟨rfl, rfl⟩
  · exact ⟨sameHosts_addToHealthy.all, sameHosts_addToHealthy.removed⟩

theorem evict_same : (set.evict h).1.all = set.all ∧ (set.evict h).1.removed = set.removed := by
  rw [evict]
  split
  · exact ⟨rfl, rfl⟩
  · exact ⟨sameHosts_removeFromHealthy.all, sameHosts_removeFromHealthy.removed⟩

theorem markHostHealthy_same :
    (set.apply (.markHostHealthy h)).all = set.all ∧
      (set.apply (.markHostHealthy h)).removed = set.removed := by
  rw [apply]
  cases hflag : (set.stats h).isHealthy with
  | true => rw [markHostHealthy_of_healthy hflag]; exact ⟨rfl, rfl⟩
  | false => rw [markHostHealthy_of_unhealthy hflag]; exact putBack_same

theorem markHostUnhealthy_same :
    (set.apply (.markHostUnhealthy h)).all = set.all ∧
      (set.apply (.markHostUnhealthy h)).removed = set.removed := by
  rw [apply]
  cases hflag : (set.stats h).isHealthy with
  | true => rw [markHostUnhealthy_of_healthy hflag]; exact evict_same
  | false => rw [markHostUnhealthy_of_unhealthy hflag]; exact ⟨rfl, rfl⟩

/-- Behind `ReplaceAll` the set has the hosts it was given, the last one of each address. -/
theorem replaceAll_lookup (hset : Shape set) (a : Bytes) :
    (set.replaceAll hosts).all.lookup a = lastAt Host.addr hosts a := by
  rw [replaceAll, add_all, lookup_insertAll, hset.lookup_removeEach, Option.or_none]

theorem replaceAll_removed :
    (set.replaceAll hosts).removed h = (set.removed h || decide (h ∈ values set.all)) := by
  rw [replaceAll, add_removed, removeEach_removed]

/-- A host was registered by one of the operations before the last one, or by the last one. -/
theorem exists_registers_append :
    (∃ op' ∈ ops ++ [op], h ∈ op'.registers) ↔
      (∃ op' ∈ ops, h ∈ op'.registers) ∨ h ∈ op.registers := by
  simp [or_and_right, exists_or]

/-- A registered host was registered by an operation. -/
theorem exists_registers (hrun : runFrom step emptySet ops = some set)
    (hreg : set.all.lookup h.addr = some h) : ∃ op ∈ ops, h ∈ op.registers := by
  -- by induction on the operations from the last one back
  induction ops using List.reverseRecOn generalizing set with
  | nil =>
    cases hrun
    cases hreg
  | append_singleton ops op ih =>
    rw [runFrom_append] at hrun
    obtain ⟨s, hs, hstep⟩ := Option.bind_eq_some_iff.mp hrun
    obtain ⟨t, ht, hlast⟩ := runFrom_cons_eq_some.mp hstep
    cases ht
    cases hlast
    rw [exists_registers_append]
    have hold : s.all.lookup h.addr = some h →
        (∃ op' ∈ ops, h ∈ op'.registers) ∨ h ∈ op.registers := fun hreg => .inl (ih hs hreg)
    cases op with
    | add hosts =>
      rw [apply, add_all, lookup_insertAll] at hreg
      cases hl : lastAt Host.addr hosts h.addr with
      | none => exact hold (by rwa [hl, Option.none_or] at hreg)
      | some l =>
        rw [hl, Option.some_or] at hreg
        cases hreg
        exact .inr (lastAt_eq_some hl).1
    | remove hosts =>
      rw [apply, remove_all, lookup_eraseAll] at hreg
      split at hreg
      · cases hreg
      · exact hold hreg
    | replaceAll hosts =>
      rw [apply, replaceAll_lookup (shape_of_run hs)] at hreg
      exact .inr (lastAt_eq_some hreg).1
    | markHostHealthy g => exact hold (markHostHealthy_same.1 ▸ hreg)
    | markHostUnhealthy g => exact hold (markHostUnhealthy_same.1 ▸ hreg)

theorem released_append (hset : Released ops set) (hop : op.registers = [])
    {set' : HostSet} (hall : set'.all = set.all) (hremoved : set'.removed = set.removed) :
    Released (ops ++ [op]) set' := by
  intro h honce
  rw [hall, hremoved]
  rcases exists_registers_append.mp honce with hold | hnew
  · exact hset h hold
  · rw [hop] at hnew
    cases hnew

/-- A host that `Add` overwrites, and that was not removed before, is never marked removed. -/
theorem Released.add_iff (hset : Released ops set)
    (hknown : ∀ h, set.all.lookup h.addr = some h → ∃ op ∈ ops, h ∈ op.registers)
    (hshape : Shape set) :
    Released (ops ++ [.add hosts]) (set.add hosts) ↔ KeepsReleased set (.add hosts) := by
  constructor
  · intro hafter h hmem l hl
    have honce : ∃ op ∈ ops ++ [.add hosts], h ∈ op.registers := by
      rw [exists_registers_append]
      rcases List.mem_append.mp hmem with hnew | hold
      · exact .inr hnew
      · exact .inl (hknown h (hshape.all.mem_values.mp hold))
    rcases hafter h honce with hreg | hremoved
    · rw [add_all, lookup_insertAll, Option.mem_def.mp hl, Option.some_or] at hreg
      exact .inl (Option.some.inj hreg)
    · exact .inr (add_removed ▸ hremoved)
  · intro hkeeps h honce
    rw [add_all, lookup_insertAll, add_removed]
    -- a host of the list, or one that was registered, is the last one or was removed
    have hlast : h ∈ hosts ++ values set.all → ∀ l, lastAt Host.addr hosts h.addr = some l →
        (some l).or (set.all.lookup h.addr) = some h ∨ set.removed h = true := by
      intro hmem l hl
      rcases hkeeps h hmem l hl with rfl | hremoved
      · exact .inl rfl
      · exact .inr hremoved
    rcases exists_registers_append.mp honce with hold | hnew
    · rcases hset h hold with hreg | hremoved
      · cases hl : lastAt Host.addr hosts h.addr with
        | none => exact .inl hreg
        | some l =>
          have hmem := List.mem_append_right hosts (hshape.all.mem_values.mpr hreg)
          exact hlast hmem l hl
      · exact .inr hremoved
    · have hmem : h ∈ hosts := hnew
      obtain ⟨l, hl⟩ := exists_lastAt Host.addr hmem
      rw [hl]
      exact hlast (List.mem_append_left _ hmem) l hl

theorem Released.remove_iff (hset : Released ops set)
    (hknown : ∀ h, set.all.lookup h.addr = some h → ∃ op ∈ ops, h ∈ op.registers)
    (hshape : Shape set) :
    Released (ops ++ [.remove hosts]) (set.remove hosts) ↔ KeepsReleased set (.remove hosts) := by
  constructor
  · intro hafter h hmem haddr
    have hold := hknown h (hshape.all.mem_values.mp hmem)
    rcases hafter h (exists_registers_append.mpr (.inl hold)) with hreg | hremoved
    · rw [remove_all, lookup_eraseAll, if_pos haddr] at hreg
      cases hreg
    · rw [remove_removed, Bool.or_eq_true, decide_eq_true_eq] at hremoved
      exact hremoved.symm
  · intro hkeeps h honce
    rw [remove_all, lookup_eraseAll, remove_removed, Bool.or_eq_true, decide_eq_true_eq]
    rcases exists_registers_append.mp honce with hold | hnew
    · rcases hset h hold with hreg | hremoved
      · split
        · rename_i haddr
          exact .inr (hkeeps h (hshape.all.mem_values.mpr hreg) haddr).symm
        · exact .inl hreg
      · exact .inr (.inl hremoved)
    · cases hnew

theorem Released.replaceAll_iff (hset : Released ops set) (hshape : Shape set) :
    Released (ops ++ [.replaceAll hosts]) (set.replaceAll hosts) ↔
      KeepsReleased set (.replaceAll hosts) := by
  constructor
  · intro hafter h hmem l hl
    rcases hafter h (exists_registers_append.mpr (.inr hmem)) with hreg | hremoved
    · rw [replaceAll_lookup hshape, Option.mem_def.mp hl] at hreg
      exact .inl (Option.some.inj hreg)
    · rw [replaceAll_removed, Bool.or_eq_true, decide_eq_true_eq, hshape.all.mem_values] at hremoved
      exact .inr hremoved
  · intro hkeeps h honce
    rw [replaceAll_lookup hshape, replaceAll_removed, Bool.or_eq_true, decide_eq_true_eq,
      hshape.all.mem_values]
    rcases exists_registers_append.mp honce with hold | hnew
    · exact .inr (hset h hold).symm
    · have hmem : h ∈ hosts := hnew
      obtain ⟨l, hl⟩ := exists_lastAt Host.addr hmem
      rcases hkeeps h hmem l hl with rfl | hremoved
      · exact .inl hl
      · exact .inr hremoved

/-- **Removed hosts**: along a sequence of operations every host that was registered once and is
    not registered any more has its `removeCh` closed, exactly when every operation meets
    `KeepsReleased`. -/
theorem released_iff_keepsReleased (ops : List SetOp) :
    (∀ bs t, bs <+: ops → runFrom step emptySet bs = some t → Released bs t) ↔
      RunMeets step KeepsReleased emptySet ops := by
  obtain ⟨t, hrun⟩ := exists_runFrom step (fun set op => ⟨set.apply op, rfl⟩) emptySet ops
  refine good_iff_runMeets Released ?_ ?_ hrun
  · rintro h ⟨op, hop, -⟩
    cases hop
  · intro bs s op t _ hbs hset hstep
    cases hstep
    have hshape := shape_of_run hbs
    have hknown : ∀ h, s.all.lookup h.addr = some h → ∃ op ∈ bs, h ∈ op.registers :=
      fun h => exists_registers hbs
    cases op with
    | add hosts => exact hset.add_iff hknown hshape
    | remove hosts => exact hset.remove_iff hknown hshape
    | replaceAll hosts => exact hset.replaceAll_iff hshape
    | markHostHealthy h =>
      exact iff_of_true (released_append hset rfl markHostHealthy_same.1 markHostHealthy_same.2)
        trivial
    | markHostUnhealthy h =>
      exact iff_of_true (released_append hset rfl markHostUnhealthy_same.1
        markHostUnhealthy_same.2) trivial

end HostSet

/-- The object that is made of the endpoint of `mainHost` when it is removed. -/
def removalHost : Host := ⟨3, [1], .main⟩

/-- A host is removed by another object with its address and its type: it is not registered any
    more, and its `removeCh` is open. -/
theorem not_released_removalHost :
    ∃ t, runFrom HostSet.step emptySet [.add [mainHost], .remove [removalHost]] = some t ∧
      t.all.lookup mainHost.addr = none ∧ t.removed mainHost = false ∧
      ¬ HostSet.Released [.add [mainHost], .remove [removalHost]] t := by
  refine ⟨_, rfl, by decide +kernel, by decide +kernel, fun hreleased => ?_⟩
  have hreg := hreleased mainHost ⟨.add [mainHost], by decide, by decide⟩
  exact absurd hreg (by decide +kernel)

end Samaritan.Hosts
