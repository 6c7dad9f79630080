import Samaritan.Redis.Registry

/-!
# Live Clients

A client is live when its `Start` runs and `Stop` has not been called on it. While every live
client is the one that is registered under its address, there is at most one connection to a
node, and the loop at the end of `Serve`, which goes through the map of clients, stops every live
client.

Two steps can break this. `resetAllClients` loads the map before it takes the lock, and empties a
map that can hold other clients by then; and `removeClient` deletes whatever is registered under
the address of the client that ends.
-/

namespace Samaritan.Redis

open Samaritan.Lib

/-- The clients that `Serve` still has to stop. -/
def ServePc.pending : ServePc → Option (List Nat)
  | .stopping pending => some pending
  | .waiting _ pending => some pending
  | _ => none

/-- A `createClient` call has the lock there. -/
def GetPc.locked : GetPc → Bool
  | .dial _ | .register _ _ => true
  | _ => false

namespace Registry

variable {α : Type}

/-! ## Live clients -/

/-- A started client of an address that has neither terminated nor been told to stop. -/
def LiveAt (u : Registry α) (addr : α) (c : Nat) : Prop := u.infos c = some ⟨addr, .running, false⟩

theorem liveAt_of_tell {u : Registry α} {addr : α} {c c' : Nat} (h : (u.tell c).LiveAt addr c') :
    c' ≠ c ∧ u.LiveAt addr c' := by
  by_cases hc : c' = c
  · subst hc
    simp [LiveAt, tell] at h
  · simp only [LiveAt, tell, Function.update_of_ne hc] at h
    exact ⟨hc, h⟩

/-- A client that does not run is not live; the others are as they were. -/
theorem liveAt_of_update {u : Registry α} {addr : α} {c c' : Nat} {i : ClientInfo α}
    (hi : i.phase ≠ .running)
    (h : Function.update u.infos c (some i) c' = some ⟨addr, .running, false⟩) :
    c' ≠ c ∧ u.LiveAt addr c' := by
  by_cases hc : c' = c
  · subst hc
    rw [Function.update_self] at h
    exact absurd (congrArg ClientInfo.phase (Option.some.inj h)) hi
  · rw [Function.update_of_ne hc] at h
    exact ⟨hc, h⟩

variable [DecidableEq α]

/-- Every live client is the one that is registered under its address. -/
def AllRegistered (u : Registry α) : Prop :=
  ∀ addr c, u.LiveAt addr c → u.clients.lookup addr = some c

/-- The step takes no live client out of the map. -/
def KeepsLive (u : Registry α) : RegistryStep α → Prop
  | .resetUpdate _ => ∀ addr c, u.clients.lookup addr = some c → ¬ u.LiveAt addr c
  | .removeClient c => ∀ i c', u.infos c = some i → u.clients.lookup i.addr = some c' →
      ¬ u.LiveAt i.addr c'
  | _ => True

theorem mem_registered {u : Registry α} {addr : α} {c : Nat}
    (h : u.clients.lookup addr = some c) : c ∈ u.registered :=
  List.mem_map.mpr ⟨⟨addr, c⟩, AList.mem_lookup_iff.mp h, rfl⟩

/-! ## The lock, the map and `Serve` -/

/-- What holds while no step takes a live client out of the map. -/
structure LiveOk (u : Registry α) : Prop where
  registered : AllRegistered u
  /-- a call that creates a client has the lock, and the map has no client for its address -/
  creating : ∀ t g, u.gets t = some g → g.pc.locked = true →
    u.clientsMu = some (.get t) ∧ u.clients.lookup g.addr = none
  quit : u.serve ≠ .serving → u.quit = true
  /-- `Serve` has the lock until it has stopped every live client -/
  stopping : ∀ pending, u.serve.pending = some pending →
    u.clientsMu = some .serve ∧ ∀ addr c, u.LiveAt addr c → c ∈ pending
  done : u.serve = .done → (∀ t, u.clientsMu ≠ some (.get t)) ∧ ∀ addr c, ¬ u.LiveAt addr c

theorem liveOk_newRegistry : LiveOk (newRegistry α) where
  registered := by simp [AllRegistered, LiveAt, newRegistry]
  creating := by simp [newRegistry]
  quit := by simp [newRegistry]
  stopping := by simp [newRegistry, ServePc.pending]
  done := by simp [newRegistry]

/-- A call moves on without the lock. -/
theorem LiveOk.move {u v : Registry α} (hu : LiveOk u) {t : Nat} {g : GetClient α}
    (hgets : v.gets = Function.update u.gets t (some g)) (hpc : g.pc.locked = false)
    (hclients : v.clients = u.clients) (hinfos : v.infos = u.infos)
    (hmu : v.clientsMu = u.clientsMu) (hserve : v.serve = u.serve) (hquit : v.quit = u.quit) :
    LiveOk v where
  registered := by
    simp only [AllRegistered, LiveAt, hclients, hinfos]
    exact hu.registered
  creating := by
    rw [hgets, hmu, hclients]
    intro t' g' hg' hlocked
    by_cases ht : t' = t
    · subst ht
      rw [Function.update_self] at hg'
      obtain rfl := Option.some.inj hg'
      exact absurd hlocked (by simp [hpc])
    · rw [Function.update_of_ne ht] at hg'
      exact hu.creating t' g' hg' hlocked
  quit := by
    rw [hserve, hquit]
    exact hu.quit
  stopping := by
    simp only [LiveAt, hserve, hmu, hinfos]
    exact hu.stopping
  done := by
    simp only [LiveAt, hserve, hmu, hinfos]
    exact hu.done

/-- Clients stop being live. -/
theorem LiveOk.shrink {u v : Registry α} (hu : LiveOk u)
    (hlive : ∀ addr c, v.LiveAt addr c → u.LiveAt addr c) (hgets : v.gets = u.gets)
    (hclients : v.clients = u.clients) (hmu : v.clientsMu = u.clientsMu)
    (hserve : v.serve = u.serve) (hquit : v.quit = u.quit) : LiveOk v where
  registered := by
    intro addr c hc
    rw [hclients]
    exact hu.registered addr c (hlive addr c hc)
  creating := by
    rw [hgets, hmu, hclients]
    exact hu.creating
  quit := by
    rw [hserve, hquit]
    exact hu.quit
  stopping := by
    rw [hserve, hmu]
    intro pending hpending
    obtain ⟨hlock, hmem⟩ := hu.stopping pending hpending
    exact ⟨hlock, fun addr c hc => hmem addr c (hlive addr c hc)⟩
  done := by
    rw [hserve, hmu]
    intro hdone
    obtain ⟨hlock, hnone⟩ := hu.done hdone
    exact ⟨hlock, fun addr c hc => hnone addr c (hlive addr c hc)⟩

/-- While a call creates a client no other call does, and `Serve` has not begun to stop the
    clients. -/
theorem LiveOk.alone {u : Registry α} (hu : LiveOk u) {t : Nat} {g : GetClient α}
    (hg : u.gets t = some g) (hpc : g.pc.locked = true) :
    (∀ t' g', t' ≠ t → u.gets t' = some g' → g'.pc.locked ≠ true) ∧ u.serve = .serving := by
  obtain ⟨hlock, -⟩ := hu.creating t g hg hpc
  constructor
  · intro t' g' ht hg' hpc'
    obtain ⟨hlock', -⟩ := hu.creating t' g' hg' hpc'
    -- both would have the lock
    rw [hlock] at hlock'
    injection hlock' with hlock'
    injection hlock' with hlock'
    exact ht hlock'.symm
  · cases hserve : u.serve with
    | serving => rfl
    | stopping pending | waiting c pending =>
      have hserving := (hu.stopping pending (by rw [hserve]; rfl)).1
      simp [hlock] at hserving
    | done => exact absurd hlock ((hu.done hserve).1 t)

/-- A call that has the lock goes on. -/
theorem LiveOk.goOn {u v : Registry α} (hu : LiveOk u) {t : Nat} {g g' : GetClient α}
    (hg : u.gets t = some g) (hpc : g.pc.locked = true)
    (hgets : v.gets = Function.update u.gets t (some g'))
    (hpc' : g'.pc.locked = true → v.clientsMu = some (.get t) ∧ v.clients.lookup g'.addr = none)
    (hserve : v.serve = u.serve) (hregistered : AllRegistered v) : LiveOk v := by
  obtain ⟨halone, hserving⟩ := hu.alone hg hpc
  rw [hserving] at hserve
  refine ⟨hregistered, ?_, ?_, ?_, ?_⟩
  · intro t₁ g₁ hg₁ hpc₁
    rw [hgets] at hg₁
    by_cases ht : t₁ = t
    · subst ht
      rw [Function.update_self] at hg₁
      cases hg₁
      exact hpc' hpc₁
    · rw [Function.update_of_ne ht] at hg₁
      exact absurd hpc₁ (halone t₁ g₁ ht hg₁)
  · simp [hserve]
  · simp [hserve, ServePc.pending]
  · simp [hserve]

/-- A new client, if it is live, is the only one of its address that is. -/
theorem LiveOk.allRegistered_insert {u v : Registry α} (hu : LiveOk u) {t c : Nat}
    {g : GetClient α} (hg : u.gets t = some g) (hpc : g.pc.locked = true)
    (hclients : v.clients = u.clients.insert g.addr c)
    (hlive : ∀ addr c', v.LiveAt addr c' → addr = g.addr ∧ c' = c ∨ u.LiveAt addr c') :
    AllRegistered v := by
  -- the lock was held since the map was found to have no client for the address
  obtain ⟨-, hmissing⟩ := hu.creating t g hg hpc
  intro addr c' hc'
  rw [hclients]
  rcases hlive addr c' hc' with ⟨rfl, rfl⟩ | hold
  · exact AList.lookup_insert _
  · have hlookup := hu.registered addr c' hold
    have haddr : addr ≠ g.addr := by
      rintro rfl
      rw [hmissing] at hlookup
      cases hlookup
    rw [AList.lookup_insert_ne haddr]
    exact hlookup

/-- The lock is free: no call creates a client and `Serve` does not stop clients. -/
theorem LiveOk.unlocked {u : Registry α} (hu : LiveOk u) (hmu : u.clientsMu = none) :
    (∀ t g, u.gets t = some g → g.pc.locked ≠ true) ∧
      ∀ pending, u.serve.pending ≠ some pending := by
  constructor
  · intro t g hg hpc
    have hlock := (hu.creating t g hg hpc).1
    rw [hmu] at hlock
    cases hlock
  · intro pending hpending
    have hlock := (hu.stopping pending hpending).1
    rw [hmu] at hlock
    cases hlock

/-- A change of the map while the lock is free. -/
theorem LiveOk.changeMap {u v : Registry α} (hu : LiveOk u) (hmu : u.clientsMu = none)
    (hlive : ∀ addr c, v.LiveAt addr c → u.LiveAt addr c) (hgets : v.gets = u.gets)
    (hmu' : v.clientsMu = u.clientsMu) (hserve : v.serve = u.serve) (hquit : v.quit = u.quit)
    (hregistered : AllRegistered v) : LiveOk v := by
  obtain ⟨hfree, hnostop⟩ := hu.unlocked hmu
  refine ⟨hregistered, ?_, ?_, ?_, ?_⟩
  · rw [hgets]
    exact fun t g hg hpc => absurd hpc (hfree t g hg)
  · rw [hserve, hquit]
    exact hu.quit
  · rw [hserve]
    exact fun pending hpending => absurd hpending (hnostop pending)
  · rw [hserve, hmu']
    intro hdone
    obtain ⟨hlock, hnone⟩ := hu.done hdone
    exact ⟨hlock, fun addr c hc => hnone addr c (hlive addr c hc)⟩

/-- **One step**: a step that takes no live client out of the map keeps all this. -/
theorem LiveOk.step {u u' : Registry α} {a : RegistryStep α} (hu : LiveOk u)
    (hkeeps : KeepsLive u a) (h : Step u a u') : LiveOk u' := by
  cases h with
  | getClient | createClient | loadFound | loadMissing | storeJoin | storeNew | wait
  | lockExited | lockFound | finish =>
    exact hu.move rfl rfl rfl rfl rfl rfl rfl
  | @lockDial t call addr e f hg hmu hquit hmissing =>
    obtain ⟨hfree, hnostop⟩ := hu.unlocked hmu
    refine ⟨hu.registered, ?_, hu.quit, fun pending hp => absurd hp (hnostop pending), ?_⟩
    · intro t' g' hg' hpc'
      by_cases ht : t' = t
      · subst ht
        rw [gets_setGet, Function.update_self] at hg'
        obtain rfl := Option.some.inj hg'
        exact ⟨rfl, hmissing⟩
      · rw [gets_setGet, Function.update_of_ne ht] at hg'
        exact absurd hpc' (hfree t' g' hg')
    · intro hdone
      -- `createClient` does not dial once the upstream has quit
      have hserve : u.serve ≠ .serving := by
        rw [show u.serve = .done from hdone]
        simp
      rw [hu.quit hserve] at hquit
      cases hquit
  | dialFail hg hnew => exact hu.goOn hg rfl rfl nofun rfl hu.registered
  | @dialOk t c call addr e f hg hnew =>
    refine hu.goOn hg rfl rfl nofun rfl (hu.allRegistered_insert hg rfl rfl fun addr' c' hc' => ?_)
    replace hc' : Function.update u.infos c (some ⟨addr, .running, false⟩) c' =
      some ⟨addr', .running, false⟩ := hc'
    by_cases hc : c' = c
    · subst hc
      rw [Function.update_self] at hc'
      exact .inl ⟨(congrArg ClientInfo.addr (Option.some.inj hc')).symm, rfl⟩
    · rw [Function.update_of_ne hc] at hc'
      exact .inr hc'
  | startReturnEarly hg hnew =>
    have hcreating := hu.creating _ _ hg rfl
    refine hu.goOn hg rfl rfl (fun _ => hcreating) rfl fun addr c hc => ?_
    exact hu.registered addr c (liveAt_of_update (by simp) hc).2
  | register hg =>
    exact hu.goOn hg rfl rfl nofun rfl (hu.allRegistered_insert hg rfl rfl fun _ _ => .inr)
  | startReturn hi =>
    exact hu.shrink (fun _ _ hc => (liveAt_of_update (by simp) hc).2) rfl rfl rfl rfl rfl
  | @removeClient c addr told hi hmu =>
    refine hu.changeMap hmu (fun _ _ hc => (liveAt_of_update (by simp) hc).2) rfl rfl rfl rfl ?_
    -- a live client under the same address would be taken out as well
    intro addr' c' hc'
    obtain ⟨-, hlive⟩ := liveAt_of_update (by simp) hc'
    have hlookup := hu.registered addr' c' hlive
    have haddr : addr' ≠ addr := by
      rintro rfl
      exact hkeeps _ c' hi hlookup hlive
    exact (AList.lookup_erase_ne haddr).trans hlookup
  | resetUpdate hj hmu =>
    refine hu.changeMap hmu (fun _ _ hc => hc) rfl rfl rfl rfl ?_
    intro addr c hc
    exact absurd hc (hkeeps addr c (hu.registered addr c hc))
  | stop hj hc => exact hu.shrink (fun _ _ hc => (liveAt_of_tell hc).2) rfl rfl rfl rfl rfl
  | onHostRemove | resetLoad | stopped =>
    exact hu.shrink (fun _ _ hc => hc) rfl rfl rfl rfl rfl
  | closeQuit => exact { hu with quit := fun _ => rfl }
  | serveLock hserve hmu hquit =>
    obtain ⟨hfree, -⟩ := hu.unlocked hmu
    refine ⟨hu.registered, ?_, fun _ => hquit, ?_, ?_⟩
    · exact fun t g hg hpc => absurd hpc (hfree t g hg)
    -- all live clients are in the map that `Serve` goes through
    · rintro _ ⟨⟩
      exact ⟨rfl, fun addr c hc => mem_registered (hu.registered addr c hc)⟩
    · rintro ⟨⟩
  | @serveStop c pending hserve hc =>
    obtain ⟨hlock, hmem⟩ := hu.stopping pending (by rw [hserve]; rfl)
    refine ⟨?_, hu.creating, ?_, ?_, ?_⟩
    · exact fun addr c' hc' => hu.registered addr c' (liveAt_of_tell hc').2
    · exact fun _ => hu.quit (by simp [hserve])
    · rintro _ ⟨⟩
      refine ⟨hlock, fun addr c' hc' => ?_⟩
      obtain ⟨hne, hlive⟩ := liveAt_of_tell hc'
      exact (List.mem_erase_of_ne hne).mpr (hmem addr c' hlive)
    · rintro ⟨⟩
  | @serveStopped c pending hserve hc =>
    refine ⟨hu.registered, hu.creating, fun _ => hu.quit (by simp [hserve]), ?_, ?_⟩
    · rintro _ ⟨⟩
      exact hu.stopping pending (by rw [hserve]; rfl)
    · rintro ⟨⟩
  | serveUnlock hserve =>
    -- no client is left to be stopped, so none is live
    obtain ⟨hlock, hmem⟩ := hu.stopping [] (by rw [hserve]; rfl)
    refine ⟨hu.registered, ?_, fun _ => hu.quit (by simp [hserve]), ?_, fun _ => ⟨?_, ?_⟩⟩
    · intro t g hg hpc
      have hheld := (hu.creating t g hg hpc).1
      simp [hlock] at hheld
    · rintro _ ⟨⟩
    · simp
    · exact fun addr c hc => absurd (hmem addr c hc) (by simp)

/-- A step that takes a live client out of the map leaves it live and unregistered. -/
theorem Step.keepsLive {u u' : Registry α} {a : RegistryStep α} (h : Step u a u')
    (hu' : AllRegistered u') : KeepsLive u a := by
  cases h with
  | resetUpdate hj hmu =>
    intro addr c _ hc
    have hlookup := hu' addr c hc
    simp at hlookup
  | @removeClient c addr told hi hmu =>
    intro i c' hi' hc' hlive
    obtain rfl := Option.some.inj (hi.symm.trans hi')
    have hne : c' ≠ c := by
      rintro rfl
      simp [LiveAt, hi] at hlive
    have hlookup := hu' addr c' (by simpa [LiveAt, hne] using hlive)
    simp at hlookup
  | _ => trivial

/-! ## Runs -/

theorem liveOk_of_runMeets {as : List (RegistryStep α)} {u : Registry α}
    (hrun : runFrom step (newRegistry α) as = some u)
    (hmeets : RunMeets step KeepsLive (newRegistry α) as) : LiveOk u :=
  invariant_of_runMeets (fun _ _ _ hu hkeeps h => hu.step hkeeps (step_cases h)) liveOk_newRegistry
    hmeets hrun

/-- **Live clients**: every live client is the one registered under its address, in every state of
    a run, exactly when no step of the run takes a live client out of the map. Then there is at
    most one live client of an address, and none is left when `Serve` is done. -/
theorem live_registered_iff {as : List (RegistryStep α)} {u : Registry α}
    (hrun : runFrom step (newRegistry α) as = some u) :
    ((∀ bs v, bs <+: as → runFrom step (newRegistry α) bs = some v → AllRegistered v) ↔
        RunMeets step KeepsLive (newRegistry α) as) ∧
      (RunMeets step KeepsLive (newRegistry α) as →
        (∀ addr c c', u.LiveAt addr c → u.LiveAt addr c' → c = c') ∧
          (u.serve = .done → ∀ addr c, ¬ u.LiveAt addr c)) := by
  refine ⟨⟨?_, ?_⟩, ?_⟩
  · exact runMeets_of_good (fun _ _ _ h => (step_cases h).keepsLive) hrun
  · intro hmeets bs v hbs hv
    exact (liveOk_of_runMeets hv (runMeets_of_isPrefix hmeets hbs)).registered
  · intro hmeets
    have hu := liveOk_of_runMeets hrun hmeets
    refine ⟨fun addr c c' hc hc' => ?_, fun hdone => (hu.done hdone).2⟩
    exact Option.some.inj ((hu.registered addr c hc).symm.trans (hu.registered addr c' hc'))

/-- `resetAllClients` loads the empty map, a client is created, and `resetAllClients` empties the
    map; the upstream then quits. -/
def leakRun : List (RegistryStep Nat) :=
  [.resetLoad 0, .getClient 0 6379, .load 0, .store 0 0, .lock 0, .dialOk 0 0, .finish 0,
    .resetUpdate 0, .closeQuit, .serveLock, .serveUnlock]

theorem leakRun_isSome : (runFrom step (newRegistry Nat) leakRun).isSome := by
  decide +kernel

/-- The client of `leakRun` is live and not registered, and `Serve` is done without having
    stopped it. -/
theorem not_allRegistered_leakRun :
    Reachable step (newRegistry Nat) ((runFrom step _ _).get leakRun_isSome) ∧
      ((runFrom step _ _).get leakRun_isSome).LiveAt 6379 0 ∧
      ¬ AllRegistered ((runFrom step _ _).get leakRun_isSome) ∧
      ((runFrom step _ _).get leakRun_isSome).serve = .done := by
  have hlive : ((runFrom step _ _).get leakRun_isSome).LiveAt 6379 0 := rfl
  refine ⟨reachable_get _, hlive, fun hall => ?_, rfl⟩
  have hlookup := hall 6379 0 hlive
  exact absurd hlookup (by decide +kernel)

/-- `live_registered_iff` at `leakRun`. -/
theorem live_registered_iff_leakRun :
    (∀ bs v, bs <+: leakRun → runFrom step (newRegistry Nat) bs = some v → AllRegistered v) ↔
      RunMeets step KeepsLive (newRegistry Nat) leakRun :=
  (live_registered_iff (Option.some_get leakRun_isSome).symm).1

end Registry

end Samaritan.Redis
