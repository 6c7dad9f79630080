import Samaritan.Redis.Registry
import Samaritan.Lib.KeyMap

/-!
# The Counters of Backend Clients

Each backend client records the visits of keys in a counter that `createClient` gets from the
collector (`proc/redis/hotkey/collector.go`). Counters are registered there under the address of
the client, so that a client finds the counter of an earlier one that is still registered.
`client.Stop` waits for the end of `Start` and then resets the filters: the counter is freed, and
its callback deletes from the collector what is registered under its name.

The machine adds the collector to the registry of clients. Behind its dial, `createClient` gets the
counter, makes the client, starts it and registers it, one step each: a counter may be freed before
its client is started, or before it is registered. A goroutine in `Stop` goes through the reset of
the filters in two steps; two goroutines may be there for the same client at a time.
-/

namespace Samaritan.Redis

open Samaritan.Lib

/-! ## State and steps -/

/-- A counter, with the name that its callback deletes. -/
structure KeyCounter (α : Type) where
  name : α
  id : Nat

/-- Where a goroutine stands in `filter.Reset` for a client. -/
inductive ResetPc where
  /-- about to free the counter -/
  | free (c : Nat)
  /-- about to clear the list of filters -/
  | clear (c : Nat)

/-- Where `createClient` stands behind its dial. -/
inductive CreatePc (α : Type) where
  /-- `AllocCounter` has returned, and `newClient` is called -/
  | allocated (k : KeyCounter α)
  /-- `Start` of the client runs, and the client is about to be registered -/
  | started (c : Nat)

/-- The registry and the collector. Goroutines in `Stop` are those of the registry, by number, and
    `Serve`. -/
structure CountedRegistry (α : Type) where
  reg : Registry α
  /-- `Collector.counters` -/
  counters : KeyMap α Nat
  fresh : Nat
  keyCounter : Nat → Option (KeyCounter α)
  creating : Nat → Option (CreatePc α)
  resets : Option Nat → Option ResetPc
  /-- the clients without filters -/
  cleared : List Nat

def newCountedRegistry (α : Type) : CountedRegistry α where
  reg := newRegistry α
  counters := ∅
  fresh := 0
  keyCounter := fun _ => none
  creating := fun _ => none
  resets := fun _ => none
  cleared := []

inductive CountedStep (α : Type) where
  | registry (a : RegistryStep α)
  /-- the connection is made, and `AllocCounter` returns -/
  | allocCounter (t : Nat)
  | newClientFail (t attempt : Nat)
  /-- the goroutine of the new client begins to run `Start` -/
  | start (t c : Nat)
  /-- `Start` returns before the client is registered -/
  | startReturn (t : Nat)
  /-- the client is registered while its `Start` runs -/
  | register (t : Nat)
  /-- the counter is freed -/
  | free (who : Option Nat)
  /-- `filter.Reset` returns -/
  | clear (who : Option Nat)

/-- The call whose dial the step ends. -/
def RegistryStep.dialer {α : Type} : RegistryStep α → Option Nat
  | .dialFail t _ | .dialOk t _ | .startReturnEarly t _ => some t
  | _ => none

namespace CountedRegistry

variable {α : Type} {s s' : CountedRegistry α} {addr : α} {c : Nat}

/-- `filter.Reset` is called; it does nothing when the list of filters is empty. -/
def beginReset (s : CountedRegistry α) (who : Option Nat) (c : Nat) : CountedRegistry α :=
  if c ∈ s.cleared then s
  else { s with resets := Function.update s.resets who (some (.free c)) }

theorem beginReset_same (who : Option Nat) :
    (s.beginReset who c).reg = s.reg ∧ (s.beginReset who c).keyCounter = s.keyCounter ∧
      (s.beginReset who c).creating = s.creating ∧
      (s.beginReset who c).counters = s.counters := by
  unfold beginReset
  split <;> exact ⟨rfl, rfl, rfl, rfl⟩

def setCreating (s : CountedRegistry α) (t : Nat) (pc : Option (CreatePc α)) : CountedRegistry α :=
  { s with creating := Function.update s.creating t pc }

variable [DecidableEq α]

/-- `AllocCounter`: the collector and the counter. -/
def allocCounter (s : CountedRegistry α) (name : α) : CountedRegistry α × KeyCounter α :=
  match s.counters.lookup name with
  | some id => (s, ⟨name, id⟩)
  | none =>
    ({ s with counters := s.counters.insert name s.fresh, fresh := s.fresh + 1 }, ⟨name, s.fresh⟩)

/-- The goroutine in `Stop` that takes a step of the registry. -/
def stopper : RegistryStep α → Option (Option Nat)
  | .stop j _ | .stopped j => some (some j)
  | .serveStop _ | .serveStopped | .serveUnlock => some none
  | .getClient _ _ | .createClient _ _ | .load _ | .store _ _ | .wait _ | .lock _ | .dialFail _ _
  | .dialOk _ _ | .startReturnEarly _ _ | .register _ | .finish _ | .startReturn _
  | .removeClient _ | .onHostRemove _ _ | .resetLoad _ | .resetUpdate _ | .closeQuit
  | .serveLock => none

/-- The step is not one of `createClient` behind its dial, which has steps of its own here. -/
def outside (s : CountedRegistry α) : RegistryStep α → Bool
  | .dialOk _ _ | .startReturnEarly _ _ => false
  | .dialFail t _ => (s.creating t).isNone
  | .getClient _ _ | .createClient _ _ | .load _ | .store _ _ | .wait _ | .lock _ | .register _
  | .finish _ | .startReturn _ | .removeClient _ | .onHostRemove _ _ | .resetLoad _ | .resetUpdate _
  | .stop _ _ | .stopped _ | .closeQuit | .serveLock | .serveStop _ | .serveStopped
  | .serveUnlock => true

/-- The step is not one of a goroutine that is in `filter.Reset`, or in `createClient` behind its
    dial. -/
def Ready (s : CountedRegistry α) (a : RegistryStep α) : Prop :=
  s.outside a = true ∧ ∀ who ∈ stopper a, (s.resets who).isNone

instance (s : CountedRegistry α) (a : RegistryStep α) : Decidable (s.Ready a) :=
  inferInstanceAs (Decidable (_ ∧ ∀ who ∈ stopper a, _))

/-- What a step of the registry does with the filters, given the registry before the step. -/
def counted (s : CountedRegistry α) (u : Registry α) : RegistryStep α → CountedRegistry α
  | .stopped j =>
    match u.stops j with
    | some (.waiting c _) => s.beginReset (some j) c
    | _ => s
  | .serveStopped =>
    match u.serve with
    | .waiting c _ => s.beginReset none c
    | _ => s
  | .getClient _ _ | .createClient _ _ | .load _ | .store _ _ | .wait _ | .lock _ | .dialFail _ _
  | .dialOk _ _ | .startReturnEarly _ _ | .register _ | .finish _ | .startReturn _
  | .removeClient _ | .onHostRemove _ _ | .resetLoad _ | .resetUpdate _ | .stop _ _ | .closeQuit
  | .serveLock | .serveStop _ | .serveUnlock => s

def step (s : CountedRegistry α) : CountedStep α → Option (CountedRegistry α)
  | .registry a =>
    if s.Ready a then (s.reg.step a).map fun u => counted { s with reg := u } s.reg a else none
  | .allocCounter t =>
    match s.reg.gets t, s.creating t with
    | some ⟨addr, .dial _, _, _⟩, none =>
      let (s', k) := s.allocCounter addr
      some (s'.setCreating t (some (.allocated k)))
    | _, _ => none
  | .newClientFail t attempt =>
    match s.creating t with
    | some (.allocated _) =>
      -- the counter stays registered, and no client uses it
      (s.reg.step (.dialFail t attempt)).map fun u => { s with reg := u }.setCreating t none
    | some (.started _) | none => none
  | .start t c =>
    match s.creating t, s.keyCounter c with
    | some (.allocated k), none =>
      some ({ s with keyCounter := Function.update s.keyCounter c (some k) }.setCreating t
        (some (.started c)))
    | _, _ => none
  | .startReturn t =>
    match s.creating t with
    | some (.started c) =>
      (s.reg.step (.startReturnEarly t c)).map fun u => { s with reg := u }.setCreating t none
    | some (.allocated _) | none => none
  | .register t =>
    match s.creating t with
    | some (.started c) =>
      (s.reg.step (.dialOk t c)).map fun u => { s with reg := u }.setCreating t none
    | some (.allocated _) | none => none
  | .free who =>
    match s.resets who with
    | some (.free c) => (s.keyCounter c).map fun k =>
      { s with
        -- whatever counter is registered under the name
        counters := s.counters.erase k.name
        resets := Function.update s.resets who (some (.clear c)) }
    | some (.clear _) | none => none
  | .clear who =>
    match s.resets who with
    | some (.clear c) =>
      some { s with cleared := c :: s.cleared, resets := Function.update s.resets who none }
    | some (.free _) | none => none

/-- A transition of the registry with the collector. -/
inductive Step (s : CountedRegistry α) : CountedStep α → CountedRegistry α → Prop where
  | registry {a : RegistryStep α} {u : Registry α} (hready : s.Ready a)
      (hu : Registry.Step s.reg a u) :
      Step s (.registry a) (counted { s with reg := u } s.reg a)
  | allocCounter {t : Nat} {addr : α} {call : Option Nat} {e f : List Nat}
      (hg : s.reg.gets t = some ⟨addr, .dial call, e, f⟩) (hnone : s.creating t = none) :
      Step s (.allocCounter t) ((s.allocCounter addr).1.setCreating t
        (some (.allocated (s.allocCounter addr).2)))
  | newClientFail {t attempt : Nat} {k : KeyCounter α} {u : Registry α}
      (ht : s.creating t = some (.allocated k)) (hu : Registry.Step s.reg (.dialFail t attempt) u) :
      Step s (.newClientFail t attempt) ({ s with reg := u }.setCreating t none)
  | start {t c : Nat} {k : KeyCounter α} (ht : s.creating t = some (.allocated k))
      (hnew : s.keyCounter c = none) :
      Step s (.start t c)
        ({ s with keyCounter := Function.update s.keyCounter c (some k) }.setCreating t
          (some (.started c)))
  | startReturn {t c : Nat} {u : Registry α} (ht : s.creating t = some (.started c))
      (hu : Registry.Step s.reg (.startReturnEarly t c) u) :
      Step s (.startReturn t) ({ s with reg := u }.setCreating t none)
  | register {t c : Nat} {u : Registry α} (ht : s.creating t = some (.started c))
      (hu : Registry.Step s.reg (.dialOk t c) u) :
      Step s (.register t) ({ s with reg := u }.setCreating t none)
  | free {who : Option Nat} {c : Nat} {k : KeyCounter α} (hwho : s.resets who = some (.free c))
      (hk : s.keyCounter c = some k) :
      Step s (.free who) { s with
        counters := s.counters.erase k.name
        resets := Function.update s.resets who (some (.clear c)) }
  | clear {who : Option Nat} {c : Nat} (hwho : s.resets who = some (.clear c)) :
      Step s (.clear who)
        { s with cleared := c :: s.cleared, resets := Function.update s.resets who none }

theorem step_cases {a : CountedStep α} (h : s.step a = some s') : Step s a s' := by
  cases a with
  | registry a =>
    simp only [step] at h
    split at h
    · obtain ⟨u, hu, rfl⟩ := Option.map_eq_some_iff.mp h
      exact .registry ‹_› (Registry.step_cases hu)
    · cases h
  | allocCounter t =>
    simp only [step] at h
    split at h <;> cases h
    exact .allocCounter ‹_› ‹_›
  | newClientFail t attempt =>
    simp only [step] at h
    split at h
    · obtain ⟨u, hu, rfl⟩ := Option.map_eq_some_iff.mp h
      exact .newClientFail ‹_› (Registry.step_cases hu)
    · cases h
    · cases h
  | start t c =>
    simp only [step] at h
    split at h <;> cases h
    exact .start ‹_› ‹_›
  | startReturn t =>
    simp only [step] at h
    split at h
    · obtain ⟨u, hu, rfl⟩ := Option.map_eq_some_iff.mp h
      exact .startReturn ‹_› (Registry.step_cases hu)
    · cases h
    · cases h
  | register t =>
    simp only [step] at h
    split at h
    · obtain ⟨u, hu, rfl⟩ := Option.map_eq_some_iff.mp h
      exact .register ‹_› (Registry.step_cases hu)
    · cases h
    · cases h
  | free who =>
    simp only [step] at h
    split at h
    · obtain ⟨k, hk, rfl⟩ := Option.map_eq_some_iff.mp h
      exact .free ‹_› hk
    · cases h
    · cases h
  | clear who =>
    simp only [step] at h
    split at h
    · cases h
      exact .clear ‹_›
    · cases h
    · cases h

/-! ## Running clients and their counters -/

/-- `Start` of the client has not returned. The client may not be registered yet. -/
def RunsAt (s : CountedRegistry α) (addr : α) (c : Nat) : Prop :=
  (∃ told, s.reg.infos c = some ⟨addr, .running, told⟩) ∨
    ∃ t g, s.creating t = some (.started c) ∧ s.reg.gets t = some g ∧ g.addr = addr

/-- The counter of every running client is the one registered under its address, so that `collect`
    comes to it. -/
def Counted (s : CountedRegistry α) : Prop :=
  ∀ addr c, s.RunsAt addr c →
    ∃ id, s.keyCounter c = some ⟨addr, id⟩ ∧ s.counters.lookup addr = some id

/-- The counter of every client that is about to be made and started is registered. -/
def Held (s : CountedRegistry α) : Prop :=
  ∀ t k, s.creating t = some (.allocated k) → s.counters.lookup k.name = some k.id

/-- A counter is freed only while no client of its address runs, and none is about to be started
    with it. -/
def FreesUnused (s : CountedRegistry α) : CountedStep α → Prop
  | .free who => ∀ c k, s.resets who = some (.free c) → s.keyCounter c = some k →
      (∀ c', ¬s.RunsAt k.name c') ∧
        ∀ t k', s.creating t = some (.allocated k') → k'.name ≠ k.name
  | .registry _ | .allocCounter _ | .newClientFail _ _ | .start _ _ | .startReturn _ | .register _
  | .clear _ => True

/-- Behind its dial, `createClient` has the lock and a counter of its address. -/
def Dials (s : CountedRegistry α) : Prop :=
  ∀ t pc, s.creating t = some pc → ∃ g call, s.reg.gets t = some g ∧ g.pc = .dial call ∧
    ∀ k, pc = .allocated k → k.name = g.addr

omit [DecidableEq α] in
/-- A goroutine that has not the phase `running` does not run; the others are as they were. -/
theorem runs_of_update {infos : Nat → Option (ClientInfo α)} {c' : Nat} {i : ClientInfo α}
    (hi : i.phase ≠ .running) {told : Bool}
    (hc : Function.update infos c' (some i) c = some ⟨addr, .running, told⟩) :
    c ≠ c' ∧ infos c = some ⟨addr, .running, told⟩ := by
  by_cases hcc : c = c'
  · subst hcc
    rw [Function.update_self] at hc
    exact absurd (congrArg ClientInfo.phase (Option.some.inj hc)) hi
  · rw [Function.update_of_ne hcc] at hc
    exact ⟨hcc, hc⟩

omit [DecidableEq α] in
/-- Being told to stop does not make a client run. -/
theorem runs_of_tell {u : Registry α} {c' : Nat} {told : Bool}
    (hc : (u.tell c').infos c = some ⟨addr, .running, told⟩) :
    ∃ told', u.infos c = some ⟨addr, .running, told'⟩ := by
  by_cases hcc : c = c'
  · subst hcc
    simp only [Registry.tell, Function.update_self, Option.map_eq_some_iff] at hc
    obtain ⟨i, hi, heq⟩ := hc
    obtain ⟨haddr, hphase, -⟩ := ClientInfo.mk.inj heq
    refine ⟨i.told, hi.trans ?_⟩
    rw [← haddr, ← hphase]
  · simp only [Registry.tell, Function.update_of_ne hcc] at hc
    exact ⟨told, hc⟩

/-- Only a new connection makes a client run. -/
theorem runs_of_step {u u' : Registry α} {a : RegistryStep α} (h : Registry.Step u a u')
    {told : Bool} (hc : u'.infos c = some ⟨addr, .running, told⟩) :
    (∃ told', u.infos c = some ⟨addr, .running, told'⟩) ∨
      ∃ t g, a = .dialOk t c ∧ u.gets t = some g ∧ g.addr = addr := by
  cases h with
  | @dialOk t c' call addr' e f hg hnew =>
    replace hc : Function.update u.infos c' (some ⟨addr', .running, false⟩) c =
      some ⟨addr, .running, told⟩ := hc
    by_cases hcc : c = c'
    · subst hcc
      rw [Function.update_self] at hc
      exact Or.inr ⟨t, _, rfl, hg, (ClientInfo.mk.inj (Option.some.inj hc)).1⟩
    · rw [Function.update_of_ne hcc] at hc
      exact Or.inl ⟨told, hc⟩
  | startReturnEarly hg hnew | startReturn hi | removeClient hi hmu =>
    exact Or.inl ⟨told, (runs_of_update (fun h => by cases h) hc).2⟩
  | stop hj hmem | serveStop hserve hmem => exact Or.inl (runs_of_tell hc)
  | _ => exact Or.inl ⟨told, hc⟩

/-- A call that dials goes on only by the end of its dial. -/
theorem gets_of_dial {u u' : Registry α} {a : RegistryStep α} (h : Registry.Step u a u') {t : Nat}
    {g : GetClient α} {call : Option Nat} (hg : u.gets t = some g) (hpc : g.pc = .dial call)
    (hdialer : a.dialer ≠ some t) : u'.gets t = some g := by
  -- the call of another goroutine is updated, or none is
  have hother : ∀ {t' : Nat} {g' g'' : GetClient α}, u.gets t' = some g'' → g''.pc ≠ .dial call →
      Function.update u.gets t' (some g') t = some g := by
    intro t' g' g'' hg' hne
    have ht : t ≠ t' := by
      rintro rfl
      obtain rfl := Option.some.inj (hg.symm.trans hg')
      exact hne hpc
    rw [Function.update_of_ne ht, hg]
  cases h with
  | @getClient t' addr hnew | @createClient t' addr hnew =>
    have ht : t ≠ t' := by
      rintro rfl
      rw [hnew] at hg
      cases hg
    exact (Function.update_of_ne ht ..).trans hg
  | loadFound hg' | loadMissing hg' | storeJoin hg' | storeNew hg' | wait hg' | lockExited hg'
  | lockFound hg' | lockDial hg' | register hg' | finish hg' => exact hother hg' (by simp)
  | @dialFail t' | @dialOk t' | @startReturnEarly t' =>
    have ht : t ≠ t' := by
      rintro rfl
      exact hdialer rfl
    exact (Function.update_of_ne ht ..).trans hg
  | _ => exact hg

/-- `AllocCounter` leaves the registered counters, and returns the one that is registered. -/
theorem allocCounter_spec (s : CountedRegistry α) (name : α) :
    ∃ id, (s.allocCounter name).2 = ⟨name, id⟩ ∧
      (s.allocCounter name).1.counters.lookup name = some id ∧
      (s.allocCounter name).1.keyCounter = s.keyCounter ∧ (s.allocCounter name).1.reg = s.reg ∧
      (s.allocCounter name).1.creating = s.creating ∧
      ∀ n id', s.counters.lookup n = some id' →
        (s.allocCounter name).1.counters.lookup n = some id' := by
  unfold allocCounter
  cases hname : s.counters.lookup name with
  | some id => exact ⟨id, rfl, hname, rfl, rfl, rfl, fun n id' h => h⟩
  | none =>
    refine ⟨s.fresh, rfl, AList.lookup_insert _, rfl, rfl, rfl, fun n id' h => ?_⟩
    have hne : n ≠ name := by
      rintro rfl
      rw [hname] at h
      cases h
    exact (AList.lookup_insert_ne hne).trans h

omit [DecidableEq α] in
/-- Steps of the registry leave the counters. -/
theorem counted_same {u : Registry α} {a : RegistryStep α} :
    (s.counted u a).reg = s.reg ∧ (s.counted u a).keyCounter = s.keyCounter ∧
      (s.counted u a).creating = s.creating ∧ (s.counted u a).counters = s.counters := by
  cases a with
  | stopped j | serveStopped =>
    unfold counted
    dsimp only
    split
    · exact beginReset_same _
    · exact ⟨rfl, rfl, rfl, rfl⟩
  | _ => exact ⟨rfl, rfl, rfl, rfl⟩

omit [DecidableEq α] in
/-- A step of the registry by another goroutine than one in `createClient` behind its dial. -/
theorem Ready.dialer_ne {a : RegistryStep α} (hready : s.Ready a) {t : Nat} {pc : CreatePc α}
    (ht : s.creating t = some pc) : a.dialer ≠ some t := by
  obtain ⟨houtside, -⟩ := hready
  intro hdialer
  cases a with
  | dialFail t' attempt =>
    cases hdialer
    simp [outside, ht] at houtside
  | dialOk | startReturnEarly => simp [outside] at houtside
  | _ => cases hdialer

omit [DecidableEq α] in
theorem creating_cases {pc : Option (CreatePc α)} {t t' : Nat} {pc' : CreatePc α}
    (h : (s.setCreating t pc).creating t' = some pc') :
    t' = t ∧ pc = some pc' ∨ t' ≠ t ∧ s.creating t' = some pc' := by
  by_cases ht : t' = t
  · subst ht
    simp only [setCreating, Function.update_self] at h
    exact .inl ⟨rfl, h⟩
  · simp only [setCreating, Function.update_of_ne ht] at h
    exact .inr ⟨ht, h⟩

/-- When one `createClient` call ends its dial, the others that are behind theirs stay there. -/
theorem Dials.others (h : Dials s) {a : RegistryStep α} {u : Registry α}
    (hu : Registry.Step s.reg a u) {t t' : Nat} (hdialer : a.dialer = some t) {pc : CreatePc α}
    (ht' : ({ s with reg := u }.setCreating t none).creating t' = some pc) :
    s.creating t' = some pc ∧ ∃ g call, s.reg.gets t' = some g ∧ u.gets t' = some g ∧
      g.pc = .dial call ∧ ∀ k, pc = .allocated k → k.name = g.addr := by
  rcases creating_cases ht' with ⟨-, heq⟩ | ⟨hne, ht'⟩
  · cases heq
  · obtain ⟨g, call, hg, hpc, hname⟩ := h t' pc ht'
    have hother : a.dialer ≠ some t' := by
      rw [hdialer]
      exact fun heq => hne (Option.some.inj heq).symm
    exact ⟨ht', g, call, hg, gets_of_dial hu hg hpc hother, hpc, hname⟩

theorem Dials.step (h : Dials s) {a : CountedStep α} (hstep : Step s a s') : Dials s' := by
  cases hstep with
  | @registry a u hready hu =>
    intro t pc ht
    obtain ⟨hr, -, hcreating, -⟩ := counted_same (s := { s with reg := u }) (u := s.reg) (a := a)
    rw [hcreating] at ht
    obtain ⟨g, call, hg, hpc, hname⟩ := h t pc ht
    rw [hr]
    exact ⟨g, call, gets_of_dial hu hg hpc (hready.dialer_ne ht), hpc, hname⟩
  -- the counter has the name of the address it was allocated for
  | @allocCounter t addr call e f hg hnone =>
    intro t' pc ht'
    obtain ⟨id, hk, -, -, hreg, hcreating, -⟩ := allocCounter_spec s addr
    have hreg' : ((s.allocCounter addr).1.setCreating t
        (some (.allocated (s.allocCounter addr).2))).reg = s.reg := hreg
    rw [hreg']
    rcases creating_cases ht' with ⟨rfl, heq⟩ | ⟨-, ht'⟩
    · refine ⟨_, call, hg, rfl, ?_⟩
      rintro k rfl
      have hkk := CreatePc.allocated.inj (Option.some.inj heq)
      rw [← hkk, hk]
    · rw [hcreating] at ht'
      exact h t' pc ht'
  | newClientFail ht hu | startReturn ht hu | register ht hu =>
    intro t' pc ht'
    obtain ⟨-, g, call, -, hg, hpc, hname⟩ := h.others hu rfl ht'
    exact ⟨g, call, hg, hpc, hname⟩
  | @start t c k ht hnew =>
    intro t' pc ht'
    rcases creating_cases ht' with ⟨rfl, heq⟩ | ⟨-, ht'⟩
    · obtain ⟨g, call, hg, hpc, -⟩ := h t' _ ht
      cases heq
      exact ⟨g, call, hg, hpc, by rintro _ ⟨⟩⟩
    · exact h t' pc ht'
  | free hwho hk | clear hwho => exact h

omit [DecidableEq α] in
theorem dials_newCountedRegistry : Dials (newCountedRegistry α) := by
  rintro t pc ⟨⟩

/-! ## Steps that keep the counters -/

/-- Clients that go on with their counters. -/
theorem Counted.of_runs (h : Counted s) (hruns : ∀ addr c, s'.RunsAt addr c → s.RunsAt addr c)
    (hkey : s'.keyCounter = s.keyCounter)
    (hcounters : ∀ n id, s.counters.lookup n = some id → s'.counters.lookup n = some id) :
    Counted s' := by
  intro addr c hc
  obtain ⟨id, hid, hlookup⟩ := h addr c (hruns addr c hc)
  exact ⟨id, by rw [hkey, hid], hcounters addr id hlookup⟩

/-- One `createClient` call goes on behind its dial, and allocates nothing. -/
theorem Held.goOn (h : Held s) {t : Nat} {pc : Option (CreatePc α)}
    (hpc : ∀ k, pc ≠ some (.allocated k))
    (hcreating : s'.creating = (s.setCreating t pc).creating)
    (hcounters : s'.counters = s.counters) : Held s' := by
  intro t' k ht'
  rw [hcreating] at ht'
  rw [hcounters]
  rcases creating_cases ht' with ⟨-, heq⟩ | ⟨-, ht'⟩
  · exact absurd heq (hpc k)
  · exact h t' k ht'

/-- No client runs behind a step of the registry that did not before. -/
theorem runs_registry (hd : Dials s) {a : RegistryStep α} {u : Registry α} (hready : s.Ready a)
    (hu : Registry.Step s.reg a u) (hruns : (counted { s with reg := u } s.reg a).RunsAt addr c) :
    s.RunsAt addr c := by
  obtain ⟨hr, -, hcreating, -⟩ := counted_same (s := { s with reg := u }) (u := s.reg) (a := a)
  rcases hruns with ⟨told, htold⟩ | ⟨t, g, ht, hg, haddr⟩
  · rw [hr] at htold
    rcases runs_of_step hu htold with hold | ⟨t, g, rfl, -⟩
    · exact .inl hold
    · simp [Ready, outside] at hready
  · rw [hcreating] at ht
    rw [hr] at hg
    -- the call that has started the client still has the lock
    obtain ⟨g', call, hg', hpc, -⟩ := hd t _ ht
    have hsame := gets_of_dial hu hg' hpc (hready.dialer_ne ht)
    obtain rfl := Option.some.inj (hsame.symm.trans hg)
    exact .inr ⟨t, g', ht, hg', haddr⟩

/-- When a call ends its dial, no client runs that did not before, but for one that it registers. -/
theorem runs_of_dialer (hd : Dials s) {a : RegistryStep α} {t : Nat} {u : Registry α}
    (hu : Registry.Step s.reg a u) (hdialer : a.dialer = some t)
    (hruns : ({ s with reg := u }.setCreating t none).RunsAt addr c) :
    s.RunsAt addr c ∨ ∃ t' g, a = .dialOk t' c ∧ s.reg.gets t' = some g ∧ g.addr = addr := by
  rcases hruns with ⟨told, htold⟩ | ⟨t', g, ht', hg, haddr⟩
  · exact (runs_of_step hu htold).imp_left .inl
  · obtain ⟨ht', g', call, hold, hg', -⟩ := hd.others hu hdialer ht'
    obtain rfl := Option.some.inj (hg'.symm.trans hg)
    exact .inl (.inr ⟨t', g', ht', hold, haddr⟩)

/-- A client is started with the counter that its `createClient` call has. -/
theorem Counted.start (h : Counted s) (hheld : Held s) (hd : Dials s) {t : Nat} {k : KeyCounter α}
    (ht : s.creating t = some (.allocated k)) (hnew : s.keyCounter c = none) :
    Counted ({ s with keyCounter := Function.update s.keyCounter c (some k) }.setCreating t
      (some (.started c))) := by
  -- the clients that ran before have other names
  have hold : ∀ addr c', s.RunsAt addr c' → ∃ id,
      Function.update s.keyCounter c (some k) c' = some ⟨addr, id⟩ ∧
        s.counters.lookup addr = some id := by
    intro addr c' hruns
    obtain ⟨id, hid, hlookup⟩ := h addr c' hruns
    have hne : c' ≠ c := by
      rintro rfl
      rw [hnew] at hid
      cases hid
    exact ⟨id, by rw [Function.update_of_ne hne, hid], hlookup⟩
  rintro addr c' (hruns | ⟨t', g, ht', hg, rfl⟩)
  · exact hold addr c' (.inl hruns)
  · rcases creating_cases ht' with ⟨rfl, heq⟩ | ⟨-, ht'⟩
    · obtain rfl := CreatePc.started.inj (Option.some.inj heq)
      obtain ⟨g', call, hg', -, hname⟩ := hd t' _ ht
      obtain rfl := Option.some.inj (hg'.symm.trans hg)
      have hlookup := hheld t' k ht
      rw [hname k rfl] at hlookup
      refine ⟨k.id, ?_, hlookup⟩
      rw [← hname k rfl]
      exact Function.update_self ..
    · exact hold g.addr c' (.inr ⟨t', g, ht', hg, rfl⟩)

/-- A step keeps the counters of the clients that run, and of those about to be started, exactly if
    it frees none of them. -/
theorem Counted.step_iff (h : Counted s) (hheld : Held s) (hd : Dials s) {a : CountedStep α}
    (hstep : Step s a s') : Counted s' ∧ Held s' ↔ s.FreesUnused a := by
  have hsame : ∀ n id, s.counters.lookup n = some id → s.counters.lookup n = some id :=
    fun _ _ hid => hid
  cases hstep with
  | @registry a u hready hu =>
    refine iff_of_true ?_ trivial
    obtain ⟨-, hk, hcreating, hc⟩ := counted_same (s := { s with reg := u }) (u := s.reg) (a := a)
    constructor
    · exact h.of_runs (fun _ _ hruns => runs_registry hd hready hu hruns) hk
        fun n id hid => by rw [hc]; exact hid
    · intro t k ht
      rw [hcreating] at ht
      rw [hc]
      exact hheld t k ht
  | @allocCounter t addr call e f hg hnone =>
    refine iff_of_true ?_ trivial
    obtain ⟨id, hk, hid, hkey, hreg, hcreating, hgrow⟩ := allocCounter_spec s addr
    constructor
    · refine h.of_runs ?_ hkey hgrow
      rintro addr' c (⟨told, htold⟩ | ⟨t', g, ht', hg', haddr⟩)
      · exact .inl ⟨told, by rw [← hreg]; exact htold⟩
      · rcases creating_cases ht' with ⟨-, heq⟩ | ⟨-, ht'⟩
        · cases heq
        · rw [hcreating] at ht'
          exact .inr ⟨t', g, ht', by rw [← hreg]; exact hg', haddr⟩
    · intro t' k ht'
      rcases creating_cases ht' with ⟨-, heq⟩ | ⟨-, ht'⟩
      · obtain rfl := CreatePc.allocated.inj (Option.some.inj heq)
        rw [hk]
        exact hid
      · rw [hcreating] at ht'
        exact hgrow _ _ (hheld t' k ht')
  | newClientFail ht hu | startReturn ht hu =>
    refine iff_of_true ⟨h.of_runs (fun addr c hruns => ?_) rfl hsame, ?_⟩ trivial
    · rcases runs_of_dialer hd hu rfl hruns with hold | ⟨_, _, heq, -⟩
      · exact hold
      · cases heq
    · exact hheld.goOn (by simp) rfl rfl
  | @register t c' u ht hu =>
    refine iff_of_true ⟨h.of_runs (fun addr c hruns => ?_) rfl hsame, ?_⟩ trivial
    · rcases runs_of_dialer hd hu rfl hruns with hold | ⟨_, g, heq, hg, haddr⟩
      · exact hold
      -- the client that is registered has run before
      · obtain ⟨rfl, rfl⟩ := RegistryStep.dialOk.inj heq
        exact .inr ⟨t, g, ht, hg, haddr⟩
    · exact hheld.goOn (by simp) rfl rfl
  | @start t c k ht hnew =>
    exact iff_of_true ⟨h.start hheld hd ht hnew, hheld.goOn (by simp) rfl rfl⟩ trivial
  | clear hwho => exact iff_of_true ⟨h, hheld⟩ trivial
  | @free who c k hwho hk =>
    constructor
    · -- a client of the address, running or about to be started, would have lost its counter
      rintro ⟨hcounted, hheld'⟩ c₁ k₁ hc₁ hk₁
      obtain rfl := ResetPc.free.inj (Option.some.inj (hwho.symm.trans hc₁))
      obtain rfl := Option.some.inj (hk.symm.trans hk₁)
      constructor
      · intro c' hruns
        obtain ⟨id, -, hlookup⟩ := hcounted k.name c' hruns
        rw [AList.lookup_erase] at hlookup
        cases hlookup
      · intro t k' ht hname
        have hlookup := hheld' t k' ht
        rw [hname, AList.lookup_erase] at hlookup
        cases hlookup
    · intro hunused
      obtain ⟨hnone, hheldBy⟩ := hunused c k hwho hk
      constructor
      · intro addr c' hruns
        obtain ⟨id, hid, hlookup⟩ := h addr c' hruns
        have hne : addr ≠ k.name := by
          rintro rfl
          exact hnone c' hruns
        exact ⟨id, hid, (AList.lookup_erase_ne hne).trans hlookup⟩
      · intro t k' ht
        exact (AList.lookup_erase_ne (hheldBy t k' ht)).trans (hheld t k' ht)

/-! ## Runs -/

theorem counted_newCountedRegistry : Counted (newCountedRegistry α) := by
  rintro addr c (⟨told, ⟨⟩⟩ | ⟨t, g, ⟨⟩, -⟩)

theorem held_newCountedRegistry : Held (newCountedRegistry α) := by
  rintro t k ⟨⟩

theorem dials_of_run {as : List (CountedStep α)}
    (hrun : runFrom step (newCountedRegistry α) as = some s) : Dials s :=
  invariant_of_run (fun _ _ _ hs h => hs.step (step_cases h)) dials_newCountedRegistry hrun

/-- **Counters of running clients**: when no step of a run frees a counter while a client of its
    address runs or is about to be started with it, the counter of every running client is
    registered in every state of the run. The condition is exact for the clients that run together
    with those that are about to be started. -/
theorem counted_of_freesUnused {as : List (CountedStep α)}
    (hrun : runFrom step (newCountedRegistry α) as = some s) :
    (RunMeets step FreesUnused (newCountedRegistry α) as →
        ∀ bs t, bs <+: as → runFrom step (newCountedRegistry α) bs = some t → Counted t) ∧
      ((∀ bs t, bs <+: as → runFrom step (newCountedRegistry α) bs = some t →
          Counted t ∧ Held t) ↔ RunMeets step FreesUnused (newCountedRegistry α) as) := by
  have hiff : (∀ bs t, bs <+: as → runFrom step (newCountedRegistry α) bs = some t →
      Counted t ∧ Held t) ↔ RunMeets step FreesUnused (newCountedRegistry α) as :=
    good_iff_runMeets (fun _ t => Counted t ∧ Held t)
      ⟨counted_newCountedRegistry, held_newCountedRegistry⟩
      (fun _ _ _ _ _ hbs ht h => ht.1.step_iff ht.2 (dials_of_run hbs) (step_cases h)) hrun
  exact ⟨fun hmeets bs t hbs ht => (hiff.mpr hmeets bs t hbs ht).1, hiff⟩

/-- A client is told to stop and ends; before `Stop` goes on, another client is created for the
    address and gets the same counter, which is then freed. -/
def freedAfterRenewal : List (CountedStep Nat) :=
  [.registry (.createClient 0 6379), .registry (.lock 0), .allocCounter 0, .start 0 0, .register 0,
    .registry (.finish 0), .registry (.onHostRemove 0 [6379]), .registry (.stop 0 0),
    .registry (.startReturn 0), .registry (.removeClient 0), .registry (.createClient 1 6379),
    .registry (.lock 1), .allocCounter 1, .start 1 1, .register 1, .registry (.finish 1),
    .registry (.stopped 0), .free (some 0)]

theorem freedAfterRenewal_isSome :
    (runFrom step (newCountedRegistry Nat) freedAfterRenewal).isSome := by
  decide +kernel

theorem lookup_freedAfterRenewal :
    ((runFrom step _ _).get freedAfterRenewal_isSome).counters.lookup 6379 = none := by
  decide +kernel

/-- The second client of `freedAfterRenewal` runs with a counter that no `collect` comes to. -/
theorem not_counted_freedAfterRenewal :
    Reachable step (newCountedRegistry Nat) ((runFrom step _ _).get freedAfterRenewal_isSome) ∧
      ((runFrom step _ _).get freedAfterRenewal_isSome).RunsAt 6379 1 ∧
      ((runFrom step _ _).get freedAfterRenewal_isSome).counters.lookup 6379 = none ∧
      ¬Counted ((runFrom step _ _).get freedAfterRenewal_isSome) := by
  have hruns : ((runFrom step _ _).get freedAfterRenewal_isSome).RunsAt 6379 1 := .inl ⟨false, rfl⟩
  refine ⟨reachable_get _, hruns, lookup_freedAfterRenewal, fun hcounted => ?_⟩
  obtain ⟨id, -, hid⟩ := hcounted 6379 1 hruns
  rw [lookup_freedAfterRenewal] at hid
  cases hid

/-- The state of `freedAfterRenewal` before the counter is freed: the condition has been met so
    far, and the counter of the second client is registered. -/
theorem counted_beforeFree :
    ∃ s, runFrom step (newCountedRegistry Nat) freedAfterRenewal.dropLast = some s ∧
      s.RunsAt 6379 1 ∧ Counted s := by
  have hsome : (runFrom step (newCountedRegistry Nat) freedAfterRenewal.dropLast).isSome := by
    decide +kernel
  have hrun := (Option.some_get hsome).symm
  -- no counter is freed at all
  have hmeets : RunMeets step FreesUnused (newCountedRegistry Nat) freedAfterRenewal.dropLast := by
    refine RunMeets.mono ?_ (runMeets_of_forall (p := fun a => ∀ who, a ≠ .free who) ?_ _)
    · intro s a hfree
      cases a with
      | free who => exact absurd rfl (hfree who)
      | _ => trivial
    · simp [freedAfterRenewal]
  refine ⟨_, hrun, .inl ⟨false, rfl⟩, ?_⟩
  exact (counted_of_freesUnused hrun).1 hmeets _ _ (List.prefix_refl _) hrun

end CountedRegistry

end Samaritan.Redis
