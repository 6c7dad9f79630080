import Mathlib.Data.Finset.Basic
import Mathlib.Data.Finset.Dedup
import Samaritan.Lib.Decimal
import Samaritan.Lib.Machine

/-!
# The Configuration of Services

The configuration (`config/config.go`) hears of services, their configs and their endpoints from
three streams, in any order, and tells the controller by events: a service is added once its
config and its endpoints are known, and changes are told as deltas afterwards.

A view replays the events. The module finds exactly which sequences of updates keep the view
equal to the services whose config and endpoints are known.
-/

namespace Samaritan.Services

open Samaritan.Lib

variable {κ : Type*}

/-! ## Messages -/

/-- `common.Address`, as far as its `Equal` compares it. -/
structure Address where
  ip : Bytes
  port : UInt32
  unrecognized : Bytes
  deriving DecidableEq, Repr

/-- The type of an endpoint; other numbers are taken as main. -/
inductive EndpointType where
  | main
  | backup
  | other
  deriving DecidableEq, Repr

/-- `service.Endpoint`; the address is a pointer that may be nil. -/
structure Endpoint where
  address : Option Address
  type : EndpointType
  deriving DecidableEq, Repr

/-- The events, with the lists as they are when the event is emitted. -/
inductive Event (κ : Type*) where
  | svcAdd (name : Bytes) (config : Option κ) (endpoints : List Endpoint)
  | svcRemove (name : Bytes)
  | svcConfig (name : Bytes) (config : Option κ)
  | svcEndpoint (name : Bytes) (added removed : List Endpoint)

/-! ## The store -/

/-- A service; `none` stands for a config and for a slice of endpoints that are nil. -/
structure ServiceWrapper (κ : Type*) where
  name : Bytes
  config : Option κ
  endpoints : Option (List Endpoint)

structure Config (κ : Type*) where
  sws : Bytes → Option (ServiceWrapper κ)
  /-- the events emitted so far -/
  events : List (Event κ)

/-- `isContainEndpoint`: the place of the first endpoint with the address. -/
def isContainEndpoint (endpoints : List Endpoint) (endpoint : Endpoint) : Option Nat :=
  endpoints.findIdx? fun e => e.address = endpoint.address

/-- The body of the loop over the removed endpoints, on the endpoints and the valid ones. -/
def removeEndpoint (st : List Endpoint × List Endpoint) (endpoint : Endpoint) :
    List Endpoint × List Endpoint :=
  match isContainEndpoint st.1 endpoint with
  | none => st
  | some i => (st.1.eraseIdx i, st.2 ++ [endpoint])

/-- The body of the loop over the added endpoints. -/
def addEndpoint (st : List Endpoint × List Endpoint) (endpoint : Endpoint) :
    List Endpoint × List Endpoint :=
  match isContainEndpoint st.1 endpoint with
  | none => (st.1 ++ [endpoint], st.2 ++ [endpoint])
  | some _ => st

def removeEndpoints (endpoints removed : List Endpoint) : List Endpoint × List Endpoint :=
  removed.foldl removeEndpoint (endpoints, [])

def addEndpoints (endpoints added : List Endpoint) : List Endpoint × List Endpoint :=
  added.foldl addEndpoint (endpoints, [])

namespace Config

def emit (c : Config κ) (evt : Event κ) : Config κ := { c with events := c.events ++ [evt] }

def setService (c : Config κ) (name : Bytes) (sw : Option (ServiceWrapper κ)) : Config κ :=
  { c with sws := Function.update c.sws name sw }

def emitSvcAddEvent (c : Config κ) (sw : ServiceWrapper κ) : Config κ :=
  -- The source queues the slice itself. While the event waits, later updates can change its array:
  -- endpoints that they remove are gone from it, and those that they add are there. The events of
  -- these updates come behind and remove and add the same addresses once more, so that all of them
  -- together come to the same as with the copy that is queued here.
  c.emit (.svcAdd sw.name sw.config (sw.endpoints.getD []))

def emitSvcRemoveEvent (c : Config κ) (sw : ServiceWrapper κ) : Config κ :=
  c.emit (.svcRemove sw.name)

def emitSvcConfigEvent (c : Config κ) (svcName : Bytes) (newCfg : Option κ) : Config κ :=
  c.emit (.svcConfig svcName newCfg)

def emitSvcEndpointEvent (c : Config κ) (svcName : Bytes) (added removed : List Endpoint) :
    Config κ :=
  if added.length = 0 ∧ removed.length = 0 then c else c.emit (.svcEndpoint svcName added removed)

/-- The body of the loop over the added services. -/
def addService (c : Config κ) (name : Bytes) : Config κ :=
  match c.sws name with
  | some _ => c
  | none => c.setService name (some ⟨name, none, none⟩)

/-- The body of the loop over the removed services. -/
def removeService (c : Config κ) (name : Bytes) : Config κ :=
  match c.sws name with
  | none => c
  | some sw => (c.setService name none).emitSvcRemoveEvent sw

def handleDependencyUpdate (c : Config κ) (added removed : List Bytes) : Config κ :=
  removed.foldl removeService (added.foldl addService c)

def handleSvcConfigUpdate (c : Config κ) (svcName : Bytes) (newCfg : Option κ) : Config κ :=
  match c.sws svcName with
  | none => c
  | some sw =>
    let sw' := { sw with config := newCfg }
    let c := c.setService svcName (some sw')
    match sw.endpoints, sw.config with
    | none, _ => c
    | some _, none => c.emitSvcAddEvent sw'
    | some _, some _ => c.emitSvcConfigEvent svcName newCfg

/-- The endpoints of a service behind an update, and the valid ones among the added and the
    removed endpoints. -/
def updateEndpoints (endpoints : Option (List Endpoint)) (added removed : List Endpoint) :
    Option (List Endpoint) × List Endpoint × List Endpoint :=
  let (rest, validRemoved) := removeEndpoints (endpoints.getD []) removed
  let (all, validAdded) := addEndpoints rest added
  -- a slice that is nil stays nil until something is appended
  (if endpoints.isNone ∧ validAdded = [] then none else some all, validAdded, validRemoved)

def handleSvcEndpointUpdate (c : Config κ) (svcName : Bytes) (added removed : List Endpoint) :
    Config κ :=
  if added.length = 0 ∧ removed.length = 0 then c
  else
    match c.sws svcName with
    | none => c
    | some sw =>
      let (endpoints, validAdded, validRemoved) := updateEndpoints sw.endpoints added removed
      let sw' := { sw with endpoints := endpoints }
      let c := c.setService svcName (some sw')
      match sw.config, sw.endpoints with
      | none, _ => c
      | some _, none => c.emitSvcAddEvent sw'
      | some _, some _ => c.emitSvcEndpointEvent svcName validAdded validRemoved

end Config

/-- A config without static services. -/
def newConfig : Config κ := ⟨fun _ => none, []⟩

/-- The updates of the three streams. -/
inductive Update (κ : Type*) where
  | dependency (added removed : List Bytes)
  | svcConfig (name : Bytes) (newCfg : κ)
  | svcEndpoint (name : Bytes) (added removed : List Endpoint)

namespace Config

def handle (c : Config κ) : Update κ → Config κ
  | .dependency added removed => c.handleDependencyUpdate added removed
  | .svcConfig name newCfg => c.handleSvcConfigUpdate name (some newCfg)
  | .svcEndpoint name added removed => c.handleSvcEndpointUpdate name added removed

/-- Every update can come in every state. -/
def step (c : Config κ) (u : Update κ) : Option (Config κ) := some (c.handle u)

end Config

/-! ## The view -/

/-- The addresses of endpoints. -/
def addresses (endpoints : List Endpoint) : Finset (Option Address) :=
  (endpoints.map Endpoint.address).toFinset

/-- What one who hears the events knows of the services: their configs and the addresses of
    their endpoints. -/
abbrev View (κ : Type*) := Bytes → Option (Option κ × Finset (Option Address))

/-- The view behind an event. -/
def View.apply (v : View κ) : Event κ → View κ
  | .svcAdd name config endpoints =>
    match v name with
    | some _ => v
    | none => Function.update v name (some (config, addresses endpoints))
  | .svcRemove name => Function.update v name none
  | .svcConfig name config =>
    match v name with
    | some (_, s) => Function.update v name (some (config, s))
    | none => v
  | .svcEndpoint name added removed =>
    match v name with
    | some (config, s) =>
      Function.update v name (some (config, s \ addresses removed ∪ addresses added))
    | none => v

def replay (events : List (Event κ)) : View κ := events.foldl View.apply fun _ => none

/-- What is to be known of a service. -/
def ServiceWrapper.known : ServiceWrapper κ → Option (Option κ × Finset (Option Address))
  | ⟨_, some config, some endpoints⟩ => some (some config, addresses endpoints)
  | _ => none

/-- The services whose config and endpoints are both known. -/
def Config.known (c : Config κ) : View κ := fun name => (c.sws name).bind ServiceWrapper.known

/-! ## The loops over endpoints -/

/-- The endpoints that are left when endpoints were removed by their addresses. -/
structure Removal (endpoints rest removed : List Endpoint) : Prop where
  sublist : rest.Sublist endpoints
  kept : ∀ e ∈ endpoints, e.address ∉ addresses removed → e ∈ rest
  valid : addresses removed ⊆ addresses endpoints
  /-- of endpoints with different addresses, the removed ones are gone -/
  gone : (endpoints.map Endpoint.address).Nodup → ∀ a ∈ addresses removed, a ∉ addresses rest

theorem mem_addresses {a : Option Address} {endpoints : List Endpoint} :
    a ∈ addresses endpoints ↔ ∃ e ∈ endpoints, e.address = a := by
  simp [addresses]

theorem addresses_append (xs ys : List Endpoint) :
    addresses (xs ++ ys) = addresses xs ∪ addresses ys := by
  simp [addresses]

theorem addresses_mono {xs ys : List Endpoint} (h : xs ⊆ ys) : addresses xs ⊆ addresses ys := by
  intro a ha
  obtain ⟨e, he, rfl⟩ := mem_addresses.mp ha
  exact mem_addresses.mpr ⟨e, h he, rfl⟩

theorem Removal.refl (endpoints : List Endpoint) : Removal endpoints endpoints [] where
  sublist := List.Sublist.refl _
  kept := fun e he _ => he
  valid := by simp [addresses]
  gone := by
    intro _ a ha
    simp [addresses] at ha

/-- Removals one after the other are a removal. -/
theorem Removal.trans {xs ys zs ms ns : List Endpoint} (hxy : Removal xs ys ms)
    (hyz : Removal ys zs ns) : Removal xs zs (ms ++ ns) where
  sublist := hyz.sublist.trans hxy.sublist
  kept := by
    intro e he hnot
    rw [addresses_append, Finset.mem_union, not_or] at hnot
    exact hyz.kept e (hxy.kept e he hnot.1) hnot.2
  valid := by
    rw [addresses_append]
    exact Finset.union_subset hxy.valid (hyz.valid.trans (addresses_mono hxy.sublist.subset))
  gone := by
    intro hnodup a ha hmem
    rw [addresses_append, Finset.mem_union] at ha
    rcases ha with ha | ha
    · exact hxy.gone hnodup a ha (addresses_mono hyz.sublist.subset hmem)
    · exact hyz.gone (hnodup.sublist (hxy.sublist.map _)) a ha hmem

/-- One endpoint is taken out. -/
theorem removal_eraseIdx {endpoints : List Endpoint} {endpoint : Endpoint} {i : Nat}
    (h : isContainEndpoint endpoints endpoint = some i) :
    Removal endpoints (endpoints.eraseIdx i) [endpoint] := by
  -- on the endpoints, up to the first one of the address
  induction endpoints generalizing i with
  | nil => cases h
  | cons e es ih =>
    rw [isContainEndpoint, List.findIdx?_cons] at h
    by_cases he : e.address = endpoint.address
    · simp only [he, decide_true, if_true, Option.some.injEq] at h
      subst h
      exact
        { sublist := List.sublist_cons_self e es
          kept := by
            intro x hx hnot
            rcases List.mem_cons.mp hx with rfl | hx
            · exact absurd (mem_addresses.mpr ⟨endpoint, by simp, he.symm⟩) hnot
            · exact hx
          valid := by
            intro a ha
            obtain ⟨x, hx, rfl⟩ := mem_addresses.mp ha
            obtain rfl := List.mem_singleton.mp hx
            exact mem_addresses.mpr ⟨e, by simp, he⟩
          -- with no address twice, the first one was the only one
          gone := by
            intro hnodup a ha hmem
            obtain ⟨x, hx, rfl⟩ := mem_addresses.mp ha
            obtain rfl := List.mem_singleton.mp hx
            obtain ⟨y, hy, hya⟩ := mem_addresses.mp hmem
            exact (List.nodup_cons.mp hnodup).1 (he ▸ hya ▸ List.mem_map_of_mem hy) }
    · simp only [he, decide_false] at h
      obtain ⟨j, hj, rfl⟩ := Option.map_eq_some_iff.mp h
      have hes := ih hj
      exact
        { sublist := hes.sublist.cons_cons e
          kept := by
            intro x hx hnot
            rcases List.mem_cons.mp hx with rfl | hx
            · simp
            · exact List.mem_cons_of_mem _ (hes.kept x hx hnot)
          valid := hes.valid.trans (addresses_mono (List.subset_cons_self e es))
          gone := by
            intro hnodup a ha hmem
            obtain ⟨y, hy, hya⟩ := mem_addresses.mp hmem
            rcases List.mem_cons.mp hy with rfl | hy
            · obtain ⟨x, hx, rfl⟩ := mem_addresses.mp ha
              obtain rfl := List.mem_singleton.mp hx
              exact he hya
            · exact hes.gone (List.nodup_cons.mp hnodup).2 a ha (mem_addresses.mpr ⟨y, hy, hya⟩) }

/-- `removeEndpoints` returns what is left, and what was there to be removed. -/
theorem removal_removeEndpoints (endpoints removed : List Endpoint) :
    Removal endpoints (removeEndpoints endpoints removed).1
      (removeEndpoints endpoints removed).2 := by
  -- by induction on the removed endpoints, for any endpoints removed before
  have hfold : ∀ (es rest valid : List Endpoint), Removal endpoints rest valid →
      Removal endpoints (es.foldl removeEndpoint (rest, valid)).1
        (es.foldl removeEndpoint (rest, valid)).2 := by
    intro es
    induction es with
    | nil => exact fun rest valid h => h
    | cons e es ih =>
      intro rest valid h
      rw [List.foldl_cons, removeEndpoint]
      cases hi : isContainEndpoint rest e with
      | none => exact ih rest valid h
      | some i => exact ih _ _ (h.trans (removal_eraseIdx hi))
  exact hfold removed endpoints [] (Removal.refl endpoints)

theorem isContainEndpoint_eq_none {endpoints : List Endpoint} {endpoint : Endpoint} :
    isContainEndpoint endpoints endpoint = none ↔ endpoint.address ∉ addresses endpoints := by
  rw [isContainEndpoint, List.findIdx?_eq_none_iff, mem_addresses]
  simp

/-- The endpoints when endpoints with new addresses were appended. -/
structure Addition (endpoints all added : List Endpoint) : Prop where
  append : all = endpoints ++ added
  nodup : (endpoints.map Endpoint.address).Nodup → (all.map Endpoint.address).Nodup

/-- `addEndpoints` returns the endpoints with those that are new, and these alone. -/
theorem addition_addEndpoints (endpoints added : List Endpoint) :
    Addition endpoints (addEndpoints endpoints added).1 (addEndpoints endpoints added).2 := by
  have hfold : ∀ (es all valid : List Endpoint), Addition endpoints all valid →
      Addition endpoints (es.foldl addEndpoint (all, valid)).1
        (es.foldl addEndpoint (all, valid)).2 := by
    intro es
    induction es with
    | nil => exact fun all valid h => h
    | cons e es ih =>
      intro all valid h
      rw [List.foldl_cons, addEndpoint]
      cases hi : isContainEndpoint all e with
      | some i => exact ih all valid h
      | none =>
        refine ih _ _ ⟨by rw [h.append, List.append_assoc], fun hnodup => ?_⟩
        rw [List.map_append, List.map_singleton, List.nodup_append_comm, List.singleton_append,
          List.nodup_cons]
        refine ⟨fun hmem => isContainEndpoint_eq_none.mp hi ?_, h.nodup hnodup⟩
        simpa [addresses] using hmem
  exact hfold added endpoints [] ⟨by simp, id⟩

/-- The first endpoint added to none is appended. -/
theorem addEndpoints_nil_eq_nil {added : List Endpoint} :
    (addEndpoints [] added).2 = [] ↔ added = [] := by
  refine ⟨fun h => ?_, fun h => by subst h; rfl⟩
  cases added with
  | nil => rfl
  | cons e es =>
    -- the valid endpoints only grow
    have hfold : ∀ (es all valid : List Endpoint), valid ≠ [] →
        (es.foldl addEndpoint (all, valid)).2 ≠ [] := by
      intro es
      induction es with
      | nil => exact fun all valid h => h
      | cons e es ih =>
        intro all valid h
        rw [List.foldl_cons, addEndpoint]
        cases isContainEndpoint all e with
        | some i => exact ih all valid h
        | none => exact ih _ _ (by simp)
    exact absurd h (hfold es [e] [e] (by simp))

theorem removeEndpoints_nil (removed : List Endpoint) : removeEndpoints [] removed = ([], []) := by
  have hrest := removal_removeEndpoints [] removed
  have hvalid : addresses (removeEndpoints [] removed).2 = ∅ := by
    have hsub := hrest.valid
    simpa [addresses] using hsub
  refine Prod.ext (List.sublist_nil.mp hrest.sublist) ?_
  simpa [addresses] using hvalid

/-- The addresses behind an update. -/
theorem addresses_updateEndpoints {endpoints : List Endpoint} (added removed : List Endpoint)
    (hnodup : (endpoints.map Endpoint.address).Nodup) :
    ∃ all, (Config.updateEndpoints (some endpoints) added removed).1 = some all ∧
      (all.map Endpoint.address).Nodup ∧
      addresses all = addresses endpoints \
          addresses (Config.updateEndpoints (some endpoints) added removed).2.2 ∪
        addresses (Config.updateEndpoints (some endpoints) added removed).2.1 := by
  have hrest := removal_removeEndpoints endpoints removed
  have hall := addition_addEndpoints (removeEndpoints endpoints removed).1 added
  refine ⟨_, rfl, hall.nodup (hnodup.sublist (hrest.sublist.map _)), ?_⟩
  show addresses (addEndpoints (removeEndpoints endpoints removed).1 added).1 =
    addresses endpoints \ addresses (removeEndpoints endpoints removed).2 ∪
      addresses (addEndpoints (removeEndpoints endpoints removed).1 added).2
  rw [hall.append, addresses_append]
  congr 1
  ext a
  rw [Finset.mem_sdiff]
  constructor
  · intro ha
    exact ⟨addresses_mono hrest.sublist.subset ha, fun hgone => hrest.gone hnodup a hgone ha⟩
  · rintro ⟨ha, hnot⟩
    obtain ⟨e, he, rfl⟩ := mem_addresses.mp ha
    exact mem_addresses.mpr ⟨e, hrest.kept e he hnot, rfl⟩

/-- The first update of the endpoints of a service. -/
theorem updateEndpoints_none (added removed : List Endpoint) :
    Config.updateEndpoints none added removed =
      (if added = [] then none else some (addEndpoints [] added).1, (addEndpoints [] added).2,
        []) := by
  simp only [Config.updateEndpoints, Option.getD_none, removeEndpoints_nil, Option.isNone_none,
    true_and, addEndpoints_nil_eq_nil]

/-! ## Replay -/

theorem replay_append (events : List (Event κ)) (evt : Event κ) :
    replay (events ++ [evt]) = (replay events).apply evt := by
  rw [replay, List.foldl_append]
  rfl

/-- Between two additions of a service stands its removal. -/
def AddsApart (events : List (Event κ)) : Prop :=
  ∀ (i j : Nat) (name : Bytes) (c c' : Option κ) (es es' : List Endpoint), i < j →
    events[i]? = some (.svcAdd name c es) → events[j]? = some (.svcAdd name c' es') →
    ∃ k, i < k ∧ k < j ∧ events[k]? = some (.svcRemove name)

/-- A service leaves the view by its removal only. -/
theorem View.apply_eq_none {v : View κ} {evt : Event κ} {name : Bytes}
    (h : v.apply evt name = none) :
    evt = .svcRemove name ∨ v name = none ∧ ∀ c es, evt ≠ .svcAdd name c es := by
  cases evt with
  -- an addition of a known service changes nothing
  | svcAdd m config endpoints =>
    cases hv : v m with
    | some x =>
      simp only [View.apply, hv] at h
      refine .inr ⟨h, fun c es heq => ?_⟩
      obtain ⟨rfl, -, -⟩ := Event.svcAdd.inj heq
      rw [hv] at h
      cases h
    | none =>
      simp only [View.apply, hv] at h
      by_cases hm : name = m
      · subst hm
        simp at h
      · rw [Function.update_of_ne hm] at h
        refine .inr ⟨h, fun c es heq => hm ?_⟩
        exact (Event.svcAdd.inj heq).1.symm
  | svcRemove m =>
    by_cases hm : name = m
    · exact .inl (by rw [hm])
    · rw [View.apply, Function.update_of_ne hm] at h
      exact .inr ⟨h, by simp⟩
  -- updates take no service away
  | svcConfig m config | svcEndpoint m added removed =>
    refine .inr ⟨?_, by simp⟩
    cases hv : v m with
    | none => simpa only [View.apply, hv] using h
    | some x =>
      simp only [View.apply, hv] at h
      by_cases hm : name = m
      · subst hm
        simp at h
      · rwa [Function.update_of_ne hm] at h

/-- A service that was added and is not in the view was removed behind that. -/
theorem exists_svcRemove {events : List (Event κ)} {name : Bytes}
    (habsent : replay events name = none) {i : Nat} {config : Option κ}
    {endpoints : List Endpoint} (hi : events[i]? = some (.svcAdd name config endpoints)) :
    ∃ k, i < k ∧ k < events.length ∧ events[k]? = some (.svcRemove name) := by
  -- by induction on the events from the last one back
  induction events using List.reverseRecOn with
  | nil => cases hi
  | append_singleton events evt ih =>
    rw [replay_append] at habsent
    have hlt : i < events.length + 1 := by
      simpa using (List.getElem?_eq_some_iff.mp hi).1
    rcases View.apply_eq_none habsent with rfl | ⟨hbefore, hnot⟩
    · have hne : i ≠ events.length := by
        rintro rfl
        simp at hi
      exact ⟨events.length, by omega, by simp, by simp⟩
    · have hne : i ≠ events.length := by
        rintro rfl
        rw [List.getElem?_concat_length] at hi
        exact hnot _ _ (Option.some.inj hi)
      rw [List.getElem?_append_left (by omega)] at hi
      obtain ⟨k, hik, hk, hget⟩ := ih hbefore hi
      refine ⟨k, hik, by simp; omega, ?_⟩
      rw [List.getElem?_append_left hk, hget]

/-- An event that is no addition of a service in the view keeps the additions apart. -/
theorem AddsApart.append {events : List (Event κ)} (h : AddsApart events) {evt : Event κ}
    (hevt : ∀ name c es, evt = .svcAdd name c es → replay events name = none) :
    AddsApart (events ++ [evt]) := by
  intro i j name c c' es es' hij hi hj
  have hlt : j < events.length + 1 := by
    simpa using (List.getElem?_eq_some_iff.mp hj).1
  rw [List.getElem?_append_left (by omega)] at hi
  by_cases hlast : j = events.length
  · subst hlast
    rw [List.getElem?_concat_length] at hj
    obtain ⟨k, hik, hk, hget⟩ := exists_svcRemove (hevt name c' es' (Option.some.inj hj)) hi
    exact ⟨k, hik, hk, by rw [List.getElem?_append_left hk, hget]⟩
  · rw [List.getElem?_append_left (by omega)] at hj
    obtain ⟨k, hik, hkj, hget⟩ := h i j name c c' es es' hij hi hj
    exact ⟨k, hik, hkj, by rw [List.getElem?_append_left (by omega), hget]⟩

namespace Config

variable {c : Config κ} {name : Bytes}

/-- What holds of the services in every state. -/
structure Shape (c : Config κ) : Prop where
  named : ∀ name sw, c.sws name = some sw → sw.name = name
  nodup : ∀ name sw endpoints, c.sws name = some sw → sw.endpoints = some endpoints →
    (endpoints.map Endpoint.address).Nodup

/-- The view is the known services, and additions stand apart. -/
structure Faithful (c : Config κ) : Prop where
  view : replay c.events = c.known
  apart : AddsApart c.events

/-- Exactly the updates that keep the view: endpoints are not only removed before any were
    added to a service whose config is known. -/
def KeepsView (c : Config κ) : Update κ → Prop
  | .svcEndpoint name added removed => ∀ sw ∈ c.sws name, sw.config.isSome = true →
      sw.endpoints = none → added = [] → removed = []
  | _ => True

theorem known_setService (sw : Option (ServiceWrapper κ)) :
    (c.setService name sw).known = Function.update c.known name (sw.bind ServiceWrapper.known) := by
  funext m
  by_cases hm : m = name
  · subst hm
    simp [known, setService]
  · simp [known, setService, hm]

theorem known_emit (evt : Event κ) : (c.emit evt).known = c.known := rfl

/-- One event tells the change of one service. -/
theorem Faithful.emit (hc : Faithful c) {sw : Option (ServiceWrapper κ)} {evt : Event κ}
    (hview : c.known.apply evt = Function.update c.known name (sw.bind ServiceWrapper.known))
    (hevt : ∀ m config es, evt = .svcAdd m config es → c.known m = none) :
    Faithful ((c.setService name sw).emit evt) where
  view := by
    rw [known_emit, known_setService, ← hview, ← hc.view]
    exact replay_append _ _
  apart := hc.apart.append fun m config es heq => by rw [hc.view]; exact hevt m config es heq

/-- A change that nobody needs to hear of. -/
theorem Faithful.setService (hc : Faithful c) {sw : Option (ServiceWrapper κ)}
    (hsw : sw.bind ServiceWrapper.known = c.known name) : Faithful (c.setService name sw) where
  view := by
    rw [known_setService, hsw, Function.update_eq_self]
    exact hc.view
  apart := hc.apart

theorem known_of_sws {sw : ServiceWrapper κ} (hsw : c.sws name = some sw) :
    c.known name = sw.known := by
  rw [known, hsw, Option.bind_some]

/-! ### Dependencies -/

theorem sws_setService {sw : Option (ServiceWrapper κ)} {m : Bytes} {w : ServiceWrapper κ}
    (h : (c.setService name sw).sws m = some w) :
    m = name ∧ sw = some w ∨ c.sws m = some w := by
  by_cases hm : m = name
  · subst hm
    exact .inl ⟨rfl, by simpa [Config.setService] using h⟩
  · exact .inr (by simpa [Config.setService, hm] using h)

theorem Shape.setService (hc : Shape c) {sw : Option (ServiceWrapper κ)}
    (hsw : ∀ w, sw = some w → w.name = name ∧ ∀ endpoints, w.endpoints = some endpoints →
      (endpoints.map Endpoint.address).Nodup) : Shape (c.setService name sw) where
  named := by
    intro m w hw
    rcases sws_setService hw with ⟨rfl, hnew⟩ | hold
    · exact (hsw w hnew).1
    · exact hc.named m w hold
  nodup := by
    intro m w endpoints hw hendpoints
    rcases sws_setService hw with ⟨rfl, hnew⟩ | hold
    · exact (hsw w hnew).2 endpoints hendpoints
    · exact hc.nodup m w endpoints hold hendpoints

theorem Shape.emit (hc : Shape c) (evt : Event κ) : Shape (c.emit evt) := ⟨hc.named, hc.nodup⟩

theorem Shape.addService (hc : Shape c) : Shape (c.addService name) := by
  rw [Config.addService]
  split
  · exact hc
  · refine hc.setService fun w hw => ?_
    cases hw
    exact ⟨rfl, fun _ h => by cases h⟩

theorem Shape.removeService (hc : Shape c) : Shape (c.removeService name) := by
  rw [Config.removeService]
  split
  · exact hc
  · exact (hc.setService fun _ h => by cases h).emit _

/-- A service that is added has no config yet, and is not announced. -/
theorem Faithful.addService (hc : Faithful c) : Faithful (c.addService name) := by
  rw [Config.addService]
  split
  · exact hc
  · rename_i hnone
    refine hc.setService ?_
    rw [known, hnone]
    rfl

/-- The removal of a service that was announced is announced. -/
theorem Faithful.removeService (hs : Shape c) (hc : Faithful c) :
    Faithful (c.removeService name) := by
  rw [Config.removeService]
  split
  · exact hc
  · rename_i sw hsw
    rw [emitSvcRemoveEvent, hs.named name sw hsw]
    exact hc.emit rfl fun m config es heq => by cases heq

theorem handleDependencyUpdate_keeps (hs : Shape c) (hc : Faithful c)
    (added removed : List Bytes) : Shape (c.handleDependencyUpdate added removed) ∧
      Faithful (c.handleDependencyUpdate added removed) := by
  have hadded : Shape (added.foldl Config.addService c) ∧
      Faithful (added.foldl Config.addService c) :=
    List.foldlRecOn (motive := fun c => Shape c ∧ Faithful c) added Config.addService ⟨hs, hc⟩
      fun _ h _ _ => ⟨h.1.addService, h.2.addService⟩
  exact List.foldlRecOn (motive := fun c => Shape c ∧ Faithful c) removed Config.removeService
    hadded fun _ h _ _ => ⟨h.1.removeService, h.2.removeService h.1⟩

/-! ### Configs -/

theorem handleSvcConfigUpdate_shape (hs : Shape c) (newCfg : Option κ) :
    Shape (c.handleSvcConfigUpdate name newCfg) := by
  rw [handleSvcConfigUpdate]
  split
  · exact hs
  · rename_i sw hsw
    have hset : Shape (c.setService name (some { sw with config := newCfg })) := by
      refine hs.setService fun w hw => ?_
      cases hw
      exact ⟨hs.named name sw hsw, fun endpoints => hs.nodup name sw endpoints hsw⟩
    dsimp only
    split
    · exact hset
    · exact hset.emit _
    · exact hset.emit _

/-- A config is announced as it is stored. -/
theorem handleSvcConfigUpdate_faithful (hs : Shape c) (hc : Faithful c) (newCfg : κ) :
    Faithful (c.handleSvcConfigUpdate name (some newCfg)) := by
  rw [handleSvcConfigUpdate]
  split
  · exact hc
  · rename_i sw hsw
    have hname := hs.named name sw hsw
    have hknown := known_of_sws hsw
    obtain ⟨n, config, endpoints⟩ := sw
    obtain rfl : n = name := hname
    cases endpoints with
    | none =>
      refine hc.setService ?_
      rw [hknown]
      cases config <;> rfl
    | some endpoints =>
      cases config with
      | none =>
        -- the service becomes known
        refine hc.emit ?_ fun m config es heq => ?_
        · simp [View.apply, hknown, ServiceWrapper.known]
        · rw [← (Event.svcAdd.inj heq).1, hknown]
          rfl
      | some config =>
        refine hc.emit ?_ fun m config es heq => by cases heq
        simp [View.apply, hknown, ServiceWrapper.known]

/-! ### Endpoints -/

/-- No address comes in twice. -/
theorem updateEndpoints_nodup {endpoints : Option (List Endpoint)} {added removed : List Endpoint}
    (h : ∀ es, endpoints = some es → (es.map Endpoint.address).Nodup) :
    ∀ es, (updateEndpoints endpoints added removed).1 = some es →
      (es.map Endpoint.address).Nodup := by
  intro es hes
  cases endpoints with
  | none =>
    rw [updateEndpoints_none] at hes
    dsimp only at hes
    split at hes <;> cases hes
    exact (addition_addEndpoints [] added).nodup List.nodup_nil
  | some endpoints =>
    obtain ⟨all, hall, hnodup, -⟩ := addresses_updateEndpoints added removed (h endpoints rfl)
    obtain rfl := Option.some.inj (hes.symm.trans hall)
    exact hnodup

theorem handleSvcEndpointUpdate_shape (hs : Shape c) (added removed : List Endpoint) :
    Shape (c.handleSvcEndpointUpdate name added removed) := by
  rw [handleSvcEndpointUpdate]
  split
  · exact hs
  · split
    · exact hs
    · rename_i sw hsw
      have hset : Shape (c.setService name
          (some { sw with endpoints := (updateEndpoints sw.endpoints added removed).1 })) := by
        refine hs.setService fun w hw => ?_
        cases hw
        exact ⟨hs.named name sw hsw,
          updateEndpoints_nodup fun endpoints => hs.nodup name sw endpoints hsw⟩
      dsimp only
      split
      · exact hset
      · exact hset.emit _
      · rw [emitSvcEndpointEvent]
        split
        · exact hset
        · exact hset.emit _

/-- The endpoints of a service in the view are updated by their delta. -/
theorem Faithful.emitSvcEndpointEvent (hs : Shape c) (hc : Faithful c) {config : κ}
    {endpoints : List Endpoint} (hsw : c.sws name = some ⟨name, some config, some endpoints⟩)
    (added removed : List Endpoint) :
    Faithful (Config.emitSvcEndpointEvent (c.setService name
        (some ⟨name, some config, (updateEndpoints (some endpoints) added removed).1⟩))
      name (updateEndpoints (some endpoints) added removed).2.1
      (updateEndpoints (some endpoints) added removed).2.2) := by
  have hknown := known_of_sws hsw
  obtain ⟨all, hall, -, haddrs⟩ := addresses_updateEndpoints added removed
    (hs.nodup name _ endpoints hsw rfl)
  rw [Config.emitSvcEndpointEvent]
  split
  · -- nothing has changed
    rename_i hnone
    refine hc.setService ?_
    rw [List.length_eq_zero_iff.mp hnone.1, List.length_eq_zero_iff.mp hnone.2] at haddrs
    simp only [addresses, List.map_nil, List.toFinset_nil, Finset.sdiff_empty,
      Finset.union_empty] at haddrs
    simp [hknown, hall, ServiceWrapper.known, addresses, haddrs]
  · refine hc.emit ?_ fun m config es heq => by cases heq
    simp [View.apply, hknown, hall, ServiceWrapper.known, haddrs]

/-- The first endpoints of a service whose config is known. -/
theorem Faithful.emitSvcAddEvent_iff (hc : Faithful c) {config : κ}
    (hsw : c.sws name = some ⟨name, some config, none⟩) (added removed : List Endpoint) :
    Faithful ((c.setService name
        (some ⟨name, some config, (updateEndpoints none added removed).1⟩)).emitSvcAddEvent
      ⟨name, some config, (updateEndpoints none added removed).1⟩) ↔ added ≠ [] := by
  have hknown : c.known name = none := known_of_sws hsw
  constructor
  · rintro hafter rfl
    -- the view has the service, although its endpoints are not known
    have hview := congrFun hafter.view name
    rw [updateEndpoints_none, Config.emitSvcAddEvent, known_emit, known_setService] at hview
    simp only [if_true, Function.update_self] at hview
    rw [Config.emit, replay_append] at hview
    have hbefore : replay c.events name = none := by rw [hc.view, hknown]
    simp [Config.setService, View.apply, hbefore, ServiceWrapper.known] at hview
  · intro hadded
    rw [updateEndpoints_none, if_neg hadded]
    refine hc.emit ?_ fun m config es heq => ?_
    · simp [View.apply, hknown, ServiceWrapper.known]
    · rw [← (Event.svcAdd.inj heq).1, hknown]

/-- Endpoints are announced as they are stored, unless the first update only removes some. -/
theorem handleSvcEndpointUpdate_faithful_iff (hs : Shape c) (hc : Faithful c)
    (added removed : List Endpoint) :
    Faithful (c.handleSvcEndpointUpdate name added removed) ↔
      KeepsView c (.svcEndpoint name added removed) := by
  rw [handleSvcEndpointUpdate]
  split
  · rename_i hnone
    exact iff_of_true hc fun _ _ _ _ _ => List.length_eq_zero_iff.mp hnone.2
  · rename_i hsome
    split
    · rename_i hsw
      refine iff_of_true hc fun sw hmem => ?_
      rw [hsw] at hmem
      cases hmem
    · rename_i sw hsw
      have hname := hs.named name sw hsw
      obtain ⟨n, config, endpoints⟩ := sw
      obtain rfl : n = name := hname
      have hkeeps : KeepsView c (.svcEndpoint n added removed) ↔
          (config.isSome = true → endpoints = none → added = [] → removed = []) := by
        simp [KeepsView, hsw]
      rw [hkeeps]
      -- without a config nothing is announced yet
      cases config with
      | none =>
        refine iff_of_true (hc.setService ?_) (by simp)
        rw [known_of_sws hsw]
        rfl
      | some config =>
        cases endpoints with
        -- the addition is announced with what was added, so an update that only removes is lost
        | none =>
          refine (hc.emitSvcAddEvent_iff hsw added removed).trans ?_
          simp only [List.length_eq_zero_iff, not_and] at hsome
          simp only [Option.isSome_some, forall_const]
          tauto
        | some endpoints =>
          exact iff_of_true (hc.emitSvcEndpointEvent hs hsw added removed) (by simp)

/-! ## Runs -/

theorem shape_newConfig : Shape (newConfig : Config κ) := by
  constructor
  · intro name sw hsw
    cases hsw
  · intro name sw endpoints hsw
    cases hsw

theorem faithful_newConfig : Faithful (newConfig : Config κ) where
  view := rfl
  apart := by
    intro i j name c c' es es' _ hi
    cases hi

theorem Shape.handle (hs : Shape c) (u : Update κ) : Shape (c.handle u) := by
  cases u with
  | dependency added removed =>
    have hadded : Shape (added.foldl Config.addService c) :=
      List.foldlRecOn (motive := Shape) added Config.addService hs fun _ h _ _ => h.addService
    exact List.foldlRecOn (motive := Shape) removed Config.removeService hadded
      fun _ h _ _ => h.removeService
  | svcConfig name newCfg => exact handleSvcConfigUpdate_shape hs _
  | svcEndpoint name added removed => exact handleSvcEndpointUpdate_shape hs added removed

/-- Every update keeps the view, but for the one that `KeepsView` is about. -/
theorem Faithful.handle_iff (hs : Shape c) (hc : Faithful c) (u : Update κ) :
    Faithful (c.handle u) ↔ KeepsView c u := by
  cases u with
  | dependency added removed =>
    exact iff_of_true (handleDependencyUpdate_keeps hs hc added removed).2 trivial
  | svcConfig name newCfg =>
    exact iff_of_true (handleSvcConfigUpdate_faithful hs hc newCfg) trivial
  | svcEndpoint name added removed =>
    exact handleSvcEndpointUpdate_faithful_iff hs hc added removed

theorem shape_of_run {us : List (Update κ)} (hrun : runFrom step newConfig us = some c) :
    Shape c := by
  have hstep : ∀ (c : Config κ) (u : Update κ) (c' : Config κ), Shape c → step c u = some c' →
      Shape c' := by
    intro c u c' hc h
    cases h
    exact hc.handle u
  exact invariant_of_run hstep shape_newConfig hrun

/-- **Events of the configuration**: along a sequence of updates the replayed events always give
    the services whose config and endpoints are known, with one addition of a service between two
    removals, exactly when every update meets `KeepsView`. -/
theorem faithful_iff_keepsView (us : List (Update κ)) :
    (∀ bs t, bs <+: us → runFrom step newConfig bs = some t → Faithful t) ↔
      RunMeets step KeepsView newConfig us := by
  obtain ⟨t, hrun⟩ := exists_runFrom step (fun c u => ⟨c.handle u, rfl⟩) newConfig us
  refine good_iff_runMeets (fun _ t => Faithful t) faithful_newConfig ?_ hrun
  intro bs c u t _ hbs hc hstep
  cases hstep
  exact hc.handle_iff (shape_of_run hbs) u

end Config

def sampleEndpoint : Endpoint := ⟨some ⟨[1], 80, []⟩, .main⟩

/-- A service with a config gets a removal of endpoints before the first endpoint. -/
def earlyRemoval : List (Update Unit) :=
  [.dependency [[7]] [], .svcConfig [7] (), .svcEndpoint [7] [] [sampleEndpoint],
    .svcEndpoint [7] [sampleEndpoint] []]

/-- The removal adds the service without endpoints; when the endpoint comes, the service is added
    again, which the view ignores. -/
theorem not_faithful_earlyRemoval :
    ∃ t, runFrom Config.step newConfig earlyRemoval = some t ∧
      t.events = [.svcAdd [7] (some ()) [], .svcAdd [7] (some ()) [sampleEndpoint]] ∧
      replay t.events [7] = some (some (), ∅) ∧
      t.known [7] = some (some (), {sampleEndpoint.address}) ∧ ¬ t.Faithful := by
  refine ⟨_, rfl, rfl, rfl, rfl, fun hfaithful => ?_⟩
  have hview := congrFun hfaithful.view [7]
  revert hview
  decide

end Samaritan.Services
