import Samaritan.Services.Processor

/-!
# The Controller

The controller (`controller/controller.go`) handles the events of the configuration one by one:
it creates a processor for a service that is added, stops it when the service is removed, and
passes on new configs and endpoints in between.
-/

namespace Samaritan.Services

open Samaritan.Lib
open Samaritan.Hosts (Host HostSet HostType)

variable {Λ χ Ω : Type*}

/-! ## Hosts of endpoints -/

/-- The text of an address, as `fmt.Sprintf` makes it of `%s:%d`. -/
def Address.hostAddr (addr : Address) : Bytes := addr.ip ++ 58 :: formatNat addr.port.toNat

def EndpointType.hostType : EndpointType → HostType
  | .backup => .backup
  | _ => .main

/-- `endpointsToHosts`, for the next free object; `none` is the dereference of an address that
    is nil. -/
def endpointsToHosts : Nat → List Endpoint → Option (List Host)
  | _, [] => some []
  | next, endpoint :: endpoints =>
    match endpoint.address with
    | none => none
    | some addr =>
      (endpointsToHosts (next + 1) endpoints).map
        (⟨next, addr.hostAddr, endpoint.type.hostType⟩ :: ·)

/-! ## The controller -/

structure Controller (Λ χ Ω : Type*) where
  procs : Bytes → Option (Proc Λ χ Ω)
  /-- the number of host objects made so far -/
  hosts : Nat
  /-- the process has died of a panic -/
  panicked : Bool

/-- A controller without processors. -/
def newController : Controller Λ χ Ω := ⟨fun _ => none, 0, false⟩

namespace Controller

def setProc (ctl : Controller Λ χ Ω) (name : Bytes) (p : Option (Proc Λ χ Ω)) :
    Controller Λ χ Ω :=
  { ctl with procs := Function.update ctl.procs name p }

def panic (ctl : Controller Λ χ Ω) : Controller Λ χ Ω := { ctl with panicked := true }

def tryEnsureProc (env : Environment Λ χ Ω) (ctl : Controller Λ χ Ω) (svcName : Bytes)
    (cfg : Option (ServiceConfig Λ χ Ω)) (hosts : List Host) : Controller Λ χ Ω :=
  if svcName = [] then ctl
  else
    match cfg with
    | none => ctl
    | some cfg =>
      if cfg.validate env then
        match newProc env svcName cfg hosts with
        | .ok p => ctl.setProc svcName (some p)
        | .err => ctl
        | .panic => ctl.panic
      else ctl

def handleSvcAdd (env : Environment Λ χ Ω) (ctl : Controller Λ χ Ω) (svcName : Bytes)
    (cfg : Option (ServiceConfig Λ χ Ω)) (endpoints : List Endpoint) : Controller Λ χ Ω :=
  match ctl.procs svcName with
  | some _ => ctl
  | none =>
    match endpointsToHosts ctl.hosts endpoints with
    | none => ctl.panic
    | some hosts =>
      tryEnsureProc env { ctl with hosts := ctl.hosts + hosts.length } svcName cfg hosts

def handleSvcDel (ctl : Controller Λ χ Ω) (svcName : Bytes) : Controller Λ χ Ω :=
  match ctl.procs svcName with
  | some _ => ctl.setProc svcName none
  | none => ctl

/-- A handler of endpoints: nothing is done without endpoints or without a processor. -/
def handleSvcEndpoints (onHosts : Proc Λ χ Ω → List Host → Proc Λ χ Ω) (ctl : Controller Λ χ Ω)
    (svcName : Bytes) (endpoints : List Endpoint) : Controller Λ χ Ω :=
  if endpoints.length = 0 then ctl
  else
    match ctl.procs svcName with
    | none => ctl
    | some p =>
      match endpointsToHosts ctl.hosts endpoints with
      | none => ctl.panic
      | some hosts =>
        { ctl with hosts := ctl.hosts + hosts.length }.setProc svcName (some (onHosts p hosts))

def handleSvcEndpointsAdd (ctl : Controller Λ χ Ω) (svcName : Bytes)
    (endpoints : List Endpoint) : Controller Λ χ Ω :=
  handleSvcEndpoints Proc.onSvcHostAdd ctl svcName endpoints

def handleSvcEndpointsRemove (ctl : Controller Λ χ Ω) (svcName : Bytes)
    (endpoints : List Endpoint) : Controller Λ χ Ω :=
  handleSvcEndpoints Proc.onSvcHostRemove ctl svcName endpoints

variable [DecidableEq χ]

def handleSvcConfigUpdate (env : Environment Λ χ Ω) (ctl : Controller Λ χ Ω) (svcName : Bytes)
    (newCfg : Option (ServiceConfig Λ χ Ω)) : Controller Λ χ Ω :=
  match ctl.procs svcName with
  | none => ctl
  | some p =>
    match p.onSvcConfigUpdate env newCfg with
    | .ok p => ctl.setProc svcName (some p)
    | .err => ctl
    | .panic => ctl.panic

def handleEvent (env : Environment Λ χ Ω) (ctl : Controller Λ χ Ω) :
    Event (ServiceConfig Λ χ Ω) → Controller Λ χ Ω
  | .svcAdd name cfg endpoints => ctl.handleSvcAdd env name cfg endpoints
  | .svcRemove name => ctl.handleSvcDel name
  | .svcConfig name cfg => ctl.handleSvcConfigUpdate env name cfg
  | .svcEndpoint name added removed =>
    let ctl := ctl.handleSvcEndpointsAdd name added
    -- a panic ends the process
    if ctl.panicked then ctl else ctl.handleSvcEndpointsRemove name removed

end Controller

/-! ## Endpoints and hosts -/

/-- The addresses of endpoints as texts; `none` stands for an address that is nil. -/
def hostAddrs (endpoints : List Endpoint) : Finset (Option Bytes) :=
  (endpoints.map fun e => e.address.map Address.hostAddr).toFinset

/-- The addresses of the hosts of a processor. -/
def Proc.hostAddrs (p : Proc Λ χ Ω) : Finset Bytes := p.hostSet.all.keys.toFinset

/-- The service has a processor, and its hosts have the addresses of the endpoints. -/
structure HostsAgree (c : Config (ServiceConfig Λ χ Ω)) (ctl : Controller Λ χ Ω) (name : Bytes) :
    Prop where
  running : ctl.panicked = false
  agree : ∃ sw endpoints p, c.sws name = some sw ∧ sw.endpoints = some endpoints ∧
    ctl.procs name = some p ∧ hostAddrs endpoints = p.hostAddrs.image some

/-- Exactly the endpoint updates of a service that keep the hosts: no valid added endpoint is
    without an address, and no valid removed one has the address of an endpoint that is there
    behind the update. -/
def KeepsHosts (c : Config (ServiceConfig Λ χ Ω)) (name : Bytes) (added removed : List Endpoint) :
    Prop :=
  ∀ sw ∈ c.sws name, ∀ all ∈ (Config.updateEndpoints sw.endpoints added removed).1,
    (∀ e ∈ (Config.updateEndpoints sw.endpoints added removed).2.1, e.address ≠ none) ∧
    ∀ e ∈ (Config.updateEndpoints sw.endpoints added removed).2.2, ∀ f ∈ all,
      e.address.map Address.hostAddr ≠ f.address.map Address.hostAddr

theorem mem_hostAddrs {a : Option Bytes} {endpoints : List Endpoint} :
    a ∈ hostAddrs endpoints ↔ ∃ e ∈ endpoints, e.address.map Address.hostAddr = a := by
  simp [hostAddrs]

theorem Proc.mem_hostAddrs {p : Proc Λ χ Ω} {a : Bytes} :
    a ∈ p.hostAddrs ↔ (p.hostSet.all.lookup a).isSome = true := by
  rw [Proc.hostAddrs, List.mem_toFinset, AList.lookup_isSome]
  rfl

theorem Proc.mem_hostAddrs_add {p : Proc Λ χ Ω} {hosts : List Host} {a : Bytes} :
    a ∈ (p.onSvcHostAdd hosts).hostAddrs ↔ a ∈ hosts.map Host.addr ∨ a ∈ p.hostAddrs := by
  rw [Proc.mem_hostAddrs, Proc.mem_hostAddrs, Proc.onSvcHostAdd, HostSet.add_all, lookup_insertAll,
    Option.isSome_or, Bool.or_eq_true]
  refine or_congr_left ?_
  cases hlast : lastAt Host.addr hosts a with
  | none => simpa using lastAt_eq_none.mp hlast
  | some h =>
    obtain ⟨hmem, haddr⟩ := lastAt_eq_some hlast
    simpa using ⟨h, hmem, haddr⟩

theorem Proc.mem_hostAddrs_remove {p : Proc Λ χ Ω} {hosts : List Host} {a : Bytes} :
    a ∈ (p.onSvcHostRemove hosts).hostAddrs ↔ a ∈ p.hostAddrs ∧ a ∉ hosts.map Host.addr := by
  rw [Proc.mem_hostAddrs, Proc.mem_hostAddrs, Proc.onSvcHostRemove, HostSet.remove_all,
    lookup_eraseAll]
  by_cases ha : a ∈ hosts.map Host.addr
  · rw [if_pos ha]
    exact iff_of_false (by simp) fun h => h.2 ha
  · rw [if_neg ha]
    exact (and_iff_left ha).symm

theorem Proc.onSvcHostAdd_nil (p : Proc Λ χ Ω) : p.onSvcHostAdd [] = p := rfl

theorem Proc.onSvcHostRemove_nil (p : Proc Λ χ Ω) : p.onSvcHostRemove [] = p := rfl

theorem endpointsToHosts_eq_none {next : Nat} {endpoints : List Endpoint} :
    endpointsToHosts next endpoints = none ↔ ∃ e ∈ endpoints, e.address = none := by
  induction endpoints generalizing next with
  | nil => simp [endpointsToHosts]
  | cons e es ih =>
    rw [endpointsToHosts]
    cases haddr : e.address with
    | none => simp [haddr]
    | some addr => simp [haddr, ih]

theorem endpointsToHosts_addr {next : Nat} {endpoints : List Endpoint} {hosts : List Host}
    (h : endpointsToHosts next endpoints = some hosts) (a : Bytes) :
    a ∈ hosts.map Host.addr ↔ some a ∈ hostAddrs endpoints := by
  induction endpoints generalizing next hosts with
  | nil =>
    cases h
    simp [hostAddrs]
  | cons e es ih =>
    rw [endpointsToHosts] at h
    cases haddr : e.address with
    | none =>
      rw [haddr] at h
      cases h
    | some addr =>
      rw [haddr] at h
      obtain ⟨rest, hrest, rfl⟩ := Option.map_eq_some_iff.mp h
      rw [List.map_cons, List.mem_cons, ih hrest]
      simp [hostAddrs, haddr]

namespace Controller

variable {ctl : Controller Λ χ Ω} {name : Bytes} {p : Proc Λ χ Ω} {endpoints : List Endpoint}
  {onHosts : Proc Λ χ Ω → List Host → Proc Λ χ Ω}

variable (onHosts) in
theorem handleSvcEndpoints_panicked (hp : ctl.procs name = some p)
    (he : ∃ e ∈ endpoints, e.address = none) :
    (handleSvcEndpoints onHosts ctl name endpoints).panicked = true := by
  have hne : ¬ endpoints.length = 0 := by
    obtain ⟨e, hmem, -⟩ := he
    exact fun hnil => List.not_mem_nil (List.length_eq_zero_iff.mp hnil ▸ hmem)
  rw [handleSvcEndpoints, if_neg hne, hp]
  simp only [endpointsToHosts_eq_none.mpr he]
  rfl

/-- The hosts of the endpoints are handed to the processor. -/
theorem handleSvcEndpoints_eq (hp : ctl.procs name = some p) (hnil : onHosts p [] = p)
    (he : ∀ e ∈ endpoints, e.address ≠ none) :
    ∃ hosts, (∀ a, a ∈ hosts.map Host.addr ↔ some a ∈ hostAddrs endpoints) ∧
      (handleSvcEndpoints onHosts ctl name endpoints).procs name = some (onHosts p hosts) ∧
      (handleSvcEndpoints onHosts ctl name endpoints).panicked = ctl.panicked := by
  rw [handleSvcEndpoints]
  split
  · rename_i hlen
    obtain rfl := List.length_eq_zero_iff.mp hlen
    exact ⟨[], by simp [hostAddrs], by rw [hp, hnil], rfl⟩
  · cases hhosts : endpointsToHosts ctl.hosts endpoints with
    | none =>
      obtain ⟨e, hmem, hnone⟩ := endpointsToHosts_eq_none.mp hhosts
      exact absurd hnone (he e hmem)
    | some hosts =>
      refine ⟨hosts, endpointsToHosts_addr hhosts, ?_, ?_⟩
      · simp [hp, setProc]
      · simp [hp, setProc]

variable [DecidableEq χ] (env : Environment Λ χ Ω)

/-- The two handlers of an endpoint event. -/
theorem handleEvent_svcEndpoint (hrunning : ctl.panicked = false) (hp : ctl.procs name = some p)
    {added removed : List Endpoint} (hadded : ∀ e ∈ added, e.address ≠ none)
    (hremoved : ∀ e ∈ removed, e.address ≠ none) :
    ∃ p', (ctl.handleEvent env (.svcEndpoint name added removed)).procs name = some p' ∧
      (ctl.handleEvent env (.svcEndpoint name added removed)).panicked = false ∧
      p'.cfg = p.cfg ∧ ∀ a, a ∈ p'.hostAddrs ↔
        (some a ∈ hostAddrs added ∨ a ∈ p.hostAddrs) ∧ some a ∉ hostAddrs removed := by
  obtain ⟨hosts, hhosts, hprocs, hpanicked⟩ :=
    handleSvcEndpoints_eq hp (p.onSvcHostAdd_nil) hadded
  obtain ⟨hosts', hhosts', hprocs', hpanicked'⟩ :=
    handleSvcEndpoints_eq hprocs (Proc.onSvcHostRemove_nil _) hremoved
  rw [hrunning] at hpanicked
  rw [hpanicked] at hpanicked'
  refine ⟨(p.onSvcHostAdd hosts).onSvcHostRemove hosts', ?_, ?_, rfl, fun a => ?_⟩
  · simp only [handleEvent, handleSvcEndpointsAdd, hpanicked]
    exact hprocs'
  · simp only [handleEvent, handleSvcEndpointsAdd, hpanicked]
    exact hpanicked'
  · rw [Proc.mem_hostAddrs_remove, Proc.mem_hostAddrs_add, hhosts, hhosts']

/-- An endpoint event with an address that is nil. -/
theorem handleEvent_svcEndpoint_panicked (hp : ctl.procs name = some p)
    {added removed : List Endpoint}
    (he : ¬ ((∀ e ∈ added, e.address ≠ none) ∧ ∀ e ∈ removed, e.address ≠ none)) :
    (ctl.handleEvent env (.svcEndpoint name added removed)).panicked = true := by
  rw [handleEvent, handleSvcEndpointsAdd]
  by_cases hadded : ∀ e ∈ added, e.address ≠ none
  · obtain ⟨hosts, -, hprocs, -⟩ := handleSvcEndpoints_eq hp p.onSvcHostAdd_nil hadded
    have hremoved : ∃ e ∈ removed, e.address = none := by
      by_contra hnone
      push Not at hnone
      exact he ⟨hadded, hnone⟩
    split
    · assumption
    · exact handleSvcEndpoints_panicked Proc.onSvcHostRemove hprocs hremoved
  · push Not at hadded
    have hdead := handleSvcEndpoints_panicked Proc.onSvcHostAdd hp hadded
    simp only [hdead, if_true]

end Controller

theorem Config.emitSvcEndpointEvent_sws {κ : Type*} (c : Config κ) (name : Bytes)
    (added removed : List Endpoint) : (c.emitSvcEndpointEvent name added removed).sws = c.sws := by
  rw [Config.emitSvcEndpointEvent]
  split <;> rfl

/-- The endpoint event that an update makes. -/
theorem Config.of_svcEndpoint {κ : Type*} {c : Config κ} {name n : Bytes}
    {added removed validAdded validRemoved : List Endpoint}
    (h : (c.handleSvcEndpointUpdate name added removed).events =
      c.events ++ [.svcEndpoint n validAdded validRemoved]) :
    ∃ sw endpoints all, c.sws name = some sw ∧ sw.endpoints = some endpoints ∧
      Config.updateEndpoints (some endpoints) added removed =
        (some all, validAdded, validRemoved) ∧
      (c.handleSvcEndpointUpdate name added removed).sws name =
        some { sw with endpoints := some all } := by
  have hsame : c.events ≠ c.events ++ [.svcEndpoint n validAdded validRemoved] := by
    intro heq
    simpa using congrArg List.length heq
  rw [Config.handleSvcEndpointUpdate] at h ⊢
  split at h
  · exact absurd h hsame
  · rename_i hsome
    rw [if_neg hsome]
    cases hsw : c.sws name with
    | none =>
      rw [hsw] at h
      exact absurd h hsame
    | some sw =>
      obtain ⟨m, config, endpoints⟩ := sw
      rw [hsw] at h
      cases config with
      | none => exact absurd h hsame
      | some config =>
        cases endpoints with
        | none => cases List.append_cancel_left h
        | some endpoints =>
          refine ⟨_, endpoints, (addEndpoints (removeEndpoints endpoints removed).1 added).1, rfl,
            rfl, ?_, ?_⟩
          · -- an event was emitted, with the valid endpoints
            dsimp only [Config.emitSvcEndpointEvent] at h
            split at h
            · exact absurd h hsame
            · have hevt := (List.cons.inj (List.append_cancel_left h)).1
              obtain ⟨-, rfl, rfl⟩ := Event.svcEndpoint.inj hevt
              rfl
          · dsimp only
            rw [Config.emitSvcEndpointEvent_sws]
            show Function.update c.sws name _ name = _
            rw [Function.update_self]
            rfl

/-- An update of known endpoints removes the valid removed ones, then adds the valid added ones. -/
theorem Config.removal_addition_of_updateEndpoints
    {endpoints all added removed validAdded validRemoved : List Endpoint}
    (h : Config.updateEndpoints (some endpoints) added removed =
      (some all, validAdded, validRemoved)) :
    ∃ rest, Removal endpoints rest validRemoved ∧ Addition rest all validAdded := by
  have hremoved : (removeEndpoints endpoints removed).2 = validRemoved :=
    congrArg (fun u => u.2.2) h
  have hadded : (addEndpoints (removeEndpoints endpoints removed).1 added).2 = validAdded :=
    congrArg (fun u => u.2.1) h
  have hall : (addEndpoints (removeEndpoints endpoints removed).1 added).1 = all :=
    Option.some.inj (congrArg (fun u => u.1) h)
  refine ⟨(removeEndpoints endpoints removed).1, ?_, ?_⟩
  · exact hremoved ▸ removal_removeEndpoints endpoints removed
  · exact hadded ▸ hall ▸ addition_addEndpoints _ added

theorem mem_hostAddrs_of_address {e : Endpoint} {endpoints : List Endpoint}
    (h : e.address ∈ addresses endpoints) :
    e.address.map Address.hostAddr ∈ hostAddrs endpoints := by
  obtain ⟨f, hf, haddr⟩ := mem_addresses.mp h
  exact mem_hostAddrs.mpr ⟨f, hf, by rw [haddr]⟩

/-- Additions before removals give the addresses of the endpoints, if no removed one is still
    there. -/
theorem hostAddrs_eq_iff {endpoints rest all added removed : List Endpoint}
    {before after : Finset Bytes}
    (hremoval : Removal endpoints rest removed) (haddition : Addition rest all added)
    (hbefore : hostAddrs endpoints = before.image some) (hadded : ∀ e ∈ added, e.address ≠ none)
    (hafter : ∀ a, a ∈ after ↔
      (some a ∈ hostAddrs added ∨ a ∈ before) ∧ some a ∉ hostAddrs removed) :
    hostAddrs all = after.image some ↔ ∀ e ∈ removed, ∀ f ∈ all,
      e.address.map Address.hostAddr ≠ f.address.map Address.hostAddr := by
  have hall : ∀ f, f ∈ all ↔ f ∈ rest ∨ f ∈ added := fun f => by
    rw [haddition.append, List.mem_append]
  constructor
  · intro heq e he f hf hef
    have hmem : f.address.map Address.hostAddr ∈ after.image some :=
      heq ▸ mem_hostAddrs.mpr ⟨f, hf, rfl⟩
    obtain ⟨a, ha, hfa⟩ := Finset.mem_image.mp hmem
    exact ((hafter a).mp ha).2 (mem_hostAddrs.mpr ⟨e, he, hef.trans hfa.symm⟩)
  · intro hapart
    ext x
    rw [Finset.mem_image]
    constructor
    · intro hx
      obtain ⟨f, hf, rfl⟩ := mem_hostAddrs.mp hx
      -- an endpoint behind the update was there before or is a valid added one
      have hold : ∃ a, f.address.map Address.hostAddr = some a ∧
          (some a ∈ hostAddrs added ∨ a ∈ before) := by
        rcases (hall f).mp hf with hrest | hnew
        · have hmem : f.address.map Address.hostAddr ∈ before.image some :=
            hbefore ▸ mem_hostAddrs.mpr ⟨f, hremoval.sublist.subset hrest, rfl⟩
          obtain ⟨a, ha, hfa⟩ := Finset.mem_image.mp hmem
          exact ⟨a, hfa.symm, .inr ha⟩
        · obtain ⟨addr, haddr⟩ := Option.ne_none_iff_exists'.mp (hadded f hnew)
          refine ⟨addr.hostAddr, by rw [haddr]; rfl, .inl ?_⟩
          exact mem_hostAddrs.mpr ⟨f, hnew, by rw [haddr]; rfl⟩
      obtain ⟨a, hfa, ha⟩ := hold
      refine ⟨a, (hafter a).mpr ⟨ha, fun hgone => ?_⟩, hfa.symm⟩
      obtain ⟨e, he, hea⟩ := mem_hostAddrs.mp hgone
      exact hapart e he f hf (hea.trans hfa.symm)
    · rintro ⟨a, ha, rfl⟩
      obtain ⟨hsome, hnot⟩ := (hafter a).mp ha
      rcases hsome with hnew | hold
      · obtain ⟨e, he, hea⟩ := mem_hostAddrs.mp hnew
        exact mem_hostAddrs.mpr ⟨e, (hall e).mpr (.inr he), hea⟩
      · have hmem : some a ∈ hostAddrs endpoints :=
          hbefore ▸ Finset.mem_image.mpr ⟨a, hold, rfl⟩
        obtain ⟨e, he, hea⟩ := mem_hostAddrs.mp hmem
        have hkept : e.address ∉ addresses removed := fun hgone =>
          hnot (hea ▸ mem_hostAddrs_of_address hgone)
        exact mem_hostAddrs.mpr ⟨e, (hall e).mpr (.inl (hremoval.kept e he hkept)), hea⟩

/-- **Hosts of a processor**: when the hosts of the processor have the addresses of the endpoints
    of the service and an update makes an endpoint event, they do so again behind the event
    exactly when the update meets `KeepsHosts`. -/
theorem hostsAgree_iff_keepsHosts [DecidableEq χ] {env : Environment Λ χ Ω}
    {c : Config (ServiceConfig Λ χ Ω)} {ctl : Controller Λ χ Ω} {name : Bytes}
    {added removed validAdded validRemoved : List Endpoint} (hbefore : HostsAgree c ctl name)
    (hevt : (c.handleSvcEndpointUpdate name added removed).events =
      c.events ++ [.svcEndpoint name validAdded validRemoved]) :
    HostsAgree (c.handleSvcEndpointUpdate name added removed)
        (ctl.handleEvent env (.svcEndpoint name validAdded validRemoved)) name ↔
      KeepsHosts c name added removed := by
  obtain ⟨hrunning, sw, endpoints, p, hsw, hendpoints, hp, hagree⟩ := hbefore
  obtain ⟨sw', endpoints', all, hsw', hendpoints', hupdate, hafter⟩ := Config.of_svcEndpoint hevt
  obtain rfl : sw = sw' := Option.some.inj (hsw.symm.trans hsw')
  obtain rfl : endpoints = endpoints' := Option.some.inj (hendpoints.symm.trans hendpoints')
  have hkeeps : KeepsHosts c name added removed ↔
      (∀ e ∈ validAdded, e.address ≠ none) ∧ ∀ e ∈ validRemoved, ∀ f ∈ all,
        e.address.map Address.hostAddr ≠ f.address.map Address.hostAddr := by
    simp [KeepsHosts, hsw, hendpoints, hupdate]
  rw [hkeeps]
  obtain ⟨rest, hremoval, haddition⟩ := Config.removal_addition_of_updateEndpoints hupdate
  by_cases hadded : ∀ e ∈ validAdded, e.address ≠ none
  · have hremoved : ∀ e ∈ validRemoved, e.address ≠ none := by
      intro e he hnone
      have hmem : none ∈ hostAddrs endpoints := by
        have hvalid := hremoval.valid (mem_addresses.mpr ⟨e, he, rfl⟩)
        simpa [hnone] using mem_hostAddrs_of_address hvalid
      rw [hagree] at hmem
      simp at hmem
    obtain ⟨p', hp', hpanicked, -, hp'addrs⟩ :=
      Controller.handleEvent_svcEndpoint env hrunning hp hadded hremoved
    rw [and_iff_right hadded, ← hostAddrs_eq_iff hremoval haddition hagree hadded hp'addrs]
    constructor
    · rintro ⟨-, sw'', endpoints'', p'', hsw'', hendpoints'', hp'', hagree''⟩
      obtain rfl := Option.some.inj (hafter.symm.trans hsw'')
      obtain rfl := Option.some.inj hendpoints''
      obtain rfl := Option.some.inj (hp'.symm.trans hp'')
      exact hagree''
    · intro hagree'
      exact ⟨hpanicked, _, all, p', hafter, rfl, hp', hagree'⟩
  · refine iff_of_false (fun hpanic => ?_) fun h => hadded h.1
    -- the address of an endpoint is read that has none
    have hdead :
        (ctl.handleEvent env (.svcEndpoint name validAdded validRemoved)).panicked = true :=
      Controller.handleEvent_svcEndpoint_panicked env hp fun h => hadded h.1
    cases hdead.symm.trans hpanic.running

/-! ### A sample service -/

def sampleEnv : Environment Unit Unit Unit where
  listenerValid := fun _ => true
  checkerValid := fun _ => true
  optionsValid := fun _ => true
  tcpChecker := ()
  newListener := fun _ => .ok ()
  makeChecker := fun _ => .ok ()

def sampleCfg : ServiceConfig Unit Unit Unit := ⟨some (), none, none, none, 0, .tcp, none⟩

/-- A service with one endpoint. -/
def sampleStore : Config (ServiceConfig Unit Unit Unit) :=
  ((newConfig.handle (.dependency [[7]] [])).handle (.svcConfig [7] sampleCfg)).handle
    (.svcEndpoint [7] [sampleEndpoint] [])

def sampleController : Controller Unit Unit Unit :=
  newController.handleEvent sampleEnv (.svcAdd [7] (some sampleCfg) [sampleEndpoint])

theorem hostsAgree_sample : HostsAgree sampleStore sampleController [7] :=
  ⟨rfl, _, [sampleEndpoint], _, rfl, rfl, rfl, by decide +kernel⟩

/-- An endpoint is removed and added in one update; the processor adds its host and then removes
    it. -/
theorem not_hostsAgree_sample :
    HostsAgree sampleStore sampleController [7] ∧
    (sampleStore.handleSvcEndpointUpdate [7] [sampleEndpoint] [sampleEndpoint]).events =
      sampleStore.events ++ [.svcEndpoint [7] [sampleEndpoint] [sampleEndpoint]] ∧
    ¬ HostsAgree (sampleStore.handleSvcEndpointUpdate [7] [sampleEndpoint] [sampleEndpoint])
      (sampleController.handleEvent sampleEnv
        (.svcEndpoint [7] [sampleEndpoint] [sampleEndpoint])) [7] := by
  refine ⟨hostsAgree_sample, rfl, ?_⟩
  rintro ⟨-, sw, endpoints, p, hsw, hendpoints, hp, hagree⟩
  cases hsw
  cases hendpoints
  cases hp
  exact absurd hagree (by decide +kernel)

/-- Another endpoint of the service. -/
def nextEndpoint : Endpoint := ⟨some ⟨[2], 80, []⟩, .main⟩

theorem hostsAgree_iff_keepsHosts_sample :
    HostsAgree (sampleStore.handleSvcEndpointUpdate [7] [nextEndpoint] [sampleEndpoint])
      (sampleController.handleEvent sampleEnv
        (.svcEndpoint [7] [nextEndpoint] [sampleEndpoint])) [7] := by
  refine (hostsAgree_iff_keepsHosts hostsAgree_sample rfl).mpr ?_
  intro sw hsw
  cases hsw
  decide +kernel

/-! ## Delivered configs -/

/-- The controller, and the last config delivered for one service; `none` when it was nil. -/
structure Delivery (Λ χ Ω : Type*) where
  ctl : Controller Λ χ Ω
  last : Option (ServiceConfig Λ χ Ω)

/-- No config of the service has been delivered. -/
def newDelivery (ctl : Controller Λ χ Ω) : Delivery Λ χ Ω := ⟨ctl, none⟩

/-- The event is a later event of the service: a config or endpoints. -/
def Event.Updates {κ : Type*} (name : Bytes) : Event κ → Prop
  | .svcConfig n _ => n = name
  | .svcEndpoint n _ _ => n = name
  | _ => False

/-- The last config of the service behind an event. -/
def Event.lastConfig {κ : Type*} (last : Option κ) : Event κ → Option κ
  | .svcAdd _ cfg _ => cfg
  | .svcConfig _ cfg => cfg
  | _ => last

namespace Delivery

/-- If the last config is valid, a processor runs with it. -/
def Running (env : Environment Λ χ Ω) (name : Bytes) (d : Delivery Λ χ Ω) : Prop :=
  ∀ c, d.last = some c → c.validate env = true → d.ctl.panicked = false ∧
    ∃ p, d.ctl.procs name = some p ∧ p.cfg = some c.setDefaultValue

/-- Exactly the events of a service that leave a processor running with a valid config. -/
def Delivers (env : Environment Λ χ Ω) (name : Bytes) (d : Delivery Λ χ Ω) :
    Event (ServiceConfig Λ χ Ω) → Prop
  | .svcAdd _ cfg endpoints => ∀ c, cfg = some c → c.validate env = true →
      name ≠ [] ∧ ∀ e ∈ endpoints, e.address ≠ none
  -- the service has a processor already, and it takes the config
  | .svcConfig _ cfg => ∀ c, cfg = some c → c.validate env = true →
      d.ctl.panicked = false ∧ ∃ p, d.ctl.procs name = some p ∧ p.Takes env c
  | .svcEndpoint _ added removed => ∀ c, d.last = some c → c.validate env = true →
      (∀ e ∈ added, e.address ≠ none) ∧ ∀ e ∈ removed, e.address ≠ none
  | .svcRemove _ => True

variable [DecidableEq χ]

/-- An event of the service is delivered; nothing handles it when the process has died. -/
def step (env : Environment Λ χ Ω) (d : Delivery Λ χ Ω) (evt : Event (ServiceConfig Λ χ Ω)) :
    Option (Delivery Λ χ Ω) :=
  some ⟨if d.ctl.panicked then d.ctl else d.ctl.handleEvent env evt, evt.lastConfig d.last⟩

variable {env : Environment Λ χ Ω} {ctl : Controller Λ χ Ω} {name : Bytes} {d : Delivery Λ χ Ω}

/-- The event that adds the service. -/
theorem running_svcAdd_iff (halive : ctl.panicked = false) (hnone : ctl.procs name = none)
    {cfg : Option (ServiceConfig Λ χ Ω)} {endpoints : List Endpoint}
    (hcreate : ∀ c hosts, cfg = some c → c.validate env = true →
      ∃ p, newProc env name c hosts = .ok p) {t : Delivery Λ χ Ω}
    (ht : (newDelivery ctl).step env (.svcAdd name cfg endpoints) = some t) :
    Running env name t ↔ Delivers env name (newDelivery ctl) (.svcAdd name cfg endpoints) := by
  cases ht
  refine forall_congr' fun c => forall_congr' fun hcfg => forall_congr' fun hvalid => ?_
  obtain rfl : cfg = some c := hcfg
  simp only [newDelivery, halive, Controller.handleEvent, Controller.handleSvcAdd, hnone]
  cases hhosts : endpointsToHosts ctl.hosts endpoints with
  | none =>
    obtain ⟨e, he, hnil⟩ := endpointsToHosts_eq_none.mp hhosts
    exact iff_of_false (fun h => by cases h.1) fun h => h.2 e he hnil
  | some hosts =>
    have haddr : ∀ e ∈ endpoints, e.address ≠ none := fun e he hnil => by
      rw [endpointsToHosts_eq_none.mpr ⟨e, he, hnil⟩] at hhosts
      cases hhosts
    by_cases hname : name = []
    · subst hname
      simp [Controller.tryEnsureProc, hnone]
    · obtain ⟨p, hp⟩ := hcreate c hosts rfl hvalid
      refine iff_of_true ?_ ⟨hname, haddr⟩
      simp [Controller.tryEnsureProc, Controller.setProc, hname, hvalid, hp, Proc.newProc_cfg hp]

/-- A config is delivered. -/
theorem running_svcConfig_iff {cfg : Option (ServiceConfig Λ χ Ω)} {t : Delivery Λ χ Ω}
    (ht : d.step env (.svcConfig name cfg) = some t) :
    Running env name t ↔ Delivers env name d (.svcConfig name cfg) := by
  cases ht
  refine forall_congr' fun c => forall_congr' fun hcfg => forall_congr' fun hvalid => ?_
  obtain rfl : cfg = some c := hcfg
  dsimp only
  cases hdead : d.ctl.panicked with
  | true => simp [hdead]
  | false =>
    rw [if_neg (by decide)]
    simp only [Controller.handleEvent, Controller.handleSvcConfigUpdate]
    cases hp : d.ctl.procs name with
    | none => simp [hp]
    | some p =>
      have hok := p.onSvcConfigUpdate_ok_iff hvalid
      have hfails : (∀ p', p.onSvcConfigUpdate env (some c) ≠ .ok p') → ¬ p.Takes env c := by
        intro hne htakes
        obtain ⟨p', hp'⟩ := hok.mpr htakes
        exact hne p' hp'
      -- an error or a panic leaves the old config, or no controller at all
      cases hupdate : p.onSvcConfigUpdate env (some c) with
      | ok p' =>
        have htakes : p.Takes env c := hok.mp ⟨p', hupdate⟩
        simp [hupdate, Controller.setProc, hdead, htakes, Proc.onSvcConfigUpdate_cfg hupdate]
      | err =>
        have hnot := hfails (by simp [hupdate])
        simp [hupdate, hp, hnot, Proc.cfg_ne_of_not_takes hnot]
      | panic =>
        have hnot := hfails (by simp [hupdate])
        simp [hupdate, Controller.panic, hnot]

/-- Endpoints are delivered. -/
theorem running_svcEndpoint_iff (hd : Running env name d) {added removed : List Endpoint}
    {t : Delivery Λ χ Ω} (ht : d.step env (.svcEndpoint name added removed) = some t) :
    Running env name t ↔ Delivers env name d (.svcEndpoint name added removed) := by
  cases ht
  refine forall_congr' fun c => forall_congr' fun hlast => forall_congr' fun hvalid => ?_
  obtain ⟨hrunning, p, hp, hcfg⟩ := hd c hlast hvalid
  dsimp only
  rw [hrunning, if_neg (by decide)]
  constructor
  · rintro ⟨halive, -⟩
    -- a nil endpoint is read
    by_contra hnil
    cases (Controller.handleEvent_svcEndpoint_panicked env hp hnil).symm.trans halive
  · rintro ⟨hadded, hremoved⟩
    obtain ⟨p', hp', halive, hsame, -⟩ :=
      Controller.handleEvent_svcEndpoint env hrunning hp hadded hremoved
    exact ⟨halive, p', hp', hsame.trans hcfg⟩

/-- **Configs of a service**: for the events of a service, beginning with its addition, whenever
    the last config delivered is valid a processor runs with it, exactly when every event meets
    `Delivers`; this where a processor can be created for the config of the addition if that is
    valid. -/
theorem running_iff_delivers (halive : ctl.panicked = false) (hnone : ctl.procs name = none)
    {cfg : Option (ServiceConfig Λ χ Ω)} {endpoints : List Endpoint}
    (hcreate : ∀ c hosts, cfg = some c → c.validate env = true →
      ∃ p, newProc env name c hosts = .ok p)
    {evts : List (Event (ServiceConfig Λ χ Ω))} (hevts : ∀ evt ∈ evts, evt.Updates name) :
    (∀ bs t, bs <+: .svcAdd name cfg endpoints :: evts →
      runFrom (step env) (newDelivery ctl) bs = some t → Running env name t) ↔
      RunMeets (step env) (Delivers env name) (newDelivery ctl)
        (.svcAdd name cfg endpoints :: evts) := by
  obtain ⟨t, hrun⟩ := exists_runFrom (step env) (fun _ _ => ⟨_, rfl⟩) (newDelivery ctl)
    (.svcAdd name cfg endpoints :: evts)
  refine good_iff_runMeets (fun _ t => Running env name t) (fun c hlast => by cases hlast) ?_ hrun
  intro bs d evt t hprefix hbs hd ht
  -- the first event is the addition, no other is
  cases bs with
  | nil =>
    obtain ⟨rfl, -⟩ := List.cons_prefix_cons.mp hprefix
    cases hbs
    exact running_svcAdd_iff halive hnone hcreate ht
  | cons b bs =>
    obtain ⟨-, hrest⟩ := List.cons_prefix_cons.mp hprefix
    have hmem : evt ∈ evts := hrest.subset (by simp)
    cases evt with
    | svcAdd n cfg es | svcRemove n => exact (hevts _ hmem).elim
    | svcConfig n cfg =>
      obtain rfl : n = name := hevts _ hmem
      exact running_svcConfig_iff ht
    | svcEndpoint n added removed =>
      obtain rfl : n = name := hevts _ hmem
      exact running_svcEndpoint_iff hd ht

end Delivery

/-- A config that is not valid. -/
def invalidCfg : ServiceConfig Unit Unit Unit := { sampleCfg with protocol := .unknown }

theorem newProc_sampleCfg (hosts : List Host) :
    ∃ p, newProc sampleEnv [7] sampleCfg hosts = .ok p :=
  ⟨_, rfl⟩

/-- A service is added with a config that is not valid, then its config is corrected: there is no
    processor. -/
theorem not_running_invalidCfg :
    (∀ hosts, ∃ p, newProc sampleEnv [7] sampleCfg hosts = .ok p) ∧
    ∃ t, runFrom (Delivery.step sampleEnv) (newDelivery newController)
        [.svcAdd [7] (some invalidCfg) [sampleEndpoint], .svcConfig [7] (some sampleCfg)] =
        some t ∧
      t.last = some sampleCfg ∧ sampleCfg.validate sampleEnv = true ∧ t.ctl.procs [7] = none ∧
      ¬ Delivery.Running sampleEnv [7] t := by
  refine ⟨newProc_sampleCfg, _, rfl, rfl, by decide, rfl, fun hrunning => ?_⟩
  obtain ⟨-, p, hp, -⟩ := hrunning sampleCfg rfl (by decide)
  cases hp

/-- Another valid config. -/
def nextCfg : ServiceConfig Unit Unit Unit := { sampleCfg with lbPolicy := 1 }

/-- The service is added, and gets another config. -/
def nextCfgEvents : List (Event (ServiceConfig Unit Unit Unit)) :=
  [.svcAdd [7] (some sampleCfg) [sampleEndpoint], .svcConfig [7] (some nextCfg)]

theorem delivers_nextCfgEvents :
    RunMeets (Delivery.step sampleEnv) (Delivery.Delivers sampleEnv [7])
      (newDelivery newController) nextCfgEvents := by
  refine ⟨fun c _ _ => ⟨by decide, by decide⟩, fun d hd => ⟨?_, fun _ _ => trivial⟩⟩
  cases hd
  rintro c ⟨⟩ -
  exact ⟨rfl, _, rfl, .inl rfl⟩

theorem running_iff_delivers_nextCfg :
    ∃ t, runFrom (Delivery.step sampleEnv) (newDelivery newController) nextCfgEvents = some t ∧
      t.last = some nextCfg ∧ Delivery.Running sampleEnv [7] t := by
  refine ⟨_, rfl, rfl, ?_⟩
  refine (Delivery.running_iff_delivers rfl rfl ?_ ?_).mpr delivers_nextCfgEvents _ _
    (List.prefix_refl _) rfl
  · rintro c hosts ⟨⟩ -
    exact newProc_sampleCfg hosts
  · simp [Event.Updates]

end Samaritan.Services
