import Mathlib.Tactic.Simps.Basic
import Samaritan.Redis.Client
import Samaritan.Redis.Handler
import Samaritan.Redis.Registry

/-!
# The Proxy as a Whole

Any number of sessions, the registry of clients and the clients themselves, with the requests that
pass between them. A session that has read a request runs its handler, which answers the raw
request or splits it into simple requests and passes each to `MakeRequest`. A simple request goes
through `chooseHost`, the test of `quit`, `getClient` and `Send` to a client. The client answers
it, or passes it to `handleRedirection`, which dispatches it again from the read loop of the
client. The answer of a simple request runs its hooks, and these answer the raw request.

Requests are numbered in the order in which they are made. For a simple request the state keeps
the calls its hooks make on its raw request, for a raw request that was split the counter
`childWait`. Two histories keep the calls of `SetResponse` on simple and on raw requests.

The machine leaves open what a goroutine waits for in a few places, and so has more runs than the
code: a hook that was called may run at any later time, the refresh of the slots does not wait
for its response, and the rest of the proxy goes on after a panic. A client ends only when it is
registered: whether `Start` returns before that, when no request has reached the client, makes no
difference to the requests.
-/

namespace Samaritan.Redis

open Samaritan.Lib

/-! ## Requests on their way -/

/-- Why a simple request is on its way: `asking d` for the `ASKING` that `handleRedirection` makes,
    numbered `d`, and `asked d` for the request it dispatches behind it. -/
inductive Role where
  | plain
  | asking (d : Nat)
  | asked (d : Nat)
  deriving DecidableEq

/-- A simple request on its way. -/
structure Item where
  req : Nat
  role : Role
  deriving DecidableEq

/-- A goroutine that dispatches requests. -/
inductive Caller where
  /-- the read loop of a session -/
  | session (n : Nat)
  /-- the read loop of a client, in `handleRedirection` -/
  | client (c : Nat)
  /-- the loop that refreshes the slots -/
  | refresh
  deriving DecidableEq

/-- Where a call of `MakeRequest` or `MakeRequestToHost` stands. -/
inductive CallPc where
  /-- in `chooseHost` -/
  | choose (key : Bytes)
  /-- at the `select` that tests `quit` -/
  | check (addr : Bytes)
  /-- in `getClient` -/
  | get (t : Nat)
  /-- about to call `Send` -/
  | send (c : Nat)
  /-- in `Send`, which has found `quit` open -/
  | put (c : Nat)

/-- The call has passed the test of `quit`. -/
def CallPc.begun : CallPc → Bool
  | .choose _ => false
  | .check _ => false
  | _ => true

/-- A dispatch of a request. -/
structure Job where
  item : Item
  pc : CallPc

/-- A dispatch begins. -/
def Route.pc : Route → CallPc
  | .key k => .choose k
  | .host addr => .check addr

/-- A call that a hook of a simple request makes on its raw request. -/
inductive HookCall where
  /-- `SetResponse` -/
  | setRaw (rid : Nat)
  /-- `onChildDone` -/
  | childDone (rid : Nat)
  deriving DecidableEq

def Hook.call (rid : Nat) : Hook → Option HookCall
  | .bindRaw => some (.setRaw rid)
  | .childDone => some (.childDone rid)
  | _ => none

/-- The calls on the raw request when the simple request is answered: the hooks run last to
    first. -/
def SimpleRequest.calls (req : SimpleRequest) (rid : Nat) : List HookCall :=
  req.hooks.reverse.filterMap (Hook.call rid)

/-! ## State -/

/-- The state of the proxy. -/
structure System where
  reg : Registry Bytes
  clients : Nat → Option (Client Item)
  /-- the dispatches a goroutine is going through, the first of which has begun -/
  callers : Caller → List Job
  /-- the simple requests, with the calls their hooks make -/
  simples : List (List HookCall)
  /-- the raw requests, with `childWait` if they were split -/
  raws : List (Option Int32)
  /-- the calls of hooks that are under way -/
  calls : List HookCall
  /-- the simple requests on which `SetResponse` was called -/
  simpleSet : List Nat
  /-- the raw requests on which `SetResponse` was called -/
  rawSet : List Nat

/-- A proxy that has just started. -/
def newSystem : System where
  reg := newRegistry Bytes
  clients := fun _ => none
  callers := fun _ => []
  simples := []
  raws := []
  calls := []
  simpleSet := []
  rawSet := []

/-- A new client, on which `newClient` has called `Send` with the `READONLY` request. -/
def connect (readOnlyReq : Item) : Client Item :=
  { newClient Item with
    sent := [readOnlyReq], pendingReqs := [readOnlyReq], accepted := [readOnlyReq] }

/-- `connect` is what two steps make of a new client. -/
theorem connect_eq (readOnlyReq : Item) :
    runFrom Client.step (newClient Item) [.send readOnlyReq, .put readOnlyReq] =
      some (connect readOnlyReq) := by
  simp [runFrom, Client.step, newClient, connect, clientQueueSize]

/-! ## Steps -/

/-- One step of the proxy. -/
inductive SystemStep where
  /-- a session has read a request and runs its handler -/
  | request (n : Nat) (env : Surroundings) (body : RespValue)
  /-- the slots are refreshed from a host -/
  | refresh (addr : Bytes)
  /-- `chooseHost` returns -/
  | choose (k : Caller) (addr : Option Bytes)
  /-- the test of `quit`, and the call of `getClient` -/
  | check (k : Caller) (t : Nat)
  /-- `getClient` returns -/
  | got (k : Caller)
  | send (k : Caller)
  | put (k : Caller)
  /-- a step of a client -/
  | client (c : Nat) (a : ClientStep Item)
  /-- `handleRedirection` returns -/
  | redirected (c : Nat)
  /-- a step of the registry -/
  | registry (a : RegistryStep Bytes)
  /-- a client is started and registered -/
  | dialOk (t c : Nat)
  /-- `Start` of a client returns -/
  | startReturn (c : Nat)
  /-- `Stop` is called on a client -/
  | stop (j c : Nat)
  | serveStop (c : Nat)
  /-- a hook makes its call -/
  | hook (call : HookCall)

/-- How a dispatch of a goroutine goes on. -/
inductive CallPc.Next (k : Caller) : SystemStep → CallPc → CallPc → Prop where
  | choose {key addr : Bytes} : Next k (.choose k (some addr)) (.choose key) (.check addr)
  | check {addr : Bytes} {t : Nat} : Next k (.check k t) (.check addr) (.get t)
  | got {t c : Nat} : Next k (.got k) (.get t) (.send c)
  | send {c : Nat} : Next k (.send k) (.send c) (.put c)

/-- The client makes the step by itself. -/
def ClientStep.byItself {ρ : Type} : ClientStep ρ → Bool
  | .send _ => false
  | .put _ => false
  | .stop => false
  | .redirected => false
  | _ => true

/-- The registry makes the step by itself. -/
def RegistryStep.byItself {α : Type} : RegistryStep α → Bool
  | .getClient _ _ => false
  | .createClient _ _ => false
  | .dialOk _ _ => false
  | .startReturnEarly _ _ => false
  | .startReturn _ => false
  | .stop _ _ => false
  | .serveStop _ => false
  | _ => true

namespace System

@[simps]
def setJobs (s : System) (k : Caller) (jobs : List Job) : System :=
  { s with callers := Function.update s.callers k jobs }

@[simps]
def setClient (s : System) (c : Nat) (cl : Client Item) : System :=
  { s with clients := Function.update s.clients c (some cl) }

/-- `SetResponse` is called on a simple request. -/
@[simps]
def setResponse (s : System) (req : Nat) : System :=
  { s with
    simpleSet := s.simpleSet ++ [req]
    calls := s.calls ++ s.simples.getD req [] }

/-- The dispatches of the children of a split request, the first of which is numbered `base`. -/
def jobs (base : Nat) : List (Route × SimpleRequest) → List Job
  | [] => []
  | c :: cs => ⟨⟨base, .plain⟩, c.1.pc⟩ :: jobs (base + 1) cs

theorem jobs_begun (base : Nat) (children : List (Route × SimpleRequest)) :
    ∀ job ∈ jobs base children, job.pc.begun = false := by
  induction children generalizing base with
  | nil => simp [jobs]
  | cons c cs ih =>
    have hc : c.1.pc.begun = false := by cases c.1 <;> rfl
    simpa [jobs, hc] using ih (base + 1)

/-- A session begins to dispatch the simple requests its request was split into. A request that is
    passed on as it is has no counter. -/
def split (s : System) (n : Nat) (join : Join) (children : List (Route × SimpleRequest)) : System :=
  { s with
    raws := s.raws ++
      [match join with
        | .single => none
        | _ => some (Int32.ofNat children.length)]
    simples := s.simples ++
      children.map fun (c : Route × SimpleRequest) => c.2.calls s.raws.length }.setJobs
        (.session n) (jobs s.simples.length children)

/-- A request leaves a client. -/
def settle (c : Nat) (s : System) : Item × Outcome → System
  | (item, .redirected v) =>
    match handleRedirection v.text with
    | .moved hostAddr => s.setJobs (.client c) [⟨⟨item.req, .plain⟩, .check hostAddr⟩]
    | .ask hostAddr =>
      -- two calls of `MakeRequestToHost`, one after the other
      { s with simples := s.simples ++ [[]] }.setJobs (.client c)
        [⟨⟨s.simples.length, .asking s.simples.length⟩, .check hostAddr⟩,
          ⟨⟨item.req, .asked s.simples.length⟩, .check hostAddr⟩]
    | _ => s
  | (item, _) => s.setResponse item.req

/-- A hook makes its call. -/
def runHook (s : System) : HookCall → Option System
  | .setRaw rid => some { s with rawSet := s.rawSet ++ [rid] }
  | .childDone rid =>
    match s.raws[rid]? with
    | some (some wait) =>
      -- `atomic.AddInt32`; the response is set by the call that finds zero
      some { s with
        raws := s.raws.set rid (some (wait - 1))
        calls := s.calls ++ if wait - 1 = 0 then [.setRaw rid] else [] }
    | _ => none

/-- The effect of one step; `none` when it is not enabled. -/
def step (s : System) : SystemStep → Option System
  | .request n env body =>
    -- the session has dispatched all of its last request
    match s.callers (.session n), handleRequest env body with
    | [], .respond _ =>
      some { s with raws := s.raws ++ [none], calls := s.calls ++ [.setRaw s.raws.length] }
    | [], .split join children => some (s.split n join children)
    | _, _ => none
  | .refresh addr =>
    match s.callers .refresh with
    | [] =>
      some ({ s with simples := s.simples ++ [[]] }.setJobs .refresh
        [⟨⟨s.simples.length, .plain⟩, .check addr⟩])
    | _ => none
  | .choose k addr =>
    match s.callers k, addr with
    | ⟨item, .choose _⟩ :: rest, none => some ((s.setJobs k rest).setResponse item.req)
    | ⟨item, .choose _⟩ :: rest, some addr => some (s.setJobs k (⟨item, .check addr⟩ :: rest))
    | _, _ => none
  | .check k t =>
    match s.callers k with
    | ⟨item, .check addr⟩ :: rest =>
      if s.reg.quit then some ((s.setJobs k rest).setResponse item.req)
      else
        (s.reg.step (.getClient t addr)).map fun reg =>
          { s with reg := reg }.setJobs k (⟨item, .get t⟩ :: rest)
    | _ => none
  | .got k =>
    match s.callers k with
    | ⟨item, .get t⟩ :: rest =>
      match s.reg.gets t with
      | some ⟨_, .returned (.client c), _, _⟩ => some (s.setJobs k (⟨item, .send c⟩ :: rest))
      | some ⟨_, .returned _, _, _⟩ => some ((s.setJobs k rest).setResponse item.req)
      | _ => none
    | _ => none
  | .send k =>
    match s.callers k with
    | ⟨item, .send c⟩ :: rest =>
      (s.clients c).bind fun cl => (cl.step (.send item)).map fun cl' =>
        -- `Send` answers the request itself, or goes on to put it
        if cl.quit then ((s.setClient c cl').setJobs k rest).setResponse item.req
        else (s.setClient c cl').setJobs k (⟨item, .put c⟩ :: rest)
    | _ => none
  | .put k =>
    match s.callers k with
    | ⟨item, .put c⟩ :: rest =>
      (s.clients c).bind fun cl => (cl.step (.put item)).map fun cl' =>
        (s.setClient c cl').setJobs k rest
    | _ => none
  | .client c a =>
    if a.byItself then
      (s.clients c).bind fun cl => (cl.step a).map fun cl' =>
        (cl'.settled.drop cl.settled.length).foldl (settle c) (s.setClient c cl')
    else none
  | .redirected c =>
    -- the read loop of the client waits until everything is dispatched
    match s.callers (.client c) with
    | [] => (s.clients c).bind fun cl => (cl.step .redirected).map fun cl' => s.setClient c cl'
    | _ => none
  | .registry a =>
    if a.byItself then (s.reg.step a).map fun reg => { s with reg := reg } else none
  | .dialOk t c =>
    match s.clients c with
    | none =>
      (s.reg.step (.dialOk t c)).map fun reg =>
        { s with reg := reg, simples := s.simples ++ [[]] }.setClient c
          (connect ⟨s.simples.length, .plain⟩)
    | some _ => none
  | .startReturn c =>
    (s.clients c).bind fun cl =>
      match cl.start with
      | .done => (s.reg.step (.startReturn c)).map fun reg => { s with reg := reg }
      | _ => none
  | .stop j c =>
    (s.clients c).bind fun cl => (s.reg.step (.stop j c)).bind fun reg =>
      (cl.step .stop).map fun cl' => { s with reg := reg }.setClient c cl'
  | .serveStop c =>
    (s.clients c).bind fun cl => (s.reg.step (.serveStop c)).bind fun reg =>
      (cl.step .stop).map fun cl' => { s with reg := reg }.setClient c cl'
  | .hook call =>
    if call ∈ s.calls then { s with calls := s.calls.erase call }.runHook call else none

/-! ## What a step can do -/

/-- A transition of the proxy. -/
inductive Step (s : System) : SystemStep → System → Prop where
  | respond {n : Nat} {env : Surroundings} {body v : RespValue}
      (hidle : s.callers (.session n) = []) (hbody : handleRequest env body = .respond v) :
      Step s (.request n env body)
        { s with raws := s.raws ++ [none], calls := s.calls ++ [.setRaw s.raws.length] }
  | split {n : Nat} {env : Surroundings} {body : RespValue} {join : Join}
      {children : List (Route × SimpleRequest)} (hidle : s.callers (.session n) = [])
      (hbody : handleRequest env body = .split join children) :
      Step s (.request n env body) (s.split n join children)
  | refresh {addr : Bytes} (hidle : s.callers .refresh = []) :
      Step s (.refresh addr) ({ s with simples := s.simples ++ [[]] }.setJobs .refresh
        [⟨⟨s.simples.length, .plain⟩, .check addr⟩])
  | noHost {k : Caller} {item : Item} {key : Bytes} {rest : List Job}
      (hk : s.callers k = ⟨item, .choose key⟩ :: rest) :
      Step s (.choose k none) ((s.setJobs k rest).setResponse item.req)
  | choose {k : Caller} {item : Item} {key addr : Bytes} {rest : List Job}
      (hk : s.callers k = ⟨item, .choose key⟩ :: rest) :
      Step s (.choose k (some addr)) (s.setJobs k (⟨item, .check addr⟩ :: rest))
  | checkQuit {k : Caller} {t : Nat} {item : Item} {addr : Bytes} {rest : List Job}
      (hk : s.callers k = ⟨item, .check addr⟩ :: rest) (hquit : s.reg.quit = true) :
      Step s (.check k t) ((s.setJobs k rest).setResponse item.req)
  | check {k : Caller} {t : Nat} {item : Item} {addr : Bytes} {rest : List Job}
      {reg : Registry Bytes} (hk : s.callers k = ⟨item, .check addr⟩ :: rest)
      (hreg : s.reg.step (.getClient t addr) = some reg) :
      Step s (.check k t) ({ s with reg := reg }.setJobs k (⟨item, .get t⟩ :: rest))
  | got {k : Caller} {t c : Nat} {addr : Bytes} {e f : List Nat} {item : Item} {rest : List Job}
      (hk : s.callers k = ⟨item, .get t⟩ :: rest)
      (hres : s.reg.gets t = some ⟨addr, .returned (.client c), e, f⟩) :
      Step s (.got k) (s.setJobs k (⟨item, .send c⟩ :: rest))
  | gotErr {k : Caller} {t : Nat} {addr : Bytes} {e f : List Nat} {res : ClientRes} {item : Item}
      {rest : List Job} (hk : s.callers k = ⟨item, .get t⟩ :: rest)
      (hres : s.reg.gets t = some ⟨addr, .returned res, e, f⟩) (herr : ∀ c, res ≠ .client c) :
      Step s (.got k) ((s.setJobs k rest).setResponse item.req)
  | sendRefused {k : Caller} {c : Nat} {item : Item} {rest : List Job} {cl cl' : Client Item}
      (hk : s.callers k = ⟨item, .send c⟩ :: rest) (hcl : s.clients c = some cl)
      (hstep : cl.Step (.send item) cl') (hquit : cl.quit = true) :
      Step s (.send k) (((s.setClient c cl').setJobs k rest).setResponse item.req)
  | send {k : Caller} {c : Nat} {item : Item} {rest : List Job} {cl cl' : Client Item}
      (hk : s.callers k = ⟨item, .send c⟩ :: rest) (hcl : s.clients c = some cl)
      (hstep : cl.Step (.send item) cl') (hquit : cl.quit = false) :
      Step s (.send k) ((s.setClient c cl').setJobs k (⟨item, .put c⟩ :: rest))
  | put {k : Caller} {c : Nat} {item : Item} {rest : List Job} {cl cl' : Client Item}
      (hk : s.callers k = ⟨item, .put c⟩ :: rest) (hcl : s.clients c = some cl)
      (hstep : cl.Step (.put item) cl') :
      Step s (.put k) ((s.setClient c cl').setJobs k rest)
  | client {c : Nat} {a : ClientStep Item} {cl cl' : Client Item} (ha : a.byItself = true)
      (hcl : s.clients c = some cl) (hstep : cl.Step a cl') (hsettled : cl'.settled = cl.settled) :
      Step s (.client c a) (s.setClient c cl')
  | answer {c : Nat} {a : ClientStep Item} {cl cl' : Client Item} {item : Item} {o : Outcome}
      (ha : a.byItself = true) (hcl : s.clients c = some cl) (hstep : cl.Step a cl')
      (hsettled : cl'.settled = cl.settled ++ [(item, o)]) :
      Step s (.client c a) ((s.setClient c cl').setResponse item.req)
  | moved {c : Nat} {a : ClientStep Item} {cl cl' : Client Item} {item : Item} {o : Outcome}
      {hostAddr : Bytes} (ha : a.byItself = true) (hcl : s.clients c = some cl)
      (hstep : cl.Step a cl') (hsettled : cl'.settled = cl.settled ++ [(item, o)]) :
      Step s (.client c a) ((s.setClient c cl').setJobs (.client c)
        [⟨⟨item.req, .plain⟩, .check hostAddr⟩])
  | ask {c : Nat} {a : ClientStep Item} {cl cl' : Client Item} {item : Item} {o : Outcome}
      {hostAddr : Bytes} (ha : a.byItself = true) (hcl : s.clients c = some cl)
      (hstep : cl.Step a cl') (hsettled : cl'.settled = cl.settled ++ [(item, o)]) :
      Step s (.client c a)
        ({ s.setClient c cl' with simples := s.simples ++ [[]] }.setJobs (.client c)
          [⟨⟨s.simples.length, .asking s.simples.length⟩, .check hostAddr⟩,
            ⟨⟨item.req, .asked s.simples.length⟩, .check hostAddr⟩])
  | redirected {c : Nat} {cl cl' : Client Item} (hidle : s.callers (.client c) = [])
      (hcl : s.clients c = some cl) (hstep : cl.Step .redirected cl') :
      Step s (.redirected c) (s.setClient c cl')
  | registry {a : RegistryStep Bytes} {reg : Registry Bytes} (hreg : s.reg.step a = some reg) :
      Step s (.registry a) { s with reg := reg }
  | dialOk {t c : Nat} {reg : Registry Bytes} (hcl : s.clients c = none)
      (hreg : s.reg.step (.dialOk t c) = some reg) :
      Step s (.dialOk t c) ({ s with reg := reg, simples := s.simples ++ [[]] }.setClient c
        (connect ⟨s.simples.length, .plain⟩))
  | startReturn {c : Nat} {cl : Client Item} {reg : Registry Bytes} (hcl : s.clients c = some cl)
      (hdone : cl.start = .done) (hreg : s.reg.step (.startReturn c) = some reg) :
      Step s (.startReturn c) { s with reg := reg }
  | stop {j c : Nat} {cl cl' : Client Item} {reg : Registry Bytes} (hcl : s.clients c = some cl)
      (hreg : s.reg.step (.stop j c) = some reg) (hstep : cl.Step .stop cl') :
      Step s (.stop j c) ({ s with reg := reg }.setClient c cl')
  | serveStop {c : Nat} {cl cl' : Client Item} {reg : Registry Bytes} (hcl : s.clients c = some cl)
      (hreg : s.reg.step (.serveStop c) = some reg) (hstep : cl.Step .stop cl') :
      Step s (.serveStop c) ({ s with reg := reg }.setClient c cl')
  | setRaw {rid : Nat} (hcall : .setRaw rid ∈ s.calls) :
      Step s (.hook (.setRaw rid))
        { s with calls := s.calls.erase (.setRaw rid), rawSet := s.rawSet ++ [rid] }
  | childDone {rid : Nat} {wait : Int32} (hcall : .childDone rid ∈ s.calls)
      (hwait : s.raws[rid]? = some (some wait)) :
      Step s (.hook (.childDone rid)) { s with
        raws := s.raws.set rid (some (wait - 1))
        calls := s.calls.erase (.childDone rid) ++ if wait - 1 = 0 then [.setRaw rid] else [] }

/-- What a client does by itself is one of these transitions. -/
theorem Step.of_client {s : System} {c : Nat} {a : ClientStep Item} {cl cl' : Client Item}
    (ha : a.byItself = true) (hcl : s.clients c = some cl) (hstep : cl.Step a cl') :
    Step s (.client c a)
      ((cl'.settled.drop cl.settled.length).foldl (settle c) (s.setClient c cl')) := by
  rcases hstep.settled_cases with hsettled | ⟨item, o, hsettled, hredir⟩
  · have hdrop : cl'.settled.drop cl.settled.length = [] := by simp [hsettled]
    rw [hdrop]
    exact .client ha hcl hstep hsettled
  · have hdrop : cl'.settled.drop cl.settled.length = [(item, o)] := by simp [hsettled]
    rw [hdrop]
    cases o with
    -- only texts that lead to a new dispatch are recorded as redirections
    | redirected v =>
      obtain ⟨addr, haddr | haddr⟩ := hredir v rfl
      · simp only [List.foldl_cons, List.foldl_nil, settle, haddr]
        exact .moved ha hcl hstep hsettled
      · simp only [List.foldl_cons, List.foldl_nil, settle, haddr]
        exact .ask ha hcl hstep hsettled
    | _ => exact .answer ha hcl hstep hsettled

/-- The step function only makes these transitions. -/
theorem step_cases {s s' : System} {a : SystemStep} (h : s.step a = some s') : Step s a s' := by
  cases a with
  | request n env body =>
    simp only [step] at h
    split at h
    · cases h
      exact .respond ‹_› ‹_›
    · cases h
      exact .split ‹_› ‹_›
    · cases h
  | refresh addr =>
    simp only [step] at h
    split at h <;> cases h
    exact .refresh ‹_›
  | choose k addr =>
    simp only [step] at h
    split at h
    · cases h
      exact .noHost ‹_›
    · cases h
      exact .choose ‹_›
    · cases h
  | check k t =>
    simp only [step] at h
    split at h
    · split at h
      · cases h
        exact .checkQuit ‹_› ‹_›
      · obtain ⟨reg, hreg, rfl⟩ := Option.map_eq_some_iff.mp h
        exact .check ‹_› hreg
    · cases h
  | got k =>
    simp only [step] at h
    split at h
    · split at h
      · cases h
        exact .got ‹_› ‹_›
      · rename_i herr hres
        cases h
        exact .gotErr ‹_› hres herr
      · cases h
    · cases h
  | send k =>
    simp only [step] at h
    split at h
    · obtain ⟨cl, hcl, h⟩ := Option.bind_eq_some_iff.mp h
      obtain ⟨cl', hstep, rfl⟩ := Option.map_eq_some_iff.mp h
      split
      · exact .sendRefused ‹_› hcl (Client.step_cases hstep) ‹_›
      · rename_i hquit
        exact .send ‹_› hcl (Client.step_cases hstep) (by simpa using hquit)
    · cases h
  | put k =>
    simp only [step] at h
    split at h
    · obtain ⟨cl, hcl, h⟩ := Option.bind_eq_some_iff.mp h
      obtain ⟨cl', hstep, rfl⟩ := Option.map_eq_some_iff.mp h
      exact .put ‹_› hcl (Client.step_cases hstep)
    · cases h
  | client c a =>
    simp only [step] at h
    split at h
    · obtain ⟨cl, hcl, h⟩ := Option.bind_eq_some_iff.mp h
      obtain ⟨cl', hstep, rfl⟩ := Option.map_eq_some_iff.mp h
      exact .of_client ‹_› hcl (Client.step_cases hstep)
    · cases h
  | redirected c =>
    simp only [step] at h
    split at h
    · obtain ⟨cl, hcl, h⟩ := Option.bind_eq_some_iff.mp h
      obtain ⟨cl', hstep, rfl⟩ := Option.map_eq_some_iff.mp h
      exact .redirected ‹_› hcl (Client.step_cases hstep)
    · cases h
  | registry a =>
    simp only [step] at h
    split at h
    · obtain ⟨reg, hreg, rfl⟩ := Option.map_eq_some_iff.mp h
      exact .registry hreg
    · cases h
  | dialOk t c =>
    simp only [step] at h
    split at h
    · obtain ⟨reg, hreg, rfl⟩ := Option.map_eq_some_iff.mp h
      exact .dialOk ‹_› hreg
    · cases h
  | startReturn c =>
    simp only [step] at h
    obtain ⟨cl, hcl, h⟩ := Option.bind_eq_some_iff.mp h
    split at h
    · obtain ⟨reg, hreg, rfl⟩ := Option.map_eq_some_iff.mp h
      exact .startReturn hcl ‹_› hreg
    · cases h
  | stop j c =>
    simp only [step] at h
    obtain ⟨cl, hcl, h⟩ := Option.bind_eq_some_iff.mp h
    obtain ⟨reg, hreg, h⟩ := Option.bind_eq_some_iff.mp h
    obtain ⟨cl', hstep, rfl⟩ := Option.map_eq_some_iff.mp h
    exact .stop hcl hreg (Client.step_cases hstep)
  | serveStop c =>
    simp only [step] at h
    obtain ⟨cl, hcl, h⟩ := Option.bind_eq_some_iff.mp h
    obtain ⟨reg, hreg, h⟩ := Option.bind_eq_some_iff.mp h
    obtain ⟨cl', hstep, rfl⟩ := Option.map_eq_some_iff.mp h
    exact .serveStop hcl hreg (Client.step_cases hstep)
  | hook call =>
    simp only [step] at h
    split at h
    · cases call with
      | setRaw rid =>
        cases h
        exact .setRaw ‹_›
      | childDone rid =>
        simp only [runHook] at h
        split at h <;> cases h
        exact .childDone ‹_› ‹_›
    · cases h

/-- Which step of the proxy makes a client take a step. -/
inductive Causes (s : System) : SystemStep → Nat → ClientStep Item → Prop where
  | byItself {c : Nat} {b : ClientStep Item} (hb : b.byItself = true) : Causes s (.client c b) c b
  | put {k : Caller} {c : Nat} {item : Item} {rest : List Job}
      (hk : s.callers k = ⟨item, .put c⟩ :: rest) : Causes s (.put k) c (.put item)
  | send {k : Caller} {c : Nat} {item : Item} : Causes s (.send k) c (.send item)
  | redirected {c : Nat} : Causes s (.redirected c) c .redirected
  | stop {j c : Nat} : Causes s (.stop j c) c .stop
  | serveStop {c : Nat} : Causes s (.serveStop c) c .stop

/-- What a step does to the clients: nothing, a step of one of them, or a new client. -/
theorem Step.clients_cases {s s' : System} {a : SystemStep} (h : Step s a s') :
    s'.clients = s.clients ∨
    (∃ c cl b cl', s.clients c = some cl ∧ cl.Step b cl' ∧
      s'.clients = Function.update s.clients c (some cl') ∧ s.Causes a c b) ∨
    ∃ t c, a = .dialOk t c ∧
      s'.clients = Function.update s.clients c (some (connect ⟨s.simples.length, .plain⟩)) := by
  cases h with
  | sendRefused _ hcl hstep | send _ hcl hstep =>
    exact .inr (.inl ⟨_, _, _, _, hcl, hstep, rfl, .send⟩)
  | put hk hcl hstep => exact .inr (.inl ⟨_, _, _, _, hcl, hstep, rfl, .put hk⟩)
  | client ha hcl hstep | answer ha hcl hstep | moved ha hcl hstep | ask ha hcl hstep =>
    exact .inr (.inl ⟨_, _, _, _, hcl, hstep, rfl, .byItself ha⟩)
  | redirected _ hcl hstep => exact .inr (.inl ⟨_, _, _, _, hcl, hstep, rfl, .redirected⟩)
  | stop hcl _ hstep => exact .inr (.inl ⟨_, _, _, _, hcl, hstep, rfl, .stop⟩)
  | serveStop hcl _ hstep => exact .inr (.inl ⟨_, _, _, _, hcl, hstep, rfl, .serveStop⟩)
  | dialOk => exact .inr (.inr ⟨_, _, rfl, rfl⟩)
  | _ => exact .inl rfl

/-- How a client comes to be as it is: it was so, it took a step, or it is new. -/
theorem Step.client_cases {s s' : System} {a : SystemStep} (h : Step s a s') {c : Nat}
    {cl' : Client Item} (hcl' : s'.clients c = some cl') :
    s.clients c = some cl' ∨
    (∃ cl b, s.clients c = some cl ∧ cl.Step b cl' ∧ s.Causes a c b) ∨
    ∃ t, a = .dialOk t c ∧ cl' = connect ⟨s.simples.length, .plain⟩ := by
  rcases h.clients_cases with hsame | ⟨d, cl, b, cl₁, hcl, hb, hclients, hcause⟩ |
    ⟨t, d, ha, hclients⟩
  · exact .inl (hsame ▸ hcl')
  · rw [hclients] at hcl'
    by_cases hd : c = d
    · subst hd
      rw [Function.update_self] at hcl'
      obtain rfl := Option.some.inj hcl'
      exact .inr (.inl ⟨cl, b, hcl, hb, hcause⟩)
    · rw [Function.update_of_ne hd] at hcl'
      exact .inl hcl'
  · rw [hclients] at hcl'
    by_cases hd : c = d
    · subst hd
      rw [Function.update_self] at hcl'
      exact .inr (.inr ⟨t, ha, (Option.some.inj hcl').symm⟩)
    · rw [Function.update_of_ne hd] at hcl'
      exact .inl hcl'

/-- What a step does to the dispatches: nothing, or a goroutine begins with new ones, ends the
    first of its dispatches or goes on with it. -/
theorem Step.callers_cases {s s' : System} {a : SystemStep} (h : Step s a s') :
    s'.callers = s.callers ∨
    ∃ k jobs, s'.callers = Function.update s.callers k jobs ∧
      ((∀ job ∈ jobs, job.pc.begun = false) ∨ (∃ job, s.callers k = job :: jobs) ∨
        ∃ item pc pc' rest, s.callers k = ⟨item, pc⟩ :: rest ∧ jobs = ⟨item, pc'⟩ :: rest ∧
          CallPc.Next k a pc pc') := by
  cases h with
  | split => exact .inr ⟨_, _, rfl, .inl (jobs_begun _ _)⟩
  | refresh | moved | ask => exact .inr ⟨_, _, rfl, .inl (by simp [CallPc.begun])⟩
  | noHost hk | checkQuit hk | gotErr hk | sendRefused hk | put hk =>
    exact .inr ⟨_, _, rfl, .inr (.inl ⟨_, hk⟩)⟩
  | choose hk => exact .inr ⟨_, _, rfl, .inr (.inr ⟨_, _, _, _, hk, rfl, .choose⟩)⟩
  | check hk => exact .inr ⟨_, _, rfl, .inr (.inr ⟨_, _, _, _, hk, rfl, .check⟩)⟩
  | got hk => exact .inr ⟨_, _, rfl, .inr (.inr ⟨_, _, _, _, hk, rfl, .got⟩)⟩
  | send hk => exact .inr ⟨_, _, rfl, .inr (.inr ⟨_, _, _, _, hk, rfl, .send⟩)⟩
  | _ => exact .inl rfl

/-- A goroutine goes through its dispatches one by one. -/
def OneByOne (s : System) : Prop := ∀ k, ∀ job ∈ (s.callers k).tail, job.pc.begun = false

theorem oneByOne_newSystem : OneByOne newSystem := by
  simp [OneByOne, newSystem]

theorem OneByOne.step {s s' : System} {a : SystemStep} (hs : OneByOne s) (h : Step s a s') :
    OneByOne s' := by
  rcases h.callers_cases with hsame | ⟨k, jobs, hcallers, hjobs⟩
  · rw [OneByOne, hsame]
    exact hs
  · intro k' job hjob
    rw [hcallers] at hjob
    by_cases hk : k' = k
    · subst hk
      rw [Function.update_self] at hjob
      have hold := hs k'
      rcases hjobs with hnew | ⟨job', hk⟩ | ⟨item, pc, pc', rest, hk, rfl, -⟩
      · exact hnew job (List.mem_of_mem_tail hjob)
      · rw [hk] at hold
        exact hold job (List.mem_of_mem_tail hjob)
      · rw [hk] at hold
        exact hold job hjob
    · rw [Function.update_of_ne hk] at hjob
      exact hs k' job hjob

/-- The next dispatch of a goroutine has not begun. -/
theorem OneByOne.pc_rest {s : System} (hs : OneByOne s) {k : Caller} {job : Job}
    {rest : List Job} (hk : s.callers k = job :: rest) {pc : CallPc}
    (hpc : rest.head?.map Job.pc = some pc) : pc.begun = false := by
  obtain ⟨job', hjob', rfl⟩ := Option.map_eq_some_iff.mp hpc
  have hold := hs k job'
  rw [hk] at hold
  exact hold (List.mem_of_head? hjob')

/-- Where the first of the dispatches of a goroutine stands. -/
def pc (s : System) (k : Caller) : Option CallPc := (s.callers k).head?.map Job.pc

/-- How a goroutine comes to a place inside a dispatch: it was there, or it goes on to it. -/
theorem Step.pc_cases {s s' : System} {a : SystemStep} (hs : OneByOne s) (h : Step s a s')
    {k : Caller} {pc' : CallPc} (hpc : s'.pc k = some pc') (hbegun : pc'.begun = true) :
    s.pc k = some pc' ∨ ∃ pc, s.pc k = some pc ∧ CallPc.Next k a pc pc' := by
  rcases h.callers_cases with hsame | ⟨k', jobs, hcallers, hjobs⟩
  · rw [System.pc, hsame] at hpc
    exact .inl hpc
  · by_cases hk : k = k'
    · subst hk
      rw [System.pc, hcallers, Function.update_self] at hpc
      rcases hjobs with hnew | ⟨job, hk⟩ | ⟨item, pc, pc'', rest, hk, rfl, hnext⟩
      · obtain ⟨job, hjob, rfl⟩ := Option.map_eq_some_iff.mp hpc
        rw [hnew job (List.mem_of_head? hjob)] at hbegun
        cases hbegun
      · rw [hs.pc_rest hk hpc] at hbegun
        cases hbegun
      · obtain rfl : pc'' = pc' := by simpa using hpc
        exact .inr ⟨pc, by simp [System.pc, hk], hnext⟩
    · rw [System.pc, hcallers, Function.update_of_ne hk] at hpc
      exact .inl hpc

/-- Every client is as `P` says. -/
def AllClients (P : Client Item → Prop) (s : System) : Prop := ∀ c cl, s.clients c = some cl → P cl

theorem allClients_newSystem (P : Client Item → Prop) : AllClients P newSystem := by
  simp [AllClients, newSystem]

/-- What every step of a client preserves holds of all clients. -/
theorem AllClients.step {P : Client Item → Prop} (hconnect : ∀ item, P (connect item))
    (hstep : ∀ cl a cl', P cl → cl.Step a cl' → P cl') {s s' : System} {a : SystemStep}
    (hs : AllClients P s) (h : Step s a s') : AllClients P s' := by
  intro c cl' hcl'
  rcases h.client_cases hcl' with hsame | ⟨cl, b, hcl, hb, -⟩ | ⟨t, -, rfl⟩
  · exact hs c cl' hsame
  · exact hstep cl b cl' (hs c cl hcl) hb
  · exact hconnect _

end System

end Samaritan.Redis
