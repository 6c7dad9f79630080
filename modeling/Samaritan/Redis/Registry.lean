import Mathlib.Data.List.AList
import Samaritan.Lib.Machine

/-!
# The Registry of Backend Clients

An upstream (`proc/redis/upstream.go`) keeps its clients in a map from addresses that is copied,
changed and replaced under the lock `clientsMu` and read without it. A second map,
`createClientCalls`, makes concurrent `getClient` calls for one address share one `createClient`
call.

The machine interleaves any number of `getClient` and `createClient` calls with the ends of
clients, with `OnHostRemove` and `resetAllClients` calls and with the shutdown of `Serve`. The
lock is held by a `createClient` call while it dials and by `Serve` while it stops the clients.
The critical sections of `removeClient` and `resetAllClients` are single steps. A new client is
started and registered in one step, unless its `Start` returns in between.

Calls, clients, dial attempts and goroutines are named by numbers. A history keeps the clients
that have terminated, that is, whose `Start` has returned, and the attempts to make a connection
and a client on it that have failed.
-/

namespace Samaritan.Redis

open Samaritan.Lib

/-! ## State -/

/-- What `createClient` and `getClient` return. -/
inductive ClientRes where
  | client (c : Nat)
  /-- the upstream has quit -/
  | exited
  /-- the error of a dial attempt -/
  | dialErr (attempt : Nat)
  deriving DecidableEq

/-- An entry of `createClientCalls`: the result as soon as `createClient` has come to it, and
    whether `done` is closed. -/
structure CreateClientCall where
  creator : Nat
  res : Option ClientRes
  done : Bool

/-- Where a `getClient` call stands. A `createClient` call that stands alone has no entry in
    `createClientCalls`. -/
inductive GetPc where
  /-- about to load the map of clients -/
  | load
  /-- at `LoadOrStore` -/
  | store
  /-- waiting for the `createClient` call of another goroutine -/
  | wait (call : Nat)
  /-- about to take the lock in `createClient` -/
  | lock (call : Option Nat)
  /-- dialing, with the lock -/
  | dial (call : Option Nat)
  /-- about to register a client whose `Start` has returned already, with the lock -/
  | register (call : Option Nat) (c : Nat)
  /-- about to publish the result of `createClient` -/
  | finish (call : Option Nat) (res : ClientRes)
  | returned (res : ClientRes)

/-- A `getClient` call, with what had terminated or failed before it began. -/
structure GetClient (α : Type) where
  addr : α
  pc : GetPc
  terminatedBefore : List Nat
  failedBefore : List Nat

/-- The goroutine of a client: it runs `Start` and then `removeClient`. -/
inductive ClientPhase where
  | running
  /-- `Start` has returned -/
  | started
  /-- `removeClient` has returned too -/
  | ended
  deriving DecidableEq

/-- A started client; `told` once `Stop` has been called on it. -/
structure ClientInfo (α : Type) where
  addr : α
  phase : ClientPhase
  told : Bool

/-- A goroutine in `OnHostRemove` or `resetAllClients`. -/
inductive StopPc where
  /-- `resetAllClients` has loaded the old map and is about to take the lock -/
  | update (old : List Nat)
  /-- about to stop the next client -/
  | stopping (pending : List Nat)
  /-- waiting in `Stop` for a client -/
  | waiting (c : Nat) (pending : List Nat)

/-- Where `Serve` stands. -/
inductive ServePc where
  /-- waiting for its loops -/
  | serving
  /-- about to stop the next client, with the lock -/
  | stopping (pending : List Nat)
  /-- waiting in `Stop` for a client, with the lock -/
  | waiting (c : Nat) (pending : List Nat)
  | done

/-- The holder of `clientsMu`. -/
inductive Holder where
  | get (t : Nat)
  | serve
  deriving DecidableEq

/-- The state of the registry. -/
structure Registry (α : Type) where
  quit : Bool
  clientsMu : Option Holder
  clients : AList fun _ : α => Nat
  createClientCalls : AList fun _ : α => Nat
  calls : Nat → Option CreateClientCall
  infos : Nat → Option (ClientInfo α)
  gets : Nat → Option (GetClient α)
  stops : Nat → Option StopPc
  serve : ServePc
  terminated : List Nat
  failed : List Nat

/-- The registry of a new upstream. -/
def newRegistry (α : Type) : Registry α where
  quit := false
  clientsMu := none
  clients := ∅
  createClientCalls := ∅
  calls := fun _ => none
  infos := fun _ => none
  gets := fun _ => none
  stops := fun _ => none
  serve := .serving
  terminated := []
  failed := []

/-! ## Steps -/

/-- One step; the first number names the goroutine. -/
inductive RegistryStep (α : Type) where
  /-- `getClient` is called -/
  | getClient (t : Nat) (addr : α)
  /-- `createClient` is called by itself -/
  | createClient (t : Nat) (addr : α)
  | load (t : Nat)
  /-- `LoadOrStore`, with a name for a new call -/
  | store (t call : Nat)
  | wait (t : Nat)
  /-- take the lock in `createClient`, and find `quit`, a client or a reason to dial -/
  | lock (t : Nat)
  | dialFail (t attempt : Nat)
  /-- the connection is made, and a new client is started and registered -/
  | dialOk (t c : Nat)
  /-- the connection is made, a new client is started, and its `Start` returns -/
  | startReturnEarly (t c : Nat)
  | register (t : Nat)
  | finish (t : Nat)
  /-- `Start` of a client returns -/
  | startReturn (c : Nat)
  | removeClient (c : Nat)
  /-- `OnHostRemove` loads the map -/
  | onHostRemove (j : Nat) (hosts : List α)
  /-- `resetAllClients` loads the map -/
  | resetLoad (j : Nat)
  /-- `resetAllClients` sets the map to empty -/
  | resetUpdate (j : Nat)
  /-- `Stop` closes the `quit` of a client -/
  | stop (j c : Nat)
  /-- `Stop` returns -/
  | stopped (j : Nat)
  /-- the upstream is told to quit -/
  | closeQuit
  | serveLock
  | serveStop (c : Nat)
  | serveStopped
  | serveUnlock

namespace Registry

variable {α : Type}

/-- The clients in the map. -/
def registered (u : Registry α) : List Nat := u.clients.entries.map Sigma.snd

def setGet (u : Registry α) (t : Nat) (g : GetClient α) : Registry α :=
  { u with gets := Function.update u.gets t (some g) }

@[simp] theorem gets_setGet (u : Registry α) (t : Nat) (g : GetClient α) :
    (u.setGet t g).gets = Function.update u.gets t (some g) := rfl

/-- Change an entry of `createClientCalls`, if there is one. -/
def setCall (calls : Nat → Option CreateClientCall) (call : Option Nat)
    (entry : CreateClientCall) : Nat → Option CreateClientCall :=
  match call with
  | none => calls
  | some k => Function.update calls k (some entry)

/-- The result of `createClient` for an entry of `createClientCalls`. -/
def setRes (u : Registry α) (t : Nat) (call : Option Nat) (res : ClientRes) (done : Bool) :
    Registry α :=
  { u with calls := setCall u.calls call ⟨t, some res, done⟩ }

/-- `Stop` closes the `quit` of a client. -/
def tell (u : Registry α) (c : Nat) : Registry α :=
  { u with infos := Function.update u.infos c ((u.infos c).map fun i => { i with told := true }) }

/-- `Start` of the client has returned, so that its `done` is closed. -/
def startReturned (u : Registry α) (c : Nat) : Bool :=
  match u.infos c with
  | some i => i.phase != .running
  | none => false

/-- A new `getClient` call. -/
def newGet (u : Registry α) (addr : α) (pc : GetPc) : GetClient α :=
  ⟨addr, pc, u.terminated, u.failed⟩

variable [DecidableEq α]

/-- The effect of one step; `none` when it is not enabled. -/
def step (u : Registry α) : RegistryStep α → Option (Registry α)
  | .getClient t addr =>
    match u.gets t with
    | none => some (u.setGet t (u.newGet addr .load))
    | some _ => none
  | .createClient t addr =>
    match u.gets t with
    | none => some (u.setGet t (u.newGet addr (.lock none)))
    | some _ => none
  | .load t =>
    match u.gets t with
    | some ⟨addr, .load, e, f⟩ =>
      match u.clients.lookup addr with
      -- the fast path: no lock, and no look at whether the client still runs
      | some c => some (u.setGet t ⟨addr, .returned (.client c), e, f⟩)
      | none => some (u.setGet t ⟨addr, .store, e, f⟩)
    | _ => none
  | .store t k =>
    match u.gets t with
    | some ⟨addr, .store, e, f⟩ =>
      match u.createClientCalls.lookup addr, u.calls k with
      -- nothing ever deletes an entry, so it may be one of long ago
      | some call, _ => some (u.setGet t ⟨addr, .wait call, e, f⟩)
      | none, none =>
        some ({ u with
          createClientCalls := u.createClientCalls.insert addr k
          calls := Function.update u.calls k (some ⟨t, none, false⟩) }.setGet t
            ⟨addr, .lock (some k), e, f⟩)
      | none, some _ => none
    | _ => none
  | .wait t =>
    match u.gets t with
    | some ⟨addr, .wait call, e, f⟩ =>
      match u.calls call with
      | some ⟨_, some res, true⟩ => some (u.setGet t ⟨addr, .returned res, e, f⟩)
      | _ => none
    | _ => none
  | .lock t =>
    match u.gets t, u.clientsMu with
    | some ⟨addr, .lock call, e, f⟩, none =>
      if u.quit then
        some ((u.setRes t call .exited false).setGet t ⟨addr, .finish call .exited, e, f⟩)
      else
        match u.clients.lookup addr with
        | some c =>
          some ((u.setRes t call (.client c) false).setGet t
            ⟨addr, .finish call (.client c), e, f⟩)
        | none => some ({ u with clientsMu := some (.get t) }.setGet t ⟨addr, .dial call, e, f⟩)
    | _, _ => none
  | .dialFail t attempt =>
    match u.gets t with
    | some ⟨addr, .dial call, e, f⟩ =>
      if attempt ∈ u.failed then none
      else
        some (({ u with clientsMu := none, failed := u.failed ++ [attempt] }.setRes t call
          (.dialErr attempt) false).setGet t ⟨addr, .finish call (.dialErr attempt), e, f⟩)
    | _ => none
  | .dialOk t c =>
    match u.gets t, u.infos c with
    | some ⟨addr, .dial call, e, f⟩, none =>
      some (({ u with
        clientsMu := none
        clients := u.clients.insert addr c
        infos := Function.update u.infos c (some ⟨addr, .running, false⟩) }.setRes t call
          (.client c) false).setGet t ⟨addr, .finish call (.client c), e, f⟩)
    | _, _ => none
  | .startReturnEarly t c =>
    match u.gets t, u.infos c with
    | some ⟨addr, .dial call, e, f⟩, none =>
      -- `removeClient` has to wait for the lock
      some (({ u with
        infos := Function.update u.infos c (some ⟨addr, .started, false⟩)
        terminated := u.terminated ++ [c] }.setRes t call (.client c) false).setGet t
          ⟨addr, .register call c, e, f⟩)
    | _, _ => none
  | .register t =>
    match u.gets t with
    | some ⟨addr, .register call c, e, f⟩ =>
      some ({ u with clientsMu := none, clients := u.clients.insert addr c }.setGet t
        ⟨addr, .finish call (.client c), e, f⟩)
    | _ => none
  | .finish t =>
    match u.gets t with
    | some ⟨addr, .finish call res, e, f⟩ =>
      some ((u.setRes t call res true).setGet t ⟨addr, .returned res, e, f⟩)
    | _ => none
  | .startReturn c =>
    match u.infos c with
    | some ⟨addr, .running, told⟩ =>
      -- the client stays in the map until its goroutine gets the lock
      some { u with
        infos := Function.update u.infos c (some ⟨addr, .started, told⟩)
        terminated := u.terminated ++ [c] }
    | _ => none
  | .removeClient c =>
    match u.infos c, u.clientsMu with
    | some ⟨addr, .started, told⟩, none =>
      some { u with
        -- whatever client is registered under the address
        clients := u.clients.erase addr
        infos := Function.update u.infos c (some ⟨addr, .ended, told⟩) }
    | _, _ => none
  | .onHostRemove j hosts =>
    match u.stops j with
    | none =>
      some { u with
        stops := Function.update u.stops j
          (some (.stopping (hosts.filterMap fun addr => u.clients.lookup addr))) }
    | some _ => none
  | .resetLoad j =>
    match u.stops j with
    | none => some { u with stops := Function.update u.stops j (some (.update u.registered)) }
    | some _ => none
  | .resetUpdate j =>
    match u.stops j, u.clientsMu with
    | some (.update old), none =>
      -- the clients to stop are those of the old map, not of the one that is replaced
      some { u with clients := ∅, stops := Function.update u.stops j (some (.stopping old)) }
    | _, _ => none
  | .stop j c =>
    match u.stops j with
    | some (.stopping pending) =>
      if c ∈ pending then
        some { u.tell c with
          stops := Function.update u.stops j (some (.waiting c (pending.erase c))) }
      else none
    | _ => none
  | .stopped j =>
    match u.stops j with
    | some (.waiting c pending) =>
      if u.startReturned c then
        some { u with stops := Function.update u.stops j (some (.stopping pending)) }
      else none
    | _ => none
  | .closeQuit => some { u with quit := true }
  | .serveLock =>
    match u.serve, u.clientsMu with
    | .serving, none =>
      if u.quit then some { u with clientsMu := some .serve, serve := .stopping u.registered }
      else none
    | _, _ => none
  | .serveStop c =>
    match u.serve with
    | .stopping pending =>
      if c ∈ pending then some { u.tell c with serve := .waiting c (pending.erase c) } else none
    | _ => none
  | .serveStopped =>
    match u.serve with
    | .waiting c pending =>
      if u.startReturned c then some { u with serve := .stopping pending } else none
    | _ => none
  | .serveUnlock =>
    match u.serve with
    | .stopping [] => some { u with clientsMu := none, serve := .done }
    | _ => none

/-! ## What a step can do -/

/-- A transition of the registry. -/
inductive Step (u : Registry α) : RegistryStep α → Registry α → Prop where
  | getClient {t : Nat} {addr : α} (hnew : u.gets t = none) :
      Step u (.getClient t addr) (u.setGet t (u.newGet addr .load))
  | createClient {t : Nat} {addr : α} (hnew : u.gets t = none) :
      Step u (.createClient t addr) (u.setGet t (u.newGet addr (.lock none)))
  | loadFound {t c : Nat} {addr : α} {e f : List Nat} (hg : u.gets t = some ⟨addr, .load, e, f⟩)
      (hfound : u.clients.lookup addr = some c) :
      Step u (.load t) (u.setGet t ⟨addr, .returned (.client c), e, f⟩)
  | loadMissing {t : Nat} {addr : α} {e f : List Nat} (hg : u.gets t = some ⟨addr, .load, e, f⟩)
      (hmissing : u.clients.lookup addr = none) :
      Step u (.load t) (u.setGet t ⟨addr, .store, e, f⟩)
  | storeJoin {t k call : Nat} {addr : α} {e f : List Nat}
      (hg : u.gets t = some ⟨addr, .store, e, f⟩)
      (hcall : u.createClientCalls.lookup addr = some call) :
      Step u (.store t k) (u.setGet t ⟨addr, .wait call, e, f⟩)
  | storeNew {t k : Nat} {addr : α} {e f : List Nat} (hg : u.gets t = some ⟨addr, .store, e, f⟩)
      (hcall : u.createClientCalls.lookup addr = none) (hnew : u.calls k = none) :
      Step u (.store t k) ({ u with
        createClientCalls := u.createClientCalls.insert addr k
        calls := Function.update u.calls k (some ⟨t, none, false⟩) }.setGet t
          ⟨addr, .lock (some k), e, f⟩)
  | wait {t k creator : Nat} {addr : α} {e f : List Nat} {res : ClientRes}
      (hg : u.gets t = some ⟨addr, .wait k, e, f⟩)
      (hcall : u.calls k = some ⟨creator, some res, true⟩) :
      Step u (.wait t) (u.setGet t ⟨addr, .returned res, e, f⟩)
  | lockExited {t : Nat} {call : Option Nat} {addr : α} {e f : List Nat}
      (hg : u.gets t = some ⟨addr, .lock call, e, f⟩) (hmu : u.clientsMu = none)
      (hquit : u.quit = true) :
      Step u (.lock t)
        ((u.setRes t call .exited false).setGet t ⟨addr, .finish call .exited, e, f⟩)
  | lockFound {t c : Nat} {call : Option Nat} {addr : α} {e f : List Nat}
      (hg : u.gets t = some ⟨addr, .lock call, e, f⟩) (hmu : u.clientsMu = none)
      (hquit : u.quit = false) (hfound : u.clients.lookup addr = some c) :
      Step u (.lock t)
        ((u.setRes t call (.client c) false).setGet t ⟨addr, .finish call (.client c), e, f⟩)
  | lockDial {t : Nat} {call : Option Nat} {addr : α} {e f : List Nat}
      (hg : u.gets t = some ⟨addr, .lock call, e, f⟩) (hmu : u.clientsMu = none)
      (hquit : u.quit = false) (hmissing : u.clients.lookup addr = none) :
      Step u (.lock t) ({ u with clientsMu := some (.get t) }.setGet t ⟨addr, .dial call, e, f⟩)
  | dialFail {t attempt : Nat} {call : Option Nat} {addr : α} {e f : List Nat}
      (hg : u.gets t = some ⟨addr, .dial call, e, f⟩) (hnew : attempt ∉ u.failed) :
      Step u (.dialFail t attempt)
        (({ u with clientsMu := none, failed := u.failed ++ [attempt] }.setRes t call
          (.dialErr attempt) false).setGet t ⟨addr, .finish call (.dialErr attempt), e, f⟩)
  | dialOk {t c : Nat} {call : Option Nat} {addr : α} {e f : List Nat}
      (hg : u.gets t = some ⟨addr, .dial call, e, f⟩) (hnew : u.infos c = none) :
      Step u (.dialOk t c) (({ u with
        clientsMu := none
        clients := u.clients.insert addr c
        infos := Function.update u.infos c (some ⟨addr, .running, false⟩) }.setRes t call
          (.client c) false).setGet t ⟨addr, .finish call (.client c), e, f⟩)
  | startReturnEarly {t c : Nat} {call : Option Nat} {addr : α} {e f : List Nat}
      (hg : u.gets t = some ⟨addr, .dial call, e, f⟩) (hnew : u.infos c = none) :
      Step u (.startReturnEarly t c) (({ u with
        infos := Function.update u.infos c (some ⟨addr, .started, false⟩)
        terminated := u.terminated ++ [c] }.setRes t call (.client c) false).setGet t
          ⟨addr, .register call c, e, f⟩)
  | register {t c : Nat} {call : Option Nat} {addr : α} {e f : List Nat}
      (hg : u.gets t = some ⟨addr, .register call c, e, f⟩) :
      Step u (.register t)
        ({ u with clientsMu := none, clients := u.clients.insert addr c }.setGet t
          ⟨addr, .finish call (.client c), e, f⟩)
  | finish {t : Nat} {call : Option Nat} {addr : α} {e f : List Nat} {res : ClientRes}
      (hg : u.gets t = some ⟨addr, .finish call res, e, f⟩) :
      Step u (.finish t) ((u.setRes t call res true).setGet t ⟨addr, .returned res, e, f⟩)
  | startReturn {c : Nat} {addr : α} {told : Bool}
      (hi : u.infos c = some ⟨addr, .running, told⟩) :
      Step u (.startReturn c) { u with
        infos := Function.update u.infos c (some ⟨addr, .started, told⟩)
        terminated := u.terminated ++ [c] }
  | removeClient {c : Nat} {addr : α} {told : Bool} (hi : u.infos c = some ⟨addr, .started, told⟩)
      (hmu : u.clientsMu = none) :
      Step u (.removeClient c) { u with
        clients := u.clients.erase addr
        infos := Function.update u.infos c (some ⟨addr, .ended, told⟩) }
  | onHostRemove {j : Nat} {hosts : List α} (hnew : u.stops j = none) :
      Step u (.onHostRemove j hosts) { u with
        stops := Function.update u.stops j
          (some (.stopping (hosts.filterMap fun addr => u.clients.lookup addr))) }
  | resetLoad {j : Nat} (hnew : u.stops j = none) :
      Step u (.resetLoad j)
        { u with stops := Function.update u.stops j (some (.update u.registered)) }
  | resetUpdate {j : Nat} {old : List Nat} (hj : u.stops j = some (.update old))
      (hmu : u.clientsMu = none) :
      Step u (.resetUpdate j)
        { u with clients := ∅, stops := Function.update u.stops j (some (.stopping old)) }
  | stop {j c : Nat} {pending : List Nat} (hj : u.stops j = some (.stopping pending))
      (hc : c ∈ pending) :
      Step u (.stop j c) { u.tell c with
        stops := Function.update u.stops j (some (.waiting c (pending.erase c))) }
  | stopped {j c : Nat} {pending : List Nat} (hj : u.stops j = some (.waiting c pending))
      (hc : u.startReturned c = true) :
      Step u (.stopped j)
        { u with stops := Function.update u.stops j (some (.stopping pending)) }
  | closeQuit : Step u .closeQuit { u with quit := true }
  | serveLock (hserve : u.serve = .serving) (hmu : u.clientsMu = none) (hquit : u.quit = true) :
      Step u .serveLock { u with clientsMu := some .serve, serve := .stopping u.registered }
  | serveStop {c : Nat} {pending : List Nat} (hserve : u.serve = .stopping pending)
      (hc : c ∈ pending) :
      Step u (.serveStop c) { u.tell c with serve := .waiting c (pending.erase c) }
  | serveStopped {c : Nat} {pending : List Nat} (hserve : u.serve = .waiting c pending)
      (hc : u.startReturned c = true) : Step u .serveStopped { u with serve := .stopping pending }
  | serveUnlock (hserve : u.serve = .stopping []) :
      Step u .serveUnlock { u with clientsMu := none, serve := .done }

/-- The step function only makes these transitions. -/
theorem step_cases {u u' : Registry α} {a : RegistryStep α} (h : u.step a = some u') :
    Step u a u' := by
  cases a with
  | getClient t addr =>
    simp only [step] at h
    split at h <;> cases h
    exact .getClient ‹_›
  | createClient t addr =>
    simp only [step] at h
    split at h <;> cases h
    exact .createClient ‹_›
  | load t =>
    simp only [step] at h
    split at h
    · split at h
      · cases h
        exact .loadFound ‹_› ‹_›
      · cases h
        exact .loadMissing ‹_› ‹_›
    · cases h
  | store t k =>
    simp only [step] at h
    split at h
    · split at h
      · cases h
        exact .storeJoin ‹_› ‹_›
      · cases h
        exact .storeNew ‹_› ‹_› ‹_›
      · cases h
    · cases h
  | wait t =>
    simp only [step] at h
    split at h
    · split at h <;> cases h
      exact .wait ‹_› ‹_›
    · cases h
  | lock t =>
    simp only [step] at h
    split at h
    · rename_i hg hmu
      split at h
      · cases h
        exact .lockExited hg hmu ‹_›
      · rename_i hquit
        have hquit : u.quit = false := by simpa using hquit
        split at h
        · cases h
          exact .lockFound hg hmu hquit ‹_›
        · cases h
          exact .lockDial hg hmu hquit ‹_›
    · cases h
  | dialFail t attempt =>
    simp only [step] at h
    split at h
    · split at h <;> cases h
      exact .dialFail ‹_› ‹_›
    · cases h
  | dialOk t c =>
    simp only [step] at h
    split at h <;> cases h
    exact .dialOk ‹_› ‹_›
  | startReturnEarly t c =>
    simp only [step] at h
    split at h <;> cases h
    exact .startReturnEarly ‹_› ‹_›
  | register t =>
    simp only [step] at h
    split at h <;> cases h
    exact .register ‹_›
  | finish t =>
    simp only [step] at h
    split at h <;> cases h
    exact .finish ‹_›
  | startReturn c =>
    simp only [step] at h
    split at h <;> cases h
    exact .startReturn ‹_›
  | removeClient c =>
    simp only [step] at h
    split at h <;> cases h
    exact .removeClient ‹_› ‹_›
  | onHostRemove j hosts =>
    simp only [step] at h
    split at h <;> cases h
    exact .onHostRemove ‹_›
  | resetLoad j =>
    simp only [step] at h
    split at h <;> cases h
    exact .resetLoad ‹_›
  | resetUpdate j =>
    simp only [step] at h
    split at h <;> cases h
    exact .resetUpdate ‹_› ‹_›
  | stop j c =>
    simp only [step] at h
    split at h
    · split at h <;> cases h
      exact .stop ‹_› ‹_›
    · cases h
  | stopped j =>
    simp only [step] at h
    split at h
    · split at h <;> cases h
      exact .stopped ‹_› ‹_›
    · cases h
  | closeQuit =>
    cases h
    exact .closeQuit
  | serveLock =>
    simp only [step] at h
    split at h
    · split at h <;> cases h
      exact .serveLock ‹_› ‹_› ‹_›
    · cases h
  | serveStop c =>
    simp only [step] at h
    split at h
    · split at h <;> cases h
      exact .serveStop ‹_› ‹_›
    · cases h
  | serveStopped =>
    simp only [step] at h
    split at h
    · split at h <;> cases h
      exact .serveStopped ‹_› ‹_›
    · cases h
  | serveUnlock =>
    simp only [step] at h
    split at h <;> cases h
    exact .serveUnlock ‹_›

end Registry

end Samaritan.Redis
