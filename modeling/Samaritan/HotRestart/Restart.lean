import Samaritan.HotRestart.Rpc
import Samaritan.Lib.Machine

/-!
# A Hot Restart

A running instance (the parent) is replaced by new ones (its children). A child dials the Unix
socket of the parent, starts its controller, and then makes three requests, each of which waits for
its reply: shut down the admin API, whose port the child then takes over, drain the listeners, and,
after a time, terminate (`cmd/samaritan/samaritan.go`, `cmd/samaritan/hotrestart/hotrestart.go`).

The model is a machine of one parent and any number of children.

* The parent accepts children one at a time, and serves each until the end of its connection. A
  second goroutine for each child closes its connection when the parent quits; a third thread is
  the handler of signals, which shuts the parent down.
* A connection has the bytes that are under way in each direction. A read takes all that has come,
  as far as the buffer holds it; what is written to a connection whose other end is closed is kept,
  and nobody reads it.
* Processes can crash at any time, and a signal can come from outside. A crash is also what becomes
  of `logger.Fatalf`, and of `Stop` of an admin server that has a request to answer: it waits on a
  nil context, and panics.

A call of the admin server or of the controller is one step, but for `Stop` of the controller, which
need not return: its return is a step of its own. The retries are steps that change nothing: of
`tryListen` while the port is in use, and of `Accept` after a temporary error.
-/

namespace Samaritan.HotRestart

open Samaritan.Lib

/-! ## Messages -/

def shutdownAdminReq : UInt8 := 1
def shutdownAdminReply : UInt8 := 2
def shutdownLocalConfReq : UInt8 := 3
def shutdownLocalConfReply : UInt8 := 4
def drainListenersReq : UInt8 := 5
def drainListenersReply : UInt8 := 6
def terminateReq : UInt8 := 7
def terminateReply : UInt8 := 8
def unknownReply : UInt8 := 9

/-- `json.Marshal` of a struct without fields. -/
def marshalEmpty : Unit → Except Empty Bytes := fun _ => .ok [0x7b, 0x7d]

/-- A message of a type, with an empty struct or without data. -/
def messageOf (typ : UInt8) (i : Option Unit) : Message :=
  match newMessage marshalEmpty typ i with
  | .ok msg => msg
  | .error e => e.elim

def newShutdownParentAdminRequest : Message := messageOf shutdownAdminReq (some ())
def newShutdownParentAdminResponse : Message := messageOf shutdownAdminReply (some ())
def newShutdownParentLocalConfResponse : Message := messageOf shutdownLocalConfReply (some ())
def newDrainParentListenersRequest : Message := messageOf drainListenersReq (some ())
def newDrainParentListenersResponse : Message := messageOf drainListenersReply (some ())
def newTerminateParentRequest : Message := messageOf terminateReq (some ())
def newTerminateParentResponse : Message := messageOf terminateReply (some ())
def newUnknownResponse : Message := messageOf unknownReply none

/-- The bytes of a message. -/
def wire (msg : Message) : Bytes :=
  match (sendMessage msg : Execution Empty Bytes) with
  | .returns b => b
  | _ => []

/-- What a read of a connection gives for the bytes that have come. -/
def received (pending : Bytes) : Execution (ReadError Empty) Message := readMessage (.ok pending)

/-- The requests of a child, in their order. -/
inductive Request where
  | shutdownAdmin
  | drainListeners
  | terminate
  deriving DecidableEq

def Request.message : Request → Message
  | .shutdownAdmin => newShutdownParentAdminRequest
  | .drainListeners => newDrainParentListenersRequest
  | .terminate => newTerminateParentRequest

/-- The handlers of the parent. -/
inductive Handler where
  | shutdownLocalConf
  | shutdownAdmin
  | drainListeners
  | terminate
  | unknown
  deriving DecidableEq

/-- The handler that `handleChild` takes for a type. -/
def handlerFor (typ : UInt8) : Handler :=
  if typ = shutdownLocalConfReq then .shutdownLocalConf
  else if typ = shutdownAdminReq then .shutdownAdmin
  else if typ = drainListenersReq then .drainListeners
  else if typ = terminateReq then .terminate
  else .unknown

def Handler.response : Handler → Message
  | .shutdownLocalConf => newShutdownParentLocalConfResponse
  | .shutdownAdmin => newShutdownParentAdminResponse
  | .drainListeners => newDrainParentListenersResponse
  | .terminate => newTerminateParentResponse
  | .unknown => newUnknownResponse

/-- The handler that a request is for. -/
def Request.handler : Request → Handler
  | .shutdownAdmin => .shutdownAdmin
  | .drainListeners => .drainListeners
  | .terminate => .terminate

theorem handlerFor_message (r : Request) : handlerFor r.message.type = r.handler := by
  cases r <;> decide

/-- One read takes the whole message, as it was sent. -/
structure Crosses (msg : Message) : Prop where
  back : received (wire msg) = .returns msg
  nonempty : wire msg ≠ []
  whole : (wire msg).drop rpcBufSize = []

theorem crosses_of_le (typ : UInt8) {data : Bytes} (hdata : data.length ≤ 2) :
    Crosses ⟨typ, UInt16.ofNat data.length, data⟩ := by
  obtain ⟨⟨b, hsend, hread⟩, hlen⟩ := (roundTrips_iff typ data).mpr (by omega)
  have hwire : wire ⟨typ, UInt16.ofNat data.length, data⟩ = b := by rw [wire, hsend]
  have hb := hsend
  rw [sendMessage_eq hlen (show data.length + 3 < 2 ^ 16 by omega)] at hb
  have hlength : b.length = data.length + 3 := by
    rw [← Execution.returns.inj hb]
    rfl
  refine ⟨hwire ▸ hread, fun hnil => ?_, ?_⟩
  · rw [← hwire, hnil] at hlength
    simp at hlength
  · rw [hwire]
    exact List.drop_eq_nil_of_le (by rw [hlength, rpcBufSize]; omega)

theorem crosses_messageOf (typ : UInt8) (i : Option Unit) : Crosses (messageOf typ i) := by
  cases i with
  | none =>
    have hdata : ([] : Bytes).length ≤ 2 := Nat.zero_le 2
    exact crosses_of_le typ hdata
  | some u =>
    have hdata : ([0x7b, 0x7d] : Bytes).length ≤ 2 := le_rfl
    exact crosses_of_le typ hdata

theorem crosses_message (r : Request) : Crosses r.message := by
  cases r with
  | shutdownAdmin => exact crosses_messageOf shutdownAdminReq (some ())
  | drainListeners => exact crosses_messageOf drainListenersReq (some ())
  | terminate => exact crosses_messageOf terminateReq (some ())

theorem crosses_response (h : Handler) : Crosses h.response := by
  cases h with
  | shutdownLocalConf => exact crosses_messageOf shutdownLocalConfReply (some ())
  | shutdownAdmin => exact crosses_messageOf shutdownAdminReply (some ())
  | drainListeners => exact crosses_messageOf drainListenersReply (some ())
  | terminate => exact crosses_messageOf terminateReply (some ())
  | unknown => exact crosses_messageOf unknownReply none

/-! ## Children -/

/-- Where `Run` of a child is, and the goroutine that it leaves behind. -/
inductive RunPc where
  /-- before a request -/
  | call (r : Request)
  /-- in `readMessage` for the reply -/
  | wait (r : Request)
  /-- in `tryListen` of the admin server -/
  | startAdmin
  | sleep
  /-- before the connection is closed -/
  | close
  | done
  deriving DecidableEq

/-- How far `Run` has come. -/
def RunPc.pos : RunPc → Nat
  | .call .shutdownAdmin => 0
  | .wait .shutdownAdmin => 1
  | .startAdmin => 2
  | .call .drainListeners => 3
  | .wait .drainListeners => 4
  | .sleep => 5
  | .call .terminate => 6
  | .wait .terminate => 7
  | .close => 8
  | .done => 9

/-- A child and its connection to the parent. -/
structure Child where
  pc : RunPc
  /-- `parentConn` is not nil -/
  connected : Bool
  /-- the bytes under way to the parent -/
  toParent : Bytes
  /-- the bytes under way to the child -/
  toChild : Bytes
  /-- the end of the child is open -/
  childEnd : Bool
  /-- the end of the parent is open -/
  parentEnd : Bool
  /-- the child has closed its end with unread bytes -/
  reset : Bool
  alive : Bool
  deriving DecidableEq

/-- A child that dials the parent, or fails to. -/
def newChild (connected : Bool) : Child :=
  ⟨.call .shutdownAdmin, connected, [], [], connected, connected, false, true⟩

namespace Child

/-- What comes behind a call; only `TerminateParent` closes the connection, if there is one. -/
def afterCall (ch : Child) : Request → RunPc
  | .shutdownAdmin => .startAdmin
  | .drainListeners => .sleep
  | .terminate => if ch.connected then .close else .done

/-- A call returns. -/
def returned (ch : Child) (r : Request) : Child := { ch with pc := ch.afterCall r }

/-- The child writes a request. -/
def request (ch : Child) (r : Request) : Child :=
  { ch with pc := .wait r, toParent := ch.toParent ++ wire r.message }

/-- The child has read what has come. -/
def readReply (ch : Child) : Child := { ch with toChild := ch.toChild.drop rpcBufSize }

/-- The parent has read what has come. -/
def readRequest (ch : Child) : Child := { ch with toParent := ch.toParent.drop rpcBufSize }

/-- The parent writes a reply, unless its end is closed. -/
def answer (ch : Child) (h : Handler) : Child :=
  -- an error of `sendMessage` is not looked at
  { ch with toChild := if ch.parentEnd then ch.toChild ++ wire h.response else ch.toChild }

/-- The end of the child is closed. -/
def hangUp (ch : Child) : Child :=
  { ch with childEnd := false, reset := ch.childEnd && !ch.toChild.isEmpty || ch.reset }

/-- The end of the parent is closed. -/
def cutOff (ch : Child) : Child := { ch with parentEnd := false }

end Child

/-! ## The parent -/

/-- The goroutine that accepts children, and serves them. -/
inductive Serve where
  | accepting
  /-- at the top of the loop of `handleChild` -/
  | looping (i : Nat)
  | reading (i : Nat)
  /-- in a handler, before the reply -/
  | acting (i : Nat) (h : Handler)
  | replying (i : Nat) (h : Handler)
  /-- before `kill` -/
  | killing (i : Nat)
  | returned
  deriving DecidableEq

/-- The child that is served. -/
def Serve.child : Serve → Option Nat
  | .looping i | .reading i | .acting i _ | .replying i _ | .killing i => some i
  | _ => none

/-- The thread that handles signals. -/
inductive Stage where
  | running
  | stopAdmin
  | stopCtl
  | closeQuit
  | closeLis
  | waitDone
  | exited
  deriving DecidableEq

/-- Who has the port of the admin API. -/
inductive Holder where
  | parent
  | child (i : Nat)
  deriving DecidableEq

structure Restart where
  children : List Child
  /-- the children that are not yet accepted -/
  backlog : List Nat
  serve : Serve
  /-- the children whose connections are closed when the parent quits -/
  closers : List Nat
  stage : Stage
  /-- a signal to terminate is pending -/
  sigterm : Bool
  quit : Bool
  /-- the listener for children is open -/
  lis : Bool
  shutdownAdminOnce : Bool
  drainListenersOnce : Bool
  port : Option Holder
  /-- what the requests have made the parent do -/
  deeds : List Handler

/-- An instance that runs alone. -/
def newRestart : Restart where
  children := []
  backlog := []
  serve := .accepting
  closers := []
  stage := .running
  sigterm := false
  quit := false
  lis := true
  shutdownAdminOnce := false
  drainListenersOnce := false
  port := some .parent
  deeds := []

namespace Restart

def setChild (x : Restart) (i : Nat) (ch : Child) : Restart :=
  { x with children := x.children.set i ch }

/-- The admin server of a process lets its port go. -/
def release (x : Restart) (holder : Holder) : Restart :=
  { x with port := if x.port = some holder then none else x.port }

/-- The parent ends: everything that it has open is closed. -/
def exit (x : Restart) : Restart :=
  { x.release .parent with
    stage := .exited
    serve := .returned
    children := x.children.map Child.cutOff
    backlog := []
    lis := false
    quit := true }

/-- `ShutdownAdmin` of the parent. -/
def shutdownAdmin (x : Restart) : Restart :=
  if x.shutdownAdminOnce then x
  else
    { x.release .parent with
      shutdownAdminOnce := true, deeds := x.deeds ++ [.shutdownAdmin] }

/-- `DrainListeners` of the parent. -/
def drainListeners (x : Restart) : Restart :=
  if x.drainListenersOnce then x
  else { x with drainListenersOnce := true, deeds := x.deeds ++ [.drainListeners] }

/-- A handler, up to its reply. `ShutdownLocalConf` of the instance is that of its restarter, which
    is that of the instance again: the stack overflows. -/
def act (x : Restart) (i : Nat) : Handler → Restart
  | .shutdownLocalConf => x.exit
  | .shutdownAdmin => { x.shutdownAdmin with serve := .replying i .shutdownAdmin }
  | .drainListeners => { x.drainListeners with serve := .replying i .drainListeners }
  -- the reply comes first, see `killing`
  | .terminate => { x with serve := .replying i .terminate }
  | .unknown => { x with serve := .replying i .unknown }

/-- A new child dials the parent. -/
def start (x : Restart) : Restart :=
  { x with
    children := x.children ++ [newChild x.lis]
    backlog := if x.lis then x.backlog ++ [x.children.length] else x.backlog }

/-- The reply of a handler. -/
def reply (x : Restart) (i : Nat) (h : Handler) (ch : Child) : Restart :=
  { x.setChild i (ch.answer h) with
    serve := if h = .terminate then .killing i else .looping i }

/-- A child ends. -/
def crash (x : Restart) (i : Nat) (ch : Child) : Restart :=
  (x.setChild i { ch.hangUp with alive := false }).release (.child i)

/-- `readMessage` of `handleChild`, with bytes to read. -/
def readRequest (x : Restart) (i : Nat) (ch : Child) : Restart :=
  match received ch.toParent with
  | .returns msg =>
    { x.setChild i ch.readRequest with serve := .acting i (handlerFor msg.type) }
  | .panics => x.exit
  | _ => { x.setChild i ch.readRequest with serve := .looping i }

/-- `readMessage` of a child, with bytes to read; it does not look at the reply. -/
def readReply (x : Restart) (i : Nat) (r : Request) (ch : Child) : Restart :=
  match received ch.toChild with
  | .panics => x.crash i ch
  | _ => x.setChild i (ch.readReply.returned r)

/-- A step of a child. -/
def stepChild (x : Restart) (i : Nat) (ch : Child) : Option Restart :=
  match ch.pc with
  | .call r =>
    if ch.connected then some (x.setChild i (ch.request r)) else some (x.setChild i (ch.returned r))
  | .wait r =>
    if ch.toChild ≠ [] then some (x.readReply i r ch)
    -- the end of the connection, or an error
    else if ch.parentEnd = false then some (x.setChild i (ch.returned r))
    else none
  | .startAdmin =>
    -- a port in use is tried again, see `retryListen`
    if x.port = none then
      some { x.setChild i { ch with pc := .call .drainListeners } with port := some (.child i) }
    else none
  | .sleep => some (x.setChild i { ch with pc := .call .terminate })
  | .close => some (x.setChild i { ch.hangUp with pc := .done })
  | .done => none

/-- A step of `handleChild` that reads from a child. -/
def stepRead (x : Restart) (i : Nat) (ch : Child) : Option Restart :=
  if ch.parentEnd = false then some { x with serve := .looping i }
  else if ch.toParent ≠ [] then some (x.readRequest i ch)
  else if ch.childEnd = false then
    if ch.reset then some { x.setChild i { ch with reset := false } with serve := .looping i }
    else some { x with serve := .accepting }
  else none

/-- A step of the goroutine that accepts and serves. -/
def stepServe (x : Restart) : Option Restart :=
  match x.serve with
  | .accepting =>
    -- `Accept` of a closed listener fails for good
    if x.lis = false then some { x with serve := .returned }
    else
      match x.backlog with
      | [] => none
      | i :: backlog =>
        some { x with backlog := backlog, serve := .looping i, closers := i :: x.closers }
  | .looping i =>
    if x.quit = true then some { x with serve := .accepting }
    else some { x with serve := .reading i }
  | .reading i => x.children[i]?.bind (x.stepRead i)
  | .acting i h => some (x.act i h)
  | .replying i h => x.children[i]?.map (x.reply i h)
  | .killing i =>
    some { x with sigterm := true, deeds := x.deeds ++ [.terminate], serve := .looping i }
  | .returned => none

/-- The listener is closed; the children that nobody has accepted are cut off. -/
def closeLis (x : Restart) : Restart :=
  { x with
    lis := false
    children := x.children.mapIdx fun i (ch : Child) => if i ∈ x.backlog then ch.cutOff else ch
    backlog := []
    stage := .waitDone }

/-- A step of the handler of signals, and of `Shutdown`. -/
def stepShutdown (x : Restart) : Option Restart :=
  match x.stage with
  | .running => if x.sigterm then some { x with sigterm := false, stage := .stopAdmin } else none
  | .stopAdmin => some { x.release .parent with stage := .stopCtl }
  -- until `Stop` of the controller returns
  | .stopCtl => none
  | .closeQuit => some { x with quit := true, stage := .closeLis }
  | .closeLis => some x.closeLis
  | .waitDone => if x.serve = .returned then some x.exit else none
  | .exited => none

/-- Which process or thread moves. -/
inductive Act where
  /-- an instance is started -/
  | start
  | child (i : Nat)
  | serve
  /-- the goroutine that closes the connection of a child -/
  | closer (i : Nat)
  | shutdown
  /-- `Stop` of the controller returns -/
  | ctlStopped
  /-- a child finds the port in use, and sleeps -/
  | retryListen (i : Nat)
  /-- `Accept` fails with the listener open, for a time or for good -/
  | acceptFails (temporary : Bool)
  /-- a signal to terminate comes from outside -/
  | signal
  | crash (i : Nat)
  | crashParent
  deriving DecidableEq

/-- The steps that the instances make by themselves, the retries apart. -/
def Act.internal : Act → Bool
  | .child _ | .serve | .closer _ | .shutdown | .ctlStopped => true
  | _ => false

def step (x : Restart) : Act → Option Restart
  | .start => some x.start
  | .child i =>
    match x.children[i]? with
    | none => none
    | some ch => if ch.alive then x.stepChild i ch else none
  | .serve => if x.stage = .exited then none else x.stepServe
  | .closer i =>
    match x.children[i]? with
    | none => none
    | some ch =>
      if x.stage ≠ .exited ∧ i ∈ x.closers ∧ x.quit = true ∧ ch.parentEnd = true then
        some (x.setChild i ch.cutOff)
      else none
  | .shutdown => x.stepShutdown
  | .ctlStopped => if x.stage = .stopCtl then some { x with stage := .closeQuit } else none
  | .retryListen i =>
    match x.children[i]? with
    | none => none
    | some ch => if ch.alive ∧ ch.pc = .startAdmin ∧ x.port ≠ none then some x else none
  | .acceptFails temporary =>
    if x.stage ≠ .exited ∧ x.serve = .accepting then
      -- the wait for the next try ends when the parent quits
      if temporary = true ∧ x.quit = false then some x else some { x with serve := .returned }
    else none
  | .signal => if x.stage = .exited then none else some { x with sigterm := true }
  | .crash i =>
    match x.children[i]? with
    | none => none
    | some ch => if ch.alive then some (x.crash i ch) else none
  | .crashParent => if x.stage = .exited then none else some x.exit

/-! ## What a step can do -/

/-- What a child can do. -/
inductive ChildStep (x : Restart) (i : Nat) (ch : Child) : Restart → Prop where
  /-- without a connection nothing is asked -/
  | skip {r : Request} (hpc : ch.pc = .call r) (hconn : ch.connected = false) :
      ChildStep x i ch (x.setChild i (ch.returned r))
  | request {r : Request} (hpc : ch.pc = .call r) (hconn : ch.connected = true) :
      ChildStep x i ch (x.setChild i (ch.request r))
  | answered {r : Request} (hpc : ch.pc = .wait r) (hne : ch.toChild ≠ [])
      (hread : received ch.toChild ≠ .panics) :
      ChildStep x i ch (x.setChild i (ch.readReply.returned r))
  | panic {r : Request} (hpc : ch.pc = .wait r) (hne : ch.toChild ≠ [])
      (hread : received ch.toChild = .panics) : ChildStep x i ch (x.crash i ch)
  | refused {r : Request} (hpc : ch.pc = .wait r) (hnil : ch.toChild = [])
      (hend : ch.parentEnd = false) : ChildStep x i ch (x.setChild i (ch.returned r))
  | listen (hpc : ch.pc = .startAdmin) (hport : x.port = none) :
      ChildStep x i ch
        { x.setChild i { ch with pc := .call .drainListeners } with port := some (.child i) }
  | wake (hpc : ch.pc = .sleep) :
      ChildStep x i ch (x.setChild i { ch with pc := .call .terminate })
  | close (hpc : ch.pc = .close) : ChildStep x i ch (x.setChild i { ch.hangUp with pc := .done })

/-- What the goroutine that accepts and serves can do. -/
inductive ServeStep (x : Restart) : Restart → Prop where
  | leave (hserve : x.serve = .accepting) (hlis : x.lis = false) :
      ServeStep x { x with serve := .returned }
  | accept {i : Nat} {backlog : List Nat} (hserve : x.serve = .accepting) (hlis : x.lis = true)
      (hbacklog : x.backlog = i :: backlog) :
      ServeStep x { x with backlog := backlog, serve := .looping i, closers := i :: x.closers }
  | stop {i : Nat} (hserve : x.serve = .looping i) (hquit : x.quit = true) :
      ServeStep x { x with serve := .accepting }
  | poll {i : Nat} (hserve : x.serve = .looping i) (hquit : x.quit = false) :
      ServeStep x { x with serve := .reading i }
  | readClosed {i : Nat} {ch : Child} (hserve : x.serve = .reading i)
      (hi : x.children[i]? = some ch) (hend : ch.parentEnd = false) :
      ServeStep x { x with serve := .looping i }
  | read {i : Nat} {ch : Child} {msg : Message} (hserve : x.serve = .reading i)
      (hi : x.children[i]? = some ch) (hend : ch.parentEnd = true) (hne : ch.toParent ≠ [])
      (hread : received ch.toParent = .returns msg) :
      ServeStep x { x.setChild i ch.readRequest with serve := .acting i (handlerFor msg.type) }
  | readFails {i : Nat} {ch : Child} (hserve : x.serve = .reading i)
      (hi : x.children[i]? = some ch) (hend : ch.parentEnd = true) (hne : ch.toParent ≠ [])
      (hread : ∀ msg, received ch.toParent ≠ .returns msg)
      (hread' : received ch.toParent ≠ .panics) :
      ServeStep x { x.setChild i ch.readRequest with serve := .looping i }
  | readPanics {i : Nat} {ch : Child} (hserve : x.serve = .reading i)
      (hi : x.children[i]? = some ch) (hend : ch.parentEnd = true) (hne : ch.toParent ≠ [])
      (hread : received ch.toParent = .panics) : ServeStep x x.exit
  | readReset {i : Nat} {ch : Child} (hserve : x.serve = .reading i) (hi : x.children[i]? = some ch)
      (hend : ch.parentEnd = true) (hnil : ch.toParent = []) (hchild : ch.childEnd = false)
      (hreset : ch.reset = true) :
      ServeStep x { x.setChild i { ch with reset := false } with serve := .looping i }
  | readEOF {i : Nat} {ch : Child} (hserve : x.serve = .reading i) (hi : x.children[i]? = some ch)
      (hend : ch.parentEnd = true) (hnil : ch.toParent = []) (hchild : ch.childEnd = false)
      (hreset : ch.reset = false) : ServeStep x { x with serve := .accepting }
  | act {i : Nat} {h : Handler} (hserve : x.serve = .acting i h) : ServeStep x (x.act i h)
  | reply {i : Nat} {h : Handler} {ch : Child} (hserve : x.serve = .replying i h)
      (hi : x.children[i]? = some ch) : ServeStep x (x.reply i h ch)
  | kill {i : Nat} (hserve : x.serve = .killing i) :
      ServeStep x { x with
        sigterm := true, deeds := x.deeds ++ [.terminate], serve := .looping i }

/-- What the handler of signals can do. -/
inductive ShutdownStep (x : Restart) : Restart → Prop where
  | notice (hstage : x.stage = .running) (hsignal : x.sigterm = true) :
      ShutdownStep x { x with sigterm := false, stage := .stopAdmin }
  | stopAdmin (hstage : x.stage = .stopAdmin) :
      ShutdownStep x { x.release .parent with stage := .stopCtl }
  | closeQuit (hstage : x.stage = .closeQuit) :
      ShutdownStep x { x with quit := true, stage := .closeLis }
  | closeLis (hstage : x.stage = .closeLis) : ShutdownStep x x.closeLis
  | exit (hstage : x.stage = .waitDone) (hserve : x.serve = .returned) : ShutdownStep x x.exit

inductive Step (x : Restart) : Act → Restart → Prop where
  | start : Step x .start x.start
  | child {x' : Restart} {i : Nat} {ch : Child} (hi : x.children[i]? = some ch)
      (halive : ch.alive = true) (h : ChildStep x i ch x') : Step x (.child i) x'
  | serve {x' : Restart} (hstage : x.stage ≠ .exited) (h : ServeStep x x') : Step x .serve x'
  | closer {i : Nat} {ch : Child} (hi : x.children[i]? = some ch) (hstage : x.stage ≠ .exited)
      (hcloser : i ∈ x.closers) (hquit : x.quit = true) (hend : ch.parentEnd = true) :
      Step x (.closer i) (x.setChild i ch.cutOff)
  | shutdown {x' : Restart} (h : ShutdownStep x x') : Step x .shutdown x'
  | ctlStopped (hstage : x.stage = .stopCtl) : Step x .ctlStopped { x with stage := .closeQuit }
  | retryListen {i : Nat} : Step x (.retryListen i) x
  | acceptRetry : Step x (.acceptFails true) x
  | acceptFails {temporary : Bool} (hserve : x.serve = .accepting)
      (hquit : temporary = true → x.quit = true) :
      Step x (.acceptFails temporary) { x with serve := .returned }
  | signal (hstage : x.stage ≠ .exited) : Step x .signal { x with sigterm := true }
  | crash {i : Nat} {ch : Child} (hi : x.children[i]? = some ch) (halive : ch.alive = true) :
      Step x (.crash i) (x.crash i ch)
  | crashParent (hstage : x.stage ≠ .exited) : Step x .crashParent x.exit

variable {x x' : Restart} {a : Act} {i : Nat} {ch : Child} {r : Request} {h : Handler}

theorem stepChild_cases (hstep : x.stepChild i ch = some x') : ChildStep x i ch x' := by
  rw [stepChild] at hstep
  cases hpc : ch.pc with
  | call r =>
    simp only [hpc] at hstep
    split at hstep
    · cases hstep
      exact .request hpc (by assumption)
    · cases hstep
      exact .skip hpc (by simpa using ‹¬ch.connected = true›)
  | wait r =>
    simp only [hpc] at hstep
    split at hstep
    · rename_i hne
      cases hstep
      rw [readReply]
      split
      · exact .panic hpc hne (by assumption)
      · rename_i hread
        exact .answered hpc hne hread
    · rename_i hnil
      obtain ⟨hend, ⟨⟩⟩ := Option.ite_none_right_eq_some.mp hstep
      exact .refused hpc (not_not.mp hnil) hend
  | startAdmin =>
    simp only [hpc] at hstep
    obtain ⟨hport, ⟨⟩⟩ := Option.ite_none_right_eq_some.mp hstep
    exact .listen hpc hport
  | sleep =>
    simp only [hpc] at hstep
    cases hstep
    exact .wake hpc
  | close =>
    simp only [hpc] at hstep
    cases hstep
    exact .close hpc
  | done => simp [hpc] at hstep

theorem stepServe_cases (hstep : x.stepServe = some x') : ServeStep x x' := by
  rw [stepServe] at hstep
  cases hserve : x.serve with
  | accepting =>
    simp only [hserve] at hstep
    split at hstep
    · cases hstep
      exact .leave hserve (by assumption)
    · rename_i hlis
      cases hbacklog : x.backlog with
      | nil => simp [hbacklog] at hstep
      | cons i backlog =>
        simp only [hbacklog] at hstep
        cases hstep
        exact .accept hserve (by simpa using hlis) hbacklog
  | looping i =>
    simp only [hserve] at hstep
    split at hstep
    · cases hstep
      exact .stop hserve (by assumption)
    · rename_i hquit
      cases hstep
      exact .poll hserve (by simpa using hquit)
  -- in the order of `stepRead`: the own end, bytes to read, the end of the child
  | reading i =>
    simp only [hserve] at hstep
    obtain ⟨ch, hi, hread⟩ := Option.bind_eq_some_iff.mp hstep
    rw [stepRead] at hread
    split at hread
    · cases hread
      exact .readClosed hserve hi (by assumption)
    · rename_i hend
      have hopen : ch.parentEnd = true := by simpa using hend
      split at hread
      · rename_i hne
        cases hread
        rw [readRequest]
        split
        · exact .read hserve hi hopen hne (by assumption)
        · exact .readPanics hserve hi hopen hne (by assumption)
        · rename_i hreturns hpanics
          exact .readFails hserve hi hopen hne hreturns hpanics
      · rename_i hnil
        obtain ⟨hchild, hread⟩ := Option.ite_none_right_eq_some.mp hread
        split at hread
        · cases hread
          exact .readReset hserve hi hopen (not_not.mp hnil) hchild (by assumption)
        · cases hread
          exact .readEOF hserve hi hopen (not_not.mp hnil) hchild
            (by simpa using ‹¬ch.reset = true›)
  | acting i h =>
    simp only [hserve] at hstep
    cases hstep
    exact .act hserve
  | replying i h =>
    simp only [hserve] at hstep
    obtain ⟨ch, hi, rfl⟩ := Option.map_eq_some_iff.mp hstep
    exact .reply hserve hi
  | killing i =>
    simp only [hserve] at hstep
    cases hstep
    exact .kill hserve
  | returned => simp [hserve] at hstep

theorem stepShutdown_cases (hstep : x.stepShutdown = some x') : ShutdownStep x x' := by
  rw [stepShutdown] at hstep
  cases hstage : x.stage with
  | running =>
    simp only [hstage] at hstep
    obtain ⟨hsignal, ⟨⟩⟩ := Option.ite_none_right_eq_some.mp hstep
    exact .notice hstage hsignal
  | stopAdmin =>
    simp only [hstage] at hstep
    cases hstep
    exact .stopAdmin hstage
  | closeQuit =>
    simp only [hstage] at hstep
    cases hstep
    exact .closeQuit hstage
  | closeLis =>
    simp only [hstage] at hstep
    cases hstep
    exact .closeLis hstage
  | waitDone =>
    simp only [hstage] at hstep
    obtain ⟨hserve, ⟨⟩⟩ := Option.ite_none_right_eq_some.mp hstep
    exact .exit hstage hserve
  | stopCtl | exited => simp [hstage] at hstep

theorem step_cases (hstep : x.step a = some x') : Step x a x' := by
  cases a with
  | start =>
    cases hstep
    exact .start
  | child i =>
    simp only [step] at hstep
    split at hstep
    · cases hstep
    · rename_i ch hi
      obtain ⟨halive, hstep⟩ := Option.ite_none_right_eq_some.mp hstep
      exact .child hi halive (stepChild_cases hstep)
  | serve =>
    obtain ⟨hstage, hstep⟩ := Option.ite_none_left_eq_some.mp hstep
    exact .serve hstage (stepServe_cases hstep)
  | closer i =>
    simp only [step] at hstep
    split at hstep
    · cases hstep
    · rename_i ch hi
      obtain ⟨⟨hstage, hcloser, hquit, hend⟩, ⟨⟩⟩ := Option.ite_none_right_eq_some.mp hstep
      exact .closer hi hstage hcloser hquit hend
  | shutdown => exact .shutdown (stepShutdown_cases hstep)
  | ctlStopped =>
    obtain ⟨hstage, hsome⟩ := Option.ite_none_right_eq_some.mp hstep
    cases hsome
    exact .ctlStopped hstage
  | retryListen i =>
    simp only [step] at hstep
    split at hstep
    · cases hstep
    · cases (Option.ite_none_right_eq_some.mp hstep).2
      exact .retryListen
  | acceptFails temporary =>
    obtain ⟨⟨-, hserve⟩, hstep⟩ := Option.ite_none_right_eq_some.mp hstep
    split at hstep <;> cases hstep
    · obtain ⟨rfl, -⟩ := ‹temporary = true ∧ _›
      exact .acceptRetry
    · rename_i hnot
      exact .acceptFails hserve fun htemp => by simpa [htemp] using hnot
  | signal =>
    obtain ⟨hstage, ⟨⟩⟩ := Option.ite_none_left_eq_some.mp hstep
    exact .signal hstage
  | crash i =>
    simp only [step] at hstep
    split at hstep
    · cases hstep
    · rename_i ch hi
      obtain ⟨halive, ⟨⟩⟩ := Option.ite_none_right_eq_some.mp hstep
      exact .crash hi halive
  | crashParent =>
    obtain ⟨hstage, ⟨⟩⟩ := Option.ite_none_left_eq_some.mp hstep
    exact .crashParent hstage

end Restart

end Samaritan.HotRestart
