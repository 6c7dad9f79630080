import Samaritan.Tcp.HandleConn

/-!
# Accounting of the TCP Processor

The counters of a host and of the upstream are updated one by one, by all goroutines of all handlers
and without a lock. In every state they are what the progress of the handlers calls for, up to the
updates that some handler has still to make; the connection counts that the balancer looks at are
the numbers of the connections that are open.
-/

namespace Samaritan.Tcp

open Samaritan.Lib
open Samaritan.Hosts (Host)

/-- `HandleConn` has not dialed a host. -/
def MainPc.undialed : MainPc → Bool
  | .start | .picking _ | .comparing _ _ _ | .dialing _ | .noHost | .dialFailed _ => true
  | .opening | .piping | .joining | .leaving | .returned => false

/-- `HandleConn` is leaving, or has left, a connection. -/
def MainPc.left : MainPc → Bool
  | .leaving | .returned => true
  | _ => false

namespace Handler

/-- What the progress of a handler calls for in each counter. -/
def due (x : Handler) : Counter → Nat
  | .connTotal h => if x.host = some h then 1 else 0
  | .connActive h => if x.host = some h ∧ x.main.left = false then 1 else 0
  | .connDestroy h => if x.host = some h ∧ x.main.left = true then 1 else 0
  | .connBytesIn h => if x.host = some h then (x.conn .server).taken.length else 0
  | .connBytesOut h => if x.host = some h then (x.conn .server).written.length else 0
  | .cxTotal => if x.host ≠ none then 1 else 0
  | .cxActive => if x.host ≠ none ∧ x.main.left = false then 1 else 0
  | .cxDestroyTotal => if x.host ≠ none ∧ x.main.left = true then 1 else 0
  | .cxConnectTimeout => if x.main = .dialFailed true then 1 else 0
  | .cxConnectFail => if x.main = .dialFailed true ∨ x.main = .dialFailed false then 1 else 0
  -- the bytes of a call that returned an error are in the counters of the host only
  | .cxRxBytesTotal side => (x.conn side).takenClean
  | .cxTxBytesTotal side => (x.conn side).writtenClean

/-- The updates that a handler has still to make. -/
def pending (x : Handler) : Counter → UInt64 :=
  planned (x.todo .client) + planned (x.todo .server)

/-- The due amounts as the counters hold them. -/
def dueWord (x : Handler) : Counter → UInt64 := fun c => UInt64.ofNat (x.due c)

def credit (x : Handler) : Counter → UInt64 := x.dueWord - x.pending

variable {x x' : Handler} {env : Surroundings} {a : HandlerStep} {side : Side}
  {todo : List Update}

theorem pending_plan (x : Handler) (side : Side) (todo : List Update) :
    (x.plan side todo).pending = x.pending - planned (x.todo side) + planned todo := by
  cases side
  · simp only [pending, plan, Function.update_self,
      Function.update_of_ne (show Side.server ≠ Side.client by decide)]
    abel
  · simp only [pending, plan, Function.update_self,
      Function.update_of_ne (show Side.client ≠ Side.server by decide)]
    abel

theorem credit_of_same (hdue : x'.dueWord = x.dueWord) (htodo : x'.todo = x.todo) :
    x'.credit = x.credit := by
  unfold credit pending
  rw [hdue, htodo]

theorem credit_setPipe (x : Handler) (side : Side) (pc : PipePc) :
    (x.setPipe side pc).credit = x.credit := rfl

/-- A goroutine that has nothing left to do moves on, and plans what its move calls for. -/
theorem credit_plan (htodo : x.todo side = []) (hsame : x'.todo = x.todo)
    (hdue : x'.dueWord = x.dueWord + planned todo) : (x'.plan side todo).credit = x.credit := by
  have hpending : x'.pending = x.pending := by simp only [pending, hsame]
  rw [credit, credit, pending_plan, hsame, htodo, hpending, planned_nil]
  show x'.dueWord - (x.pending - 0 + planned todo) = x.dueWord - x.pending
  rw [hdue]
  abel

/-! ## What a move calls for -/

/-- The stages of a handler. -/
structure Staged (x : Handler) : Prop where
  undialed_iff : x.host = none ↔ x.main.undialed = true
  /-- the pipes are started once the host has been dialed -/
  idle : x.host = none → ∀ side, x.pipe side = .idle
  /-- and the connection to it is new then -/
  fresh : x.host = none → (x.conn .server).taken = [] ∧ (x.conn .server).written = []

/-- What is added to the counter of the host of a connection. -/
def hostAmount (counter : Host → Counter) (host : Option Host) (side : Side) (n : Nat) :
    Counter → UInt64 :=
  fun c => if side = .server ∧ host.map counter = some c then UInt64.ofNat n else 0

theorem planned_hostUpdate (counter : Host → Counter) (host : Option Host) (side : Side) (n : Nat) :
    planned (hostUpdate counter host side n) = hostAmount counter host side n := by
  funext c
  cases side with
  | client => simp [hostUpdate, hostAmount]
  | server =>
    cases host with
    | none => simp [hostUpdate, hostAmount]
    | some h =>
      by_cases hn : n = 0
      · simp [hostUpdate, hostAmount, hn]
      · simp [hostUpdate, hostAmount, hn, Pi.single_apply, eq_comm]

/-- What a connection has gained: `rn` bytes read, `rc` of them without an error, and `wn` bytes
    written, `wc` of them without an error. -/
structure Grows (s s' : Socket) (rn rc wn wc : Nat) : Prop where
  taken : s'.taken.length = s.taken.length + rn
  takenClean : s'.takenClean = s.takenClean + rc
  written : s'.written.length = s.written.length + wn
  writtenClean : s'.writtenClean = s.writtenClean + wc

theorem ofNat_ite_add {q : Prop} [Decidable q] {a b n : Nat} (h : b = a + n) :
    UInt64.ofNat (if q then b else 0) =
      UInt64.ofNat (if q then a else 0) + if q then UInt64.ofNat n else 0 := by
  split
  · rw [h, UInt64.ofNat_add]
  · rfl

/-- What a connection gains is due to the counters of its side and of its host. -/
theorem dueWord_setConn {s : Socket} {rn rc wn wc : Nat} (hs : Grows (x.conn side) s rn rc wn wc) :
    (x.setConn side s).dueWord = x.dueWord +
      (Pi.single (.cxRxBytesTotal side) (UInt64.ofNat rc) +
        Pi.single (.cxTxBytesTotal side) (UInt64.ofNat wc) +
        (hostAmount .connBytesIn x.host side rn + hostAmount .connBytesOut x.host side wn)) := by
  -- no other counter than the two of the host gets an amount of the host
  have hamount : ∀ (counter : Host → Counter) (n : Nat) (c : Counter), (∀ h, counter h ≠ c) →
      hostAmount counter x.host side n c = 0 := by
    intro counter n c hc
    refine if_neg fun h => ?_
    obtain ⟨h, -, heq⟩ := Option.map_eq_some_iff.mp h.2
    exact hc h heq
  funext c
  simp only [Pi.add_apply]
  cases c with
  | cxRxBytesTotal side' =>
    rw [hamount _ _ _ (by simp), hamount _ _ _ (by simp)]
    by_cases hside : side' = side
    · subst hside
      simp [dueWord, due, setConn, hs.takenClean, UInt64.ofNat_add]
    · simp [dueWord, due, setConn, hside]
  | cxTxBytesTotal side' =>
    rw [hamount _ _ _ (by simp), hamount _ _ _ (by simp)]
    by_cases hside : side' = side
    · subst hside
      simp [dueWord, due, setConn, hs.writtenClean, UInt64.ofNat_add]
    · simp [dueWord, due, setConn, hside]
  -- bytes are counted for the host on the server side only
  | connBytesIn h =>
    rw [hamount .connBytesOut _ _ (by simp), Pi.single_eq_of_ne (by simp),
      Pi.single_eq_of_ne (by simp), add_zero, add_zero, zero_add]
    cases side with
    | client => simp [dueWord, due, setConn, hostAmount]
    | server =>
      have hword := ofNat_ite_add (q := x.host = some h) hs.taken
      simp [dueWord, due, setConn, hostAmount, hword]
  | connBytesOut h =>
    rw [hamount .connBytesIn _ _ (by simp), Pi.single_eq_of_ne (by simp),
      Pi.single_eq_of_ne (by simp), add_zero, zero_add, zero_add]
    cases side with
    | client => simp [dueWord, due, setConn, hostAmount]
    | server =>
      have hword := ofNat_ite_add (q := x.host = some h) hs.written
      simp [dueWord, due, setConn, hostAmount, hword]
  | connTotal h | connActive h | connDestroy h | cxTotal | cxActive | cxDestroyTotal
  | cxConnectTimeout | cxConnectFail =>
    rw [hamount _ _ _ (by simp), hamount _ _ _ (by simp), Pi.single_eq_of_ne (by simp),
      Pi.single_eq_of_ne (by simp), add_zero, add_zero, add_zero]
    rfl

theorem hostAmount_zero (counter : Host → Counter) (host : Option Host) (side : Side) :
    hostAmount counter host side 0 = 0 := by
  funext c
  simp [hostAmount]

theorem dueWord_read {n : Nat} {err : Option ReadErr} (hn : n ≤ (x.conn side).incoming.length) :
    (x.setConn side ((x.conn side).read n err)).dueWord =
      x.dueWord + planned (readUpdates x.host side n err) := by
  have htaken : ((x.conn side).read n err).taken.length = (x.conn side).taken.length + n := by
    simpa [Socket.read] using hn
  rw [readUpdates, planned_append, planned_hostUpdate]
  by_cases herr : err = none
  · have hgrows : Grows (x.conn side) ((x.conn side).read n err) n n 0 0 :=
      ⟨htaken, if_pos herr, rfl, rfl⟩
    rw [dueWord_setConn hgrows, hostAmount_zero, if_pos herr]
    simp
  · have hgrows : Grows (x.conn side) ((x.conn side).read n err) n 0 0 0 :=
      ⟨htaken, if_neg herr, rfl, rfl⟩
    rw [dueWord_setConn hgrows, hostAmount_zero, if_neg herr]
    simp

theorem dueWord_write {n : Nat} {err : Bool} {chunk : Bytes} (hn : n ≤ chunk.length) :
    (x.setConn side ((x.conn side).write chunk n err)).dueWord =
      x.dueWord + planned (writeUpdates x.host side n err) := by
  have hwritten : ((x.conn side).write chunk n err).written.length =
      (x.conn side).written.length + n := by
    simpa [Socket.write] using hn
  rw [writeUpdates, planned_append, planned_hostUpdate]
  cases err with
  | false =>
    have hgrows : Grows (x.conn side) ((x.conn side).write chunk n false) 0 0 n n :=
      ⟨rfl, rfl, hwritten, rfl⟩
    rw [dueWord_setConn hgrows, hostAmount_zero]
    simp
  | true =>
    have hgrows : Grows (x.conn side) ((x.conn side).write chunk n true) 0 0 n 0 :=
      ⟨rfl, rfl, hwritten, rfl⟩
    rw [dueWord_setConn hgrows, hostAmount_zero]
    simp

theorem credit_doRead {n : Nat} {err : Option ReadErr} (htodo : x.todo side = [])
    (hn : n ≤ (x.conn side).incoming.length) : (x.doRead side n err).credit = x.credit := by
  refine credit_plan htodo rfl ?_
  show (x.setConn side ((x.conn side).read n err)).dueWord = _
  exact dueWord_read hn

theorem credit_doWrite {n : Nat} {err : Bool} {chunk : Bytes} {er : Option ReadErr}
    (htodo : x.todo side = []) (hn : n ≤ chunk.length) :
    (x.doWrite side chunk er n err).credit = x.credit := by
  refine credit_plan htodo rfl ?_
  show (x.setConn side.other ((x.conn side.other).write chunk n err)).dueWord = _
  exact dueWord_write hn

/-- Nothing is read from the connection and nothing is written to it. -/
theorem credit_setConn {s : Socket} (hs : Grows (x.conn side) s 0 0 0 0) :
    (x.setConn side s).credit = x.credit := by
  refine credit_of_same ?_ rfl
  rw [dueWord_setConn hs, hostAmount_zero, hostAmount_zero]
  simp

/-- `HandleConn` moves on between two counted events. -/
theorem credit_setMain {main : MainPc} (hleft : main.left = x.main.left)
    (hfailed : ∀ timeout, main = .dialFailed timeout ↔ x.main = .dialFailed timeout) :
    { x with main := main }.credit = x.credit := by
  refine credit_of_same (funext fun c => ?_) rfl
  cases c <;> simp [dueWord, due, hleft, hfailed]

/-- A connection is opened. -/
theorem dueWord_open {h : Host} (hx : x.Staged) (hmain : x.main = .dialing h) :
    { x with main := .opening, host := some h }.dueWord = x.dueWord + planned (openUpdates h) := by
  have hhost : x.host = none := hx.undialed_iff.mpr (by rw [hmain]; rfl)
  obtain ⟨htaken, hwritten⟩ := hx.fresh hhost
  funext c
  cases c <;>
    simp [dueWord, due, openUpdates, MainPc.left, hhost, hmain, htaken, hwritten, Pi.single_apply,
      apply_ite UInt64.ofNat, eq_comm]

theorem dueWord_dialErr {h : Host} {timeout : Bool} (hx : x.Staged) (hmain : x.main = .dialing h) :
    { x with main := .dialFailed timeout }.dueWord =
      x.dueWord + planned (dialUpdates timeout) := by
  have hhost : x.host = none := hx.undialed_iff.mpr (by rw [hmain]; rfl)
  funext c
  cases timeout <;> cases c <;>
    simp [dueWord, due, dialUpdates, MainPc.left, hhost, hmain]

theorem dueWord_leave {h : Host} (hmain : x.main = .joining) (hhost : x.host = some h) :
    { x with main := .leaving }.dueWord = x.dueWord + planned (closeUpdates h) := by
  have hactive : ∀ g : Host, (0 : UInt64) = (if h = g then 1 else 0) + if h = g then -1 else 0 := by
    intro g
    split <;> rfl
  funext c
  cases c <;>
    simp [dueWord, due, closeUpdates, MainPc.left, hhost, hmain, Pi.single_apply,
      apply_ite UInt64.ofNat, eq_comm, ← hactive]

/-! ## One step of a handler -/

theorem staged_newHandler : newHandler.Staged :=
  ⟨iff_of_true rfl rfl, fun _ _ => rfl, fun _ => ⟨rfl, rfl⟩⟩

/-- A step within a stage. -/
theorem Staged.keep (hx : x.Staged) (hhost : x'.host = x.host)
    (hmain : x'.main.undialed = x.main.undialed)
    (hsame : x.host = none → x'.pipe = x.pipe ∧
      (x'.conn .server).taken = (x.conn .server).taken ∧
      (x'.conn .server).written = (x.conn .server).written) : x'.Staged := by
  refine ⟨by rw [hhost, hmain]; exact hx.undialed_iff, fun hnone side => ?_, fun hnone => ?_⟩
  · rw [hhost] at hnone
    rw [(hsame hnone).1]
    exact hx.idle hnone side
  · rw [hhost] at hnone
    rw [(hsame hnone).2.1, (hsame hnone).2.2]
    exact hx.fresh hnone

/-- A pipe that is running has a host. -/
theorem Staged.running (hx : x.Staged) {pc : PipePc} (hpipe : x.pipe side = pc) (hpc : pc ≠ .idle)
    (hhost : x'.host = x.host) (hmain : x'.main = x.main) : x'.Staged :=
  hx.keep hhost (by rw [hmain]) fun hnone => absurd (hpipe.symm.trans (hx.idle hnone side)) hpc

theorem Staged.step (hx : x.Staged) (h : x.Step env a x') : x'.Staged := by
  cases h with
  | noHost hmain | load hmain | compare hmain | dialErr hmain =>
    exact hx.keep rfl (by rw [hmain]; rfl) fun _ => ⟨rfl, rfl, rfl⟩
  | dialOk => exact ⟨by simp [plan, MainPc.undialed], by simp [plan], by simp [plan]⟩
  | spawn hmain =>
    refine hx.keep rfl (by rw [hmain]; rfl) fun hnone => ?_
    rw [hx.undialed_iff, hmain] at hnone
    cases hnone
  | read hpipe | write hpipe | closeWrite hpipe | closeDst hpipe | closeRead hpipe
  | closeSrc hpipe => exact hx.running hpipe (by simp) rfl rfl
  | signal | watchRemoved | watchDone => exact hx.keep rfl rfl fun _ => ⟨rfl, rfl, rfl⟩
  | join hmain | finish hmain => exact hx.keep rfl (by rw [hmain]; rfl) fun _ => ⟨rfl, rfl, rfl⟩
  | leave hmain =>
    exact hx.keep rfl (by rw [hmain]; rfl) fun _ => ⟨rfl, by simp [setConn, Socket.close]⟩
  | watchCloseServer => exact hx.keep rfl rfl fun _ => ⟨rfl, by simp [setConn, Socket.close]⟩
  | watchCloseClient | stopClose => exact hx.keep rfl rfl fun _ => ⟨rfl, by simp [setConn]⟩
  | @peerSend side _ _ hhost | @peerFin side hhost =>
    refine hx.keep rfl rfl fun hnone => ?_
    cases side with
    | client => exact ⟨rfl, by simp [setConn]⟩
    | server => exact absurd hnone (hhost rfl)

/-- **Step lemma**: a step of a handler calls for what it plans, and nothing more. -/
theorem credit_step (hx : x.Staged) (h : x.Step env a x') : x'.credit = x.credit := by
  cases h with
  | noHost hmain | load hmain | compare hmain | join hmain =>
    exact credit_setMain (by rw [hmain]; rfl) (by simp [hmain])
  | spawn hmain =>
    show { x with main := .piping }.credit = x.credit
    exact credit_setMain (by rw [hmain]; rfl) (by simp [hmain])
  -- what is due grows by the updates that are planned
  | dialOk hmain htodo => exact credit_plan htodo rfl (dueWord_open hx hmain)
  | dialErr hmain htodo => exact credit_plan htodo rfl (dueWord_dialErr hx hmain)
  | read _ htodo hmay => exact credit_doRead htodo hmay.2.1
  | write _ htodo hmay => exact credit_doWrite htodo hmay.2
  | @closeWrite side ok | @closeRead side ok =>
    rw [credit_setPipe]
    exact credit_setConn (by cases ok <;> exact ⟨rfl, rfl, rfl, rfl⟩)
  | closeDst | closeSrc =>
    rw [credit_setPipe]
    exact credit_setConn ⟨rfl, rfl, rfl, rfl⟩
  | watchCloseServer =>
    show (x.setConn .server (x.conn .server).close).credit = x.credit
    exact credit_setConn ⟨rfl, rfl, rfl, rfl⟩
  | watchCloseClient | stopClose =>
    show (x.setConn .client (x.conn .client).close).credit = x.credit
    exact credit_setConn ⟨rfl, rfl, rfl, rfl⟩
  | peerSend | peerFin => exact credit_setConn ⟨rfl, rfl, rfl, rfl⟩
  | signal | watchRemoved | watchDone => rfl
  | finish hmain hhost _ htodo => exact credit_plan htodo rfl (dueWord_leave hmain hhost)
  | leave hmain =>
    have hreturned : { x with main := .returned }.credit = x.credit :=
      credit_setMain (by rw [hmain]; rfl) (by simp [hmain])
    rw [← hreturned]
    exact credit_setConn ⟨rfl, rfl, rfl, rfl⟩

end Handler

/-! ## The processor -/

namespace TcpProc

/-- Every update that is called for has been made. -/
def Settled (p : TcpProc) : Prop := ∀ x ∈ p.handlers, ∀ side, x.todo side = []

/-- The counters say what they are for. -/
structure Accounts (p : TcpProc) : Prop where
  /-- a counter and what is still to be added to it make up what the handlers call for -/
  counted : ∀ c, p.counters c + (p.handlers.map fun x => x.pending c).sum =
    UInt64.ofNat (p.handlers.map fun x => x.due c).sum
  /-- the connections are the active and the destroyed ones -/
  total : p.Settled → p.counters .cxTotal = p.counters .cxActive + p.counters .cxDestroyTotal
  hosts : p.Settled → ∀ h, p.counters (.connTotal h) =
    p.counters (.connActive h) + p.counters (.connDestroy h)
  /-- nothing is active when all handlers have returned -/
  drained : p.Settled → (∀ x ∈ p.handlers, x.main = .returned ∨ x.host = none) →
    p.counters .cxActive = 0 ∧ ∀ h, p.counters (.connActive h) = 0

variable {p p' : TcpProc}

theorem sum_map_ofNat {α : Type*} (f : α → Nat) (xs : List α) :
    (xs.map fun x => UInt64.ofNat (f x)).sum = UInt64.ofNat (xs.map f).sum := by
  induction xs with
  | nil => rfl
  | cons x xs ih => rw [List.map_cons, List.sum_cons, ih, List.map_cons, List.sum_cons,
      UInt64.ofNat_add]

/-- The invariant: the counters are the sum of what the handlers have added. -/
structure Counting (p : TcpProc) : Prop where
  staged : ∀ x ∈ p.handlers, x.Staged
  tallied : Tallied Handler.credit p.counters p.handlers

theorem counting_newTcpProc (hosts : List Host) (policy : LoadBalancePolicy) :
    (newTcpProc hosts policy).Counting :=
  ⟨by simp [newTcpProc], tallied_nil⟩

theorem credit_newHandler : newHandler.credit = 0 := by
  funext c
  cases c <;> simp [Handler.credit, Handler.dueWord, Handler.due, Handler.pending, newHandler,
    newSocket]

/-- A handler is replaced by one that has the same stage and whose credit the counters follow. -/
theorem Counting.set {k : Nat} {x' : Handler} {counters : Counter → UInt64} (hp : p.Counting)
    (hx' : x'.Staged) (htallied : Tallied Handler.credit counters (p.handlers.set k x'))
    (hhandlers : p'.handlers = p.handlers.set k x') (hcounters : p'.counters = counters) :
    p'.Counting := by
  refine ⟨fun x hx => ?_, by rwa [hcounters, hhandlers]⟩
  rw [hhandlers] at hx
  exact (List.mem_or_eq_of_mem_set hx).elim (hp.staged x) fun heq => heq ▸ hx'

/-- A handler that picks a host has dialed none. -/
theorem Counting.pick {k : Nat} {x : Handler} {hosts : List Host} {main : MainPc} (hp : p.Counting)
    (hx : p.handlers[k]? = some x) (hmain : x.main = .picking hosts)
    (hundialed : main.undialed = true) (hleft : main.left = false)
    (hfailed : ∀ timeout, main ≠ .dialFailed timeout)
    (hhandlers : p'.handlers = p.handlers.set k { x with main := main })
    (hcounters : p'.counters = p.counters) : p'.Counting := by
  have hstaged := hp.staged x (List.mem_of_getElem? hx)
  refine hp.set ?_ (hp.tallied.move hx ?_) hhandlers hcounters
  · exact hstaged.keep rfl (by rw [hmain]; exact hundialed) fun _ => ⟨rfl, rfl, rfl⟩
  · exact Handler.credit_setMain (by rw [hmain]; exact hleft) (by simp [hmain, hfailed])

theorem Counting.step {a : ProcStep} (hp : p.Counting) (h : Step p a p') : p'.Counting := by
  cases h with
  | accept =>
    refine ⟨fun x hx => ?_, hp.tallied.start credit_newHandler⟩
    rcases List.mem_append.mp hx with hx | hx
    · exact hp.staged x hx
    · rw [List.mem_singleton.mp hx]
      exact Handler.staged_newHandler
  | hosts | policy => exact ⟨hp.staged, hp.tallied⟩
  | @pick k _ _ x _ pick hx hmain =>
    cases pick with
    | host h | between host1 host2 => exact hp.pick hx hmain rfl rfl (by simp) rfl rfl
  | @count k side x u todo hx htodo =>
    have hstaged : (x.plan side todo).Staged :=
      (hp.staged x (List.mem_of_getElem? hx)).keep rfl rfl fun _ => ⟨rfl, rfl, rfl⟩
    refine hp.set hstaged (hp.tallied.update hx ?_) rfl rfl
    -- the update goes from what is planned to what has been added
    rw [Handler.credit, Handler.credit, Handler.pending_plan, htodo, planned_cons]
    show x.dueWord - _ = _
    abel
  | @handler k a x x' hx hstep =>
    have hstaged := hp.staged x (List.mem_of_getElem? hx)
    exact hp.set (hstaged.step hstep)
      (hp.tallied.move hx (Handler.credit_step hstaged hstep)) rfl rfl

theorem Counting.counted (hp : p.Counting) (c : Counter) :
    p.counters c + (p.handlers.map fun x => x.pending c).sum =
      UInt64.ofNat (p.handlers.map fun x => x.due c).sum := by
  rw [hp.tallied.apply c, ← List.sum_map_add, ← sum_map_ofNat]
  congr 2
  funext x
  simp [Handler.credit, Handler.dueWord]

/-- Without updates to be made, a counter is what the handlers call for. -/
theorem Counting.eq_of_settled (hp : p.Counting) (hsettled : p.Settled) (c : Counter) :
    p.counters c = UInt64.ofNat (p.handlers.map fun x => x.due c).sum := by
  have hpending : (p.handlers.map fun x => x.pending c).sum = 0 := by
    apply List.sum_eq_zero
    intro n hn
    obtain ⟨x, hx, rfl⟩ := List.mem_map.mp hn
    simp [Handler.pending, hsettled x hx]
  rw [← hp.counted c, hpending, add_zero]

/-- A counter that is due as much as two others. -/
theorem Counting.eq_add (hp : p.Counting) (hsettled : p.Settled) {c c₁ c₂ : Counter}
    (hdue : ∀ x : Handler, x.due c = x.due c₁ + x.due c₂) :
    p.counters c = p.counters c₁ + p.counters c₂ := by
  rw [hp.eq_of_settled hsettled, hp.eq_of_settled hsettled, hp.eq_of_settled hsettled,
    ← UInt64.ofNat_add, ← List.sum_map_add]
  simp only [hdue]

/-- A counter that nothing is due to. -/
theorem Counting.eq_zero (hp : p.Counting) (hsettled : p.Settled) {c : Counter}
    (hdue : ∀ x ∈ p.handlers, x.due c = 0) : p.counters c = 0 := by
  rw [hp.eq_of_settled hsettled, List.sum_eq_zero]
  · rfl
  · intro n hn
    obtain ⟨x, hx, rfl⟩ := List.mem_map.mp hn
    exact hdue x hx

/-- **Accounting**: in every run the counters of the hosts and of the upstream agree with what the
    handlers have done, up to the updates that are still to be made. -/
theorem accounts_of_run {hosts : List Host} {policy : LoadBalancePolicy} {as : List ProcStep}
    {p : TcpProc} (hrun : runFrom step (newTcpProc hosts policy) as = some p) : p.Accounts := by
  have hp : p.Counting := invariant_of_run (fun p a p' hp h => hp.step (step_cases h))
    (counting_newTcpProc hosts policy) hrun
  refine ⟨hp.counted, fun hsettled => ?_, fun hsettled h => ?_, fun hsettled hdone => ?_⟩
  · refine hp.eq_add hsettled fun x => ?_
    cases hleft : x.main.left <;> simp [Handler.due, hleft]
  · refine hp.eq_add hsettled fun x => ?_
    cases hleft : x.main.left <;> simp [Handler.due, hleft]
  · have hleft : ∀ x ∈ p.handlers, x.host = none ∨ x.main.left = true := by
      intro x hx
      rcases hdone x hx with hmain | hhost
      · rw [hmain]
        exact .inr rfl
      · exact .inl hhost
    refine ⟨hp.eq_zero hsettled fun x hx => ?_, fun h => hp.eq_zero hsettled fun x hx => ?_⟩
    · rcases hleft x hx with hx | hx <;> simp [Handler.due, hx]
    · rcases hleft x hx with hx | hx <;> simp [Handler.due, hx]

theorem accounts_of_run_halfClosed :
    ∃ p, runFrom step (newTcpProc [sampleHost] .roundRobin) halfClosed = some p ∧
      p.counters (.connActive sampleHost) = 1 ∧ p.counters (.connBytesOut sampleHost) = 3 ∧
      -- the byte that came with the end of the stream
      p.counters (.cxRxBytesTotal .client) = 2 ∧ p.Accounts := by
  have hrun : ∃ p, runFrom step (newTcpProc [sampleHost] .roundRobin) halfClosed = some p ∧
      p.counters (.connActive sampleHost) = 1 ∧ p.counters (.connBytesOut sampleHost) = 3 ∧
      p.counters (.cxRxBytesTotal .client) = 2 := exists_of_any (by decide +kernel)
  obtain ⟨p, hrun, hactive, hout, hrx⟩ := hrun
  exact ⟨p, hrun, hactive, hout, hrx, accounts_of_run hrun⟩

end TcpProc

end Samaritan.Tcp
