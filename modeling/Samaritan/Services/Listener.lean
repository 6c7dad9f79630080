import Mathlib.Data.List.Count
import Samaritan.Lib.Machine

/-!
# Listeners

A listener (`proc/listener.go`) accepts the connections of a service. `Serve` binds the socket,
trying again until it can, publishes it in the field `ln` and accepts connections; each is handled
by a goroutine of its own. `Drain` and `Stop` may be called at any time and any number of times:
both close the socket when they find `ln` set, and `Stop` then waits for `done`, which `Serve`
closes when all connections are finished.

This file has the machine and what becomes of `Stop` in it. There are two ways in which `Stop` is
left alone. `Serve` returns from its binding loop without closing `done`, and a socket may be
published behind the test of `ln` in `Stop`, so that no one closes it.
-/

namespace Samaritan.Services

open Samaritan.Lib

/-! ## State -/

/-- Where `Serve` stands. -/
inductive ServePc where
  /-- before the first `select` of the binding loop -/
  | check
  /-- in the listen function -/
  | listening
  /-- in the `select` with the timer -/
  | retrying
  /-- the socket is bound, `l.ln` is not assigned yet -/
  | publishing
  /-- in `Accept` -/
  | accepting
  /-- in the `select` behind a temporary error of `Accept` -/
  | delaying
  /-- in `connsWg.Wait` -/
  | waiting
  | returned
  deriving DecidableEq, Repr

/-- Where the goroutine of a connection stands. -/
inductive HandlerPc where
  /-- before `addConn` -/
  | accepted
  /-- between `addConn` and the deferred `removeConn` -/
  | admitted
  /-- before `connsWg.Done` -/
  | leaving
  | finished
  deriving DecidableEq, Repr

/-- A listener with the calls of its methods. Calls of `Stop` are told apart by where they stand
    only, so that the state counts them; the same is done for `Drain`. -/
structure Listener where
  /-- `cfg.ConnectionLimit` -/
  limit : UInt32
  pc : ServePc
  /-- `l.ln` is set -/
  ln : Bool
  socketOpen : Bool
  quit : Bool
  drain : Bool
  done : Bool
  /-- calls of `Drain` before their test of `ln` -/
  drains : Nat
  /-- calls of `Stop` before they take the connections -/
  stopsTaking : Nat
  /-- before their test of `ln` -/
  stopsTesting : Nat
  /-- before they have closed the connections they took -/
  stopsClosing : Nat
  /-- at the receive from `done` -/
  stopsWaiting : Nat
  /-- the goroutines of the accepted connections, which are numbered in order -/
  handlers : List HandlerPc
  /-- `l.conns`, without a value when it is nil -/
  conns : Option (List Nat)
  connsWg : Nat
  cxTotal : Nat
  cxActive : Int
  cxDestroyTotal : Nat
  cxRestricted : Nat
  deriving DecidableEq, Repr

/-- `NewListener`, with `Serve` about to run. -/
def newListener (limit : UInt32) : Listener where
  limit := limit
  pc := .check
  ln := false
  socketOpen := false
  quit := false
  drain := false
  done := false
  drains := 0
  stopsTaking := 0
  stopsTesting := 0
  stopsClosing := 0
  stopsWaiting := 0
  handlers := []
  conns := some []
  connsWg := 0
  cxTotal := 0
  cxActive := 0
  cxDestroyTotal := 0
  cxRestricted := 0

namespace Listener

/-- The test `l.ln != nil` of `Drain` and `Stop`, with the close behind it. -/
def closeLn (l : Listener) : Listener :=
  { l with socketOpen := if l.ln then false else l.socketOpen }

/-- `connsLimit`, for the number of registered connections. -/
def connsLimit (l : Listener) (len : Nat) : Bool :=
  if l.limit = 0 ∨ UInt32.ofNat len < l.limit then false else true

def setHandler (l : Listener) (k : Nat) (pc : HandlerPc) : Listener :=
  { l with handlers := l.handlers.set k pc }

/-- `addConn` and what `handleRawConn` does with its result. -/
def addConn (l : Listener) (k : Nat) : Listener :=
  match l.conns with
  | none => l.setHandler k .leaving
  | some conns =>
    if l.connsLimit conns.length then
      { l.setHandler k .leaving with cxRestricted := l.cxRestricted + 1 }
    else
      { l.setHandler k .admitted with
        conns := some (k :: conns)
        cxTotal := l.cxTotal + 1
        cxActive := l.cxActive + 1 }

/-- The deferred `removeConn`. -/
def removeConn (l : Listener) (k : Nat) : Listener :=
  match l.conns with
  | none => l.setHandler k .leaving
  | some conns =>
    if k ∈ conns then
      { l.setHandler k .leaving with
        conns := some (conns.erase k)
        cxDestroyTotal := l.cxDestroyTotal + 1
        cxActive := l.cxActive - 1 }
    else l.setHandler k .leaving

end Listener

/-! ## Steps -/

/-- The steps of `Serve`, of the goroutines of the connections, and of the calls of `Drain` and
    `Stop`. What is done under the mutex is one step. -/
inductive ListenerStep where
  /-- the `select` without a timer -/
  | select
  | listenOk
  | listenErr
  | retryTimer
  /-- `quit` or `drain` is closed during the wait -/
  | retryClosed
  /-- the assignment of `l.ln` -/
  | publish
  | accept
  | acceptTemporary
  | acceptErr
  | delayTimer
  | delayQuit
  /-- `connsWg.Wait` returns, and `Serve` with it -/
  | serveDone
  | addConn (k : Nat)
  | removeConn (k : Nat)
  /-- `connsWg.Done` -/
  | connDone (k : Nat)
  /-- a call of `Drain`, up to its test of `ln` -/
  | drain
  | drainTest
  /-- a call of `Stop`, up to the lock -/
  | stop
  | stopTake
  | stopTest
  | stopClose
  /-- the receive from `done` -/
  | stopDone
  deriving DecidableEq, Repr

namespace Listener

def step (l : Listener) : ListenerStep → Option Listener
  | .select =>
    if l.pc = .check then
      some { l with pc := if l.quit || l.drain then .returned else .listening }
    else none
  | .listenOk =>
    if l.pc = .listening then some { l with pc := .publishing, socketOpen := true } else none
  | .listenErr => if l.pc = .listening then some { l with pc := .retrying } else none
  | .retryTimer => if l.pc = .retrying then some { l with pc := .check } else none
  | .retryClosed =>
    if l.pc = .retrying ∧ (l.quit || l.drain) then some { l with pc := .returned } else none
  | .publish => if l.pc = .publishing then some { l with pc := .accepting, ln := true } else none
  | .accept =>
    if l.pc = .accepting ∧ l.socketOpen then
      some { l with handlers := l.handlers ++ [.accepted], connsWg := l.connsWg + 1 }
    else none
  | .acceptTemporary =>
    if l.pc = .accepting ∧ l.socketOpen then some { l with pc := .delaying } else none
  -- on a closed socket, and on any error that is not temporary
  | .acceptErr => if l.pc = .accepting then some { l with pc := .waiting } else none
  | .delayTimer => if l.pc = .delaying then some { l with pc := .accepting } else none
  | .delayQuit => if l.pc = .delaying ∧ l.quit then some { l with pc := .waiting } else none
  | .serveDone =>
    if l.pc = .waiting ∧ l.connsWg = 0 then some { l with pc := .returned, done := true } else none
  | .addConn k => if l.handlers[k]? = some .accepted then some (l.addConn k) else none
  | .removeConn k => if l.handlers[k]? = some .admitted then some (l.removeConn k) else none
  | .connDone k =>
    if l.handlers[k]? = some .leaving then
      some { l.setHandler k .finished with connsWg := l.connsWg - 1 }
    else none
  | .drain => some { l with drain := true, drains := l.drains + 1 }
  | .drainTest => if 0 < l.drains then some { l.closeLn with drains := l.drains - 1 } else none
  | .stop => some { l with quit := true, stopsTaking := l.stopsTaking + 1 }
  | .stopTake =>
    if 0 < l.stopsTaking then
      some { l with
        conns := none
        stopsTaking := l.stopsTaking - 1
        stopsTesting := l.stopsTesting + 1 }
    else none
  | .stopTest =>
    if 0 < l.stopsTesting then
      some { l.closeLn with
        stopsTesting := l.stopsTesting - 1
        stopsClosing := l.stopsClosing + 1 }
    else none
  | .stopClose =>
    if 0 < l.stopsClosing then
      some { l with stopsClosing := l.stopsClosing - 1, stopsWaiting := l.stopsWaiting + 1 }
    else none
  | .stopDone =>
    if 0 < l.stopsWaiting ∧ l.done then some { l with stopsWaiting := l.stopsWaiting - 1 }
    else none

/-- The steps as a relation, one rule for each branch of the code. -/
inductive Step (l : Listener) : ListenerStep → Listener → Prop where
  /-- `Serve` returns from the binding loop, and `done` stays open -/
  | selectClosed (hpc : l.pc = .check) (hclosed : l.quit = true ∨ l.drain = true) :
      Step l .select { l with pc := .returned }
  | select (hpc : l.pc = .check) (hquit : l.quit = false) (hdrain : l.drain = false) :
      Step l .select { l with pc := .listening }
  | listenOk (hpc : l.pc = .listening) :
      Step l .listenOk { l with pc := .publishing, socketOpen := true }
  | listenErr (hpc : l.pc = .listening) : Step l .listenErr { l with pc := .retrying }
  | retryTimer (hpc : l.pc = .retrying) : Step l .retryTimer { l with pc := .check }
  | retryClosed (hpc : l.pc = .retrying) (hclosed : l.quit = true ∨ l.drain = true) :
      Step l .retryClosed { l with pc := .returned }
  | publish (hpc : l.pc = .publishing) : Step l .publish { l with pc := .accepting, ln := true }
  | accept (hpc : l.pc = .accepting) (hopen : l.socketOpen = true) :
      Step l .accept
        { l with handlers := l.handlers ++ [.accepted], connsWg := l.connsWg + 1 }
  | acceptTemporary (hpc : l.pc = .accepting) (hopen : l.socketOpen = true) :
      Step l .acceptTemporary { l with pc := .delaying }
  | acceptErr (hpc : l.pc = .accepting) : Step l .acceptErr { l with pc := .waiting }
  | delayTimer (hpc : l.pc = .delaying) : Step l .delayTimer { l with pc := .accepting }
  | delayQuit (hpc : l.pc = .delaying) (hquit : l.quit = true) :
      Step l .delayQuit { l with pc := .waiting }
  | serveDone (hpc : l.pc = .waiting) (hwg : l.connsWg = 0) :
      Step l .serveDone { l with pc := .returned, done := true }
  | addConn (k : Nat) (hk : l.handlers[k]? = some .accepted) : Step l (.addConn k) (l.addConn k)
  | removeConn (k : Nat) (hk : l.handlers[k]? = some .admitted) :
      Step l (.removeConn k) (l.removeConn k)
  | connDone (k : Nat) (hk : l.handlers[k]? = some .leaving) :
      Step l (.connDone k) { l.setHandler k .finished with connsWg := l.connsWg - 1 }
  | drain : Step l .drain { l with drain := true, drains := l.drains + 1 }
  | drainTest (hdrains : 0 < l.drains) :
      Step l .drainTest { l.closeLn with drains := l.drains - 1 }
  | stop : Step l .stop { l with quit := true, stopsTaking := l.stopsTaking + 1 }
  | stopTake (htaking : 0 < l.stopsTaking) :
      Step l .stopTake
        { l with
          conns := none
          stopsTaking := l.stopsTaking - 1
          stopsTesting := l.stopsTesting + 1 }
  | stopTest (htesting : 0 < l.stopsTesting) :
      Step l .stopTest
        { l.closeLn with
          stopsTesting := l.stopsTesting - 1
          stopsClosing := l.stopsClosing + 1 }
  | stopClose (hclosing : 0 < l.stopsClosing) :
      Step l .stopClose
        { l with stopsClosing := l.stopsClosing - 1, stopsWaiting := l.stopsWaiting + 1 }
  | stopDone (hwaiting : 0 < l.stopsWaiting) (hdone : l.done = true) :
      Step l .stopDone { l with stopsWaiting := l.stopsWaiting - 1 }

variable {l l' : Listener} {a : ListenerStep}

theorem step_cases (h : l.step a = some l') : Step l a l' := by
  cases a <;> simp only [step] at h
  case select =>
    split at h
    case isFalse => cases h
    case isTrue hpc =>
      cases h
      split
      case isTrue hclosed => exact .selectClosed hpc (by simpa using hclosed)
      case isFalse hclosed =>
        rw [Bool.or_eq_true, not_or, Bool.not_eq_true, Bool.not_eq_true] at hclosed
        exact .select hpc hclosed.1 hclosed.2
  case drain | stop =>
    cases h
    constructor
  all_goals
    split at h
    case isFalse => cases h
    case isTrue hguard =>
      cases h
      constructor <;> simp_all

/-! ## Stops that are left alone -/

/-- A call of `Stop` waits on `done`, and `Serve` has returned without closing it. -/
def StopStuck (l : Listener) : Prop :=
  0 < l.stopsWaiting ∧ l.pc = .returned ∧ l.done = false

/-- The number of calls of `Stop` that have passed their test of `ln`. -/
def passed (l : Listener) : Nat := l.stopsClosing + l.stopsWaiting

/-- The number of calls of `Drain` and `Stop` that have their test of `ln` ahead. -/
def testers (l : Listener) : Nat := l.drains + l.stopsTaking + l.stopsTesting

/-- `quit` is closed, `Stop` has passed its test of `ln`, and `Serve` accepts connections on a
    socket that no call will close. -/
def SocketLost (l : Listener) : Prop :=
  l.quit = true ∧ 0 < l.passed ∧ l.pc = .accepting ∧ l.socketOpen = true ∧ l.testers = 0

/-- Where a step could leave `Stop` alone: `Serve` returns from the binding loop only if no call
    of `Stop` waits on `done`, none begins to wait after that, and a socket that `Stop` has not
    seen is published only if another call will test `ln`. -/
def StopServed (l : Listener) : ListenerStep → Prop
  | .select | .retryClosed => l.quit = true ∨ l.drain = true → l.stopsWaiting = 0
  | .stopClose => ¬ (l.pc = .returned ∧ l.done = false)
  | .publish => 0 < l.passed → 0 < l.testers
  | _ => True

instance (l : Listener) (a : ListenerStep) : Decidable (StopServed l a) :=
  match a with
  | .select | .retryClosed => inferInstanceAs (Decidable (_ ∨ _ → _))
  | .stopClose => inferInstanceAs (Decidable (¬ _))
  | .publish => inferInstanceAs (Decidable (_ → _))
  | .listenOk | .listenErr | .retryTimer | .accept | .acceptTemporary | .acceptErr | .delayTimer
  | .delayQuit | .serveDone | .addConn _ | .removeConn _ | .connDone _ | .drain | .drainTest
  | .stop | .stopTake | .stopTest | .stopDone => isTrue trivial

/-- In the binding loop, or behind it with the socket not published. -/
def Binds (l : Listener) : Prop :=
  l.pc = .check ∨ l.pc = .listening ∨ l.pc = .retrying ∨ l.pc = .publishing

/-- What holds in every run: `done` is closed by the return, `Stop` has closed `quit` first, and
    no one closes a socket before it is published. -/
structure Staged (l : Listener) : Prop where
  done : l.done = true → l.pc = .returned
  quit : 0 < l.passed + l.stopsTaking + l.stopsTesting → l.quit = true
  ln : l.Binds → l.ln = false
  socket : l.pc = .publishing → l.socketOpen = true

theorem staged_newListener (limit : UInt32) : Staged (newListener limit) where
  done := by intro h; cases h
  quit := by intro h; cases h
  ln := fun _ => rfl
  socket := by intro h; cases h

theorem Staged.done_eq_false (hl : Staged l) (hpc : l.pc ≠ .returned) : l.done = false := by
  rw [← Bool.not_eq_true]
  exact fun hd => hpc (hl.done hd)

/-- What the connections have no part in. -/
structure SameCalls (l l' : Listener) : Prop where
  pc : l'.pc = l.pc
  ln : l'.ln = l.ln
  socketOpen : l'.socketOpen = l.socketOpen
  quit : l'.quit = l.quit
  done : l'.done = l.done
  passed : l'.passed = l.passed
  stopsWaiting : l'.stopsWaiting = l.stopsWaiting
  testers : l'.testers = l.testers
  pending : l'.stopsTaking + l'.stopsTesting = l.stopsTaking + l.stopsTesting

theorem sameCalls_addConn (k : Nat) : SameCalls l (l.addConn k) := by
  unfold addConn
  split
  · exact ⟨rfl, rfl, rfl, rfl, rfl, rfl, rfl, rfl, rfl⟩
  · split <;> exact ⟨rfl, rfl, rfl, rfl, rfl, rfl, rfl, rfl, rfl⟩

theorem sameCalls_removeConn (k : Nat) : SameCalls l (l.removeConn k) := by
  unfold removeConn
  split
  · exact ⟨rfl, rfl, rfl, rfl, rfl, rfl, rfl, rfl, rfl⟩
  · split <;> exact ⟨rfl, rfl, rfl, rfl, rfl, rfl, rfl, rfl, rfl⟩

theorem Staged.of_sameCalls (hl : Staged l) (h : SameCalls l l') : Staged l' where
  done := by
    rw [h.done, h.pc]
    exact hl.done
  quit := by
    rw [Nat.add_assoc, h.passed, h.pending, h.quit, ← Nat.add_assoc]
    exact hl.quit
  ln := by
    unfold Binds
    rw [h.pc, h.ln]
    exact hl.ln
  socket := by
    rw [h.pc, h.socketOpen]
    exact hl.socket

/-- A test of `ln` finds nothing to close while the socket is not published. -/
theorem Staged.closeLn_socket (hl : Staged l) (hpc : l.pc = .publishing) :
    l.closeLn.socketOpen = true := by
  unfold closeLn
  rw [hl.ln (.inr (.inr (.inr hpc)))]
  exact hl.socket hpc

theorem Staged.step (hl : Staged l) (h : Step l a l') : Staged l' := by
  cases h with
  | addConn k hk => exact hl.of_sameCalls (sameCalls_addConn k)
  | removeConn k hk => exact hl.of_sameCalls (sameCalls_removeConn k)
  | accept | connDone | drain => exact ⟨hl.done, hl.quit, hl.ln, hl.socket⟩
  | stop => exact ⟨hl.done, fun _ => rfl, hl.ln, hl.socket⟩
  -- `Serve` returns
  | selectClosed | retryClosed | serveDone =>
    refine ⟨fun _ => rfl, hl.quit, ?_, ?_⟩
    · rintro (h | h | h | h) <;> cases h
    · intro h
      cases h
  -- `Serve` is still before the accept loop
  | select hpc | listenOk hpc | listenErr hpc | retryTimer hpc =>
    have hdone := hl.done_eq_false (by simp [hpc])
    refine ⟨fun hd => ?_, hl.quit, fun _ => hl.ln (by simp [Binds, hpc]), ?_⟩
    · rw [hdone] at hd
      cases hd
    · intro h
      first | rfl | cases h
  | publish hpc | acceptTemporary hpc | acceptErr hpc | delayTimer hpc | delayQuit hpc =>
    have hdone := hl.done_eq_false (by simp [hpc])
    refine ⟨fun hd => ?_, hl.quit, ?_, ?_⟩
    · rw [hdone] at hd
      cases hd
    · rintro (h | h | h | h) <;> cases h
    · intro h
      cases h
  | drainTest hdrains => exact ⟨hl.done, hl.quit, hl.ln, hl.closeLn_socket⟩
  | stopTest htesting =>
    refine ⟨hl.done, fun hpos => hl.quit ?_, hl.ln, hl.closeLn_socket⟩
    simp only [passed]
    omega
  | stopTake htaking | stopClose hclosing | stopDone hwaiting =>
    refine ⟨hl.done, fun hpos => hl.quit ?_, hl.ln, hl.socket⟩
    simp only [passed]
    omega

/-- In the accept loop. -/
def Accepts (l : Listener) : Prop := l.pc = .accepting ∨ l.pc = .delaying

/-- What holds as long as no step leaves `Stop` alone: a socket that is still open in the accept
    loop, though `Stop` has passed its test, will be tested by another call. -/
structure Attended (l : Listener) : Prop where
  stuck : ¬ l.StopStuck
  ln : l.Accepts → l.ln = true
  socket : l.Accepts → l.socketOpen = true → 0 < l.passed → 0 < l.testers

theorem attended_newListener (limit : UInt32) : Attended (newListener limit) where
  stuck := fun h => absurd h.1 (Nat.lt_irrefl 0)
  ln := by rintro (h | h) <;> cases h
  socket := by rintro (h | h) <;> cases h

theorem Attended.of_sameCalls (hl : Attended l) (h : SameCalls l l') : Attended l' where
  stuck := by
    unfold StopStuck
    rw [h.stopsWaiting, h.pc, h.done]
    exact hl.stuck
  ln := by
    unfold Accepts
    rw [h.pc, h.ln]
    exact hl.ln
  socket := by
    unfold Accepts
    rw [h.pc, h.socketOpen, h.passed, h.testers]
    exact hl.socket

/-- Outside of the accept loop, and without a return that leaves `done` open, nothing is asked. -/
theorem attended_of_not_accepts (hstuck : ¬ l.StopStuck) (hpc : ¬ l.Accepts) : Attended l :=
  ⟨hstuck, fun h => absurd h hpc, fun h => absurd h hpc⟩

/-- A call that tests `ln` in the accept loop closes the socket. -/
theorem Attended.closeLn_closed (hl : Attended l) (h : l.Accepts) :
    l.closeLn.socketOpen = false := by
  unfold closeLn
  rw [hl.ln h]
  rfl

theorem Attended.step (hl : Attended l) (hok : StopServed l a) (h : Step l a l') :
    Attended l' := by
  cases h with
  | addConn k hk => exact hl.of_sameCalls (sameCalls_addConn k)
  | removeConn k hk => exact hl.of_sameCalls (sameCalls_removeConn k)
  | accept | connDone => exact ⟨hl.stuck, hl.ln, hl.socket⟩
  | selectClosed hpc hclosed | retryClosed hpc hclosed =>
    apply attended_of_not_accepts
    · intro hstuck
      have hzero : l.stopsWaiting = 0 := hok hclosed
      have hpos : 0 < l.stopsWaiting := hstuck.1
      omega
    · rintro (h | h) <;> cases h
  | serveDone hpc hwg =>
    apply attended_of_not_accepts
    · intro hstuck
      cases hstuck.2.2
    · rintro (h | h) <;> cases h
  | select | listenOk | listenErr | retryTimer | acceptErr | delayQuit =>
    apply attended_of_not_accepts
    · intro hstuck
      cases hstuck.2.1
    · rintro (h | h) <;> cases h
  | publish hpc =>
    refine ⟨fun hstuck => ?_, fun _ => rfl, fun _ _ => hok⟩
    cases hstuck.2.1
  | acceptTemporary hpc | delayTimer hpc =>
    -- both ends of the step are in the accept loop
    have haccepts : l.Accepts := by simp [Accepts, hpc]
    refine ⟨fun hstuck => ?_, fun _ => hl.ln haccepts, fun _ => hl.socket haccepts⟩
    cases hstuck.2.1
  | drain | stop | stopTake =>
    refine ⟨hl.stuck, hl.ln, fun _ _ _ => ?_⟩
    simp only [testers]
    omega
  | drainTest | stopTest =>
    refine ⟨hl.stuck, hl.ln, fun haccepts hopen => ?_⟩
    have hclosed := hl.closeLn_closed haccepts
    rw [show l.closeLn.socketOpen = true from hopen] at hclosed
    cases hclosed
  | stopClose hclosing =>
    refine ⟨fun hstuck => hok hstuck.2, hl.ln, fun haccepts hopen _ => ?_⟩
    apply hl.socket haccepts hopen
    simp only [passed]
    omega
  | stopDone hwaiting hdone =>
    refine ⟨fun hstuck => ?_, hl.ln, fun haccepts hopen hpassed => ?_⟩
    · have hfalse : l.done = false := hstuck.2.2
      rw [hdone] at hfalse
      cases hfalse
    · apply hl.socket haccepts hopen
      simp only [passed] at hpassed ⊢
      omega

theorem Attended.not_socketLost (hl : Attended l) : ¬ l.SocketLost := by
  rintro ⟨-, hpassed, hpc, hopen, htesters⟩
  have hpos := hl.socket (.inl hpc) hopen hpassed
  omega

/-- A step that leaves no call of `Stop` alone is one of those that may be taken. -/
theorem Staged.stopServed (hl : Staged l) (h : Step l a l') (hstuck : ¬ l'.StopStuck)
    (hlost : ¬ l'.SocketLost) : StopServed l a := by
  cases h with
  | selectClosed hpc hclosed | retryClosed hpc hclosed =>
    intro _
    by_contra hpos
    exact hstuck ⟨Nat.pos_of_ne_zero hpos, rfl, hl.done_eq_false (by simp [hpc])⟩
  | select hpc hquit hdrain =>
    rintro (h | h)
    · rw [hquit] at h
      cases h
    · rw [hdrain] at h
      cases h
  | publish hpc =>
    intro hpassed
    by_contra hzero
    have hquit : l.quit = true := hl.quit (by omega)
    exact hlost ⟨hquit, hpassed, rfl, hl.socket hpc, Nat.eq_zero_of_not_pos hzero⟩
  | stopClose hclosing =>
    rintro ⟨hpc, hd⟩
    exact hstuck ⟨Nat.succ_pos _, hpc, hd⟩
  | _ => trivial

/-- Once stuck, `Stop` never returns. -/
theorem StopStuck.step (hl : l.StopStuck) (h : Step l a l') : l'.StopStuck := by
  obtain ⟨hwaiting, hpc, hdone⟩ := hl
  cases h with
  | addConn k hk =>
    have hsame := sameCalls_addConn (l := l) k
    exact ⟨hsame.stopsWaiting ▸ hwaiting, hsame.pc.trans hpc, hsame.done.trans hdone⟩
  | removeConn k hk =>
    have hsame := sameCalls_removeConn (l := l) k
    exact ⟨hsame.stopsWaiting ▸ hwaiting, hsame.pc.trans hpc, hsame.done.trans hdone⟩
  | connDone | drain | drainTest | stop | stopTake | stopTest => exact ⟨hwaiting, hpc, hdone⟩
  | stopClose => exact ⟨Nat.succ_pos _, hpc, hdone⟩
  | stopDone _ hd =>
    rw [hdone] at hd
    cases hd
  -- `Serve` takes no more steps
  | selectClosed h | select h | listenOk h | listenErr h | retryTimer h | retryClosed h
  | publish h | accept h | acceptTemporary h | acceptErr h | delayTimer h | delayQuit h
  | serveDone h =>
    rw [hpc] at h
    cases h

theorem StopStuck.of_run {as : List ListenerStep} (hl : l.StopStuck)
    (hrun : runFrom Listener.step l as = some l') : l'.StopStuck :=
  invariant_of_run (fun _ _ _ hs h => hs.step (step_cases h)) hl hrun

/-- **Stops that are attended to**: in no state of a run a call of `Stop` is stuck or a socket is
    lost, exactly when every step meets `StopServed`. -/
theorem stop_attended_iff {limit : UInt32} {as : List ListenerStep}
    (hrun : runFrom Listener.step (newListener limit) as = some l) :
    (∀ bs t, bs <+: as → runFrom Listener.step (newListener limit) bs = some t →
      ¬ t.StopStuck ∧ ¬ t.SocketLost) ↔
    RunMeets Listener.step StopServed (newListener limit) as := by
  constructor
  · intro hgood
    refine runMeets_of_good_inv Staged (fun t => ¬ t.StopStuck ∧ ¬ t.SocketLost) ?_ ?_
      (staged_newListener limit) hrun hgood
    · intro s a t hs h
      exact hs.step (step_cases h)
    · intro s a t hs h hgood
      exact hs.stopServed (step_cases h) hgood.1 hgood.2
  · intro hmeets bs t hbs ht
    have hattended : Attended t :=
      invariant_of_runMeets (fun _ _ _ hs hok h => hs.step hok (step_cases h))
        (attended_newListener limit) (runMeets_of_isPrefix hmeets hbs) ht
    exact ⟨hattended.stuck, hattended.not_socketLost⟩

/-- A connection is handled, and then the listener is stopped. -/
def stopAfterConn : List ListenerStep :=
  [.select, .listenErr, .retryTimer, .select, .listenOk, .publish, .accept, .addConn 0, .stop,
    .stopTake, .stopTest, .stopClose, .acceptErr, .removeConn 0, .connDone 0, .serveDone, .stopDone]

theorem stop_attended_stopAfterConn :
    ∃ l, runFrom Listener.step (newListener 1) stopAfterConn = some l ∧
      RunMeets Listener.step StopServed (newListener 1) stopAfterConn ∧
      ∀ bs t, bs <+: stopAfterConn → runFrom Listener.step (newListener 1) bs = some t →
        ¬ t.StopStuck ∧ ¬ t.SocketLost := by
  have hsome : (runFrom Listener.step (newListener 1) stopAfterConn).isSome := by decide +kernel
  obtain ⟨l, hrun⟩ := Option.isSome_iff_exists.mp hsome
  have hmeets : RunMeets Listener.step StopServed (newListener 1) stopAfterConn := by
    decide +kernel
  exact ⟨l, hrun, hmeets, (stop_attended_iff hrun).mpr hmeets⟩

instance (l : Listener) : Decidable l.StopStuck := inferInstanceAs (Decidable (_ ∧ _))

instance (l : Listener) : Decidable l.SocketLost := inferInstanceAs (Decidable (_ ∧ _))

/-- The listener is stopped while `Serve` waits to bind again. -/
def stopDuringRetry : List ListenerStep :=
  [.select, .listenErr, .stop, .stopTake, .stopTest, .stopClose, .retryClosed]

/-- The listener is stopped between the bind and the assignment of `l.ln`. -/
def stopBeforePublish : List ListenerStep :=
  [.select, .listenOk, .stop, .stopTake, .stopTest, .stopClose, .publish]

/-- In both runs `Stop` is left alone. -/
theorem stop_left_alone :
    (∃ l, runFrom Listener.step (newListener 0) stopDuringRetry = some l ∧ l.StopStuck) ∧
      ∃ l, runFrom Listener.step (newListener 0) stopBeforePublish = some l ∧ l.SocketLost :=
  ⟨exists_of_any (by decide +kernel), exists_of_any (by decide +kernel)⟩

end Listener

end Samaritan.Services
