import Samaritan.Tcp.Accounting
import Samaritan.Tcp.Forwarding

/-!
# How a Proxied Connection Ends

`HandleConn` returns when both of its pipes have ended. A pipe ends at the end of the stream, at an
error, or because a connection is closed under it: both are closed when the host is removed, and the
client's when the listener is stopped. The goroutine that waits for the removal also leaves at
`done`, though, which is closed when the pipe from the client has ended; from then on the removal of
the host is not noticed.

The question is when a handler can move by itself: without bytes from its peers, without the end of
their streams, without room for bytes to them, and also without waiting for the idle timeout that
`HandleConn` and `dial` set for reads (there is none for writes). It is answered for every handler
that has dialed its host; one whose connections are both closed returns within a number of steps
that is known.
-/

namespace Samaritan.Tcp

open Samaritan.Lib
open Samaritan.Hosts (Host)

theorem MainPc.unstarted_of_undialed {main : MainPc} (h : main.undialed = true) :
    main.unstarted = true := by
  cases main <;> first | rfl | cases h

namespace Handler

variable {x x' : Handler} {env : Surroundings} {a : HandlerStep} {side : Side}

/-! ## The goroutines of a handler -/

/-- How far the goroutines of a handler may be from each other. -/
structure Linked (x : Handler) : Prop where
  unstarted : x.main.unstarted = true →
    (∀ side, x.pipe side = .idle) ∧ x.watch = .idle ∧ x.done = false
  started : x.main.unstarted = false → (∀ side, x.pipe side ≠ .idle) ∧ x.watch ≠ .idle
  done : x.done = true → ∃ err, x.pipe .client = .ended err
  joined : x.main = .joining ∨ x.main.left = true → ∃ err, x.pipe .server = .ended err
  finished : x.main.left = true → x.done = true
  closing : x.watch = .closingClient → (x.conn .server).closed = true
  watched : x.watch = .ended → x.done = true ∨ ∀ side, (x.conn side).closed = true

theorem linked_newHandler : newHandler.Linked where
  unstarted := fun _ => ⟨fun _ => rfl, rfl, rfl⟩
  started := by simp [newHandler, MainPc.unstarted]
  done := by simp [newHandler]
  joined := by simp [newHandler, MainPc.left]
  finished := by simp [newHandler, MainPc.left]
  closing := by simp [newHandler]
  watched := by simp [newHandler]

/-- A connection that is closed stays closed. -/
theorem closed_step (h : x.Step env a x') (side : Side) (hclosed : (x.conn side).closed = true) :
    (x'.conn side).closed = true := by
  -- a step changes at most one connection, and leaves it as closed as it was
  have hset : ∀ (side' : Side) (s : Socket), ((x.conn side').closed = true → s.closed = true) →
      (Function.update x.conn side' s side).closed = true := by
    intro side' s hs
    by_cases hside : side = side'
    · subst hside
      rw [Function.update_self]
      exact hs hclosed
    · rwa [Function.update_of_ne hside]
  cases h with
  | noHost | load | compare | dialOk | dialErr | spawn | signal | join | finish | watchRemoved
  | watchDone => exact hclosed
  | read | write | peerSend | peerFin => exact hset _ _ id
  | @closeWrite _ ok | @closeRead _ ok => exact hset _ _ (by cases ok <;> exact id)
  | closeDst | closeSrc | leave | watchCloseServer | watchCloseClient | stopClose =>
    exact hset _ _ fun _ => rfl

/-- A step of a peer, or one that closes a connection. -/
theorem Linked.of_same (hx : x.Linked) (hmain : x'.main = x.main) (hpipe : x'.pipe = x.pipe)
    (hwatch : x'.watch = x.watch) (hdone : x'.done = x.done)
    (hclosed : ∀ side, (x.conn side).closed = true → (x'.conn side).closed = true) : x'.Linked where
  unstarted := by
    rw [hmain, hpipe, hwatch, hdone]
    exact hx.unstarted
  started := by
    rw [hmain, hpipe, hwatch]
    exact hx.started
  done := by
    rw [hdone, hpipe]
    exact hx.done
  joined := by
    rw [hmain, hpipe]
    exact hx.joined
  finished := by
    rw [hmain, hdone]
    exact hx.finished
  closing := by
    rw [hwatch]
    exact fun h => hclosed .server (hx.closing h)
  watched := by
    rw [hwatch, hdone]
    exact fun h => (hx.watched h).imp_right fun hall side => hclosed side (hall side)

/-- A pipe that has not ended moves on. -/
theorem Linked.of_pipe (hx : x.Linked) {pc pc' : PipePc} (hpipe : x.pipe side = pc)
    (hidle : pc ≠ .idle) (hended : ∀ err, pc ≠ .ended err) (hidle' : pc' ≠ .idle)
    (hpipe' : x'.pipe = Function.update x.pipe side pc') (hmain : x'.main = x.main)
    (hwatch : x'.watch = x.watch) (hdone : x'.done = x.done)
    (hclosed : ∀ side, (x.conn side).closed = true → (x'.conn side).closed = true) : x'.Linked := by
  -- a pipe that has ended is the other one
  have hkeep : ∀ side', (∃ err, x.pipe side' = .ended err) → ∃ err, x'.pipe side' = .ended err := by
    rintro side' ⟨err, herr⟩
    have hside : side' ≠ side := by
      rintro rfl
      exact hended err (hpipe.symm.trans herr)
    exact ⟨err, by rw [hpipe', Function.update_of_ne hside, herr]⟩
  have hstarted : x.main.unstarted = false := by
    cases hunstarted : x.main.unstarted with
    | false => rfl
    | true => exact absurd (hpipe.symm.trans ((hx.unstarted hunstarted).1 side)) hidle
  refine ⟨fun h => ?_, fun h => ⟨fun side' => ?_, hwatch ▸ (hx.started hstarted).2⟩,
    fun h => hkeep _ (hx.done (hdone ▸ h)), fun h => hkeep _ (hx.joined (hmain ▸ h)),
    fun h => hdone ▸ hx.finished (hmain ▸ h), fun h => hclosed .server (hx.closing (hwatch ▸ h)),
    fun h => ?_⟩
  · rw [hmain, hstarted] at h
    cases h
  · rw [hpipe']
    by_cases hside : side' = side
    · rwa [hside, Function.update_self]
    · rw [Function.update_of_ne hside]
      exact (hx.started hstarted).1 side'
  · rw [hdone]
    exact (hx.watched (hwatch ▸ h)).imp_right fun hall side => hclosed side (hall side)

theorem afterRead_ne (chunk : Bytes) (er : Option ReadErr) : afterRead chunk er ≠ .idle := by
  unfold afterRead afterChunk
  split
  · split <;> simp
  · simp

theorem afterWrite_ne (chunk : Bytes) (er : Option ReadErr) (n : Nat) (ew : Bool) :
    afterWrite chunk er n ew ≠ .idle := by
  unfold afterWrite afterChunk
  split
  · simp
  · split
    · simp
    · split <;> simp

/-- `HandleConn` moves on before it starts the pipes. -/
theorem Linked.of_unstarted (hx : x.Linked) (hmain : x.main.unstarted = true)
    (hmain' : x'.main.unstarted = true) (hleft : x'.main.left = false)
    (hpipe : x'.pipe = x.pipe) (hwatch : x'.watch = x.watch) (hdone : x'.done = x.done) :
    x'.Linked := by
  obtain ⟨hidle, hwatchIdle, hdoneFalse⟩ := hx.unstarted hmain
  have hjoining : x'.main ≠ .joining := by
    intro h
    rw [h] at hmain'
    cases hmain'
  refine ⟨fun _ => ⟨hpipe ▸ hidle, hwatch ▸ hwatchIdle, hdone ▸ hdoneFalse⟩, fun h => ?_,
    fun h => ?_,
    fun h => ?_, fun h => ?_, fun h => ?_, fun h => ?_⟩
  · rw [hmain'] at h
    cases h
  · rw [hdone, hdoneFalse] at h
    cases h
  · rw [hleft] at h
    exact absurd h (by simp [hjoining])
  · rw [hleft] at h
    cases h
  · rw [hwatch, hwatchIdle] at h
    cases h
  · rw [hwatch, hwatchIdle] at h
    cases h

/-- The goroutine that waits for the removal moves on. -/
theorem Linked.of_watch (hx : x.Linked) {pc pc' : WatchPc} {conn : Side → Socket}
    (hwatch : x.watch = pc) (hidle : pc ≠ .idle ∧ pc' ≠ .idle)
    (hclosing : pc' = .closingClient → (conn .server).closed = true)
    (hended : pc' = .ended → x.done = true ∨ ∀ side, (conn side).closed = true) :
    { x with watch := pc', conn := conn }.Linked := by
  refine ⟨fun h => ?_, fun h => ⟨(hx.started h).1, hidle.2⟩, hx.done, hx.joined, hx.finished,
    hclosing, hended⟩
  exact absurd (hwatch.symm.trans (hx.unstarted h).2.1) hidle.1

theorem Linked.step (hx : x.Linked) (h : x.Step env a x') : x'.Linked := by
  have hclosed := closed_step h
  cases h with
  | noHost hmain | load hmain | compare hmain | dialOk hmain | dialErr hmain =>
    exact hx.of_unstarted (by rw [hmain]; rfl) rfl rfl rfl rfl rfl
  | spawn hmain =>
    obtain ⟨-, -, hdone⟩ := hx.unstarted (by rw [hmain]; rfl)
    exact ⟨by simp [MainPc.unstarted], by simp, by simp [hdone], by simp [MainPc.left],
      by simp [MainPc.left], by simp, by simp⟩
  -- a pipe goes on and has not ended
  | read hpipe =>
    exact hx.of_pipe hpipe (by simp) (by simp) (afterRead_ne _ _) rfl rfl rfl rfl hclosed
  | write hpipe =>
    exact hx.of_pipe hpipe (by simp) (by simp) (afterWrite_ne _ _ _ _) rfl rfl rfl rfl hclosed
  | @closeWrite _ ok _ hpipe | @closeRead _ ok _ hpipe =>
    exact hx.of_pipe hpipe (by simp) (by simp) (by cases ok <;> simp) rfl rfl rfl rfl hclosed
  | closeDst hpipe | closeSrc hpipe =>
    exact hx.of_pipe hpipe (by simp) (by simp) (by simp) rfl rfl rfl rfl hclosed
  | signal hpipe =>
    refine ⟨fun h => ?_, hx.started, fun _ => ⟨_, hpipe⟩, hx.joined, fun _ => rfl, hx.closing,
      fun _ => .inl rfl⟩
    rw [(hx.unstarted h).1 .client] at hpipe
    cases hpipe
  | join hmain hpipe =>
    exact ⟨by simp [MainPc.unstarted], fun _ => hx.started (by rw [hmain]; rfl), hx.done,
      fun _ => ⟨_, hpipe⟩, by simp [MainPc.left], hx.closing, hx.watched⟩
  | finish hmain _ hdone =>
    exact ⟨by simp [plan, MainPc.unstarted], fun _ => hx.started (by rw [hmain]; rfl), hx.done,
      fun _ => hx.joined (.inl hmain), fun _ => hdone, hx.closing, hx.watched⟩
  | leave hmain =>
    have hleft : x.main.left = true := by rw [hmain]; rfl
    exact ⟨by simp [setConn, MainPc.unstarted], fun _ => hx.started (by rw [hmain]; rfl), hx.done,
      fun _ => hx.joined (.inr hleft), fun _ => hx.finished hleft,
      fun h => hclosed .server (hx.closing h), fun _ => .inl (hx.finished hleft)⟩
  | watchRemoved hwatch =>
    exact hx.of_watch hwatch (by simp) (by simp) (by simp)
  | watchCloseServer hwatch =>
    exact hx.of_watch hwatch (by simp) (by simp [Socket.close]) (by simp)
  -- the server side was closed first
  | watchCloseClient hwatch =>
    refine hx.of_watch hwatch (by simp) (by simp) fun _ => .inr fun side => ?_
    cases side with
    | client => simp [Socket.close]
    | server => exact hclosed .server (hx.closing hwatch)
  | watchDone hwatch hdone =>
    exact hx.of_watch hwatch (by simp) (by simp) fun _ => .inl hdone
  | peerSend | peerFin | stopClose => exact hx.of_same rfl rfl rfl rfl hclosed

/-! ## Moving without the peers -/

/-- A step that waits for no peer and no timeout: the bytes or the end of the stream are there, or
    the connection is closed. A read of an open connection that returns nothing but an error has
    waited for its idle timeout, or for the peer to reset the connection. -/
def Free (x : Handler) : HandlerStep → Prop
  | .read side n err => (x.conn side).closed = true ∨ n ≠ 0 ∨ err = some .eof
  | .write side _ _ => (x.conn side.other).closed = true
  | .dialOk | .dialErr _ | .peerSend _ _ | .peerFin _ | .stopClose => False
  | _ => True

/-- Some goroutine of the handler can go on by itself. -/
def CanMove (env : Surroundings) (x : Handler) : Prop :=
  (∃ side, x.todo side ≠ []) ∨ ∃ a x', x.Free a ∧ x.step env a = some x'

/-- The pipe from a side waits for bytes from its source, or for its destination to take some. -/
def Waits (x : Handler) (side : Side) : Prop :=
  (x.pipe side = .reading ∧ (x.conn side).closed = false ∧ (x.conn side).incoming = [] ∧
    (x.conn side).fin = false) ∨
  (∃ chunk er, x.pipe side = .writing chunk er) ∧ (x.conn side.other).closed = false

/-- The states of a handler in service that it cannot leave by itself. -/
structure Stuck (env : Surroundings) (x : Handler) : Prop where
  todo : ∀ side, x.todo side = []
  pipes : ∀ side, x.Waits side ∨ ∃ err, x.pipe side = .ended err
  main : x.main = .piping ∧ x.Waits .server ∨ x.main = .joining ∧ x.Waits .client
  watch : x.watch = .ended ∨
    x.watch = .waiting ∧ x.done = false ∧ ∀ h ∈ x.host, env.removed h = false
  signalled : (∃ err, x.pipe .client = .ended err) → x.done = true

theorem Waits.not_ended (h : x.Waits side) (err : Option CopyErr) : x.pipe side ≠ .ended err := by
  rcases h with ⟨hpipe, -⟩ | ⟨⟨chunk, er, hpipe⟩, -⟩ <;> simp [hpipe]

/-- A pipe that has started goes on, waits or has ended. -/
theorem pipe_cases (env : Surroundings) (hidle : x.pipe side ≠ .idle) (htodo : x.todo side = []) :
    (∃ a x', x.Free a ∧ x.step env a = some x') ∨ x.Waits side ∨
      ∃ err, x.pipe side = .ended err := by
  cases hpipe : x.pipe side with
  | idle => exact absurd hpipe hidle
  | reading =>
    have hread : ∀ n err, (x.conn side).MayRead n err → x.Free (.read side n err) →
        ∃ a x', x.Free a ∧ x.step env a = some x' :=
      fun n err hmay hfree => ⟨_, _, hfree, if_pos ⟨hpipe, htodo, hmay⟩⟩
    by_cases hclosed : (x.conn side).closed = true
    · exact .inl (hread 0 (some .net) ⟨fun _ => ⟨rfl, rfl⟩, by simp⟩ (.inl hclosed))
    -- open: bytes, the end of the stream, or nothing yet
    by_cases hempty : (x.conn side).incoming = []
    · by_cases hfin : (x.conn side).fin = true
      · exact .inl (hread 0 (some .eof) ⟨by simp [hclosed], by simp [hempty, hfin]⟩
          (.inr (.inr rfl)))
      · exact .inr (.inl (.inl ⟨hpipe, by simpa using hclosed, hempty, by simpa using hfin⟩))
    · have hpos : 1 ≤ (x.conn side).incoming.length := List.length_pos_iff.mpr hempty
      exact .inl (hread 1 none ⟨by simp [hclosed], hpos, by decide, by simp⟩
        (.inr (.inl one_ne_zero)))
  | writing chunk er =>
    by_cases hclosed : (x.conn side.other).closed = true
    · refine .inl ⟨.write side 0 true, x.doWrite side chunk er 0 true, hclosed, ?_⟩
      simp [step, hpipe, htodo, Socket.MayWrite]
    · exact .inr (.inl (.inr ⟨⟨chunk, er, hpipe⟩, by simpa using hclosed⟩))
  -- a failing shutdown is always possible
  | copied err =>
    refine .inl ⟨.closeWrite side false, ?_⟩
    simp [step, hpipe, htodo, Socket.MayShut, Free]
  | closeDst err =>
    refine .inl ⟨.closeDst side, ?_⟩
    simp [step, hpipe, Free]
  | closeRead err =>
    refine .inl ⟨.closeRead side false, ?_⟩
    simp [step, hpipe, Socket.MayShut, Free]
  | closeSrc err =>
    refine .inl ⟨.closeSrc side, ?_⟩
    simp [step, hpipe, Free]
  | ended err => exact .inr (.inr ⟨err, rfl⟩)

/-- A handler in service that cannot move by itself. -/
theorem stuck_of_not_canMove (hx : x.Linked) (hstaged : x.Staged) (hhost : x.host ≠ none)
    (hreturned : x.main ≠ .returned) (hmove : ¬x.CanMove env) : x.Stuck env := by
  have htodo : ∀ side, x.todo side = [] := by
    intro side
    by_contra htodo
    exact hmove (.inl ⟨side, htodo⟩)
  have hno : ∀ a, x.Free a → x.step env a = none := by
    intro a hfree
    cases hstep : x.step env a with
    | none => rfl
    | some x' => exact absurd (.inr ⟨a, x', hfree, hstep⟩) hmove
  have hundialed : x.main.undialed = false := by
    cases hmain : x.main.undialed with
    | false => rfl
    | true => exact absurd (hstaged.undialed_iff.mpr hmain) hhost
  -- what is left of `HandleConn`: it has started the pipes and is not leaving
  have hmain : x.main = .piping ∨ x.main = .joining := by
    cases hmain : x.main with
    | opening => simpa [step, hmain, htodo] using hno .spawn trivial
    | leaving => simpa [step, hmain, htodo] using hno .leave trivial
    | returned => exact absurd hmain hreturned
    | piping => exact .inl rfl
    | joining => exact .inr rfl
    | start | picking | comparing | dialing | noHost | dialFailed =>
      rw [hmain] at hundialed
      cases hundialed
  have hstarted : x.main.unstarted = false := by
    rcases hmain with hmain | hmain <;> rw [hmain] <;> rfl
  obtain ⟨hidle, hwatchIdle⟩ := hx.started hstarted
  have hpipes : ∀ side, x.Waits side ∨ ∃ err, x.pipe side = .ended err := by
    intro side
    rcases pipe_cases env (hidle side) (htodo side) with hfree | hpipe
    · exact absurd (.inr hfree) hmove
    · exact hpipe
  have hsignalled : (∃ err, x.pipe .client = .ended err) → x.done = true := by
    rintro ⟨err, hpipe⟩
    by_contra hdone
    simpa [step, hpipe, hdone] using hno .signal trivial
  refine ⟨htodo, hpipes, ?_, ?_, hsignalled⟩
  · rcases hmain with hmain | hmain
    · refine .inl ⟨hmain, (hpipes .server).resolve_right ?_⟩
      rintro ⟨err, hpipe⟩
      simpa [step, hmain, hpipe] using hno .join trivial
    · refine .inr ⟨hmain, (hpipes .client).resolve_right fun hended => ?_⟩
      obtain ⟨h, hh⟩ := Option.ne_none_iff_exists'.mp hhost
      simpa [step, hmain, hh, hsignalled hended, htodo] using hno .finish trivial
  · cases hwatch : x.watch with
    | idle => exact absurd hwatch hwatchIdle
    | closingServer => simpa [step, hwatch] using hno .watchCloseServer trivial
    | closingClient => simpa [step, hwatch] using hno .watchCloseClient trivial
    | ended => exact .inl rfl
    | waiting =>
      refine .inr ⟨rfl, ?_, fun h hh => ?_⟩
      · simpa [step, hwatch] using hno .watchDone trivial
      · simpa [step, hwatch, Option.mem_def.mp hh] using hno .watchRemoved trivial

/-- With both connections closed no pipe waits. -/
theorem Waits.exists_open (h : x.Waits side) : ∃ side, (x.conn side).closed = false := by
  rcases h with ⟨-, hopen, -⟩ | ⟨-, hopen⟩
  · exact ⟨side, hopen⟩
  · exact ⟨side.other, hopen⟩

theorem Stuck.exists_open (hs : x.Stuck env) : ∃ side, (x.conn side).closed = false := by
  rcases hs.main with ⟨-, hwaits⟩ | ⟨-, hwaits⟩ <;> exact hwaits.exists_open

/-- When the client's connection has been closed, the handler waits for the host: for bytes from it,
    or for it to take some. -/
theorem Stuck.of_stopped (hs : x.Stuck env) (hclosed : (x.conn .client).closed = true) :
    (x.conn .server).closed = false ∧
      (x.pipe .server = .reading ∨ ∃ chunk er, x.pipe .client = .writing chunk er) := by
  rcases hs.main with ⟨-, ⟨hpipe, hopen, -⟩ | ⟨-, hopen⟩⟩ | ⟨-, ⟨-, hopen, -⟩ | ⟨hpipe, hopen⟩⟩
  · exact ⟨hopen, .inl hpipe⟩
  · rw [show Side.server.other = .client from rfl, hclosed] at hopen
    cases hopen
  · rw [hclosed] at hopen
    cases hopen
  · exact ⟨hopen, .inr hpipe⟩

end Handler

/-! ## The number of steps to the end -/

def PipePc.rank : PipePc → Nat
  | .idle | .reading | .writing _ _ => 5
  | .copied _ => 4
  | .closeDst _ => 3
  | .closeRead _ => 2
  | .closeSrc _ => 1
  | .ended _ => 0

/-- Four counters are updated between `joining` and the end. -/
def MainPc.rank : MainPc → Nat
  | .joining => 6
  | .leaving => 1
  | .returned => 0
  | _ => 7

def WatchPc.rank : WatchPc → Nat
  | .idle | .waiting => 3
  | .closingServer => 2
  | .closingClient => 1
  | .ended => 0

/-- A step of a peer, or of the listener. -/
def HandlerStep.ofPeer : HandlerStep → Bool
  | .peerSend _ _ | .peerFin _ | .stopClose => true
  | _ => false

namespace Handler

variable {x x' : Handler} {env : Surroundings} {a : HandlerStep} {side : Side}

/-- The steps that a handler has left once its connections are closed. -/
def rank (x : Handler) : Nat :=
  (x.pipe .client).rank + (x.pipe .server).rank + x.main.rank + (!x.done).toNat + x.watch.rank +
    ((x.todo .client).length + (x.todo .server).length)

/-- Both connections are closed, with the pipes started. -/
structure ShutDown (x : Handler) : Prop where
  started : x.main.unstarted = false
  closed : ∀ side, (x.conn side).closed = true

/-- A pipe moves on without anything to be counted. -/
theorem rank_of_pipe {pc pc' : PipePc} (hpipe : x.pipe side = pc) (hpc : pc'.rank < pc.rank)
    (hpipe' : x'.pipe = Function.update x.pipe side pc') (hmain : x'.main = x.main)
    (hdone : x'.done = x.done) (hwatch : x'.watch = x.watch) (htodo : x'.todo = x.todo) :
    x'.rank < x.rank := by
  unfold rank
  rw [hpipe', hmain, hdone, hwatch, htodo]
  cases side
  · rw [Function.update_self, Function.update_of_ne (by simp), hpipe]
    omega
  · rw [Function.update_self, Function.update_of_ne (by simp), hpipe]
    omega

/-- Nothing is planned by the pipe from a side. -/
theorem plan_nil (htodo : x.todo side = []) : x.plan side [] = x := by
  have hupdate : Function.update x.todo side [] = x.todo := by
    rw [← htodo, Function.update_eq_self]
  unfold plan
  rw [hupdate]

/-- The counters of a finished connection are planned. -/
theorem rank_finish {h : Host} (hmain : x.main = .joining) (htodo : x.todo .server = []) :
    ({ x with main := .leaving }.plan .server (closeUpdates h)).rank < x.rank := by
  simp only [rank, plan, Function.update_self, hmain, htodo, MainPc.rank, closeUpdates,
    Function.update_of_ne (show Side.client ≠ .server by decide), List.length_cons, List.length_nil]
  omega

theorem rank_plan {u : Update} {todo : List Update} (htodo : x.todo side = u :: todo) :
    (x.plan side todo).rank < x.rank := by
  unfold rank
  cases side
  · simp only [plan, htodo, Function.update_self, List.length_cons,
      Function.update_of_ne (show Side.server ≠ .client by decide)]
    omega
  · simp only [plan, htodo, Function.update_self, List.length_cons,
      Function.update_of_ne (show Side.client ≠ .server by decide)]
    omega

/-- **Step lemma**: with both connections closed, every step but those of the peers brings the
    handler nearer to its end. -/
theorem ShutDown.rank_lt (hx : x.ShutDown) (h : x.Step env a x') (ha : a.ofPeer = false) :
    x'.rank < x.rank := by
  have hstarted := hx.started
  cases h with
  | noHost hmain | load hmain | compare hmain | dialOk hmain | dialErr hmain | spawn hmain =>
    rw [hmain] at hstarted
    cases hstarted
  | @read side n err hpipe htodo hmay =>
    obtain ⟨rfl, rfl⟩ := hmay.1 (hx.closed side)
    -- nothing was read, so no update is planned
    have hplan : readUpdates x.host side 0 (some .net) = [] := by
      cases side <;> cases hhost : x.host <;> simp [readUpdates, hostUpdate]
    rw [doRead, hplan, plan_nil (by exact htodo)]
    exact rank_of_pipe hpipe (by simp [afterRead, afterChunk, PipePc.rank]) rfl rfl rfl rfl rfl
  | @write side n err chunk er hpipe htodo hmay =>
    obtain ⟨rfl, rfl⟩ := hmay.1 (hx.closed side.other)
    have hplan : writeUpdates x.host side.other 0 true = [] := by
      cases side <;> cases hhost : x.host <;> simp [writeUpdates, hostUpdate, Side.other]
    rw [doWrite, hplan, plan_nil (by exact htodo)]
    exact rank_of_pipe hpipe (by simp [afterWrite, PipePc.rank]) rfl rfl rfl rfl rfl
  | @closeWrite side ok err hpipe | @closeRead side ok err hpipe =>
    exact rank_of_pipe hpipe (by cases ok <;> simp [PipePc.rank]) rfl rfl rfl rfl rfl
  | closeDst hpipe | closeSrc hpipe =>
    exact rank_of_pipe hpipe (by simp [PipePc.rank]) rfl rfl rfl rfl rfl
  | signal hpipe hdone => simp [rank, hdone]
  | join hmain => simp [rank, hmain, MainPc.rank]
  | finish hmain _ _ htodo => exact rank_finish hmain htodo
  | leave hmain => simp [rank, setConn, hmain, MainPc.rank]
  | watchRemoved hwatch | watchDone hwatch => simp [rank, hwatch, WatchPc.rank]
  | watchCloseServer hwatch | watchCloseClient hwatch =>
    simp [rank, setConn, hwatch, WatchPc.rank]
  | peerSend | peerFin | stopClose => cases ha

theorem rank_of_peer (h : x.Step env a x') (ha : a.ofPeer = true) : x'.rank = x.rank := by
  cases h <;> first | rfl | cases ha

theorem ShutDown.step (hx : x.ShutDown) (h : x.Step env a x') : x'.ShutDown := by
  refine ⟨?_, fun side => closed_step h side (hx.closed side)⟩
  have hstarted := hx.started
  cases h with
  | noHost hmain | load hmain | compare hmain | dialOk hmain | dialErr hmain | spawn hmain =>
    rw [hmain] at hstarted
    cases hstarted
  | join | finish | leave => rfl
  | read | write | closeWrite | closeDst | closeRead | closeSrc | signal | watchRemoved
  | watchCloseServer | watchCloseClient | watchDone | peerSend | peerFin | stopClose =>
    exact hstarted

/-- Nothing is left but the pipe from the host, which waits. -/
structure LeftBehind (x : Handler) : Prop where
  todo : ∀ side, x.todo side = []
  main : x.main = .piping
  waits : x.Waits .server
  /-- the pipe from the client has ended -/
  ended : ∃ err, x.pipe .client = .ended err
  done : x.done = true
  watch : x.watch = .ended

/-- The handler goes on when the call ends in which the pipe from the host waits: a read, which has
    its idle timeout, or a write to the client, which has none. -/
theorem LeftBehind.step_cases (hx : x.LeftBehind) (h : x.Step env a x') :
    a.ofPeer = true ∨ (∃ n err, a = .read .server n err) ∨ ∃ n err, a = .write .server n err := by
  obtain ⟨err, hended⟩ := hx.ended
  -- the pipe that moves is the one from the host
  have hside : ∀ {side pc}, x.pipe side = pc → (∀ e, pc ≠ .ended e) → side = .server := by
    intro side pc hpipe hne
    cases side with
    | server => rfl
    | client => exact absurd (hpipe.symm.trans hended) (hne err)
  have hnot : ∀ {side pc}, x.pipe side = pc → (∀ e, pc ≠ .ended e) → pc ≠ .reading →
      (∀ chunk er, pc ≠ .writing chunk er) → False := by
    intro side pc hpipe hne hreading hwriting
    obtain rfl := hside hpipe hne
    rcases hx.waits with ⟨h, -⟩ | ⟨⟨chunk, er, h⟩, -⟩
    · exact hreading (hpipe.symm.trans h)
    · exact hwriting chunk er (hpipe.symm.trans h)
  cases h with
  | noHost hmain | load hmain | compare hmain | dialOk hmain | dialErr hmain | spawn hmain
  | finish hmain | leave hmain => exact absurd (hmain.symm.trans hx.main) (by simp)
  | read hpipe =>
    obtain rfl := hside hpipe (by simp)
    exact .inr (.inl ⟨_, _, rfl⟩)
  | write hpipe =>
    obtain rfl := hside hpipe (by simp)
    exact .inr (.inr ⟨_, _, rfl⟩)
  | closeWrite hpipe | closeDst hpipe | closeRead hpipe | closeSrc hpipe =>
    exact (hnot hpipe (by simp) (by simp) (by simp)).elim
  | signal hpipe hdone => exact absurd (hdone.symm.trans hx.done) (by simp)
  | join hmain hpipe => exact absurd hpipe (hx.waits.not_ended _)
  | watchRemoved hwatch | watchCloseServer hwatch | watchCloseClient hwatch | watchDone hwatch =>
    exact absurd (hwatch.symm.trans hx.watch) (by simp)
  | peerSend | peerFin | stopClose => exact .inl rfl

theorem LeftBehind.stuck (hx : x.LeftBehind) : x.Stuck env where
  todo := hx.todo
  pipes := by
    intro side
    cases side with
    | client => exact .inr hx.ended
    | server => exact .inl hx.waits
  main := .inl ⟨hx.main, hx.waits⟩
  watch := .inl hx.watch
  signalled := fun _ => hx.done

end Handler

/-- A step of a handler, those of its peers aside. -/
def ProcStep.movedBy (k : Nat) : ProcStep → Bool
  | .accept | .hosts _ | .policy _ => false
  | .pick k' _ _ | .count k' _ => k' = k
  | .handler k' a => k' = k && !a.ofPeer

namespace TcpProc

variable {p p' : TcpProc} {hosts : List Host} {policy : LoadBalancePolicy} {as : List ProcStep}

theorem linked_of_run (hrun : runFrom step (newTcpProc hosts policy) as = some p) :
    ∀ x ∈ p.handlers, x.Linked := by
  refine forall_handlers_of_run Handler.linked_newHandler ?_ ?_ ?_ hrun
  · intro x hosts hmain hx
    have hmain' : x.main.unstarted = true := by rw [hmain]; rfl
    exact ⟨fun _ => hx.of_unstarted hmain' rfl rfl rfl rfl rfl,
      fun _ _ _ => hx.of_unstarted hmain' rfl rfl rfl rfl rfl⟩
  · exact fun x side u todo _ hx => hx.of_same rfl rfl rfl rfl fun _ => id
  · exact fun env x a x' hx h => hx.step h

theorem staged_of_run (hrun : runFrom step (newTcpProc hosts policy) as = some p) :
    ∀ x ∈ p.handlers, x.Staged := by
  have hp : Counting p :=
    invariant_of_run (fun _ _ _ hp h => hp.step (step_cases h)) (counting_newTcpProc hosts policy)
      hrun
  exact hp.staged

theorem canMove_or_stuck (hrun : runFrom step (newTcpProc hosts policy) as = some p) {x : Handler}
    (hx : x ∈ p.handlers) (hhost : x.host ≠ none) (hreturned : x.main ≠ .returned) :
    x.CanMove p.surroundings ∨ x.Stuck p.surroundings := by
  by_cases hmove : x.CanMove p.surroundings
  · exact .inl hmove
  · exact .inr (Handler.stuck_of_not_canMove (linked_of_run hrun x hx) (staged_of_run hrun x hx)
      hhost hreturned hmove)

/-- **Stop of the listener**: when the client's connection has been closed, a handler that has
    dialed its host goes on by itself or waits for the host, whose connection is open: for its
    bytes, up to the idle timeout, or for it to take bytes of the client. -/
theorem waits_for_host_of_stopped {hosts : List Host} {policy : LoadBalancePolicy}
    {as : List ProcStep} {p : TcpProc}
    (hrun : runFrom step (newTcpProc hosts policy) as = some p) {x : Handler}
    (hx : x ∈ p.handlers) (hhost : x.host ≠ none) (hreturned : x.main ≠ .returned)
    (hclosed : (x.conn .client).closed = true) :
    x.CanMove p.surroundings ∨ (x.conn .server).closed = false ∧
      (x.pipe .server = .reading ∨ ∃ chunk er, x.pipe .client = .writing chunk er) :=
  (canMove_or_stuck hrun hx hhost hreturned).imp_right fun hstuck => hstuck.of_stopped hclosed

/-- The client's connection is closed by `Stop`, and the host says nothing. -/
def stoppedSilent : List ProcStep :=
  opening ++
    [.handler 0 .stopClose, .handler 0 (.read .client 0 (some .net)),
      .handler 0 (.closeWrite .client true), .handler 0 (.closeRead .client false),
      .handler 0 (.closeSrc .client), .handler 0 .signal, .handler 0 .watchDone]

theorem waits_for_host_stoppedSilent :
    ∃ p, runFrom step (newTcpProc [sampleHost] .roundRobin) stoppedSilent = some p ∧
      ∃ x ∈ p.handlers, (x.conn .client).closed = true ∧
        (x.CanMove p.surroundings ∨ (x.conn .server).closed = false ∧
          (x.pipe .server = .reading ∨ ∃ chunk er, x.pipe .client = .writing chunk er)) := by
  have hrun : ∃ p, runFrom step (newTcpProc [sampleHost] .roundRobin) stoppedSilent = some p ∧
      ∃ x ∈ p.handlers, x.host = some sampleHost ∧ x.main = .piping ∧
        (x.conn .client).closed = true := exists_of_any (by decide +kernel)
  obtain ⟨p, hrun, x, hx, hhost, hmain, hclosed⟩ := hrun
  exact ⟨p, hrun, x, hx, hclosed,
    waits_for_host_of_stopped hrun hx (by simp [hhost]) (by simp [hmain]) hclosed⟩

/-- A step of the processor brings a handler nearer to its end when it is its own. -/
theorem shutDown_step {a : ProcStep} {k : Nat} {x : Handler} (hk : p.handlers[k]? = some x)
    (hx : x.ShutDown) (h : Step p a p') :
    ∃ x', p'.handlers[k]? = some x' ∧ x'.ShutDown ∧
      (if a.movedBy k then 1 else 0) + x'.rank ≤ x.rank := by
  obtain ⟨hlt, -⟩ := List.getElem?_eq_some_iff.mp hk
  -- the other handlers stay as they are
  have hother : ∀ (k' : Nat) (y : Handler), k' ≠ k → (p.handlers.set k' y)[k]? = some x := by
    intro k' y hne
    rw [List.getElem?_set_ne hne, hk]
  have hself : ∀ y : Handler, (p.handlers.set k y)[k]? = some y := by
    intro y
    rw [List.getElem?_set_self hlt]
  cases h with
  | accept => exact ⟨x, by rw [List.getElem?_append_left hlt, hk], hx, by simp [ProcStep.movedBy]⟩
  | hosts | policy => exact ⟨x, hk, hx, by simp [ProcStep.movedBy]⟩
  | @pick k' _ _ y _ pick hy hmain =>
    by_cases hne : k' = k
    · subst hne
      obtain rfl : x = y := Option.some.inj (hk.symm.trans hy)
      have hstarted := hx.started
      rw [hmain] at hstarted
      cases hstarted
    · refine ⟨x, ?_, hx, by simp [ProcStep.movedBy, hne]⟩
      cases pick <;> exact hother k' _ hne
  | @count k' side y u todo hy htodo =>
    by_cases hne : k' = k
    · subst hne
      obtain rfl : x = y := Option.some.inj (hk.symm.trans hy)
      have hrank := Handler.rank_plan htodo
      refine ⟨x.plan side todo, hself _, ⟨hx.started, hx.closed⟩, ?_⟩
      simp only [ProcStep.movedBy, decide_true, if_true]
      omega
    · exact ⟨x, hother k' _ hne, hx, by simp [ProcStep.movedBy, hne]⟩
  | @handler k' a y y' hy hstep =>
    by_cases hne : k' = k
    · subst hne
      obtain rfl : x = y := Option.some.inj (hk.symm.trans hy)
      refine ⟨y', hself _, hx.step hstep, ?_⟩
      cases hpeer : a.ofPeer with
      | true => simp [ProcStep.movedBy, hpeer, Handler.rank_of_peer hstep hpeer]
      | false =>
        have hrank := hx.rank_lt hstep hpeer
        simp only [ProcStep.movedBy, hpeer, decide_true, Bool.not_false, Bool.and_self, if_true]
        omega
    · exact ⟨x, hother k' _ hne, hx, by simp [ProcStep.movedBy, hne]⟩

/-- **End of a connection**: once both connections of a handler are closed, it makes no more steps
    than its rank says, whatever else happens, and as long as it has not returned it can make the
    next one without its peers. -/
theorem returns_of_shutDown {hosts : List Host} {policy : LoadBalancePolicy}
    {as bs : List ProcStep} {p p' : TcpProc}
    (hrun : runFrom step (newTcpProc hosts policy) as = some p) {k : Nat} {x : Handler}
    (hk : p.handlers[k]? = some x) (hx : x.ShutDown) (hmore : runFrom step p bs = some p') :
    ∃ x', p'.handlers[k]? = some x' ∧ bs.countP (·.movedBy k) + x'.rank ≤ x.rank ∧
      (x'.main = .returned ∨ x'.CanMove p'.surroundings) := by
  -- induction on the rest of the run, with the run up to here growing
  induction bs generalizing as p x with
  | nil =>
    cases hmore
    refine ⟨x, hk, by simp, ?_⟩
    by_contra hnot
    rw [not_or] at hnot
    have hmem := List.mem_of_getElem? hk
    have hhost : x.host ≠ none := by
      intro hnone
      have hundialed := (staged_of_run hrun x hmem).undialed_iff.mp hnone
      exact absurd (MainPc.unstarted_of_undialed hundialed) (by simp [hx.started])
    obtain ⟨side, hopen⟩ :=
      ((canMove_or_stuck hrun hmem hhost hnot.1).resolve_left hnot.2).exists_open
    rw [hx.closed side] at hopen
    cases hopen
  | cons b bs ih =>
    obtain ⟨q, hq, hrest⟩ := runFrom_cons_eq_some.mp hmore
    obtain ⟨y, hy, hshut, hrank⟩ := shutDown_step hk hx (step_cases hq)
    have hrun' : runFrom step (newTcpProc hosts policy) (as ++ [b]) = some q := by
      rw [runFrom_append, hrun, Option.bind_some]
      exact runFrom_cons_eq_some.mpr ⟨q, hq, rfl⟩
    obtain ⟨x', hx', hcount, hend⟩ := ih hrun' hy hshut hrest
    refine ⟨x', hx', ?_, hend⟩
    rw [List.countP_cons]
    omega

/-- The removal of the host is noticed. -/
def removedInTime : List ProcStep :=
  opening ++
    [.hosts (.remove [sampleHost]), .handler 0 .watchRemoved, .handler 0 .watchCloseServer,
      .handler 0 .watchCloseClient]

/-- What the handler does then. -/
def windingUp : List ProcStep :=
  [.handler 0 (.read .client 0 (some .net)), .handler 0 (.closeWrite .client false),
    .handler 0 (.closeDst .client), .handler 0 (.closeRead .client false),
    .handler 0 (.closeSrc .client), .handler 0 .signal,
    .handler 0 (.read .server 0 (some .net)), .handler 0 (.closeWrite .server false),
    .handler 0 (.closeDst .server), .handler 0 (.closeRead .server false),
    .handler 0 (.closeSrc .server), .handler 0 .join, .handler 0 .finish, .count 0 .server,
    .count 0 .server, .count 0 .server, .count 0 .server, .handler 0 .leave]

theorem returns_windingUp :
    ∃ p p' x, runFrom step (newTcpProc [sampleHost] .roundRobin) removedInTime = some p ∧
      p.handlers[0]? = some x ∧ x.rank = 18 ∧ runFrom step p windingUp = some p' ∧
      ∃ x', p'.handlers[0]? = some x' ∧ windingUp.countP (·.movedBy 0) + x'.rank ≤ x.rank ∧
        (x'.main = .returned ∨ x'.CanMove p'.surroundings) := by
  have hrun : ∃ p, runFrom step (newTcpProc [sampleHost] .roundRobin) removedInTime = some p ∧
      (∃ x ∈ p.handlers[0]?, x.rank = 18 ∧ x.main.unstarted = false ∧
        (x.conn .client).closed = true ∧ (x.conn .server).closed = true) ∧
      (runFrom step p windingUp).isSome = true := exists_of_any (by decide +kernel)
  obtain ⟨p, hrun, ⟨x, hx, hrank, hstarted, hclient, hserver⟩, hmore⟩ := hrun
  obtain ⟨p', hp'⟩ := Option.isSome_iff_exists.mp hmore
  refine ⟨p, p', x, hrun, hx, hrank, hp',
    returns_of_shutDown hrun hx ⟨hstarted, fun side => ?_⟩ hp'⟩
  cases side with
  | client => exact hclient
  | server => exact hserver

end TcpProc

end Samaritan.Tcp
