import Samaritan.Tcp.HandleConn

/-!
# What Is Forwarded

Each direction of a proxied connection is a copy loop of its own, but both work on the same two
connections, which are also closed from outside: by the other pipe, by the goroutine that waits for
the removal of the host, by `Stop` of the listener. Whatever the order of all this, the bytes that
one peer gets are those that the other one has sent, in order and from the first one on, and the
end of the stream is passed on behind all of them when the copy has ended without an error.
-/

namespace Samaritan.Tcp

open Samaritan.Lib
open Samaritan.Hosts (Host)

/-- The error with which `copyBuffer` has returned. -/
def PipePc.result : PipePc → Option (Option CopyErr)
  | .idle | .reading | .writing _ _ => none
  | .copied err | .closeDst err | .closeRead err | .closeSrc err | .ended err => some err

/-- What a copy that has ended leaves behind. -/
structure Copied (err : Option CopyErr) (src dst : Socket) : Prop where
  in_order : dst.written <+: src.taken
  /-- without an error the stream has ended, and all of it is there -/
  whole : err = none → dst.written = src.taken ∧ src.fin = true ∧ src.incoming = []

/-- What a pipe has passed on of what it has read. -/
def Passed (src dst : Socket) : PipePc → Prop
  | .idle | .reading => dst.written = src.taken ∧ dst.writeShut = false
  | .writing chunk er =>
    dst.written ++ chunk = src.taken ∧ dst.writeShut = false ∧
      (er = some .eof → src.fin = true ∧ src.incoming = [])
  | .copied err | .closeDst err => Copied err src dst ∧ dst.writeShut = false
  | .closeRead err | .closeSrc err | .ended err => Copied err src dst

/-- Two connections agree in what the pipes look at. -/
structure Socket.SameData (s s' : Socket) : Prop where
  taken : s'.taken = s.taken
  incoming : s'.incoming = s.incoming
  fin : s'.fin = s.fin
  written : s'.written = s.written
  writeShut : s'.writeShut = s.writeShut

variable {src src' dst dst' s : Socket} {pc : PipePc}

theorem Socket.SameData.close (s : Socket) : s.SameData s.close := ⟨rfl, rfl, rfl, rfl, rfl⟩

theorem Socket.SameData.closeRead (s : Socket) (ok : Bool) : s.SameData (s.closeRead ok) := by
  cases ok <;> exact ⟨rfl, rfl, rfl, rfl, rfl⟩

/-- A pipe looks at what has come from its source and at what has gone to its destination. -/
theorem Passed.frame (h : Passed src dst pc) (htaken : src'.taken = src.taken)
    (hincoming : src'.incoming = src.incoming) (hfin : src'.fin = src.fin)
    (hwritten : dst'.written = dst.written) (hshut : dst'.writeShut = dst.writeShut) :
    Passed src' dst' pc := by
  have hcopied : ∀ err, Copied err src dst → Copied err src' dst' := by
    intro err herr
    refine ⟨?_, fun hnone => ?_⟩
    · rw [hwritten, htaken]
      exact herr.in_order
    · rw [hwritten, htaken, hfin, hincoming]
      exact herr.whole hnone
  cases pc with
  | idle | reading =>
    unfold Passed at *
    rwa [hwritten, htaken, hshut]
  | writing chunk er =>
    unfold Passed at *
    rwa [hwritten, htaken, hshut, hfin, hincoming]
  | copied err | closeDst err => exact ⟨hcopied err h.1, hshut.trans h.2⟩
  | closeRead err | closeSrc err | ended err => exact hcopied err h

/-- The source's peer sends more, or ends its stream; behind the end nothing is sent. -/
theorem Passed.send (h : Passed src dst pc) (hfin : src.fin = false) (bytes : Bytes) :
    Passed (src.send bytes) dst pc := by
  have hcopied : ∀ err, Copied err src dst → Copied err (src.send bytes) dst := by
    intro err herr
    refine ⟨herr.in_order, fun hnone => ?_⟩
    rw [(herr.whole hnone).2.1] at hfin
    cases hfin
  cases pc with
  | idle | reading => exact h
  | writing chunk er =>
    refine ⟨h.1, h.2.1, fun heof => ?_⟩
    rw [(h.2.2 heof).1] at hfin
    cases hfin
  | copied err | closeDst err => exact ⟨hcopied err h.1, h.2⟩
  | closeRead err | closeSrc err | ended err => exact hcopied err h

theorem Passed.finish (h : Passed src dst pc) : Passed src.finish dst pc := by
  have hcopied : ∀ err, Copied err src dst → Copied err src.finish dst :=
    fun err herr => ⟨herr.in_order,
      fun hnone => ⟨(herr.whole hnone).1, rfl, (herr.whole hnone).2.2⟩⟩
  cases pc with
  | idle | reading => exact h
  | writing chunk er => exact ⟨h.1, h.2.1, fun heof => ⟨rfl, (h.2.2 heof).2⟩⟩
  | copied err | closeDst err => exact ⟨hcopied err h.1, h.2⟩
  | closeRead err | closeSrc err | ended err => exact hcopied err h

/-! ## One step of a pipe -/

/-- Where the loop goes when all that was read has been written. -/
theorem passed_afterChunk {er : Option ReadErr} (hwritten : dst.written = src.taken)
    (hshut : dst.writeShut = false)
    (heof : er = some .eof → src.fin = true ∧ src.incoming = []) :
    Passed src dst (Handler.afterChunk er) := by
  cases er with
  | none => exact ⟨hwritten, hshut⟩
  | some e =>
    have hfront : dst.written <+: src.taken := hwritten ▸ List.prefix_refl _
    cases e with
    | eof => exact ⟨⟨hfront, fun _ => ⟨hwritten, heof rfl⟩⟩, hshut⟩
    | net => exact ⟨⟨hfront, by simp⟩, hshut⟩

theorem Passed.read {n : Nat} {err : Option ReadErr} (h : Passed src dst .reading)
    (hmay : src.MayRead n err) :
    Passed (src.read n err) dst (Handler.afterRead (src.incoming.take n) err) := by
  obtain ⟨-, hn, -, hmayEof⟩ := hmay
  -- the end of the stream comes with its last byte
  have heof : err = some .eof → src.fin = true ∧ src.incoming.drop n = [] := by
    intro heof
    obtain ⟨hfin, hall⟩ := hmayEof heof
    exact ⟨hfin, by rw [hall, List.drop_length]⟩
  unfold Handler.afterRead
  split
  · rename_i hempty
    refine passed_afterChunk ?_ h.2 heof
    show dst.written = src.taken ++ src.incoming.take n
    rw [List.length_eq_zero_iff.mp hempty, List.append_nil]
    exact h.1
  · refine ⟨?_, h.2, heof⟩
    show dst.written ++ src.incoming.take n = src.taken ++ src.incoming.take n
    rw [h.1]

theorem Passed.write {n : Nat} {err : Bool} {chunk : Bytes} {er : Option ReadErr}
    (h : Passed src dst (.writing chunk er)) :
    Passed src (dst.write chunk n err) (Handler.afterWrite chunk er n err) := by
  obtain ⟨hwritten, hshut, heof⟩ := h
  have hfront : (dst.write chunk n err).written <+: src.taken := by
    refine ⟨chunk.drop n, ?_⟩
    show dst.written ++ chunk.take n ++ chunk.drop n = src.taken
    rw [List.append_assoc, List.take_append_drop, hwritten]
  unfold Handler.afterWrite
  split
  · exact ⟨⟨hfront, by simp⟩, hshut⟩
  · split
    · exact ⟨⟨hfront, by simp⟩, hshut⟩
    · rename_i hall
      refine passed_afterChunk ?_ hshut heof
      show dst.written ++ chunk.take n = src.taken
      rw [not_not.mp hall, List.take_length, hwritten]

/-! ## A handler -/

namespace Handler

/-- Both pipes pass on what they read. -/
def Forwards (x : Handler) : Prop :=
  ∀ side, Passed (x.conn side) (x.conn side.other) (x.pipe side)

variable {x x' : Handler} {env : Surroundings} {a : HandlerStep} {side : Side}

theorem forwards_newHandler : Forwards newHandler := fun _ => ⟨rfl, rfl⟩

/-- Nothing that the pipes look at has changed. -/
theorem Forwards.of_same (hx : Forwards x) (hconn : ∀ side, (x.conn side).SameData (x'.conn side))
    (hpipe : x'.pipe = x.pipe) : Forwards x' := by
  intro side
  rw [hpipe]
  exact (hx side).frame (hconn side).taken (hconn side).incoming (hconn side).fin
    (hconn side.other).written (hconn side.other).writeShut

theorem Forwards.setConn (hx : Forwards x) (hs : (x.conn side).SameData s) :
    Forwards (x.setConn side s) := by
  refine hx.of_same (fun side' => ?_) rfl
  show (x.conn side').SameData (Function.update x.conn side s side')
  by_cases hside : side' = side
  · subst hside
    rwa [Function.update_self]
  · rw [Function.update_of_ne hside]
    exact ⟨rfl, rfl, rfl, rfl, rfl⟩

/-- One pipe moves on, with what it has done to its source and to its destination; the other pipe
    sees nothing of it. -/
theorem Forwards.move (hx : Forwards x) (side : Side)
    (hpipe : x'.pipe side.other = x.pipe side.other)
    (hsrc : (x'.conn side).written = (x.conn side).written)
    (hsrcShut : (x'.conn side).writeShut = (x.conn side).writeShut)
    (hdst : (x'.conn side.other).taken = (x.conn side.other).taken)
    (hdstIn : (x'.conn side.other).incoming = (x.conn side.other).incoming)
    (hdstFin : (x'.conn side.other).fin = (x.conn side.other).fin)
    (hmoved : Passed (x'.conn side) (x'.conn side.other) (x'.pipe side)) : Forwards x' := by
  intro side'
  by_cases hside : side' = side
  · subst hside
    exact hmoved
  · obtain rfl : side' = side.other := by
      cases side' <;> cases side <;> simp_all [Side.other]
    rw [hpipe]
    have hother := hx side.other
    rw [Side.other_other] at hother ⊢
    exact hother.frame hdst hdstIn hdstFin hsrc hsrcShut

theorem Forwards.doRead {n : Nat} {err : Option ReadErr} (hx : Forwards x)
    (hpipe : x.pipe side = .reading) (hmay : (x.conn side).MayRead n err) :
    Forwards (x.doRead side n err) := by
  have hside := hx side
  rw [hpipe] at hside
  refine hx.move side ?_ ?_ ?_ ?_ ?_ ?_ ?_
  all_goals simp only [Handler.doRead, plan, setPipe, Handler.setConn, Function.update_self,
    Function.update_of_ne side.other_ne]
  · rfl
  · rfl
  · exact hside.read hmay

theorem Forwards.doWrite {n : Nat} {err : Bool} {chunk : Bytes} {er : Option ReadErr}
    (hx : Forwards x) (hpipe : x.pipe side = .writing chunk er) :
    Forwards (x.doWrite side chunk er n err) := by
  have hside := hx side
  rw [hpipe] at hside
  refine hx.move side ?_ ?_ ?_ ?_ ?_ ?_ ?_
  all_goals simp only [Handler.doWrite, plan, setPipe, Handler.setConn, Function.update_self,
    Function.update_of_ne side.other_ne, Function.update_of_ne side.ne_other]
  · rfl
  · rfl
  · rfl
  · exact hside.write

theorem Forwards.closeWrite {ok : Bool} {err : Option CopyErr} (hx : Forwards x)
    (hpipe : x.pipe side = .copied err) :
    Forwards ((x.setConn side.other ((x.conn side.other).closeWrite ok)).setPipe side
      (if ok then .closeRead err else .closeDst err)) := by
  have hside := hx side
  rw [hpipe] at hside
  have hsame : ((x.conn side.other).closeWrite ok).taken = (x.conn side.other).taken ∧
      ((x.conn side.other).closeWrite ok).incoming = (x.conn side.other).incoming ∧
      ((x.conn side.other).closeWrite ok).fin = (x.conn side.other).fin := by
    cases ok <;> exact ⟨rfl, rfl, rfl⟩
  refine hx.move side ?_ ?_ ?_ ?_ ?_ ?_ ?_
  all_goals simp only [setPipe, Handler.setConn, Function.update_self,
    Function.update_of_ne side.other_ne, Function.update_of_ne side.ne_other]
  · exact hsame.1
  · exact hsame.2.1
  · exact hsame.2.2
  · -- the stream is ended behind the copy
    cases ok with
    | true => exact ⟨hside.1.in_order, hside.1.whole⟩
    | false => exact hside

/-- A pipe goes on behind its copy. -/
theorem Forwards.setPipe (hx : Forwards x)
    (hpc : ∀ src dst, Passed src dst (x.pipe side) → Passed src dst pc) :
    Forwards (x.setPipe side pc) := by
  refine hx.move side ?_ rfl rfl rfl rfl rfl ?_
  · simp only [Handler.setPipe, Function.update_of_ne side.other_ne]
  · simp only [Handler.setPipe, Function.update_self]
    exact hpc _ _ (hx side)

end Handler

/-- `HandleConn` has not started the pipes. -/
def MainPc.unstarted : MainPc → Bool
  | .start | .picking _ | .comparing _ _ _ | .dialing _ | .opening | .noHost | .dialFailed _ => true
  | .piping | .joining | .leaving | .returned => false

namespace Handler

/-- The invariant of a handler. -/
structure Forwarding (x : Handler) : Prop where
  forwards : x.Forwards
  unstarted : x.main.unstarted = true → ∀ side, x.pipe side = .idle

variable {x x' : Handler} {env : Surroundings} {a : HandlerStep} {side : Side}

theorem forwarding_newHandler : newHandler.Forwarding := ⟨forwards_newHandler, fun _ _ => rfl⟩

/-- `HandleConn` moves on with its pipes as they are. -/
theorem Forwarding.of_same (hx : x.Forwarding)
    (hconn : ∀ side, (x.conn side).SameData (x'.conn side)) (hpipe : x'.pipe = x.pipe)
    (hmain : x'.main.unstarted = true → x.main.unstarted = true) : x'.Forwarding :=
  ⟨hx.forwards.of_same hconn hpipe, fun h side => hpipe ▸ hx.unstarted (hmain h) side⟩

/-- A pipe that is running has been started. -/
theorem Forwarding.of_running (hx : x.Forwarding) (hpipe : x.pipe side = pc) (hpc : pc ≠ .idle)
    (hforwards : x'.Forwards) (hmain : x'.main = x.main) : x'.Forwarding := by
  refine ⟨hforwards, fun h => ?_⟩
  rw [hmain] at h
  exact absurd (hpipe.symm.trans (hx.unstarted h side)) hpc

/-- The peer of a connection sends more or ends its stream. -/
theorem Forwards.setSource (hx : x.Forwards) (hwritten : s.written = (x.conn side).written)
    (hshut : s.writeShut = (x.conn side).writeShut)
    (hs : Passed s (x.conn side.other) (x.pipe side)) : (x.setConn side s).Forwards := by
  refine hx.move side rfl ?_ ?_ ?_ ?_ ?_ ?_
  all_goals simp only [Handler.setConn, Function.update_self, Function.update_of_ne side.other_ne]
  · exact hwritten
  · exact hshut
  · exact hs

/-- **Step lemma**. -/
theorem Forwarding.step (hx : x.Forwarding) (h : x.Step env a x') : x'.Forwarding := by
  have hsame : ∀ side, (x.conn side).SameData (x.conn side) := fun _ => ⟨rfl, rfl, rfl, rfl, rfl⟩
  cases h with
  | noHost hmain | load hmain | compare hmain | dialOk hmain | dialErr hmain =>
    exact hx.of_same hsame rfl fun _ => by rw [hmain]; rfl
  -- the pipes start with nothing taken
  | spawn hmain =>
    refine ⟨fun side => ?_, by simp [MainPc.unstarted]⟩
    have hside := hx.forwards side
    rw [hx.unstarted (by rw [hmain]; rfl) side] at hside
    exact hside
  | read hpipe _ hmay => exact hx.of_running hpipe (by simp) (hx.forwards.doRead hpipe hmay) rfl
  | write hpipe => exact hx.of_running hpipe (by simp) (hx.forwards.doWrite hpipe) rfl
  | closeWrite hpipe => exact hx.of_running hpipe (by simp) (hx.forwards.closeWrite hpipe) rfl
  | closeDst hpipe =>
    refine hx.of_running hpipe (by simp) ((hx.forwards.setConn (.close _)).setPipe ?_) rfl
    show ∀ src dst, Passed src dst (x.pipe _) → _
    rw [hpipe]
    exact fun _ _ h => h.1
  | @closeRead side ok err hpipe hmay =>
    refine hx.of_running hpipe (by simp) ((hx.forwards.setConn (.closeRead _ ok)).setPipe ?_) rfl
    show ∀ src dst, Passed src dst (x.pipe side) → _
    rw [hpipe]
    cases ok <;> exact fun _ _ h => h
  | closeSrc hpipe =>
    refine hx.of_running hpipe (by simp) ((hx.forwards.setConn (.close _)).setPipe ?_) rfl
    show ∀ src dst, Passed src dst (x.pipe _) → _
    rw [hpipe]
    exact fun _ _ h => h
  | signal | watchRemoved | watchDone => exact hx.of_same hsame rfl id
  | join | finish => exact hx.of_same hsame rfl (by simp [MainPc.unstarted, plan])
  | leave =>
    refine ⟨?_, by simp [MainPc.unstarted, setConn]⟩
    exact (hx.of_same hsame rfl (by simp [MainPc.unstarted]) :
      { x with main := .returned }.Forwarding).forwards.setConn (.close _)
  | watchCloseServer | watchCloseClient | stopClose =>
    exact ⟨(hx.forwards.setConn (.close _)).of_same (fun _ => ⟨rfl, rfl, rfl, rfl, rfl⟩) rfl,
      hx.unstarted⟩
  | peerSend hfin =>
    exact ⟨hx.forwards.setSource rfl rfl ((hx.forwards _).send hfin _), hx.unstarted⟩
  | peerFin => exact ⟨hx.forwards.setSource rfl rfl (hx.forwards _).finish, hx.unstarted⟩

/-- What is asked of the direction that reads from a side. -/
structure Delivered (x : Handler) (side : Side) : Prop where
  /-- the one peer has got the beginning of what the other one has sent -/
  in_order : (x.conn side.other).written <+: (x.conn side).sent
  /-- when `copyBuffer` has returned without an error, it has got the whole stream -/
  whole : (x.pipe side).result = some none →
    (x.conn side.other).written = (x.conn side).sent ∧ (x.conn side).fin = true
  /-- the end of the stream is passed on behind the copy -/
  end_last : (x.conn side.other).writeShut = true → ∃ err, (x.pipe side).result = some err

theorem Forwards.delivered (hx : x.Forwards) (side : Side) : x.Delivered side := by
  have hside := hx side
  have htaken : (x.conn side).taken <+: (x.conn side).sent := List.prefix_append _ _
  have hcopied : ∀ {err}, Copied err (x.conn side) (x.conn side.other) → err = none →
      (x.conn side.other).written = (x.conn side).sent ∧ (x.conn side).fin = true := by
    intro err herr hnone
    obtain ⟨hwritten, hfin, hincoming⟩ := herr.whole hnone
    exact ⟨by rw [hwritten, Socket.sent, hincoming, List.append_nil], hfin⟩
  cases hpipe : x.pipe side with
  | idle | reading =>
    rw [hpipe] at hside
    exact ⟨hside.1 ▸ htaken, by simp [hpipe, PipePc.result], by simp [hside.2]⟩
  | writing chunk er =>
    rw [hpipe] at hside
    have hwritten : (x.conn side.other).written <+: (x.conn side).taken := ⟨chunk, hside.1⟩
    exact ⟨hwritten.trans htaken, by simp [hpipe, PipePc.result], by simp [hside.2.1]⟩
  | copied err | closeDst err =>
    rw [hpipe] at hside
    refine ⟨hside.1.in_order.trans htaken, fun hresult => ?_, by simp [hside.2]⟩
    exact hcopied hside.1 (by simpa [hpipe, PipePc.result] using hresult)
  | closeRead err | closeSrc err | ended err =>
    rw [hpipe] at hside
    refine ⟨hside.in_order.trans htaken, fun hresult => ?_, fun _ => ⟨err, by rw [hpipe]; rfl⟩⟩
    exact hcopied hside (by simpa [hpipe, PipePc.result] using hresult)

end Handler

namespace TcpProc

/-- **Forwarding**: in every run, each peer of a connection gets what the other one has sent, in
    order and from the first byte on, and when its direction has ended without an error it has got
    all of it before the end of the stream. -/
theorem delivered_of_run {hosts : List Host} {policy : LoadBalancePolicy} {as : List ProcStep}
    {p : TcpProc} (hrun : runFrom step (newTcpProc hosts policy) as = some p) :
    ∀ x ∈ p.handlers, ∀ side, x.Delivered side := by
  have hforwarding : ∀ x ∈ p.handlers, x.Forwarding := by
    refine forall_handlers_of_run Handler.forwarding_newHandler ?_ ?_ ?_ hrun
    · intro x hosts hmain hx
      have hmain' : x.main.unstarted = true := by rw [hmain]; rfl
      exact ⟨fun _ => ⟨hx.forwards, fun _ => hx.unstarted hmain'⟩,
        fun _ _ _ => ⟨hx.forwards, fun _ => hx.unstarted hmain'⟩⟩
    · exact fun x side u todo _ hx => ⟨hx.forwards, hx.unstarted⟩
    · exact fun env x a x' hx h => hx.step h
  exact fun x hx side => (hforwarding x hx).forwards.delivered side

theorem run_halfClosed :
    ∃ p, runFrom step (newTcpProc [sampleHost] .roundRobin) halfClosed = some p ∧
      p.handlers.map (fun x => ((x.conn .server).written, (x.conn .server).writeShut)) =
        [([1, 2, 3], true)] :=
  exists_of_any (by decide +kernel)

theorem delivered_of_run_halfClosed :
    ∃ p, runFrom step (newTcpProc [sampleHost] .roundRobin) halfClosed = some p ∧
      p.handlers.map (fun x => ((x.conn .server).written, (x.conn .server).writeShut)) =
        [([1, 2, 3], true)] ∧
      ∀ x ∈ p.handlers, ∀ side, x.Delivered side := by
  obtain ⟨p, hrun, hwritten⟩ := run_halfClosed
  exact ⟨p, hrun, hwritten, delivered_of_run hrun⟩

end TcpProc

end Samaritan.Tcp
