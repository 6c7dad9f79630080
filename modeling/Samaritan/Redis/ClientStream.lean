import Samaritan.Redis.ClientReplies
import Samaritan.Redis.ClientShutdown

/-!
# The Bytes of a Client

`loopWrite` writes through a buffer: it flushes after a body only if no other request is
pending, counting on that request to be flushed with it. This module follows the bytes of the
encoded bodies from `Encode` to the connection, and the replies they bring back.

* Requests may be left in the buffer while the loop sleeps. The loop goes back to its `select`
  without a flush when a filter answers the request it counted on.
* The read loop may be left behind without a partner. A body is flushed before its request is
  put on `processingReqs`, so its reply may be decoded first; if `loopWrite` then returns
  because of `quit`, the read loop waits for a request that never comes.

For both the exact condition on the steps of a run is given under which this does not happen.
-/

namespace Samaritan.Redis

open Samaritan.Lib

/-- `loopWrite` is at the `select` that takes a request off `pendingReqs`. -/
@[simp] def ClientWrite.selecting {ρ : Type} : ClientWrite ρ → Bool
  | .select => true
  | _ => false

/-- `loopWrite` has passed the place where it flushes. -/
@[simp] def ClientWrite.pastFlush {ρ : Type} : ClientWrite ρ → Bool
  | .select => true
  | .enqueue _ => true
  | _ => false

/-- `loopWrite` has returned. -/
@[simp] def ClientWrite.ended {ρ : Type} : ClientWrite ρ → Bool
  | .returned => true
  | .exited => true
  | _ => false

/-- `loopWrite` has failed to write the request in hand. -/
@[simp] def ClientWrite.failing {ρ : Type} : ClientWrite ρ → Bool
  | .fail _ _ => true
  | _ => false

/-- `loopRead` receives from `processingReqs`. -/
@[simp] def ClientStart.receiving {ρ : Type} : ClientStart ρ → Bool
  | .receive _ => true
  | _ => false

namespace Client

variable {ρ : Type}

/-! ## The bytes written -/

/-- The encodings of a list of bodies. -/
def encodings (l : List (ρ × RespValue)) : Bytes := l.flatMap fun e => Redis.encode e.2

@[simp] theorem encodings_append_singleton (l : List (ρ × RespValue)) (e : ρ × RespValue) :
    encodings (l ++ [e]) = encodings l ++ Redis.encode e.2 := by
  simp [encodings]

/-- What holds of the bytes of a client in every state. -/
structure Streamed (c : Client ρ) : Prop where
  faithful : c.enc.Faithful
  /-- no write has failed while `loopWrite` goes on -/
  noErr : c.Writes → c.enc.err = none
  /-- the bytes of all bodies are on the connection or in the buffer -/
  held : c.Writes → c.enc.bw.held = encodings c.encoded
  /-- behind a failed write some of the bytes are missing -/
  short : c.enc.err.isSome → c.enc.bw.wr.out.length < (encodings c.encoded).length
  /-- only bodies that have arrived are answered -/
  arrived : encodings (c.encoded.take c.answers.length) <+: c.enc.bw.wr.out
  answers_le : c.answers.length ≤ c.encoded.length
  /-- `loopWrite` fails because of a failed write -/
  failing : c.loopWrite.failing = true → c.enc.err.isSome
  /-- and returns because of one, or of `quit` -/
  ended : c.loopWrite.ended = true → c.quit = false → c.enc.err.isSome

theorem streamed_newClient : Streamed (newClient ρ) where
  faithful := rfl
  noErr := fun _ => rfl
  held := fun _ => rfl
  short := by simp [newClient, newEncoder]
  arrived := by simp [newClient, encodings]
  answers_le := by simp [newClient]
  failing := by simp [newClient]
  ended := by simp [newClient]

/-- `Encode` adds a body behind the answered ones. -/
theorem Streamed.arrived_encode {c : Client ρ} (hc : Streamed c) (e : ρ × RespValue) :
    encodings ((c.encoded ++ [e]).take c.answers.length) <+: (c.enc.encode e.2).bw.wr.out := by
  rw [List.take_append_of_le_length hc.answers_le]
  exact hc.arrived.trans (c.enc.takes_encode e.2).grows

theorem Streamed.answers_le_encode {c : Client ρ} (hc : Streamed c) (e : ρ × RespValue) :
    c.answers.length ≤ (c.encoded ++ [e]).length := by
  rw [List.length_append]
  exact hc.answers_le.trans (Nat.le_add_right _ _)

theorem Streamed.bw_noErr {c : Client ρ} (hc : Streamed c) (hwrites : c.Writes) :
    c.enc.bw.err = none := by
  rw [← hc.faithful, hc.noErr hwrites]

/-- Every step keeps the account of the bytes. -/
theorem Streamed.step {c c' : Client ρ} {a : ClientStep ρ} (hc : Streamed c) (h : Step c a c') :
    Streamed c' := by
  cases h with
  | stop | closeQuit => exact { hc with ended := by simp }
  | connFail | closeConn => exact { hc with }
  | writeQuit hpos hquit | enqueueQuit hpos hquit =>
    exact { hc with
      noErr := by simp [Writes]
      held := by simp [Writes]
      failing := by simp
      ended := by simp [hquit] }
  -- `loopWrite` goes on without a write
  | take hpos | filterContinue hpos | checkLenEmpty hpos | checkLen hpos | enqueue hpos
  | filterStop hpos =>
    have hwrites : c.Writes := by simp [Writes, hpos]
    exact { hc with
      noErr := fun _ => hc.noErr hwrites
      held := fun _ => hc.held hwrites
      failing := by simp
      ended := by simp }
  | @encode req body hpos hok =>
    exact {
      faithful := hc.faithful.encode body
      noErr := fun _ => hok
      held := fun _ => by
        rw [Encoder.encode_held hok, hc.held (by simp [Writes, hpos]), encodings_append_singleton]
      short := by simp [hok]
      arrived := hc.arrived_encode (req, body)
      answers_le := hc.answers_le_encode (req, body)
      failing := by simp
      ended := by simp }
  -- the failed write has taken less than the whole body
  | @encodeErr req body e hpos herr =>
    have hwrites : c.Writes := by simp [Writes, hpos]
    exact {
      faithful := hc.faithful.encode body
      noErr := by simp [Writes]
      held := by simp [Writes]
      short := by
        intro hfail
        have hshort := (c.enc.takes_encode body).short (hc.bw_noErr hwrites)
          (by rwa [← hc.faithful.encode body])
        rwa [hc.held hwrites, ← List.length_append, ← encodings_append_singleton _ (req, body)]
          at hshort
      arrived := hc.arrived_encode (req, body)
      answers_le := hc.answers_le_encode (req, body)
      failing := by simp [herr]
      ended := by simp }
  | flush hpos hok =>
    exact { hc with
      faithful := hc.faithful.flush
      noErr := fun _ => hok
      held := fun _ => by rw [Encoder.flush_held, hc.held (by simp [Writes, hpos])]
      short := by simp [hok]
      arrived := hc.arrived.trans c.enc.takes_flush.grows
      failing := by simp
      ended := by simp }
  | flushErr hpos herr =>
    have hwrites : c.Writes := by simp [Writes, hpos]
    exact { hc with
      faithful := hc.faithful.flush
      noErr := by simp [Writes]
      held := by simp [Writes]
      short := by
        intro hfail
        have hshort := c.enc.takes_flush.short (hc.bw_noErr hwrites) (by rwa [← hc.faithful.flush])
        rwa [hc.held hwrites] at hshort
      arrived := hc.arrived.trans c.enc.takes_flush.grows
      failing := by simp [herr]
      ended := by simp }
  -- the error of the write is why `loopWrite` returns
  | fail hpos =>
    have herr : c.enc.err.isSome := hc.failing (by simp [hpos])
    exact { hc with
      noErr := by simp [Writes]
      held := by simp [Writes]
      failing := by simp
      ended := fun _ _ => herr }
  | writeExit hpos =>
    exact { hc with
      noErr := by simp [Writes]
      held := by simp [Writes]
      failing := by simp
      ended := fun _ => hc.ended (by simp [hpos]) }
  | answer hlen harrived =>
    exact { hc with
      arrived := by simpa [encodings, Client.arrived] using harrived
      answers_le := by simpa using hlen }
  | _ => exact { hc with }

theorem streamed_of_run [DecidableEq ρ] {c : Client ρ} {as : List (ClientStep ρ)}
    (h : runFrom Client.step (newClient ρ) as = some c) : Streamed c :=
  invariant_of_run (fun _ _ _ hc hstep => hc.step (step_cases hstep)) streamed_newClient h

/-! ## Requests left in the buffer -/

/-- `loopWrite` sleeps at its first `select`. -/
def Waits (c : Client ρ) : Prop :=
  c.loopWrite.selecting = true ∧ c.pendingReqs = [] ∧ c.quit = false

/-- Every body encoded so far is on the connection. -/
def AllFlushed (c : Client ρ) : Prop := c.enc.bw.wr.out = encodings c.encoded

/-- A filter that answers the last pending request finds the buffer empty. -/
def StopsFlushed (c : Client ρ) : ClientStep ρ → Prop
  | .filterStop => c.pendingReqs = [] → c.quit = false → c.enc.bw.buf = []
  | _ => True

instance [DecidableEq ρ] (c : Client ρ) : Decidable c.Waits :=
  inferInstanceAs (Decidable (_ ∧ _ ∧ _))

instance (c : Client ρ) : Decidable c.AllFlushed := inferInstanceAs (Decidable (_ = _))

/-- Behind the place where `loopWrite` flushes, the buffer is empty or a request is pending. -/
def Flushed (c : Client ρ) : Prop :=
  c.quit = false → c.pendingReqs = [] → c.loopWrite.pastFlush = true → c.enc.bw.buf = []

theorem Flushed.step {c c' : Client ρ} {a : ClientStep ρ} (hs : Staged c) (hc : Flushed c)
    (hok : c.StopsFlushed a) (h : Step c a c') : Flushed c' := by
  cases h with
  | put | stop | closeQuit | take | filterContinue | encode | encodeErr | checkLenEmpty | flushErr
  | writeQuit | enqueueQuit | fail | writeExit => simp [Flushed]
  | filterStop hpos => exact fun hquit hpending _ => hok hpending hquit
  | checkLen hpos hqueue => exact fun _ hpending => absurd hpending hqueue
  | flush hpos hnone => exact fun _ _ _ => Encoder.flush_buf hnone
  | enqueue hpos => simpa [Flushed, hpos] using hc
  | drainPending hpos =>
    -- `quit` was closed before the drain
    exact fun hquit => by simp [hs.quit (by simp [hpos])] at hquit
  | _ => exact hc

theorem allFlushed_of_flushed {c : Client ρ} (hc : Streamed c) (hf : Flushed c) (hw : c.Waits) :
    c.AllFlushed := by
  obtain ⟨hpos, hpending, hquit⟩ := hw
  have hselect : c.loopWrite = .select := by
    cases hp : c.loopWrite <;> simp [hp] at hpos
    rfl
  have hbuf : c.enc.bw.buf = [] := hf hquit hpending (by simp [hselect])
  have hheld := hc.held (by simp [Writes, hselect])
  rwa [BufWriter.held, hbuf, List.append_nil] at hheld

/-- A filter that answers the last pending request sends `loopWrite` to sleep, so the buffer has to
    be empty already. -/
theorem Step.stopsFlushed {c c' : Client ρ} {a : ClientStep ρ} (h : Step c a c')
    (hc' : Streamed c') (hgood : c'.Waits → c'.AllFlushed) : c.StopsFlushed a := by
  cases h with
  | filterStop hpos =>
    intro hpending hquit
    have hflushed := hgood ⟨rfl, hpending, hquit⟩
    have hheld := hc'.held trivial
    rw [BufWriter.held, ← hflushed] at hheld
    simpa using hheld
  | _ => trivial

/-- **When `loopWrite` sleeps on unsent requests**: in a run, `loopWrite` never waits for a request
    while an encoded body is still in the buffer exactly when a filter that answers the last
    pending request always finds the buffer empty. -/
theorem allFlushed_iff [DecidableEq ρ] {as : List (ClientStep ρ)} {c : Client ρ}
    (hrun : runFrom Client.step (newClient ρ) as = some c) :
    (∀ bs t, bs <+: as → runFrom Client.step (newClient ρ) bs = some t →
      t.Waits → t.AllFlushed) ↔
      RunMeets Client.step StopsFlushed (newClient ρ) as := by
  constructor
  · intro hall
    have hback : ∀ (c : Client ρ) a c', c.step a = some c' →
        (Streamed c' ∧ (c'.Waits → c'.AllFlushed)) → c.StopsFlushed a :=
      fun c a c' hstep hgood => (step_cases hstep).stopsFlushed hgood.1 hgood.2
    exact runMeets_of_good hback hrun fun bs t hbs ht => ⟨streamed_of_run ht, hall bs t hbs ht⟩
  · intro hmeets bs t hbs ht
    have hstep : ∀ (c : Client ρ) a c', Staged c ∧ Flushed c → c.StopsFlushed a →
        c.step a = some c' → Staged c' ∧ Flushed c' := fun c a c' hc hok hstep =>
      ⟨hc.1.step (step_cases hstep), hc.2.step hc.1 hok (step_cases hstep)⟩
    have hinit : Staged (newClient ρ) ∧ Flushed (newClient ρ) :=
      ⟨staged_newClient, fun _ _ _ => rfl⟩
    have hflushed := invariant_of_runMeets hstep hinit (runMeets_of_isPrefix hmeets hbs) ht
    exact allFlushed_of_flushed (streamed_of_run ht) hflushed.2

/-- The first request is not flushed because the second one is pending; a filter answers the
    second one. -/
def sleepRun : List (ClientStep Nat) :=
  [.send 0, .put 0, .send 1, .put 1, .take, .filterContinue (.bulkString none), .encode,
    .checkLen, .enqueue, .take, .filterStop]

theorem sleepRun_sleeps : (runFrom Client.step (newClient Nat) sleepRun).any fun c =>
    c.Waits ∧ ¬ c.AllFlushed := by
  decide +kernel

/-- At the end of `sleepRun` the loop sleeps and the first request is in the buffer. -/
theorem not_allFlushed_sleepRun :
    ∃ c, Reachable Client.step (newClient Nat) c ∧ c.Waits ∧ ¬ c.AllFlushed := by
  obtain ⟨c, hrun, hwaits, hflushed⟩ := exists_of_any sleepRun_sleeps
  exact ⟨c, ⟨_, hrun⟩, hwaits, hflushed⟩

theorem allFlushed_iff_sleepRun :
    (∀ bs t, bs <+: sleepRun → runFrom Client.step (newClient Nat) bs = some t →
      t.Waits → t.AllFlushed) ↔
      RunMeets Client.step StopsFlushed (newClient Nat) sleepRun := by
  obtain ⟨c, hrun, -⟩ := exists_of_any sleepRun_sleeps
  exact allFlushed_iff hrun

/-! ## A read loop without a partner -/

/-- `loopWrite` has returned and `loopRead` waits for a request that nobody will put. -/
def Hung (c : Client ρ) : Prop :=
  c.quit = true ∧ c.loopWrite.ended = true ∧ c.start.receiving = true ∧ c.processingReqs = []

/-- There is, or there will be, a request for the reply in hand: `loopWrite` does not give up the
    request for which `loopRead` waits, and `loopRead` does not decode the reply of a request that
    was given up. -/
def ReplyHasTaker (c : Client ρ) : ClientStep ρ → Prop
  | .enqueueQuit => c.start.receiving = true → c.processingReqs ≠ []
  | .decode => c.quit = true → c.loopWrite.ended = true → c.processingReqs ≠ []
  | _ => True

instance [DecidableEq ρ] (c : Client ρ) : Decidable c.Hung :=
  inferInstanceAs (Decidable (_ ∧ _ ∧ _ ∧ _))

/-- At most one of the encoded requests has not been put on `processingReqs`. -/
def Nearly (c : Client ρ) : Prop :=
  c.Reads → c.encoded.length ≤ c.handed.length + c.processingReqs.length + 1

theorem Nearly.step {c c' : Client ρ} {a : ClientStep ρ} (ha : Aligned c) (hc : Nearly c)
    (h : Step c a c') : Nearly c' := by
  cases h with
  | encode hpos | encodeErr hpos =>
    intro hreads
    -- the requests encoded before are all on `processingReqs` or have been handed a reply
    have hall := congrArg List.length (ha.all hreads (by simp [Writes, hpos]))
    simp only [committing, hpos, List.append_nil, List.length_append, List.length_map] at hall
    simp [hall]
  | enqueue hpos =>
    intro hreads
    have := hc hreads
    simp only [List.length_append]
    omega
  | receive hpos hqueue =>
    intro _
    have := hc (by simp [Reads, hpos])
    simp only [hqueue, List.length_cons, List.length_append, List.length_nil] at this ⊢
    omega
  | decode hpos => exact fun _ => hc (by simp [Reads, hpos])
  | handleIgnored hpos | handleRedirect hpos | handle hpos | redirected hpos =>
    exact fun _ => hc (by simp [Reads, hpos])
  | handlePanic | decodeErr | closeConn | closeQuit | waitWrite | drainReturn | closeDone =>
    exact fun hreads => hreads.elim
  | drainPending hpos | drainProcessing hpos => exact fun hreads => by simp [Reads, hpos] at hreads
  | _ => exact hc

/-- A read loop that is left behind stays so. -/
theorem Hung.step {c c' : Client ρ} {a : ClientStep ρ} (hc : c.Hung) (h : Step c a c') :
    c'.Hung := by
  obtain ⟨hquit, hend, hstart, hnil⟩ := hc
  cases h with
  | writeExit => exact ⟨hquit, rfl, hstart, hnil⟩
  | stop => exact ⟨rfl, hend, hstart, hnil⟩
  | receive hpos hqueue => simp [hqueue] at hnil
  | sendRefused | send | put | connFail | answer => exact ⟨hquit, hend, hstart, hnil⟩
  | _ hpos => simp [hpos] at hend hstart

/-- `Start` does not return any more, and neither does `Stop`. -/
theorem Hung.not_done [DecidableEq ρ] {c c' : Client ρ} {as : List (ClientStep ρ)} (hc : c.Hung)
    (hrun : runFrom Client.step c as = some c') : c'.start ≠ .done := by
  have hhung : c'.Hung := invariant_of_run (fun _ _ _ h hstep => h.step (step_cases hstep)) hc hrun
  intro hdone
  simpa [hdone] using hhung.2.2.1

/-- What the argument about the read loop needs of a state. -/
structure Paired (c : Client ρ) : Prop where
  aligned : Aligned c
  streamed : Streamed c
  nearly : Nearly c

theorem Paired.step {c c' : Client ρ} {a : ClientStep ρ} (hc : Paired c) (h : Step c a c') :
    Paired c' where
  aligned := hc.aligned.step h
  streamed := hc.streamed.step h
  nearly := hc.nearly.step hc.aligned h

theorem paired_newClient : Paired (newClient ρ) where
  aligned := aligned_newClient
  streamed := streamed_newClient
  nearly := by simp [Nearly, newClient]

/-- The reply `loopRead` has in hand is one of those the backend has given. -/
theorem Paired.handed_lt {c : Client ρ} (hc : Paired c) (hstart : c.start.receiving = true) :
    c.Reads ∧ c.handed.length < c.answers.length := by
  cases hpos : c.start with
  | receive v =>
    refine ⟨by simp [Reads, hpos], ?_⟩
    have hle := hc.aligned.decoded.length_le
    simp only [Client.decoded, hpos, List.length_append, List.length_map, List.length_cons,
      List.length_nil] at hle
    omega
  | _ => simp [hpos] at hstart

/-- Behind a failed write the last body has not been answered, so the reply in hand has its
    request on `processingReqs`. -/
theorem Paired.queue_of_err {c : Client ρ} (hc : Paired c) (hstart : c.start.receiving = true)
    (herr : c.enc.err.isSome) : c.processingReqs ≠ [] := by
  obtain ⟨hreads, hlt⟩ := hc.handed_lt hstart
  have hanswers : c.answers.length < c.encoded.length := by
    refine lt_of_le_of_ne hc.streamed.answers_le fun heq => ?_
    -- otherwise all bytes have arrived
    have harrived := hc.streamed.arrived.length_le
    rw [heq, List.take_length] at harrived
    have := hc.streamed.short herr
    omega
  have hnearly := hc.nearly hreads
  intro hnil
  simp only [hnil, List.length_nil] at hnearly
  omega

/-- While `loopWrite` has nothing to put on `processingReqs`, the reply in hand has its request
    there. -/
theorem Paired.queue_of_select {c : Client ρ} (hc : Paired c) (hstart : c.start.receiving = true)
    (hwrite : c.loopWrite = .select) : c.processingReqs ≠ [] := by
  obtain ⟨hreads, hlt⟩ := hc.handed_lt hstart
  have hall := congrArg List.length (hc.aligned.all hreads (by simp [Writes, hwrite]))
  have hle := hc.streamed.answers_le
  intro hnil
  simp [committing, hwrite, hnil] at hall
  omega

/-- **One step** that has a taker for its reply does not leave the read loop behind. -/
theorem Step.not_hung {c c' : Client ρ} {a : ClientStep ρ} (h : Step c a c') (hc : Paired c)
    (hnot : ¬ c.Hung) (hok : c.ReplyHasTaker a) : ¬ c'.Hung := by
  cases h with
  | stop =>
    rintro ⟨-, hend, hstart, hnil⟩
    cases hquit : c.quit with
    | true => exact hnot ⟨hquit, hend, hstart, hnil⟩
    -- `loopWrite` has returned while `quit` was open
    | false => exact hc.queue_of_err hstart (hc.streamed.ended hend hquit) hnil
  | writeQuit hpos hquit => exact fun h => hc.queue_of_select h.2.2.1 hpos h.2.2.2
  | enqueueQuit hpos hquit => exact fun h => hok h.2.2.1 h.2.2.2
  | fail hpos =>
    exact fun h => hc.queue_of_err h.2.2.1 (hc.streamed.failing (by simp [hpos])) h.2.2.2
  | writeExit hpos => exact fun h => hnot ⟨h.1, by simp [hpos], h.2.2⟩
  | decode hpos hnext => exact fun h => hok h.1 h.2.1 h.2.2.2
  | take | filterStop | filterContinue | encode | encodeErr | checkLenEmpty | checkLen | flush
  | flushErr | enqueue => exact fun h => by simpa using h.2.1
  | drainPending hpos | drainProcessing hpos => exact fun h => by simpa [hpos] using h.2.2.1
  | sendRefused | send | put | connFail | answer => exact hnot
  -- the other steps leave `loopRead` at another place
  | _ => exact fun h => by simpa using h.2.2.1

/-- A step without a taker for its reply leaves the read loop behind. -/
theorem Step.replyHasTaker {c c' : Client ρ} {a : ClientStep ρ} (h : Step c a c')
    (hnot : ¬ c'.Hung) : c.ReplyHasTaker a := by
  cases h with
  | enqueueQuit hpos hquit => exact fun hstart hnil => hnot ⟨hquit, rfl, hstart, hnil⟩
  | decode hpos hnext => exact fun hquit hend hnil => hnot ⟨hquit, hend, rfl, hnil⟩
  | _ => trivial

/-- **When the read loop is left behind**: in a run, `loopRead` never waits for a request that
    `loopWrite` has stopped to put, after `quit` was closed, exactly when no step leaves a decoded
    reply without its request. -/
theorem not_hung_iff [DecidableEq ρ] {as : List (ClientStep ρ)} {c : Client ρ}
    (hrun : runFrom Client.step (newClient ρ) as = some c) :
    (∀ bs t, bs <+: as → runFrom Client.step (newClient ρ) bs = some t → ¬ t.Hung) ↔
      RunMeets Client.step ReplyHasTaker (newClient ρ) as := by
  constructor
  · intro hall
    have hback : ∀ (c : Client ρ) a c', c.step a = some c' → ¬ c'.Hung → c.ReplyHasTaker a :=
      fun c a c' hstep hnot => (step_cases hstep).replyHasTaker hnot
    exact runMeets_of_good hback hrun hall
  · intro hmeets bs t hbs ht
    have hstep : ∀ (c : Client ρ) a c', Paired c ∧ ¬ c.Hung → c.ReplyHasTaker a →
        c.step a = some c' → Paired c' ∧ ¬ c'.Hung := fun c a c' hc hok hstep =>
      ⟨hc.1.step (step_cases hstep), (step_cases hstep).not_hung hc.1 hc.2 hok⟩
    have hinit : Paired (newClient ρ) ∧ ¬ (newClient ρ).Hung :=
      ⟨paired_newClient, fun h => by simpa [newClient] using h.1⟩
    exact (invariant_of_runMeets hstep hinit (runMeets_of_isPrefix hmeets hbs) ht).2

/-- The reply is decoded before its request is on `processingReqs`; then the client is stopped and
    `loopWrite` takes the `quit` case. -/
def hangRun : List (ClientStep Nat) :=
  [.send 0, .put 0, .take, .filterContinue (.bulkString none), .encode, .checkLen, .flush,
    .answer (.integer 1), .decode, .stop, .enqueueQuit, .writeExit]

theorem hangRun_hangs : (runFrom Client.step (newClient Nat) hangRun).any fun c => c.Hung := by
  decide +kernel

/-- `loopRead` of `hangRun` waits for a request that never comes. -/
theorem hung_hangRun : ∃ c, Reachable Client.step (newClient Nat) c ∧ c.Hung := by
  obtain ⟨c, hrun, hhung⟩ := exists_of_any hangRun_hangs
  exact ⟨c, ⟨_, hrun⟩, hhung⟩

theorem not_hung_iff_hangRun :
    (∀ bs t, bs <+: hangRun → runFrom Client.step (newClient Nat) bs = some t → ¬ t.Hung) ↔
      RunMeets Client.step ReplyHasTaker (newClient Nat) hangRun := by
  obtain ⟨c, hrun, -⟩ := exists_of_any hangRun_hangs
  exact not_hung_iff hrun

end Client

end Samaritan.Redis