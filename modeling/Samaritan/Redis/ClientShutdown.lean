import Samaritan.Redis.Client

/-!
# Shutdown of a Client

When a client ends, `Start` waits for `loopWrite`, drains both queues and closes `done`. This
module keeps the account of all requests: where each request passed to `Send` and each request
taken by `loopWrite` is, at any moment. It follows exactly which requests are left without an
answer when `Start` has returned.

* A request taken by `loopWrite` is lost when `loopWrite` takes the `quit` case of the `select`
  that follows the encoding, or when the redirection callback ignores it.
* A request passed to `Send` is left behind when `drainRequests` returns while a `Send` call
  that has found `quit` open has not put its request on `pendingReqs` yet.
-/

namespace Samaritan.Redis

open Samaritan.Lib

/-! ## The account of requests -/

/-- The request was taken by `loopWrite` before it left the client this way. -/
def Outcome.afterTake : Outcome → Bool
  | .refused => false
  | .drainedPending => false
  | _ => true

/-- The request was answered by `Send`. -/
def Outcome.isRefused : Outcome → Bool
  | .refused => true
  | _ => false

/-- The request was removed from `pendingReqs` by `drainRequests`. -/
def Outcome.isDrainedPending : Outcome → Bool
  | .drainedPending => true
  | _ => false

/-- The request `loopWrite` holds. -/
@[simp] def ClientWrite.held {ρ : Type} : ClientWrite ρ → List ρ
  | .select => []
  | .filter req => [req]
  | .encode req _ => [req]
  | .checkLen req => [req]
  | .flush req => [req]
  | .enqueue req => [req]
  | .fail req _ => [req]
  | .returned => []
  | .exited => []

/-- The request `loopRead` holds. -/
@[simp] def ClientStart.held {ρ : Type} : ClientStart ρ → List ρ
  | .handle req _ => [req]
  | .panicked req => [req]
  | _ => []

/-- How far the goroutine of `Start` has come. -/
@[simp] def ClientStart.stage {ρ : Type} : ClientStart ρ → Nat
  | .decode => 0
  | .receive _ => 0
  | .handle _ _ => 0
  | .redirect => 0
  | .panicked _ => 0
  | .returned => 1
  | .quitting => 2
  | .waitWrite => 3
  | .drain => 4
  | .drained => 5
  | .done => 6

theorem ClientStart.stage_eq_six_iff {ρ : Type} {p : ClientStart ρ} : p.stage = 6 ↔ p = .done := by
  cases p <;> simp

/-- The requests a step passes to `Send`. -/
def ClientStep.sends {ρ : Type} : ClientStep ρ → List ρ
  | .send req => [req]
  | _ => []

namespace Client

variable {ρ : Type}

/-- The requests that left the client in some of the ways. -/
def settledBy (p : Outcome → Bool) (settled : List (ρ × Outcome)) : List ρ :=
  (settled.filter fun e => p e.2).map Prod.fst

@[simp] theorem settledBy_nil (p : Outcome → Bool) : settledBy (ρ := ρ) p [] = [] := rfl

@[simp] theorem settledBy_append (p : Outcome → Bool) (l : List (ρ × Outcome)) (req : ρ)
    (o : Outcome) : settledBy p (l ++ [(req, o)]) = settledBy p l ++ if p o then [req] else [] := by
  cases hp : p o <;> simp [settledBy, hp]

/-- Every request taken by `loopWrite` has been answered or dispatched again, or it is still
    on `processingReqs`. -/
def AllTakenSettled (c : Client ρ) : Prop :=
  c.taken.Perm (settledBy Outcome.afterTake c.settled ++ c.processingReqs)

/-- Every request passed to `Send` has been answered by `Send`, taken by `loopWrite` or drained:
    no request sits in `pendingReqs` and no `Send` call is about to put one there. -/
def AllSentSettled (c : Client ρ) : Prop :=
  c.pendingReqs = [] ∧ c.sending = [] ∧
    c.sent.Perm (settledBy Outcome.isRefused c.settled ++ c.taken ++
      settledBy Outcome.isDrainedPending c.settled)

instance [DecidableEq ρ] (c : Client ρ) : Decidable c.AllTakenSettled :=
  inferInstanceAs (Decidable (List.Perm _ _))

instance [DecidableEq ρ] (c : Client ρ) : Decidable c.AllSentSettled :=
  inferInstanceAs (Decidable (_ ∧ _ ∧ List.Perm _ _))

/-- Where the requests of a client are. -/
structure Account [DecidableEq ρ] (c : Client ρ) : Prop where
  sent : ∀ r, c.sent.count r =
    (settledBy Outcome.isRefused c.settled).count r + c.sending.count r + c.pendingReqs.count r +
      c.taken.count r + (settledBy Outcome.isDrainedPending c.settled).count r
  taken : ∀ r, c.taken.count r =
    (settledBy Outcome.afterTake c.settled).count r + c.processingReqs.count r +
      c.loopWrite.held.count r + c.start.held.count r + c.dropped.count r

theorem account_newClient [DecidableEq ρ] : Account (newClient ρ) where
  sent := by simp [newClient]
  taken := by simp [newClient]

/-- Every step keeps the account. -/
theorem Account.step [DecidableEq ρ] {c c' : Client ρ} {a : ClientStep ρ} (hc : Account c)
    (h : Step c a c') : Account c' := by
  have hsent := hc.sent
  have htaken := hc.taken
  cases h with
  | sendRefused hquit =>
    refine ⟨fun r => ?_, by simpa [Outcome.afterTake] using htaken⟩
    simp [Outcome.isRefused, Outcome.isDrainedPending, hsent r]
    omega
  | send hquit =>
    refine ⟨fun r => ?_, htaken⟩
    simp [hsent r]
    omega
  | put hsend hroom =>
    refine ⟨fun r => ?_, htaken⟩
    simp [hsent r, hsend, List.count_cons]
    omega
  | take hpos hqueue =>
    refine ⟨fun r => ?_, fun r => ?_⟩
    · simp [hsent r, hqueue, List.count_cons]
      omega
    · simp [htaken r, hpos]
      omega
  -- a request that was taken leaves the client
  | filterStop hpos | fail hpos | handleRedirect hpos | handle hpos =>
    refine ⟨by simpa [Outcome.isRefused, Outcome.isDrainedPending] using hsent, fun r => ?_⟩
    simp [htaken r, Outcome.afterTake, hpos]
    omega
  -- a request that was taken gets another holder, or none
  | enqueue hpos | enqueueQuit hpos | handleIgnored hpos =>
    refine ⟨hsent, fun r => ?_⟩
    simp [htaken r, hpos]
    omega
  | receive hpos hqueue =>
    refine ⟨hsent, fun r => ?_⟩
    simp [htaken r, hpos, hqueue, List.count_cons]
    omega
  | drainPending hpos hqueue =>
    refine ⟨fun r => ?_, by simpa [Outcome.afterTake] using htaken⟩
    simp [hsent r, Outcome.isRefused, Outcome.isDrainedPending, hqueue, List.count_cons]
    omega
  | drainProcessing hpos hqueue =>
    refine ⟨by simpa [Outcome.isRefused, Outcome.isDrainedPending] using hsent, fun r => ?_⟩
    simp [htaken r, Outcome.afterTake, hpos, hqueue, List.count_cons]
    omega
  | stop | connFail | answer hlen harrived => exact { hc with }
  -- the other steps leave every request with its holder
  | _ hpos => exact ⟨hsent, by simpa [hpos] using htaken⟩

/-! ## Requests that are with the client -/

/-- The requests that were passed to `Send` and have not left the client. -/
def inside (c : Client ρ) : List ρ :=
  c.sending ++ c.pendingReqs ++ c.loopWrite.held ++ c.processingReqs ++ c.start.held ++ c.dropped

theorem Step.sent_eq {c c' : Client ρ} {a : ClientStep ρ} (h : Step c a c') :
    c'.sent = c.sent ++ a.sends := by
  cases h <;> simp [ClientStep.sends]

/-- A request leaves the client in one way. -/
theorem count_settled [DecidableEq ρ] (settled : List (ρ × Outcome)) (r : ρ) :
    (settled.map Prod.fst).count r = (settledBy Outcome.isRefused settled).count r +
      (settledBy Outcome.isDrainedPending settled).count r +
      (settledBy Outcome.afterTake settled).count r := by
  induction settled using List.reverseRecOn with
  | nil => rfl
  | append_singleton settled e ih =>
    obtain ⟨req, o⟩ := e
    simp only [List.map_append, List.count_append, settledBy_append, ih]
    cases o <;> simp [Outcome.isRefused, Outcome.isDrainedPending, Outcome.afterTake] <;> omega

/-- Every request passed to `Send` has left the client or is with it. -/
theorem Account.sent_perm [DecidableEq ρ] {c : Client ρ} (hc : Account c) :
    c.sent.Perm (c.settled.map Prod.fst ++ c.inside) := by
  rw [List.perm_iff_count]
  intro r
  have hsent := hc.sent r
  have htaken := hc.taken r
  simp only [inside, List.count_append, count_settled]
  omega

/-- **One step**: the requests with the client change by those that are passed to `Send` and those
    that leave. -/
theorem Step.inside_perm [DecidableEq ρ] {c c' : Client ρ} {a : ClientStep ρ} (hc : Account c)
    (h : Step c a c') {new : List (ρ × Outcome)} (hnew : c'.settled = c.settled ++ new) :
    (new.map Prod.fst ++ c'.inside).Perm (c.inside ++ a.sends) := by
  have hbefore := hc.sent_perm
  have hafter := (hc.step h).sent_perm
  rw [h.sent_eq, hnew, List.map_append, List.append_assoc] at hafter
  -- both sides are what was sent, less what had been settled before
  have hsame := hafter.symm.trans (hbefore.append_right a.sends)
  rw [List.append_assoc] at hsame
  exact (List.perm_append_left_iff _).mp hsame

/-! ## Stages of the shutdown -/

/-- How far the shutdown is. -/
structure Staged (c : Client ρ) : Prop where
  quit : 3 ≤ c.start.stage → c.quit = true
  writeDone : 4 ≤ c.start.stage → c.loopWrite = .exited

theorem staged_newClient : Staged (newClient ρ) where
  quit := by simp [newClient]
  writeDone := by simp [newClient]

theorem Staged.step {c c' : Client ρ} {a : ClientStep ρ} (hc : Staged c) (h : Step c a c') :
    Staged c' := by
  cases h with
  | sendRefused | send | put | connFail | answer | drainPending | drainProcessing =>
    exact { hc with }
  | stop => exact { hc with quit := fun _ => rfl }
  | writeExit => exact { hc with writeDone := fun _ => rfl }
  | closeQuit => exact ⟨fun _ => rfl, by simp⟩
  | waitWrite hpos hwrite => exact ⟨fun _ => hc.quit (by simp [hpos]), fun _ => hwrite⟩
  | drainReturn hpos | closeDone hpos =>
    exact ⟨fun _ => hc.quit (by simp [hpos]), fun _ => hc.writeDone (by simp [hpos])⟩
  | decode | decodeErr | receive | handlePanic | handleIgnored | handleRedirect | handle
  | redirected | closeConn => exact ⟨by simp, by simp⟩
  -- the other steps are steps of `loopWrite`, which has not exited
  | _ hpos => exact { hc with writeDone := fun h => absurd (hc.writeDone h) (by simp [hpos]) }

theorem account_of_run [DecidableEq ρ] {c : Client ρ} {as : List (ClientStep ρ)}
    (h : runFrom Client.step (newClient ρ) as = some c) : Account c :=
  invariant_of_run (fun _ _ _ hc hstep => hc.step (step_cases hstep)) account_newClient h

theorem staged_of_run [DecidableEq ρ] {c : Client ρ} {as : List (ClientStep ρ)}
    (h : runFrom Client.step (newClient ρ) as = some c) : Staged c :=
  invariant_of_run (fun _ _ _ hc hstep => hc.step (step_cases hstep)) staged_newClient h

/-! ## Requests taken by `loopWrite` -/

/-- When `Start` has returned, the taken requests that are neither settled nor queued are the
    dropped ones. -/
theorem allTakenSettled_iff_dropped [DecidableEq ρ] {c : Client ρ} (hc : Account c)
    (hs : Staged c) (hdone : c.start = .done) : c.AllTakenSettled ↔ c.dropped = [] := by
  have hwrite : c.loopWrite = .exited := hs.writeDone (by simp [hdone])
  have htaken : ∀ r, c.taken.count r =
      (settledBy Outcome.afterTake c.settled ++ c.processingReqs).count r + c.dropped.count r := by
    simpa [hwrite, hdone] using hc.taken
  rw [AllTakenSettled, List.perm_iff_count]
  constructor
  -- a dropped request would be counted on the left only
  · intro hperm
    rw [List.eq_nil_iff_forall_not_mem]
    intro r hr
    have hpos := List.count_pos_iff.mpr hr
    have := htaken r
    have := hperm r
    omega
  · intro hdropped r
    simpa [hdropped] using htaken r

/-- The step does not lose the request in hand: `loopWrite` does not take the `quit` case of its
    second `select`, and the redirection callback does not ignore the request. -/
def KeepsRequest (c : Client ρ) : ClientStep ρ → Prop
  | .enqueueQuit => False
  | .handle => ∀ req v, c.start = .handle req v → respAction v = .onRedirection →
      handleRedirection v.text ≠ .ignored
  | _ => True

/-- A step drops nothing exactly when it keeps the request in hand. -/
theorem Step.dropped_eq_nil_iff {c c' : Client ρ} {a : ClientStep ρ} (h : Step c a c') :
    c'.dropped = [] ↔ c.dropped = [] ∧ c.KeepsRequest a := by
  cases h with
  | enqueueQuit | handleIgnored hpos hact hredir => simp_all [KeepsRequest]
  | handlePanic hpos hact hredir | handleRedirect hpos hact hpanics hredir | handle hpos hact =>
    simp_all [KeepsRequest]
  | _ => simp [KeepsRequest]

/-- **Which taken requests are lost**: in a run at whose end `Start` has returned, every request
    taken by `loopWrite` is answered, dispatched again or still on `processingReqs` exactly
    when every step of the run keeps the request in hand. -/
theorem allTakenSettled_iff [DecidableEq ρ] {as : List (ClientStep ρ)} {c : Client ρ}
    (hrun : runFrom Client.step (newClient ρ) as = some c) (hdone : c.start = .done) :
    c.AllTakenSettled ↔ RunMeets Client.step KeepsRequest (newClient ρ) as := by
  rw [allTakenSettled_iff_dropped (account_of_run hrun) (staged_of_run hrun) hdone]
  constructor
  · intro hdropped
    have hback : ∀ (c : Client ρ) a c', True → c.step a = some c' → c'.dropped = [] →
        c.dropped = [] ∧ c.KeepsRequest a :=
      fun c a c' _ hstep => (step_cases hstep).dropped_eq_nil_iff.mp
    exact (runMeets_of_run (fun _ => True) (fun c => c.dropped = []) (fun _ _ _ _ _ => trivial)
      hback trivial hrun hdropped).2
  · intro hmeets
    have hstep : ∀ (c : Client ρ) a c', c.dropped = [] → c.KeepsRequest a → c.step a = some c' →
        c'.dropped = [] :=
      fun c a c' hc hok hstep => (step_cases hstep).dropped_eq_nil_iff.mpr ⟨hc, hok⟩
    exact invariant_of_runMeets hstep rfl hmeets hrun

/-- The client is stopped after the request was encoded, and `loopWrite` takes the `quit`
    case. -/
def lossRun : List (ClientStep Nat) :=
  [.send 0, .put 0, .take, .filterContinue (.bulkString none), .encode, .checkLen, .flush, .stop,
    .enqueueQuit, .writeExit, .decodeErr, .closeConn, .closeQuit, .waitWrite, .drainReturn,
    .closeDone]

theorem lossRun_loses : (runFrom Client.step (newClient Nat) lossRun).any fun c =>
    c.start.stage = 6 ∧ ¬ c.AllTakenSettled := by
  decide +kernel

theorem lossRun_isSome : (runFrom Client.step (newClient Nat) lossRun).isSome :=
  Option.isSome_of_any lossRun_loses

/-- The request of `lossRun` is neither answered nor queued when `Start` has returned. -/
theorem not_allTakenSettled_lossRun :
    ∃ c, Reachable Client.step (newClient Nat) c ∧ c.start = .done ∧ ¬ c.AllTakenSettled := by
  obtain ⟨c, hrun, hdone, hloss⟩ := exists_of_any lossRun_loses
  exact ⟨c, ⟨_, hrun⟩, ClientStart.stage_eq_six_iff.mp hdone, hloss⟩

theorem allTakenSettled_iff_lossRun :
    ((runFrom Client.step (newClient Nat) lossRun).get lossRun_isSome).AllTakenSettled ↔
      RunMeets Client.step KeepsRequest (newClient Nat) lossRun := by
  obtain ⟨c, hrun, hdone, -⟩ := exists_of_any lossRun_loses
  simp only [hrun, Option.get_some]
  exact allTakenSettled_iff hrun (ClientStart.stage_eq_six_iff.mp hdone)

/-! ## Requests passed to `Send` -/

/-- The step does not end `drainRequests` while a `Send` call is about to put its request. -/
def DrainsAll (c : Client ρ) (a : ClientStep ρ) : Prop :=
  a = .drainReturn → c.sending = []

/-- Behind `drainRequests` there is nothing on `pendingReqs` and no `Send` call puts anything
    there. -/
def Drained (c : Client ρ) : Prop :=
  5 ≤ c.start.stage → c.pendingReqs = [] ∧ c.sending = []

/-- No step that ends `drainRequests` too early leads to a drained state, and behind
    `drainRequests` requests only move from `sending` to `pendingReqs`. -/
theorem Step.drained_iff {c c' : Client ρ} {a : ClientStep ρ} (hs : Staged c) (h : Step c a c') :
    c'.Drained ↔ c.Drained ∧ c.DrainsAll a := by
  cases h with
  | drainReturn hpos hpending hprocessing => simp [Drained, DrainsAll, hpos, hpending]
  | put hsend hroom => simp [Drained, DrainsAll, hsend]
  | send hquit =>
    -- `Send` has found `quit` open, which is closed long before `drainRequests` returns
    have hstage : ¬ 5 ≤ c.start.stage := fun h => by simp [hs.quit (by omega)] at hquit
    simp [-ClientStart.stage, Drained, DrainsAll, hstage]
  | take hpos hqueue =>
    -- `loopWrite` has exited by then
    have hstage : ¬ 5 ≤ c.start.stage := fun h => by simp [hs.writeDone (by omega)] at hpos
    simp [-ClientStart.stage, Drained, DrainsAll, hstage]
  -- these steps do not touch `pendingReqs`
  | sendRefused | stop | connFail | answer => simp [Drained, DrainsAll]
  | _ hpos => simp [Drained, DrainsAll, hpos]

/-- When `Start` has returned, the account of the sent requests closes as soon as nothing is on
    its way to `loopWrite`. -/
theorem allSentSettled_iff_drained [DecidableEq ρ] {c : Client ρ} (hc : Account c)
    (hdone : c.start = .done) : c.AllSentSettled ↔ c.Drained := by
  have hdrained : c.Drained ↔ c.pendingReqs = [] ∧ c.sending = [] := by simp [Drained, hdone]
  rw [hdrained]
  constructor
  · exact fun h => ⟨h.1, h.2.1⟩
  · rintro ⟨hpending, hsending⟩
    refine ⟨hpending, hsending, List.perm_iff_count.mpr fun r => ?_⟩
    simpa [hpending, hsending, Nat.add_assoc] using hc.sent r

/-- **Which sent requests are left behind**: in a run at whose end `Start` has returned, every
    request passed to `Send` is answered by `Send`, taken by `loopWrite` or drained exactly
    when `drainRequests` did not return while a `Send` call was about to put its request. -/
theorem allSentSettled_iff [DecidableEq ρ] {as : List (ClientStep ρ)} {c : Client ρ}
    (hrun : runFrom Client.step (newClient ρ) as = some c) (hdone : c.start = .done) :
    c.AllSentSettled ↔ RunMeets Client.step DrainsAll (newClient ρ) as := by
  rw [allSentSettled_iff_drained (account_of_run hrun) hdone]
  have hkeep : ∀ (c : Client ρ) a c', c.Staged → c.step a = some c' → c'.Staged :=
    fun c a c' hs hstep => hs.step (step_cases hstep)
  constructor
  · intro hdrained
    have hback : ∀ (c : Client ρ) a c', c.Staged → c.step a = some c' → c'.Drained →
        c.Drained ∧ c.DrainsAll a :=
      fun c a c' hs hstep => ((step_cases hstep).drained_iff hs).mp
    exact (runMeets_of_run Staged Drained hkeep hback staged_newClient hrun hdrained).2
  · intro hmeets
    have hstep : ∀ (c : Client ρ) a c', c.Staged ∧ c.Drained → c.DrainsAll a →
        c.step a = some c' → c'.Staged ∧ c'.Drained :=
      fun c a c' hc hok hstep =>
        ⟨hkeep c a c' hc.1 hstep, ((step_cases hstep).drained_iff hc.1).mpr ⟨hc.2, hok⟩⟩
    exact (invariant_of_runMeets hstep ⟨staged_newClient, by simp [Drained, newClient]⟩ hmeets
      hrun).2

/-- The client is stopped between the two statements of a `Send` call. -/
def lateSendRun : List (ClientStep Nat) :=
  [.send 0, .stop, .writeQuit, .writeExit, .decodeErr, .closeConn, .closeQuit, .waitWrite,
    .drainReturn, .closeDone, .put 0]

theorem lateSendRun_loses : (runFrom Client.step (newClient Nat) lateSendRun).any fun c =>
    c.start.stage = 6 ∧ ¬ c.AllSentSettled := by
  decide +kernel

theorem lateSendRun_isSome : (runFrom Client.step (newClient Nat) lateSendRun).isSome :=
  Option.isSome_of_any lateSendRun_loses

/-- The request of `lateSendRun` sits on `pendingReqs` when `Start` has returned. -/
theorem not_allSentSettled_lateSendRun :
    ∃ c, Reachable Client.step (newClient Nat) c ∧ c.start = .done ∧ ¬ c.AllSentSettled := by
  obtain ⟨c, hrun, hdone, hloss⟩ := exists_of_any lateSendRun_loses
  exact ⟨c, ⟨_, hrun⟩, ClientStart.stage_eq_six_iff.mp hdone, hloss⟩

theorem allSentSettled_iff_lateSendRun :
    ((runFrom Client.step (newClient Nat) lateSendRun).get lateSendRun_isSome).AllSentSettled ↔
      RunMeets Client.step DrainsAll (newClient Nat) lateSendRun := by
  obtain ⟨c, hrun, hdone, -⟩ := exists_of_any lateSendRun_loses
  simp only [hrun, Option.get_some]
  exact allSentSettled_iff hrun (ClientStart.stage_eq_six_iff.mp hdone)

end Client

end Samaritan.Redis
