import Samaritan.Redis.Client

/-!
# Replies Go to Their Requests

Replies carry no identifier, so a client can only match them to requests by order. This module
shows that the match is right: while `loopRead` runs, the requests that were handed a reply,
then those on `processingReqs`, then the one `loopWrite` still has to put there, are the
requests whose bodies were encoded, in order. Requests that a filter answers never enter this
line, and a failed write ends it.
-/

namespace Samaritan.Redis

open Samaritan.Lib

namespace Client

variable {ρ : Type}

/-! ## Invariant -/

/-- The request `loopWrite` has encoded and not put on `processingReqs` yet. -/
def committing (c : Client ρ) : List ρ :=
  match c.loopWrite with
  | .checkLen req => [req]
  | .flush req => [req]
  | .enqueue req => [req]
  | _ => []

/-- `loopWrite` may still put a request on `processingReqs`. -/
def Writes (c : Client ρ) : Prop :=
  match c.loopWrite with
  | .fail _ _ => False
  | .returned => False
  | .exited => False
  | _ => True

/-- `loopRead` may still hand over a reply. -/
def Reads (c : Client ρ) : Prop :=
  match c.start with
  | .decode => True
  | .receive _ => True
  | .handle _ _ => True
  | .redirect => True
  | _ => False

/-- What holds of the order of bodies and replies in every state of a client. -/
structure Aligned (c : Client ρ) : Prop where
  /-- replies are handed over in the order of the bodies -/
  handed : c.handed.map Prod.fst <+: c.encoded.map Prod.fst
  /-- then it is the turn of `processingReqs` -/
  queued : c.Reads → c.handed.map Prod.fst ++ c.processingReqs <+: c.encoded.map Prod.fst
  /-- then of the request `loopWrite` is about to put there, and there are no others -/
  all : c.Reads → c.Writes →
    c.handed.map Prod.fst ++ c.processingReqs ++ c.committing = c.encoded.map Prod.fst
  /-- the replies are decoded in the order in which the backend gave them -/
  decoded : c.decoded <+: c.answers
  /-- the reply in `handleResp` is recorded as handed over -/
  handling : ∀ req v, c.start = .handle req v → (req, v) ∈ c.handed
  /-- a request gets no reply but the one it was handed -/
  settled : ∀ req v, (req, .replied v) ∈ c.settled ∨ (req, .redirected v) ∈ c.settled →
    (req, v) ∈ c.handed

theorem aligned_newClient : Aligned (newClient ρ) where
  handed := by simp [newClient]
  queued := by simp [newClient]
  all := by simp [newClient, committing]
  decoded := by simp [newClient, Client.decoded]
  handling := by simp [newClient]
  settled := by simp [newClient]

/-- The goroutine of `Start` may leave `loopRead` and go on with the shutdown. -/
theorem Aligned.leave {c : Client ρ} (hc : Aligned c) (p : ClientStart ρ)
    (hreads : ¬ ({ c with start := p } : Client ρ).Reads)
    (hdecoded : ({ c with start := p } : Client ρ).decoded = c.decoded) :
    Aligned { c with start := p } := by
  exact { hc with
    queued := fun h => absurd h hreads
    all := fun h => absurd h hreads
    decoded := by rw [hdecoded]; exact hc.decoded
    handling := by
      rintro req v rfl
      exact absurd trivial hreads }

/-- `loopRead` goes on with no reply in hand. -/
theorem Aligned.stay {c : Client ρ} (hc : Aligned c) (hreads : c.Reads) (p : ClientStart ρ)
    (hdecoded : ({ c with start := p } : Client ρ).decoded = c.decoded)
    (hp : ∀ req v, p ≠ .handle req v) : Aligned { c with start := p } := by
  exact { hc with
    queued := fun _ => hc.queued hreads
    all := fun _ => hc.all hreads
    decoded := by rw [hdecoded]; exact hc.decoded
    handling := fun req v h => absurd h (hp req v) }

/-- A body that is encoded comes behind those that are handed over or queued. -/
theorem Aligned.appendEncoded {c : Client ρ} (hc : Aligned c) (e : ρ × RespValue) :
    c.handed.map Prod.fst <+: (c.encoded ++ [e]).map Prod.fst ∧
      (c.Reads → c.handed.map Prod.fst ++ c.processingReqs <+:
        (c.encoded ++ [e]).map Prod.fst) := by
  rw [List.map_append]
  exact ⟨hc.handed.trans (List.prefix_append _ _),
    fun hreads => (hc.queued hreads).trans (List.prefix_append _ _)⟩

/-- Every step keeps bodies and replies aligned. -/
theorem Aligned.step {c c' : Client ρ} {a : ClientStep ρ} (hc : Aligned c) (h : Step c a c') :
    Aligned c' := by
  cases h with
  | sendRefused hquit => exact { hc with settled := by simpa using hc.settled }
  | send | put | stop | connFail => exact { hc with }
  -- `loopWrite` does not write any more
  | writeQuit | flushErr | enqueueQuit | writeExit => exact { hc with all := by simp [Writes] }
  -- `loopWrite` goes on, with the same request for `processingReqs` or with none
  | take hpos | filterContinue hpos | checkLenEmpty hpos | checkLen hpos | flush hpos =>
    exact { hc with all := by simpa [Reads, Writes, committing, hpos] using hc.all }
  | filterStop hpos =>
    exact { hc with
      all := by simpa [Reads, Writes, committing, hpos] using hc.all
      settled := by simpa using hc.settled }
  | encode hpos hok =>
    exact { hc with
      handed := (hc.appendEncoded _).1
      queued := (hc.appendEncoded _).2
      all := by
        intro hreads _
        -- before, `loopWrite` had nothing to put on `processingReqs`
        have hall := hc.all hreads (by simp [Writes, hpos])
        simp only [committing, hpos, List.append_nil] at hall
        simp [committing, ← hall] }
  | encodeErr hpos herr =>
    exact { hc with
      handed := (hc.appendEncoded _).1
      queued := (hc.appendEncoded _).2
      all := by simp [Writes] }
  | @enqueue req hpos hroom =>
    have hall : c.Reads → c.handed.map Prod.fst ++ (c.processingReqs ++ [req]) =
        c.encoded.map Prod.fst := by
      simpa [Writes, committing, hpos] using hc.all
    exact { hc with
      queued := fun hreads => by rw [hall hreads]
      all := fun hreads _ => by simpa [committing] using hall hreads }
  | fail hpos =>
    exact { hc with
      all := by simp [Writes]
      settled := by simpa using hc.settled }
  | answer hlen harrived =>
    exact { hc with decoded := hc.decoded.trans (List.prefix_append _ _) }
  | decode hpos hnext =>
    exact { hc with
      queued := by simpa [Reads, hpos] using hc.queued
      all := by simpa [Reads, Writes, committing, hpos] using hc.all
      decoded := by
        -- the next reply extends the decoded ones
        obtain ⟨l, hl⟩ := hc.decoded
        rw [← hl, List.getElem?_append_right (le_refl _), Nat.sub_self] at hnext
        cases l with
        | nil => cases hnext
        | cons w l =>
          cases hnext
          exact ⟨l, by simp [Client.decoded, hpos, ← hl]⟩
      handling := by simp }
  | decodeErr hpos =>
    exact hc.leave .returned (by simp [Reads]) (by simp [Client.decoded, hpos])
  | receive hpos hqueue =>
    -- the front of the queue joins those that were handed a reply, in the same place of the line
    exact { hc with
      handed := by
        have hqueued := hc.queued (by simp [Reads, hpos])
        rw [hqueue] at hqueued
        refine List.IsPrefix.trans ?_ hqueued
        simp
      queued := by simpa [Reads, hpos, hqueue] using hc.queued
      all := by simpa [Reads, Writes, committing, hpos, hqueue] using hc.all
      decoded := by simpa [Client.decoded, hpos] using hc.decoded
      handling := by simp
      settled := fun r w hw => List.mem_append_left _ (hc.settled r w hw) }
  | @handlePanic req v hpos hact hredir =>
    exact hc.leave (.panicked req) (by simp [Reads]) (by simp [Client.decoded, hpos])
  | handleIgnored hpos hact hredir =>
    exact { hc.stay (by simp [Reads, hpos]) .redirect (by simp [Client.decoded, hpos])
      (by simp) with }
  | handleRedirect hpos hact hpanics hignored =>
    exact { hc.stay (by simp [Reads, hpos]) .redirect (by simp [Client.decoded, hpos])
        (by simp) with
      settled := by
        intro r w hw
        simp only [List.mem_append, List.mem_singleton, Prod.mk.injEq, reduceCtorEq, and_false,
          or_false, Outcome.redirected.injEq] at hw
        rcases hw with hw | hw | ⟨rfl, rfl⟩
        · exact hc.settled r w (.inl hw)
        · exact hc.settled r w (.inr hw)
        · exact hc.handling r w hpos }
  | handle hpos hact =>
    exact { hc.stay (by simp [Reads, hpos]) .decode (by simp [Client.decoded, hpos])
        (by simp) with
      settled := by
        intro r w hw
        simp only [List.mem_append, List.mem_singleton, Prod.mk.injEq, reduceCtorEq, and_false,
          or_false, Outcome.replied.injEq] at hw
        rcases hw with (hw | ⟨rfl, rfl⟩) | hw
        · exact hc.settled r w (.inl hw)
        · exact hc.handling r w hpos
        · exact hc.settled r w (.inr hw) }
  | redirected hpos =>
    exact hc.stay (by simp [Reads, hpos]) .decode (by simp [Client.decoded, hpos]) (by simp)
  | closeConn hpos =>
    exact { hc.leave .quitting (by simp [Reads]) (by simp [Client.decoded, hpos]) with }
  | closeQuit hpos =>
    exact { hc.leave .waitWrite (by simp [Reads]) (by simp [Client.decoded, hpos]) with }
  | waitWrite hpos hwrite =>
    exact hc.leave .drain (by simp [Reads]) (by simp [Client.decoded, hpos])
  | drainPending hpos hqueue =>
    exact { hc with settled := by simpa using hc.settled }
  | drainProcessing hpos hqueue =>
    exact { hc with
      queued := by simp [Reads, hpos]
      all := by simp [Reads, hpos]
      settled := by simpa using hc.settled }
  | drainReturn hpos hpending hprocessing =>
    exact hc.leave .drained (by simp [Reads]) (by simp [Client.decoded, hpos])
  | closeDone hpos =>
    exact hc.leave .done (by simp [Reads]) (by simp [Client.decoded, hpos])

theorem aligned_of_reachable [DecidableEq ρ] {c : Client ρ}
    (h : Reachable Client.step (newClient ρ) c) : Aligned c :=
  invariant_of_reachable (fun _ _ _ hc hstep => hc.step (step_cases hstep)) aligned_newClient h

/-! ## Every reply goes to its request -/

theorem getElem?_of_isPrefix {α : Type} {l₁ l₂ : List α} {k : Nat} {x : α} (h : l₁ <+: l₂)
    (hx : l₁[k]? = some x) : l₂[k]? = some x := by
  obtain ⟨hk, rfl⟩ := List.getElem?_eq_some_iff.mp hx
  exact List.prefix_iff_getElem?.mp h k hk

/-- **Replies are matched to requests**: the `k`-th reply `loopRead` hands over is the backend's
    answer to the `k`-th body encoded, and it is handed to the request of this body. No request
    is answered with, or redirected by, any other reply. -/
theorem replies_matched [DecidableEq ρ] {c : Client ρ}
    (h : Reachable Client.step (newClient ρ) c) :
    (∀ (k : Nat) req v, c.handed[k]? = some (req, v) →
      (∃ body, c.encoded[k]? = some (req, body)) ∧ c.answers[k]? = some v) ∧
    ∀ req v, (req, .replied v) ∈ c.settled ∨ (req, .redirected v) ∈ c.settled →
      ∃ (k : Nat) (body : RespValue), c.handed[k]? = some (req, v) ∧
        c.encoded[k]? = some (req, body) ∧ c.answers[k]? = some v := by
  have hc := aligned_of_reachable h
  have hmatch : ∀ (k : Nat) req v, c.handed[k]? = some (req, v) →
      (∃ body, c.encoded[k]? = some (req, body)) ∧ c.answers[k]? = some v := by
    intro k req v hk
    constructor
    · have hreq := getElem?_of_isPrefix hc.handed (k := k) (x := req) (by simp [hk])
      obtain ⟨⟨r, body⟩, hbody, rfl⟩ : ∃ e, c.encoded[k]? = some e ∧ e.1 = req := by
        simpa using hreq
      exact ⟨body, hbody⟩
    · have hhanded : c.handed.map Prod.snd <+: c.answers :=
        List.IsPrefix.trans (List.prefix_append _ _) hc.decoded
      exact getElem?_of_isPrefix hhanded (by simp [hk])
  refine ⟨hmatch, fun req v hv => ?_⟩
  obtain ⟨k, hk⟩ := List.mem_iff_getElem?.mp (hc.settled req v hv)
  obtain ⟨⟨body, hbody⟩, hanswer⟩ := hmatch k req v hk
  exact ⟨k, body, hk, hbody, hanswer⟩

/-- Three requests; a filter answers the second one, and the reply to the third one is decoded
    before this request is on `processingReqs`. -/
def pipelineRun : List (ClientStep Nat) :=
  [.send 0, .put 0, .send 1, .put 1, .send 2, .put 2,
    .take, .filterContinue (.bulkString (some (bytesOf "a"))), .encode, .checkLen, .enqueue,
    .take, .filterStop,
    .take, .filterContinue (.bulkString (some (bytesOf "b"))), .encode, .checkLen, .flush,
    .answer (.integer 1), .answer (.integer 2), .decode, .receive, .handle, .decode,
    .enqueue, .receive, .handle]

theorem pipelineRun_handed : (runFrom Client.step (newClient Nat) pipelineRun).any fun c =>
    c.handed.map Prod.fst = [0, 2] := by
  decide +kernel

theorem pipelineRun_isSome : (runFrom Client.step (newClient Nat) pipelineRun).isSome :=
  Option.isSome_of_any pipelineRun_handed

theorem replies_matched_pipelineRun :
    ((runFrom Client.step (newClient Nat) pipelineRun).get pipelineRun_isSome).handed.map
        Prod.fst = [0, 2] ∧
      ∀ (k : Nat) req v,
        ((runFrom Client.step (newClient Nat) pipelineRun).get pipelineRun_isSome).handed[k]? =
          some (req, v) →
        (∃ body, ((runFrom Client.step (newClient Nat) pipelineRun).get
          pipelineRun_isSome).encoded[k]? = some (req, body)) ∧
        ((runFrom Client.step (newClient Nat) pipelineRun).get
          pipelineRun_isSome).answers[k]? = some v := by
  obtain ⟨c, hrun, hhanded⟩ := exists_of_any pipelineRun_handed
  simp only [hrun, Option.get_some]
  exact ⟨hhanded, (replies_matched ⟨_, hrun⟩).1⟩

end Client

end Samaritan.Redis
