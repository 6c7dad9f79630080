import Samaritan.Lib.Ownership
import Samaritan.Redis.ClientStream
import Samaritan.Redis.Routing
import Samaritan.Redis.SystemAsking

/-!
# Program Order on a Key

A session does not wait for the answer to a command before it dispatches the next one. Two
commands on one key are executed in their order as long as both go through one client, whose
queues and whose connection are first in, first out. A redirection takes the first one out of this
line, and a change of the table of slots sends the second one to another client.

The machine of this module is the proxy with the table of slots. It keeps two histories: the
command each simple request carries, and the simple requests the nodes have executed. A node
executes a command when it answers it with anything but a redirection. Which keys a command writes
is for the nodes to say: it is a parameter, and may be more than the key by which the command is
routed (`RPOPLPUSH`, `EVAL`) or nothing at all.
-/

namespace Samaritan.Redis

open Samaritan.Lib

/-- The reply sends the request to another node. -/
def isRedirection (v : RespValue) : Bool := respAction v = .onRedirection

/-! ## Requests of a client that may still be executed -/

/-- The reply in the hands of `loopRead` sends the request to another node. -/
def ClientStart.redirecting {ρ : Type} : ClientStart ρ → List ρ
  | .handle req v => if isRedirection v then [req] else []
  | _ => []

/-- The request that the filters are about to stop. -/
def ClientWrite.filtering {ρ : Type} : ClientWrite ρ → List ρ
  | .filter req => [req]
  | _ => []

namespace Client

variable {ρ : Type}

/-- The written requests without those that were executed. -/
def unexecuted : List ρ → List RespValue → List ρ
  | reqs, [] => reqs
  | [], _ :: _ => []
  | req :: reqs, v :: vs =>
    if isRedirection v then req :: unexecuted reqs vs else unexecuted reqs vs

/-- The reply behind others is that to the request behind theirs. -/
theorem unexecuted_append {l₁ : List ρ} {vs : List RespValue} (l₂ : List ρ)
    (h : l₁.length = vs.length) (ws : List RespValue) :
    unexecuted (l₁ ++ l₂) (vs ++ ws) = unexecuted l₁ vs ++ unexecuted l₂ ws := by
  induction vs generalizing l₁ with
  | nil =>
    obtain rfl := List.length_eq_zero_iff.mp h
    simp [unexecuted]
  | cons v vs ih =>
    cases l₁ with
    | nil => simp at h
    | cons r l₁ =>
      simp only [List.cons_append, unexecuted, ih (Nat.succ.inj h)]
      split <;> rfl

/-- The requests behind those that are answered are not executed. -/
theorem unexecuted_eq {reqs : List ρ} {vs : List RespValue} (h : vs.length ≤ reqs.length) :
    unexecuted reqs vs = unexecuted (reqs.take vs.length) vs ++ reqs.drop vs.length := by
  have hlen : (reqs.take vs.length).length = vs.length := by simpa using h
  have happend := unexecuted_append (reqs.drop vs.length) hlen []
  rwa [List.take_append_drop, List.append_nil, unexecuted] at happend

theorem unexecuted_append_req {reqs : List ρ} {vs : List RespValue} (h : vs.length ≤ reqs.length)
    (req : ρ) : unexecuted (reqs ++ [req]) vs = unexecuted reqs vs ++ [req] := by
  have h' : vs.length ≤ (reqs ++ [req]).length := by simp; omega
  rw [unexecuted_eq h, unexecuted_eq h', List.take_append_of_le_length h,
    List.drop_append_of_le_length h, List.append_assoc]

/-- The requests of a client that may still be executed: those whose redirection is not handled
    yet, those that are written and not answered, and those that are going to be written. -/
def underWay (c : Client ρ) : List ρ :=
  c.start.redirecting ++
    unexecuted ((c.encoded.map Prod.fst).drop c.handed.length) (c.answers.drop c.handed.length) ++
    c.loopWrite.toWrite c.pendingReqs

end Client

/-- The requests that a step takes out of this list: they are executed, dispatched again or stopped
    by the filters. -/
def ClientStep.leaves {ρ : Type} (c : Client ρ) : ClientStep ρ → List ρ
  | .answer v =>
    if isRedirection v then [] else (c.encoded[c.answers.length]?).toList.map Prod.fst
  | .handle => c.start.redirecting
  | .filterStop => c.loopWrite.filtering
  | _ => []

/-- The requests that a step adds. -/
def ClientStep.puts {ρ : Type} : ClientStep ρ → List ρ
  | .put req => [req]
  | _ => []

namespace Client

variable {ρ : Type}

/-- What the list of requests under way needs of a client. -/
structure InOrder (c : Client ρ) : Prop where
  aligned : Aligned c
  staged : Staged c
  streamed : Streamed c

theorem InOrder.step {c c' : Client ρ} {a : ClientStep ρ} (hc : InOrder c) (h : Step c a c') :
    InOrder c' :=
  ⟨hc.aligned.step h, hc.staged.step h, hc.streamed.step h⟩

theorem inOrder_connect (item : Item) : InOrder (connect item) := by
  have hrun := connect_eq item
  have hstep : ∀ (c : Client Item) a c', InOrder c → c.step a = some c' → InOrder c' :=
    fun _ _ _ hc h => hc.step (step_cases h)
  exact invariant_of_run hstep ⟨aligned_newClient, staged_newClient, streamed_newClient⟩ hrun

theorem InOrder.handed_le_answers {c : Client ρ} (hc : InOrder c) :
    c.handed.length ≤ c.answers.length := by
  have hle := hc.aligned.decoded.length_le
  simp only [decoded, List.length_append, List.length_map] at hle
  omega

theorem InOrder.length_le {c : Client ρ} (hc : InOrder c) :
    (c.answers.drop c.handed.length).length ≤
      ((c.encoded.map Prod.fst).drop c.handed.length).length := by
  have hle := hc.streamed.answers_le
  simp only [List.length_drop, List.length_map]
  omega

/-- The front of `processingReqs` is the request to which the next reply belongs. -/
theorem InOrder.next_reply {c : Client ρ} (hc : InOrder c) {req : ρ} {rest : List ρ}
    {v : RespValue} (hpos : c.start = .receive v) (hqueue : c.processingReqs = req :: rest) :
    (c.encoded.map Prod.fst).drop c.handed.length =
        req :: (c.encoded.map Prod.fst).drop (c.handed.length + 1) ∧
      c.answers.drop c.handed.length = v :: c.answers.drop (c.handed.length + 1) := by
  obtain ⟨l, hl⟩ := hc.aligned.queued (by simp [Reads, hpos])
  obtain ⟨l', hl'⟩ := hc.aligned.decoded
  constructor
  · rw [← hl, hqueue]
    simp [List.drop_append]
  · rw [← hl']
    simp [decoded, hpos, List.drop_append]

theorem InOrder.handed_le_encoded {c : Client ρ} (hc : InOrder c) :
    c.handed.length ≤ c.encoded.length :=
  hc.handed_le_answers.trans hc.streamed.answers_le

/-- A request that is written comes last. -/
theorem InOrder.unexecuted_encode {c : Client ρ} (hc : InOrder c) (e : ρ × RespValue) :
    unexecuted (((c.encoded ++ [e]).map Prod.fst).drop c.handed.length)
        (c.answers.drop c.handed.length) =
      unexecuted ((c.encoded.map Prod.fst).drop c.handed.length)
        (c.answers.drop c.handed.length) ++ [e.1] := by
  have hle : c.handed.length ≤ (c.encoded.map Prod.fst).length := by
    simpa using hc.handed_le_encoded
  rw [List.map_append, List.drop_append_of_le_length hle]
  exact unexecuted_append_req hc.length_le e.1

/-- The next reply is that to the first request that is not answered. -/
theorem InOrder.unexecuted_answer {c : Client ρ} (hc : InOrder c)
    (hlen : c.answers.length < c.encoded.length) (v : RespValue) :
    ∃ l₁ e l₂, c.encoded[c.answers.length]? = some e ∧
      unexecuted ((c.encoded.map Prod.fst).drop c.handed.length)
        (c.answers.drop c.handed.length) = l₁ ++ e.1 :: l₂ ∧
      unexecuted ((c.encoded.map Prod.fst).drop c.handed.length)
        ((c.answers ++ [v]).drop c.handed.length) =
          l₁ ++ (if isRedirection v then [e.1] else []) ++ l₂ := by
  have hle := hc.handed_le_answers
  set vs := c.answers.drop c.handed.length with hvs
  set reqs := (c.encoded.map Prod.fst).drop c.handed.length with hreqs
  have hlt : vs.length < reqs.length := by
    simp only [hvs, hreqs, List.length_drop, List.length_map]
    omega
  -- the first unanswered request stands behind as many as there are replies
  have hnext : reqs.drop vs.length =
      c.encoded[c.answers.length].1 :: reqs.drop (vs.length + 1) := by
    rw [List.drop_eq_getElem_cons hlt]
    simp [hvs, hreqs, Nat.add_sub_cancel' hle]
  have htake : (reqs.take vs.length).length = vs.length := by
    simpa using hlt.le
  refine ⟨unexecuted (reqs.take vs.length) vs, c.encoded[c.answers.length],
    reqs.drop (vs.length + 1), List.getElem?_eq_getElem hlen, ?_, ?_⟩
  · rw [unexecuted_eq hlt.le, hnext]
  · rw [List.drop_append_of_le_length hle, ← hvs]
    have happend := unexecuted_append (reqs.drop vs.length) htake [v]
    rw [List.take_append_drop, hnext] at happend
    rw [happend, List.append_assoc]
    congr 1
    simp only [unexecuted]
    split <;> rfl

/-- The requests under way, counted by where they are. -/
theorem count_underWay (c : Client ρ) (f : ρ → Nat) (x : Nat) :
    (c.underWay.map f).count x = (c.start.redirecting.map f).count x +
      ((unexecuted ((c.encoded.map Prod.fst).drop c.handed.length)
        (c.answers.drop c.handed.length)).map f).count x +
      ((c.loopWrite.toWrite c.pendingReqs).map f).count x := by
  simp [underWay, Nat.add_assoc]

/-- **One step**: a request comes into the list by being put on the queue of the client, and leaves
    it by being executed, dispatched again or stopped by the filters. -/
theorem Step.count_underWay_le {c c' : Client ρ} {a : ClientStep ρ} (hc : InOrder c)
    (h : Step c a c') (f : ρ → Nat) (x : Nat) :
    (c'.underWay.map f).count x + ((a.leaves c).map f).count x ≤
      (c.underWay.map f).count x + (a.puts.map f).count x := by
  simp only [count_underWay]
  -- a request is with the read loop, written and not executed, or still to be written
  cases h with
  | @put l₁ l₂ req hsend hroom =>
    cases hpos : c.loopWrite <;>
      simp [ClientStep.leaves, ClientStep.puts, ClientWrite.toWrite, List.count_cons] <;> omega
  | take hpos hqueue =>
    simp [hpos, hqueue, ClientStep.leaves, ClientStep.puts, ClientWrite.toWrite]
  | filterStop hpos =>
    simp [hpos, ClientStep.leaves, ClientStep.puts, ClientWrite.toWrite, ClientWrite.filtering,
      List.count_cons]
    omega
  | encode hpos hok | encodeErr hpos hok =>
    rw [hc.unexecuted_encode]
    simp [hpos, ClientStep.leaves, ClientStep.puts, ClientWrite.toWrite, List.count_cons]
    omega
  -- the first request without a reply is executed, unless the reply is a redirection
  | @answer v hlen harrived =>
    obtain ⟨l₁, e, l₂, he, hbefore, hafter⟩ := hc.unexecuted_answer hlen v
    simp only [hbefore, hafter, he, ClientStep.leaves, ClientStep.puts]
    split
    · simp [List.count_cons]
    · simp [List.count_cons]
      omega
  -- a redirected request comes to the read loop, and any other was executed before
  | @receive req rest v hpos hqueue =>
    obtain ⟨hreqs, hvs⟩ := hc.next_reply hpos hqueue
    simp only [hpos, hreqs, hvs, unexecuted, ClientStart.redirecting, ClientStep.leaves,
      ClientStep.puts, List.length_append, List.length_cons, List.length_nil]
    split
    · simp [List.count_cons]
      omega
    · simp
  | handlePanic hpos hact | handleIgnored hpos hact | handleRedirect hpos hact | handle hpos hact =>
    simp [hpos, ClientStep.leaves, ClientStep.puts, ClientStart.redirecting]
    omega
  -- `drainRequests` runs behind the end of `loopWrite`, which writes nothing any more
  | drainPending hpos hqueue =>
    have hexited : c.loopWrite = .exited := hc.staged.writeDone (by simp [hpos])
    simp [hexited, hpos, ClientStep.leaves, ClientStep.puts, ClientWrite.toWrite,
      ClientStart.redirecting]
  | writeQuit hpos | filterContinue hpos | checkLenEmpty hpos | checkLen hpos | flush hpos
  | flushErr hpos | enqueue hpos | enqueueQuit hpos | fail hpos | writeExit hpos =>
    simp [hpos, ClientStep.leaves, ClientStep.puts, ClientWrite.toWrite]
  | decode hpos | decodeErr hpos | redirected hpos | closeConn hpos | closeQuit hpos
  | waitWrite hpos | drainProcessing hpos | drainReturn hpos | closeDone hpos =>
    simp [hpos, ClientStep.leaves, ClientStep.puts, ClientStart.redirecting]
  | sendRefused | send | stop | connFail => simp [ClientStep.leaves, ClientStep.puts]

/-- A request is handed to the redirection callback in one step only. -/
theorem Step.handle_of_redirected {c c' : Client ρ} {a : ClientStep ρ} (h : Step c a c') {req : ρ}
    {v : RespValue} (hsettled : c'.settled = c.settled ++ [(req, .redirected v)]) :
    a = .handle ∧ c.start.redirecting = [req] := by
  cases h with
  | handleRedirect hpos hact =>
    obtain ⟨rfl, rfl⟩ : _ = req ∧ _ = v := by simpa using hsettled
    exact ⟨rfl, by simp [hpos, ClientStart.redirecting, isRedirection, hact]⟩
  | _ => simp at hsettled

end Client

/-! ## The line of a client -/

namespace Client

/-- A request that is not answered may still be executed. -/
theorem InOrder.mem_underWay {c : Client Item} (hc : InOrder c) {l₁ l₂ : List Item} {y : Item}
    (hline : c.line = l₁ ++ y :: l₂) (hlen : c.answers.length ≤ l₁.length) : y ∈ c.underWay := by
  have hmem : y ∈ c.line.drop c.answers.length := by
    rw [hline, List.drop_append_of_le_length hlen]
    simp
  have hle : c.answers.length ≤ (c.encoded.map Prod.fst).length := by
    simpa using hc.streamed.answers_le
  rw [line, List.drop_append_of_le_length hle, List.mem_append] at hmem
  have hdrop : (c.answers.drop c.handed.length).length + c.handed.length = c.answers.length := by
    have := hc.handed_le_answers
    simp only [List.length_drop]
    omega
  rw [underWay, unexecuted_eq hc.length_le, List.drop_drop, Nat.add_comm, hdrop]
  simp only [List.mem_append]
  tauto

/-- The requests that `P` relates to a request that is not answered are ahead of it. -/
def Ahead (P : Nat → Nat → Prop) (c : Client Item) : Prop :=
  ∀ l₁ y l₂, c.line = l₁ ++ y :: l₂ → c.answers.length ≤ l₁.length →
    ∀ x, P x y.req → x ∈ l₁.map Item.req

theorem Ahead.mono {P Q : Nat → Nat → Prop} {c : Client Item} (h : Ahead P c) (hc : InOrder c)
    (himp : ∀ x y, y ∈ c.underWay → Q x y.req → P x y.req) : Ahead Q c :=
  fun l₁ y l₂ hline hlen x hx =>
    h l₁ y l₂ hline hlen x (himp x y (hc.mem_underWay hline hlen) hx)

/-- A command that is answered with anything but a redirection is executed. -/
def Answered (executed : List Nat) (c : Client Item) : Prop :=
  ∀ (j : Nat) e v, c.encoded[j]? = some e → c.answers[j]? = some v → isRedirection v = false →
    e.1.req ∈ executed

/-- How a written request comes to be answered. -/
theorem Step.answered_cases {ρ : Type} {c c' : Client ρ} {a : ClientStep ρ} (h : Step c a c')
    (hle : c.answers.length ≤ c.encoded.length) {j : Nat} {e : ρ × RespValue} {v : RespValue}
    (he : c'.encoded[j]? = some e) (hv : c'.answers[j]? = some v) :
    c.encoded[j]? = some e ∧ c.answers[j]? = some v ∨
      a = .answer v ∧ j = c.answers.length ∧ c.encoded[j]? = some e := by
  cases h with
  | encode | encodeErr =>
    -- the request that is written now has no answer yet
    have hj : j < c.encoded.length := (List.getElem?_eq_some_iff.mp hv).1.trans_le hle
    rw [List.getElem?_append_left hj] at he
    exact .inl ⟨he, hv⟩
  | answer =>
    rcases Nat.lt_or_ge j c.answers.length with hj | hj
    · rw [List.getElem?_append_left hj] at hv
      exact .inl ⟨he, hv⟩
    · rw [List.getElem?_append_right hj] at hv
      obtain ⟨hlt, rfl⟩ := List.getElem?_eq_some_iff.mp hv
      simp only [List.length_cons, List.length_nil] at hlt
      obtain rfl : j = c.answers.length := by omega
      exact .inr ⟨by simp, rfl, he⟩
  | _ => exact .inl ⟨he, hv⟩

theorem Step.answers_length_le {ρ : Type} {c c' : Client ρ} {a : ClientStep ρ} (h : Step c a c') :
    c.answers.length ≤ c'.answers.length := by
  cases h <;> simp

/-- **One step** of a client keeps the requests ahead, when those that come are put behind them and
    none of them is stopped by the filters. -/
theorem Ahead.step {P : Nat → Nat → Prop} {c c' : Client Item} {a : ClientStep Item}
    (h : Ahead P c) (hc : InOrder c) (hstep : Step c a c')
    (hput : ∀ item, a = .put item → c.loopWrite.active = true →
      ∀ x, P x item.req → x ∈ c.line.map Item.req)
    (hstop : ∀ item, a = .filterStop → c.loopWrite = .filter item → ∀ y, ¬ P item.req y) :
    Ahead P c' := by
  intro l₁ y l₂ hline hlen x hx
  have hlen' := hstep.answers_length_le.trans hlen
  rcases hstep.line_cases hc.staged with hpre | ⟨item, rfl, hactive, hline'⟩ |
    ⟨m₁, item, m₂, rfl, hpos, hold, hnew⟩
  · obtain ⟨l, hl⟩ := hpre
    rw [hline] at hl
    exact h l₁ y (l₂ ++ l) (by rw [← hl]; simp) hlen' x hx
  · rw [hline'] at hline
    rcases List.eq_nil_or_concat l₂ with rfl | ⟨l, z, rfl⟩
    -- the request that was put is the last one
    · obtain ⟨rfl, hy⟩ := List.append_inj' hline rfl
      obtain rfl : item = y := by simpa using hy
      exact hput item rfl hactive x hx
    · rw [List.concat_eq_append, ← List.cons_append, ← List.append_assoc] at hline
      obtain ⟨hline, -⟩ := List.append_inj' hline rfl
      exact h l₁ y l hline hlen' x hx
  · rw [hnew] at hline
    -- a request behind the one that is stopped had it ahead
    have hbehind : ∀ l, l₁ = m₁ ++ l → m₂ = l ++ y :: l₂ → x ∈ l₁.map Item.req := by
      rintro l rfl rfl
      have hmem := h (m₁ ++ item :: l) y l₂ (by rw [hold]; simp)
        (by simp only [List.length_append, List.length_cons] at hlen' ⊢; omega) x hx
      simp only [List.map_append, List.map_cons, List.mem_append, List.mem_cons] at hmem ⊢
      rcases hmem with hmem | rfl | hmem
      · exact .inl hmem
      · exact absurd hx (hstop item rfl hpos y.req)
      · exact .inr hmem
    rcases List.append_eq_append_iff.mp hline with ⟨l, hl₁, hm₂⟩ | ⟨l, hm₁, hl₂⟩
    · exact hbehind l hl₁ hm₂
    · cases l with
      | nil => exact hbehind [] (by simpa using hm₁.symm) hl₂.symm
      | cons z l =>
        obtain ⟨rfl, rfl⟩ : y = z ∧ l₂ = l ++ m₂ := by simpa using hl₂
        exact h l₁ y (l ++ item :: m₂) (by rw [hold, hm₁]; simp) hlen' x hx

end Client

/-! ## The proxy with its table of slots -/

/-- The command of a simple request: the session that sent it and its body. -/
structure Origin where
  session : Nat
  body : RespValue

def Route.origin (n : Nat) (req : SimpleRequest) : Route → Option Origin
  | .key _ => some ⟨n, req.body⟩
  | .host _ => none

/-- The proxy, the table of slots and the histories. -/
structure Routed where
  sys : System
  slots : Nat → Option Instance
  /-- the commands of the simple requests; the proxy makes some by itself -/
  origins : List (Option Origin)
  /-- the simple requests, in the order in which the nodes executed them -/
  executed : List Nat

/-- A proxy that has just started. -/
def newRouted : Routed where
  sys := newSystem
  slots := fun _ => none
  origins := []
  executed := []

inductive RoutedStep where
  /-- `chooseHost` returns, with the result of `randomHost` and the time -/
  | choose (k : Caller) (randomHost : Option Bytes) (now : Nat)
  /-- `doSlotsRefresh` sets an entry of the table -/
  | setSlot (slot : Nat) (inst : Instance)
  /-- any other step of the proxy -/
  | proxy (a : SystemStep)

/-- The origins of the simple requests that a step makes. -/
def SystemStep.origins (made : Nat) : SystemStep → List (Option Origin)
  | .request n env body =>
    match handleRequest env body with
    | .split _ children => children.map fun c => c.1.origin n c.2
    | .respond _ => []
  | _ => List.replicate made none

def SystemStep.chooses : SystemStep → Bool
  | .choose _ _ => true
  | _ => false

/-- The simple requests that a step executes. -/
def SystemStep.executes (s : System) : SystemStep → List Nat
  | .client c (.answer v) =>
    ((s.clients c).elim [] (ClientStep.answer v).leaves).map Item.req
  | _ => []

namespace Routed

/-- The effect of one step; `none` when it is not enabled. The read strategy is `MASTER`. -/
def step (r : Routed) : RoutedStep → Option Routed
  | .choose k randomHost now =>
    match r.sys.callers k with
    | ⟨item, .choose key⟩ :: _ =>
      -- `IsReadOnly` reads the body of the command
      match r.origins[item.req]? with
      | some (some o) =>
        (r.sys.step (.choose k (chooseHost r.slots .master randomHost now key o.body))).map
          fun s => { r with sys := s }
      | _ => none
    | _ => none
  | .setSlot slot inst =>
    if slot < slotNum then some { r with slots := Function.update r.slots slot (some inst) }
    else none
  | .proxy a =>
    -- the choice of a host is left to the table
    if a.chooses then none
    else
      (r.sys.step a).map fun s =>
        { r with
          sys := s
          origins := r.origins ++ a.origins (s.simples.length - r.sys.simples.length)
          executed := r.executed ++ a.executes r.sys }

/-- A step sets an entry of the table of slots, or is a step of the proxy. -/
theorem step_cases {r r' : Routed} {a : RoutedStep} (h : r.step a = some r') :
    (r'.sys = r.sys ∧ r'.origins = r.origins ∧ r'.executed = r.executed) ∨
    ∃ b, r.sys.step b = some r'.sys ∧
      r'.origins = r.origins ++ b.origins (r'.sys.simples.length - r.sys.simples.length) ∧
      r'.executed = r.executed ++ b.executes r.sys ∧
      (a = .proxy b ∨ ∃ k addr, b = .choose k addr) := by
  cases a with
  | setSlot slot inst =>
    simp only [step] at h
    split at h <;> cases h
    exact .inl ⟨rfl, rfl, rfl⟩
  | choose k randomHost now =>
    simp only [step] at h
    split at h
    · split at h
      · obtain ⟨s, hs, rfl⟩ := Option.map_eq_some_iff.mp h
        generalize chooseHost r.slots .master randomHost now _ _ = addr at hs
        refine .inr ⟨.choose k addr, hs, ?_, ?_, .inr ⟨k, addr, rfl⟩⟩
        -- no simple request is made
        · have hsame : s.simples = r.sys.simples := by
            cases System.step_cases hs with
            | noHost | choose => rfl
          simp [SystemStep.origins, hsame]
        · simp [SystemStep.executes]
      · cases h
    · cases h
  | proxy b =>
    simp only [step] at h
    split at h
    · cases h
    · obtain ⟨s, hs, rfl⟩ := Option.map_eq_some_iff.mp h
      exact .inr ⟨b, hs, rfl, rfl, .inl rfl⟩

end Routed

namespace System

/-! ## Where a request under way is -/

/-- What a step of a client does to the dispatches: nothing, or its read loop begins to dispatch
    the request whose redirection it has handled. -/
theorem client_step_cases {s s' : System} {c : Nat} {a : ClientStep Item}
    (h : s.step (.client c a) = some s') :
    ∃ cl cl', s.clients c = some cl ∧ cl.Step a cl' ∧ a.puts = [] ∧
      s'.clients = Function.update s.clients c (some cl') ∧
      (s'.callers = s.callers ∧ s'.simples = s.simples ∨
        ∃ item jobs, a = .handle ∧ cl.start.redirecting = [item] ∧
          s'.callers = Function.update s.callers (.client c) jobs ∧
          (s'.simples = s.simples ∧ jobs.map (fun job => job.item.req) = [item.req] ∨
            s'.simples = s.simples ++ [[]] ∧
              jobs.map (fun job => job.item.req) = [s.simples.length, item.req])) := by
  simp only [step] at h
  split at h
  · rename_i ha
    obtain ⟨cl, hcl, h⟩ := Option.bind_eq_some_iff.mp h
    obtain ⟨cl', hstep, rfl⟩ := Option.map_eq_some_iff.mp h
    have hb := Client.step_cases hstep
    have hputs : a.puts = [] := by cases a <;> simp_all [ClientStep.byItself, ClientStep.puts]
    refine ⟨cl, cl', hcl, hb, hputs, ?_⟩
    -- only `handle` settles a request, and only a redirection makes jobs
    rcases hb.settled_cases with hsettled | ⟨item, o, hsettled, hredir⟩
    · have hdrop : cl'.settled.drop cl.settled.length = [] := by simp [hsettled]
      rw [hdrop]
      exact ⟨rfl, .inl ⟨rfl, rfl⟩⟩
    · have hdrop : cl'.settled.drop cl.settled.length = [(item, o)] := by simp [hsettled]
      rw [hdrop]
      cases o with
      | redirected v =>
        obtain ⟨ha, hleaves⟩ := hb.handle_of_redirected hsettled
        -- `MOVED` makes one job, `ASK` one for `ASKING` in front
        obtain ⟨addr, haddr | haddr⟩ := hredir v rfl
        · simp only [List.foldl_cons, List.foldl_nil, settle, haddr]
          exact ⟨rfl, .inr ⟨item, _, ha, hleaves, rfl, .inl ⟨rfl, rfl⟩⟩⟩
        · simp only [List.foldl_cons, List.foldl_nil, settle, haddr]
          exact ⟨rfl, .inr ⟨item, _, ha, hleaves, rfl, .inr ⟨rfl, rfl⟩⟩⟩
      | _ => exact ⟨rfl, .inl ⟨rfl, rfl⟩⟩
  · cases h

/-- The requests a goroutine dispatches. -/
def dispatching (s : System) (k : Caller) : List Nat :=
  (s.callers k).map fun job => job.item.req

theorem reqs_jobs (base : Nat) (children : List (Route × SimpleRequest)) :
    (jobs base children).map (fun job => job.item.req) = List.range' base children.length := by
  induction children generalizing base with
  | nil => rfl
  | cons c cs ih => simp [jobs, ih, List.range'_succ]

/-- The requests of a client that may still be executed. -/
def underWay (s : System) (c : Nat) : List Nat :=
  ((s.clients c).elim [] Client.underWay).map Item.req

/-- A step passes requests between one goroutine and one client; some are new, some are lost and
    some leave because they are executed. -/
def Exchanges (s s' : System) (executed : List Nat) : Prop :=
  ∃ k c, (∀ k', k' ≠ k → s'.callers k' = s.callers k') ∧
    (∀ c', c' ≠ c → s'.clients c' = s.clients c') ∧
    s.simples.length ≤ s'.simples.length ∧
    ∀ x, (s'.dispatching k).count x + (s'.underWay c).count x + executed.count x ≤
      (s.dispatching k).count x + (s.underWay c).count x +
        (List.range' s.simples.length (s'.simples.length - s.simples.length)).count x

/-- Only a goroutine has other dispatches. -/
theorem Exchanges.of_jobs {s s' : System} {k : Caller} {jobs : List Job}
    (hcallers : s'.callers = Function.update s.callers k jobs) (hclients : s'.clients = s.clients)
    (hle : s.simples.length ≤ s'.simples.length)
    (hin : ∀ x, (jobs.map fun job => job.item.req).count x ≤ (s.dispatching k).count x +
      (List.range' s.simples.length (s'.simples.length - s.simples.length)).count x) :
    Exchanges s s' [] := by
  refine ⟨k, 0, fun k' hk => ?_, fun c' _ => ?_, hle, fun x => ?_⟩
  · rw [hcallers, Function.update_of_ne hk]
  · rw [hclients]
  · have hx := hin x
    simp only [dispatching, underWay, hcallers, hclients, Function.update_self,
      List.count_nil] at hx ⊢
    omega

/-- A client makes a step, and a goroutine has other dispatches. -/
theorem Exchanges.of_client {s s' : System} (k : Caller) (jobs : List Job) {c : Nat}
    {cl cl' : Client Item} {b : ClientStep Item} {executed : List Nat}
    (hcl : s.clients c = some cl) (hgood : cl.InOrder) (hstep : cl.Step b cl')
    (hcallers : s'.callers = Function.update s.callers k jobs)
    (hclients : s'.clients = Function.update s.clients c (some cl'))
    (hle : s.simples.length ≤ s'.simples.length)
    (hin : ∀ x, (jobs.map fun job => job.item.req).count x + (b.puts.map Item.req).count x +
        executed.count x ≤ (s.dispatching k).count x + ((b.leaves cl).map Item.req).count x +
      (List.range' s.simples.length (s'.simples.length - s.simples.length)).count x) :
    Exchanges s s' executed := by
  refine ⟨k, c, fun k' hk => ?_, fun c' hc => ?_, hle, fun x => ?_⟩
  · rw [hcallers, Function.update_of_ne hk]
  · rw [hclients, Function.update_of_ne hc]
  · have hx := hin x
    have hcount := hstep.count_underWay_le hgood Item.req x
    simp only [dispatching, underWay, hcallers, hclients, hcl, Function.update_self,
      Option.elim_some] at hx ⊢
    omega

/-- What a client does by itself. -/
theorem exchanges_of_client {s s' : System} (hs : AllClients Client.InOrder s) {c : Nat}
    {b : ClientStep Item} (h : s.step (.client c b) = some s') :
    Exchanges s s' (SystemStep.executes s (.client c b)) := by
  obtain ⟨cl, cl', hcl, hstep, hputs, hclients, hcallers⟩ := client_step_cases h
  have hexec : ∀ x, (SystemStep.executes s (.client c b)).count x ≤
      ((b.leaves cl).map Item.req).count x := by
    intro x
    cases b <;> simp [SystemStep.executes, hcl]
  rcases hcallers with ⟨hcallers, hsimples⟩ |
    ⟨item, jobs, rfl, hleaves, hcallers, ⟨hsimples, hjobs⟩ | ⟨hsimples, hjobs⟩⟩
  · refine .of_client .refresh (s.callers .refresh) hcl (hs c cl hcl) hstep ?_ hclients
      (by rw [hsimples]) fun x => ?_
    · rw [hcallers, Function.update_eq_self]
    · have hx := hexec x
      simp only [hputs, dispatching, List.map_nil, List.count_nil]
      omega
  -- the request goes from the client to its read loop
  · refine .of_client (.client c) jobs hcl (hs c cl hcl) hstep hcallers hclients
      (by rw [hsimples]) fun x => ?_
    simp [hputs, hjobs, ClientStep.leaves, hleaves, SystemStep.executes]
    omega
  · refine .of_client (.client c) jobs hcl (hs c cl hcl) hstep hcallers hclients
      (by simp [hsimples]) fun x => ?_
    simp [hputs, hjobs, ClientStep.leaves, hleaves, SystemStep.executes, hsimples,
      List.count_cons]

theorem exchanges_of_step {s s' : System} {a : SystemStep} (hs : AllClients Client.InOrder s)
    (h : s.step a = some s') : Exchanges s s' (a.executes s) := by
  cases step_cases h with
  | client | answer | moved | ask => exact exchanges_of_client hs h
  -- the new requests are those behind the old ones
  | split hidle hbody =>
    refine .of_jobs rfl rfl (by simp [System.split]) fun x => ?_
    simp [System.split, reqs_jobs]
  | refresh hidle =>
    refine .of_jobs rfl rfl (by simp) fun x => ?_
    simp
  | noHost hk | checkQuit hk | gotErr hk =>
    refine .of_jobs rfl rfl le_rfl fun x => ?_
    simp [dispatching, hk, List.count_cons]
  | choose hk | check hk | got hk =>
    refine .of_jobs rfl rfl le_rfl fun x => ?_
    simp [dispatching, hk]
  | sendRefused hk hcl hstep hquit =>
    refine .of_client _ _ hcl (hs _ _ hcl) hstep rfl rfl le_rfl fun x => ?_
    simp [dispatching, hk, ClientStep.puts, ClientStep.leaves, SystemStep.executes,
      List.count_cons]
  | send hk hcl hstep hquit =>
    refine .of_client _ _ hcl (hs _ _ hcl) hstep rfl rfl le_rfl fun x => ?_
    simp [dispatching, hk, ClientStep.puts, ClientStep.leaves, SystemStep.executes]
  -- the request goes from the goroutine to the client
  | put hk hcl hstep =>
    refine .of_client _ _ hcl (hs _ _ hcl) hstep rfl rfl le_rfl fun x => ?_
    simp [dispatching, hk, ClientStep.puts, ClientStep.leaves, SystemStep.executes,
      List.count_cons]
  | redirected hidle hcl hstep | stop hcl hreg hstep | serveStop hcl hreg hstep =>
    refine .of_client .refresh (s.callers .refresh) hcl (hs _ _ hcl) hstep
      (Function.update_eq_self _ _).symm rfl le_rfl fun x => ?_
    simp [dispatching, ClientStep.puts, ClientStep.leaves, SystemStep.executes]
  -- a new client has a request of its own
  | @dialOk t c reg hcl hreg =>
    refine ⟨.refresh, c, fun _ _ => rfl, fun c' hc => ?_, by simp, fun x => ?_⟩
    · simp [hc]
    · simp [dispatching, underWay, hcl, connect, newClient, Client.underWay, Client.unexecuted,
        ClientStart.redirecting, ClientWrite.toWrite, SystemStep.executes]
  | respond | registry | startReturn | setRaw | childDone =>
    refine .of_jobs (k := .refresh) (Function.update_eq_self _ _).symm rfl le_rfl fun x => ?_
    simp [dispatching]

/-- The request is on its way to a node: it is dispatched, or it is with a client and may still be
    executed or sent on. -/
def OnItsWay (s : System) (x : Nat) : Prop :=
  (∃ k, x ∈ s.dispatching k) ∨ ∃ c, x ∈ s.underWay c

/-- A request that was made is not on its way again once it is not. -/
theorem Exchanges.onItsWay {s s' : System} {executed : List Nat} (h : Exchanges s s' executed)
    {x : Nat} (hx : x < s.simples.length) (hway : s'.OnItsWay x) : s.OnItsWay x := by
  obtain ⟨k, c, hcallers, hclients, -, hin⟩ := h
  have hnew : (List.range' s.simples.length (s'.simples.length - s.simples.length)).count x = 0 :=
    List.count_eq_zero.mpr fun hmem => by
      rw [List.mem_range'_1] at hmem
      omega
  have hcount := hin x
  -- a step moves requests between one caller and one client only
  have hhere : 0 < (s'.dispatching k).count x + (s'.underWay c).count x → s.OnItsWay x := by
    intro hpos
    rcases Nat.eq_zero_or_pos ((s.dispatching k).count x) with hzero | hpos'
    · exact .inr ⟨c, List.count_pos_iff.mp (by omega)⟩
    · exact .inl ⟨k, List.count_pos_iff.mp hpos'⟩
  rcases hway with ⟨k', hk'⟩ | ⟨c', hc'⟩
  · by_cases hk : k' = k
    · subst hk
      have hpos := List.count_pos_iff.mpr hk'
      exact hhere (by omega)
    · rw [dispatching, hcallers k' hk] at hk'
      exact .inl ⟨k', hk'⟩
  · by_cases hc : c' = c
    · subst hc
      have hpos := List.count_pos_iff.mpr hc'
      exact hhere (by omega)
    · rw [underWay, hclients c' hc] at hc'
      exact .inr ⟨c', hc'⟩

end System

/-! ## Program order -/

/-- Where a request is: on its way, or executed. -/
inductive Spot where
  | dispatch (k : Caller)
  | client (c : Nat)
  | executed
  deriving DecidableEq

namespace Routed

def tokens (r : Routed) : Spot → List Nat
  | .dispatch k => r.sys.dispatching k
  | .client c => r.sys.underWay c
  | .executed => r.executed

def origin (r : Routed) (x : Nat) : Option Origin := r.origins.getD x none

/-- The two requests are commands of one session, and there is a key that both write. -/
def SameKey (writes : RespValue → List Bytes) (r : Routed) (x y : Nat) : Prop :=
  ∃ o ∈ r.origin x, ∃ o' ∈ r.origin y,
    o.session = o'.session ∧ ∃ key ∈ writes o.body, key ∈ writes o'.body

/-- The session has sent the first command before the second. -/
def Precedes (writes : RespValue → List Bytes) (r : Routed) (x y : Nat) : Prop :=
  x < y ∧ r.SameKey writes x y

/-- The nodes have executed the writes of every session on every key in the order in which the
    session has sent them. -/
def ProgramOrder (writes : RespValue → List Bytes) (r : Routed) : Prop :=
  r.executed.Pairwise fun x y => ¬ r.Precedes writes y x

/-- What holds of the requests in every run. -/
structure Placed (r : Routed) : Prop where
  clients : System.AllClients Client.InOrder r.sys
  length : r.origins.length = r.sys.simples.length
  owned : Owned r.sys.simples.length r.tokens
  answered : System.AllClients (Client.Answered r.executed) r.sys

theorem tokens_newRouted (i : Spot) : newRouted.tokens i = [] := by
  cases i <;> rfl

theorem placed_newRouted : Placed newRouted where
  clients := System.allClients_newSystem _
  length := rfl
  owned := .of_nil tokens_newRouted
  answered := System.allClients_newSystem _

theorem length_origins {s s' : System} {b : SystemStep} (h : s.step b = some s')
    (hle : s.simples.length ≤ s'.simples.length) :
    (b.origins (s'.simples.length - s.simples.length)).length =
      s'.simples.length - s.simples.length := by
  cases System.step_cases h with
  | respond hidle hbody => simp [SystemStep.origins, hbody]
  | split hidle hbody => simp [SystemStep.origins, hbody, System.split]
  | _ => simp [SystemStep.origins]

/-- Every step keeps each request at one place. -/
theorem Placed.owned_step {r r' : Routed} (hr : Placed r) {executed : List Nat}
    (hex : r.sys.Exchanges r'.sys executed) (hexecuted : r'.executed = r.executed ++ executed) :
    Owned r'.sys.simples.length r'.tokens := by
  obtain ⟨k, c, hcallers, hclients, hle, hin⟩ := hex
  refine hr.owned.exchange [.dispatch k, .client c, .executed] (by simp) hle ?_ fun x => ?_
  · rintro (k' | c' | _) hspot
    · simp only [List.mem_cons, Spot.dispatch.injEq, not_or] at hspot
      simp only [tokens, System.dispatching, hcallers k' hspot.1]
    · simp only [List.mem_cons, Spot.client.injEq, not_or] at hspot
      simp only [tokens, System.underWay, hclients c' hspot.2.1]
    · simp at hspot
  · have hx := hin x
    simp only [List.flatMap_cons, List.flatMap_nil, List.count_append, List.append_nil, tokens,
      hexecuted]
    omega

/-- A reply that is no redirection comes with the execution of its command. -/
theorem Placed.answered_step {r r' : Routed} (hr : Placed r) {b : SystemStep}
    (hstep : r.sys.step b = some r'.sys)
    (hexecuted : r'.executed = r.executed ++ b.executes r.sys) :
    System.AllClients (Client.Answered r'.executed) r'.sys := by
  have hold : System.AllClients (Client.Answered r'.executed) r.sys := by
    intro c cl hcl j e v he hv hnot
    rw [hexecuted]
    exact List.mem_append_left _ (hr.answered c cl hcl j e v he hv hnot)
  intro c cl' hcl'
  rcases (System.step_cases hstep).client_cases hcl' with hsame | ⟨cl, b₀, hcl, hb₀, hcause⟩ |
    ⟨t, -, rfl⟩
  · exact hold c cl' hsame
  · intro j e v he hv hnot
    have hle := (hr.clients c cl hcl).streamed.answers_le
    rcases hb₀.answered_cases hle he hv with ⟨he₀, hv₀⟩ | ⟨rfl, rfl, he₀⟩
    · exact hold c cl hcl j e v he₀ hv₀ hnot
    -- the reply that comes now executes the command
    · cases hcause with
      | byItself =>
        rw [hexecuted]
        simp [SystemStep.executes, hcl, ClientStep.leaves, hnot, he₀]
  · simp [Client.Answered, connect, newClient]

theorem Placed.step {r r' : Routed} {a : RoutedStep} (hr : Placed r) (h : r.step a = some r') :
    Placed r' := by
  rcases step_cases h with ⟨hsys, horigins, hexecuted⟩ | ⟨b, hstep, horigins, hexecuted, -⟩
  -- only the table of slots has changed
  · have htokens : r'.tokens = r.tokens := by
      funext p
      cases p <;> simp [tokens, hsys, hexecuted]
    refine ⟨?_, ?_, ?_, ?_⟩
    · rw [hsys]
      exact hr.clients
    · rw [horigins, hsys]
      exact hr.length
    · rw [htokens, hsys]
      exact hr.owned
    · rw [hsys, hexecuted]
      exact hr.answered
  · have hex := System.exchanges_of_step hr.clients hstep
    have hle : r.sys.simples.length ≤ r'.sys.simples.length := by
      obtain ⟨-, -, -, -, hle, -⟩ := hex
      exact hle
    have hclients := hr.clients.step Client.inOrder_connect (fun _ _ _ hc h => hc.step h)
      (System.step_cases hstep)
    refine ⟨hclients, ?_, hr.owned_step hex hexecuted, hr.answered_step hstep hexecuted⟩
    rw [horigins, List.length_append, length_origins hstep hle, hr.length]
    omega

theorem origin_of_append {r r' : Routed} {l : List (Option Origin)}
    (horigins : r'.origins = r.origins ++ l) {x : Nat} (hx : x < r.origins.length) :
    r'.origin x = r.origin x := by
  simp [origin, horigins, List.getD_eq_getElem?_getD, List.getElem?_append_left hx]

theorem Precedes.of_append {writes : RespValue → List Bytes} {r r' : Routed}
    {l : List (Option Origin)} (horigins : r'.origins = r.origins ++ l) {x y : Nat}
    (hy : y < r.origins.length) (h : r'.Precedes writes x y) : r.Precedes writes x y := by
  obtain ⟨hlt, hsame⟩ := h
  refine ⟨hlt, ?_⟩
  rw [SameKey, origin_of_append horigins hy, origin_of_append horigins (hlt.trans hy)] at hsame
  exact hsame

/-- The earlier command is still on its way. -/
def Overdue (writes : RespValue → List Bytes) (r : Routed) (x y : Nat) : Prop :=
  r.Precedes writes x y ∧ r.sys.OnItsWay x

/-- The client has sent the request to its node, which has answered with a redirection. -/
def Redirected (cl : Client Item) (x : Nat) : Prop :=
  ∃ (j : Nat) (e : Item × RespValue) (v : RespValue), cl.encoded[j]? = some e ∧
    cl.answers[j]? = some v ∧ isRedirection v = true ∧ e.1.req = x

/-- A command is put on the queue of a client only when every earlier one that is still on its way
    has been put there before, and a node that has redirected a command executes no later one on
    the same connection as long as the first is on its way. -/
def KeepsOrder (writes : RespValue → List Bytes) (r : Routed) : RoutedStep → Prop
  | .proxy (.put k) => ∀ item c rest, r.sys.callers k = ⟨item, .put c⟩ :: rest →
      ∀ cl ∈ r.sys.clients c, cl.loopWrite.active = true →
        ∀ x, r.Overdue writes x item.req → x ∈ cl.line.map Item.req
  | .proxy (.client c (.answer v)) => isRedirection v = false →
      ∀ cl ∈ r.sys.clients c, ∀ e ∈ cl.encoded[cl.answers.length]?,
        ∀ x, Redirected cl x → ¬ r.Overdue writes x e.1.req
  | _ => True

/-- What holds when every step keeps the order. -/
structure Ordered (writes : RespValue → List Bytes) (r : Routed) : Prop where
  /-- earlier commands that are on their way are ahead in the line of a client -/
  ahead : System.AllClients (Client.Ahead (r.Overdue writes)) r.sys
  /-- no command is on its way when a later one is executed -/
  past : ∀ z ∈ r.executed, ∀ x, ¬ r.Overdue writes x z
  order : r.ProgramOrder writes

/-! ### Steps -/

/-- A step executes one command at most, the first of a client that is not answered. -/
theorem executes_cases (s : System) (b : SystemStep) :
    b.executes s = [] ∨ ∃ c v cl e, b = .client c (.answer v) ∧ isRedirection v = false ∧
      s.clients c = some cl ∧ cl.encoded[cl.answers.length]? = some e ∧
      b.executes s = [e.1.req] := by
  cases b with
  | client c b =>
    cases b with
    | answer v =>
      cases hv : isRedirection v with
      | true =>
        refine .inl ?_
        cases hcl : s.clients c <;> simp [SystemStep.executes, hcl, ClientStep.leaves, hv]
      | false =>
        cases hcl : s.clients c with
        | none => exact .inl (by simp [SystemStep.executes, hcl])
        | some cl =>
          cases he : cl.encoded[cl.answers.length]? with
          | none => exact .inl (by simp [SystemStep.executes, hcl, ClientStep.leaves, hv, he])
          | some e =>
            refine .inr ⟨c, v, cl, e, rfl, hv, hcl, he, ?_⟩
            simp [SystemStep.executes, hcl, ClientStep.leaves, hv, he]
    | _ => exact .inl rfl
  | _ => exact .inl rfl

/-- The first request that is not answered stands in the line behind the answered ones. -/
theorem line_of_getElem? {cl : Client Item} {e : Item × RespValue}
    (he : cl.encoded[cl.answers.length]? = some e) :
    ∃ l₂, cl.line = (cl.encoded.take cl.answers.length).map Prod.fst ++ e.1 :: l₂ ∧
      ((cl.encoded.take cl.answers.length).map Prod.fst).length = cl.answers.length := by
  obtain ⟨hlt, rfl⟩ := List.getElem?_eq_some_iff.mp he
  refine ⟨(cl.encoded.drop (cl.answers.length + 1)).map Prod.fst ++
    cl.loopWrite.toWrite cl.pendingReqs, ?_, by simpa using hlt.le⟩
  have hsplit : cl.encoded.map Prod.fst =
      (cl.encoded.take cl.answers.length).map Prod.fst ++
        cl.encoded[cl.answers.length].1 ::
          (cl.encoded.drop (cl.answers.length + 1)).map Prod.fst := by
    rw [← List.map_cons, ← List.map_append, ← List.drop_eq_getElem_cons hlt,
      List.take_append_drop]
  rw [Client.line, hsplit, List.append_assoc, List.cons_append]

theorem Placed.executes_onItsWay {r : Routed} (hr : Placed r) {b : SystemStep} {y : Nat}
    (hy : y ∈ b.executes r.sys) : r.sys.OnItsWay y := by
  rcases executes_cases r.sys b with hnone | ⟨c, v, cl, e, rfl, hv, hcl, he, hsome⟩
  · rw [hnone] at hy
    cases hy
  · rw [hsome, List.mem_singleton] at hy
    subst hy
    obtain ⟨l₂, hline, hlen⟩ := line_of_getElem? he
    have hmem := (hr.clients c cl hcl).mem_underWay hline hlen.ge
    refine .inr ⟨c, ?_⟩
    rw [System.underWay, hcl]
    exact List.mem_map_of_mem hmem

theorem Placed.lt_of_onItsWay {r : Routed} (hr : Placed r) {x : Nat} (hx : r.sys.OnItsWay x) :
    x < r.sys.simples.length := by
  rcases hx with ⟨k, hk⟩ | ⟨c, hc⟩
  · exact hr.owned.below (.dispatch k) x hk
  · exact hr.owned.below (.client c) x hc

/-- An executed command is not on its way. -/
theorem Placed.not_onItsWay_of_executed {r : Routed} (hr : Placed r) {x : Nat}
    (hx : x ∈ r.executed) : ¬ r.sys.OnItsWay x := by
  rintro (⟨k, hk⟩ | ⟨c, hc⟩)
  · cases hr.owned.unique (.dispatch k) .executed x hk hx
  · cases hr.owned.unique (.client c) .executed x hc hx

/-- A request that the filters stop is not on its way any more. -/
theorem Placed.not_onItsWay_of_filterStop {r : Routed} (hr : Placed r) {s' : System} {c : Nat}
    {cl : Client Item} {item : Item} (hstep : r.sys.step (.client c .filterStop) = some s')
    (hcl : r.sys.clients c = some cl) (hpos : cl.loopWrite = .filter item) :
    ¬ s'.OnItsWay item.req := by
  obtain ⟨cl₀, cl', hcl₀, hb, -, hclients, ⟨hcallers, -⟩ | ⟨_, _, ha, -⟩⟩ :=
    System.client_step_cases hstep
  · obtain rfl := Option.some.inj (hcl.symm.trans hcl₀)
    have hcount := hb.count_underWay_le (hr.clients c cl hcl) Item.req item.req
    -- it was at one place, once, and the step takes it from there
    have hnodup := List.nodup_iff_count_le_one.mp (hr.owned.nodup (.client c)) item.req
    simp only [tokens, System.underWay, hcl, Option.elim_some] at hnodup
    simp only [ClientStep.leaves, hpos, ClientWrite.filtering, ClientStep.puts, List.map_cons,
      List.map_nil, List.count_cons_self, List.count_nil] at hcount
    have hmem : item.req ∈ r.tokens (.client c) := by
      simp only [tokens, System.underWay, hcl, Option.elim_some]
      exact List.count_pos_iff.mp (by omega)
    rintro (⟨k, hk⟩ | ⟨c', hc'⟩)
    · rw [System.dispatching, hcallers] at hk
      cases hr.owned.unique (.client c) (.dispatch k) item.req hmem hk
    · by_cases hc : c' = c
      · subst hc
        rw [System.underWay, hclients, Function.update_self] at hc'
        have hpos' := List.count_pos_iff.mpr hc'
        simp only [Option.elim_some] at hpos'
        omega
      · rw [System.underWay, hclients, Function.update_of_ne hc] at hc'
        have hsame := hr.owned.unique (.client c) (.client c') item.req hmem hc'
        exact hc (Spot.client.inj hsame).symm
  · cases ha

variable {writes : RespValue → List Bytes}

/-- What is overdue behind a step of the proxy was overdue before. -/
theorem Placed.overdue_of_step {r r' : Routed} (hr : Placed r) {b : SystemStep}
    (hstep : r.sys.step b = some r'.sys) {l : List (Option Origin)}
    (horigins : r'.origins = r.origins ++ l) {x y : Nat} (hy : y < r.sys.simples.length)
    (h : r'.Overdue writes x y) : r.Overdue writes x y := by
  obtain ⟨hpre, hway⟩ := h
  have hex := System.exchanges_of_step hr.clients hstep
  exact ⟨hpre.of_append horigins (by rw [hr.length]; exact hy),
    hex.onItsWay (hpre.1.trans hy) hway⟩

/-- Earlier commands stay ahead. -/
theorem Ordered.ahead_step {r r' : Routed} (hr : Placed r) (ho : Ordered writes r)
    {b : SystemStep} (hok : KeepsOrder writes r (.proxy b)) (hstep : r.sys.step b = some r'.sys)
    (horigins : r'.origins =
      r.origins ++ b.origins (r'.sys.simples.length - r.sys.simples.length)) :
    System.AllClients (Client.Ahead (r'.Overdue writes)) r'.sys := by
  have hold : System.AllClients (Client.Ahead (r'.Overdue writes)) r.sys := by
    intro c cl hcl
    refine (ho.ahead c cl hcl).mono (hr.clients c cl hcl) fun x y hy hxy => ?_
    refine hr.overdue_of_step hstep horigins (hr.owned.below (.client c) y.req ?_) hxy
    simp only [tokens, System.underWay, hcl, Option.elim_some]
    exact List.mem_map_of_mem hy
  intro c cl' hcl'
  rcases (System.step_cases hstep).client_cases hcl' with hsame | ⟨cl, b₀, hcl, hb₀, hcause⟩ |
    ⟨t, rfl, rfl⟩
  · exact hold c cl' hsame
  · refine (hold c cl hcl).step (hr.clients c cl hcl) hb₀ ?_ ?_
    · rintro item rfl hactive x hx
      cases hcause with
      | byItself hself => cases hself
      | @put k _ _ rest hk =>
        have hlt : item.req < r.sys.simples.length :=
          hr.owned.below (.dispatch k) item.req (by simp [tokens, System.dispatching, hk])
        exact hok item c rest hk cl hcl hactive x (hr.overdue_of_step hstep horigins hlt hx)
    · rintro item rfl hpos y hy
      cases hcause with
      | byItself => exact hr.not_onItsWay_of_filterStop hstep hcl hpos hy.2
  -- the `READONLY` of a new client is no command of a session
  · intro l₁ y l₂ hline hlen x hx
    obtain ⟨-, hy⟩ : l₁ = [] ∧ y = ⟨r.sys.simples.length, .plain⟩ := by
      have hsingle : [⟨r.sys.simples.length, .plain⟩] = l₁ ++ y :: l₂ := hline
      cases l₁ with
      | nil => exact ⟨rfl, (List.cons.inj hsingle).1.symm⟩
      | cons z l => simp at hsingle
    have hnone : r'.origin y.req = none := by
      rw [hy, origin, horigins, List.getD_eq_getElem?_getD,
        List.getElem?_append_right (by rw [hr.length])]
      simp only [SystemStep.origins, List.getElem?_replicate]
      split <;> rfl
    obtain ⟨-, o, -, o', ho', -⟩ := hx.1
    rw [hnone] at ho'
    cases ho'

/-- No command is executed while an earlier one is on its way. -/
theorem Ordered.not_overdue_of_executes {r : Routed} (hr : Placed r) (ho : Ordered writes r)
    {b : SystemStep} (hok : KeepsOrder writes r (.proxy b)) {y : Nat}
    (hy : y ∈ b.executes r.sys) (x : Nat) : ¬ r.Overdue writes x y := by
  intro hover
  rcases executes_cases r.sys b with hnone | ⟨c, v, cl, e, rfl, hv, hcl, he, hsome⟩
  · rw [hnone] at hy
    cases hy
  · rw [hsome, List.mem_singleton] at hy
    subst hy
    obtain ⟨l₂, hline, hlen⟩ := line_of_getElem? he
    have hahead := ho.ahead c cl hcl _ _ _ hline hlen.ge x hover
    -- the earlier one was answered on this connection, so it was redirected
    obtain ⟨item, hitem, rfl⟩ := List.mem_map.mp hahead
    obtain ⟨e', he', rfl⟩ := List.mem_map.mp hitem
    obtain ⟨j, hj, hget⟩ := List.mem_iff_getElem.mp he'
    have hjlen : j < cl.answers.length := by
      simp only [List.length_take] at hj
      omega
    have hget' : cl.encoded[j]? = some e' := by
      rw [← hget, List.getElem_take, List.getElem?_eq_getElem]
    have hans : cl.answers[j]? = some cl.answers[j] := List.getElem?_eq_getElem hjlen
    cases hredir : isRedirection cl.answers[j] with
    | true => exact hok hv cl hcl e he _ ⟨j, e', _, hget', hans, hredir, rfl⟩ hover
    | false =>
      have hexec := hr.answered c cl hcl j e' _ hget' hans hredir
      exact hr.not_onItsWay_of_executed hexec hover.2

/-- What is executed now comes behind the earlier commands that are executed. -/
theorem Ordered.order_step {r r' : Routed} (hr : Placed r) (ho : Ordered writes r)
    {b : SystemStep} {l : List (Option Origin)} (horigins : r'.origins = r.origins ++ l)
    (hexecuted : r'.executed = r.executed ++ b.executes r.sys) : r'.ProgramOrder writes := by
  have hback : ∀ x ∈ r.executed, ∀ y, r'.Precedes writes y x → r.Precedes writes y x := by
    intro x hx y hpre
    exact hpre.of_append horigins (by rw [hr.length]; exact hr.owned.below .executed x hx)
  rw [ProgramOrder, hexecuted, List.pairwise_append]
  refine ⟨ho.order.imp_of_mem ?_, ?_, ?_⟩
  · intro x y hx _ hxy hpre
    exact hxy (hback x hx y hpre)
  · rcases executes_cases r.sys b with hnone | ⟨_, _, _, e, -, -, -, -, hsome⟩
    · simp [hnone]
    · simp [hsome]
  -- the command that is executed now was on its way when the other one was executed
  · intro x hx y hy hpre
    exact ho.past x hx y ⟨hback x hx y hpre, hr.executes_onItsWay hy⟩

theorem Ordered.step {r r' : Routed} {a : RoutedStep} (hr : Placed r) (ho : Ordered writes r)
    (hok : KeepsOrder writes r a) (h : r.step a = some r') : Ordered writes r' := by
  rcases step_cases h with ⟨hsys, horigins, hexecuted⟩ | ⟨b, hstep, horigins, hexecuted, hb⟩
  -- only the table of slots has changed
  · have hpre : r'.Precedes writes = r.Precedes writes := by
      funext x y
      simp only [Precedes, SameKey, origin, horigins]
    have hover : r'.Overdue writes = r.Overdue writes := by
      funext x y
      simp only [Overdue, hpre, hsys]
    refine ⟨?_, ?_, ?_⟩
    · rw [hover, hsys]
      exact ho.ahead
    · rw [hover, hexecuted]
      exact ho.past
    · rw [ProgramOrder, hpre, hexecuted]
      exact ho.order
  · have hok' : KeepsOrder writes r (.proxy b) := by
      rcases hb with rfl | ⟨k, addr, rfl⟩
      · exact hok
      · trivial
    have hlt : ∀ z ∈ r'.executed, z < r.sys.simples.length := by
      intro z hz
      rw [hexecuted, List.mem_append] at hz
      rcases hz with hz | hz
      · exact hr.owned.below .executed z hz
      · exact hr.lt_of_onItsWay (hr.executes_onItsWay hz)
    have hpast : ∀ z ∈ r'.executed, ∀ x, ¬ r.Overdue writes x z := by
      intro z hz
      rw [hexecuted, List.mem_append] at hz
      rcases hz with hz | hz
      · exact ho.past z hz
      · exact ho.not_overdue_of_executes hr hok' hz
    refine ⟨ho.ahead_step hr hok' hstep horigins, fun z hz x hover => ?_,
      ho.order_step hr horigins hexecuted⟩
    exact hpast z hz x (hr.overdue_of_step hstep horigins (hlt z hz) hover)

/-- **Program order on a key**: in every run in which a command is put on the queue of a client only
    behind the earlier ones of its session on its key that are still on their way, and no node
    executes one behind another that it has redirected and that is still on its way, the nodes
    execute the writes of every session on every key in the order in which they were sent. -/
theorem programOrder_of_runMeets {as : List RoutedStep} {r : Routed}
    (hrun : runFrom step newRouted as = some r)
    (hmeets : RunMeets step (KeepsOrder writes) newRouted as) : r.ProgramOrder writes := by
  have hstep : ∀ (r : Routed) a r', (Placed r ∧ Ordered writes r) → KeepsOrder writes r a →
      step r a = some r' → Placed r' ∧ Ordered writes r' :=
    fun r a r' hr hok h => ⟨hr.1.step h, hr.2.step hr.1 hok h⟩
  have hnew : Placed newRouted ∧ Ordered writes newRouted :=
    ⟨placed_newRouted, System.allClients_newSystem _, by simp [newRouted],
      by simp [ProgramOrder, newRouted]⟩
  exact (invariant_of_runMeets hstep hnew hmeets hrun).2.order

/-! ### Runs -/

instance (r : Routed) (x y : Nat) : Decidable (r.SameKey writes x y) :=
  decidable_of_iff ((r.origin x).any fun o => (r.origin y).any fun o' =>
      o.session = o'.session && (writes o.body).any fun key => (writes o'.body).contains key) (by
    simp [SameKey, Option.any_eq_true])

instance (r : Routed) (x y : Nat) : Decidable (r.Precedes writes x y) :=
  inferInstanceAs (Decidable (_ ∧ _))

instance (r : Routed) : Decidable (r.ProgramOrder writes) :=
  inferInstanceAs (Decidable (List.Pairwise _ _))

/-- A command is put on the queue of the client on which all earlier ones were put, and the node of
    a client has redirected nothing. -/
def StaysInLine (writes : RespValue → List Bytes) (r : Routed) : RoutedStep → Bool
  | .proxy (.put k) =>
    match r.sys.callers k with
    | ⟨item, .put c⟩ :: _ => (r.sys.clients c).all fun cl => (List.range item.req).all fun x =>
        !decide (r.SameKey writes x item.req) || (cl.line.map Item.req).contains x
    | _ => true
  | .proxy (.client c (.answer _)) =>
    (r.sys.clients c).all fun cl => cl.answers.all fun v => !isRedirection v
  | _ => true

theorem not_redirected {cl : Client Item} (h : (cl.answers.all fun v => !isRedirection v) = true)
    (x : Nat) : ¬ Redirected cl x := by
  rintro ⟨j, e, v, -, hv, hred, -⟩
  have hnot := List.all_eq_true.mp h v (List.mem_of_getElem? hv)
  simp [hred] at hnot

/-- Program order is kept as long as the commands on a key go through one client and its node
    redirects none. -/
theorem keepsOrder_of_staysInLine {r : Routed} {a : RoutedStep}
    (h : StaysInLine writes r a = true) : KeepsOrder writes r a := by
  unfold KeepsOrder
  split
  · intro item c rest hk cl hcl hactive x hx
    obtain ⟨hlt, hsame⟩ := hx.1
    simp only [StaysInLine, hk, Option.mem_def.mp hcl, Option.all_some] at h
    have hline := List.all_eq_true.mp h x (List.mem_range.mpr hlt)
    simpa [hsame] using hline
  · intro hv cl hcl e he x hred
    simp only [StaysInLine, Option.mem_def.mp hcl, Option.all_some] at h
    exact absurd hred (not_redirected h x)
  · trivial

/-- A session sends a command, and the proxy connects to the node that owns the slot of its key. -/
def connectRun (t c : Nat) (body : RespValue) : List RoutedStep :=
  [.proxy (.request 0 noSurroundings body), .choose (.session 0) none 0,
    .proxy (.check (.session 0) t), .proxy (.registry (.load t)), .proxy (.registry (.store t t)),
    .proxy (.registry (.lock t)), .proxy (.dialOk t c), .proxy (.registry (.finish t)),
    .proxy (.got (.session 0)), .proxy (.send (.session 0)), .proxy (.put (.session 0))]

/-- A goroutine sends a request to a node to which the proxy is connected. -/
def sendRun (k : Caller) (t : Nat) : List RoutedStep :=
  [.proxy (.check k t), .proxy (.registry (.load t)), .proxy (.got k), .proxy (.send k),
    .proxy (.put k)]

/-- A client writes the `READONLY` at the front of its queue. -/
def writeReadOnly (c : Nat) : List RoutedStep :=
  (System.clientSteps c [.take, .filterContinue (System.command ["readonly"]), .encode, .checkLen,
    .enqueue]).map .proxy

/-- A client writes the last request of its queue. -/
def writeLast (c : Nat) (body : RespValue) : List RoutedStep :=
  (System.clientSteps c [.take, .filterContinue body, .encode, .checkLen, .flush, .enqueue]).map
    .proxy

/-- A node answers. -/
def answerRun (c : Nat) (vs : List RespValue) : List RoutedStep :=
  vs.map fun v => .proxy (.client c (.answer v))

/-- The read loop of a client handles the next reply. -/
def handleRun (c : Nat) : List RoutedStep :=
  (System.clientSteps c [.decode, .receive, .handle]).map .proxy

/-- `SET` of a key. -/
def setCommand (value : String) : RespValue := System.command ["set", "k", value]

/-- A session sends two commands on one key. The first one is redirected. Before its redirection is
    handled, the table of slots is refreshed, and the second one is sent to the other node and
    executed there. -/
def reorderRun : List RoutedStep :=
  [.setSlot (slotOf (bytesOf "k")) ⟨bytesOf "a", []⟩] ++ connectRun 0 0 (setCommand "1") ++
  writeReadOnly 0 ++ writeLast 0 (setCommand "1") ++
  answerRun 0 [respOK, .error (bytesOf "MOVED 7629 b")] ++
  [.setSlot (slotOf (bytesOf "k")) ⟨bytesOf "b", []⟩] ++ connectRun 1 1 (setCommand "2") ++
  writeReadOnly 1 ++ writeLast 1 (setCommand "2") ++ answerRun 1 [respOK, respOK] ++
  handleRun 0 ++ handleRun 0 ++ sendRun (.client 0) 2 ++ writeLast 1 (setCommand "1") ++
  answerRun 1 [respOK]

/-- The same session sends both commands to one node. -/
def pipelinedRun : List RoutedStep :=
  [.setSlot (slotOf (bytesOf "k")) ⟨bytesOf "a", []⟩] ++ connectRun 0 0 (setCommand "1") ++
  [.proxy (.request 0 noSurroundings (setCommand "2")), .choose (.session 0) none 0] ++
  sendRun (.session 0) 1 ++ writeReadOnly 0 ++
  (System.clientSteps 0 [.take, .filterContinue (setCommand "1"), .encode, .checkLen,
    .enqueue]).map .proxy ++ writeLast 0 (setCommand "2") ++
  answerRun 0 [respOK, respOK, respOK]

/-- The keys that a command with one or two keys in front writes. -/
def writtenKeys (body : RespValue) : List Bytes :=
  if isReadOnly body then []
  else if ["rpoplpush", "smove"].any fun cmd => lowersTo (word body 0) (bytesOf cmd) then
    [word body 1, word body 2]
  else [word body 1]

theorem reorderRun_executed : (runFrom step newRouted reorderRun).any fun r =>
    r.executed = [1, 3, 2, 0] ∧ r.Precedes writtenKeys 0 2 := by
  decide +kernel

/-- In `reorderRun` the second command is executed before the first one. -/
theorem not_programOrder_reorderRun :
    ∃ r, Reachable step newRouted r ∧ ¬ r.ProgramOrder writtenKeys := by
  obtain ⟨r, hrun, hexecuted, hprecedes⟩ := exists_of_any reorderRun_executed
  refine ⟨r, ⟨_, hrun⟩, fun horder => ?_⟩
  rw [ProgramOrder, hexecuted] at horder
  simp [hprecedes] at horder

theorem pipelinedRun_executed : (runFrom step newRouted pipelinedRun).any fun r =>
    r.executed = [1, 0, 2] ∧ r.Precedes writtenKeys 0 2 := by
  decide +kernel

theorem pipelinedRun_staysInLine :
    RunMeets step (fun r a => StaysInLine writtenKeys r a = true) newRouted pipelinedRun := by
  decide +kernel

/-- `programOrder_of_runMeets` at `pipelinedRun`, where both commands are executed. -/
theorem programOrder_of_runMeets_pipelinedRun :
    ∃ r, runFrom step newRouted pipelinedRun = some r ∧ r.executed = [1, 0, 2] ∧
      r.Precedes writtenKeys 0 2 ∧ r.ProgramOrder writtenKeys := by
  obtain ⟨r, hrun, hexecuted, hprecedes⟩ := exists_of_any pipelinedRun_executed
  refine ⟨r, hrun, hexecuted, hprecedes, ?_⟩
  exact programOrder_of_runMeets hrun
    (pipelinedRun_staysInLine.mono fun r a => keepsOrder_of_staysInLine)

end Routed

end Samaritan.Redis
