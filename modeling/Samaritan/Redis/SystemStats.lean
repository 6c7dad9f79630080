import Mathlib.Algebra.BigOperators.Group.Finset.Basic
import Samaritan.Redis.SystemResponses

/-!
# Statistics of Requests

The proxy counts the requests it gets, those for each command and those it passes to hosts. A total
goes up when a request comes in (`redis.go`) or is dispatched (`upstream.go`), and a hook is
registered on the request that counts a success or a failure when its response is set. A simple
request has a hook for each of its dispatches; all of them run when it is answered.

The machine adds the counters to the proxy. Whether a response is an error is given with the step
that sets it.
-/

namespace Samaritan.Redis

open Samaritan.Lib

/-! ## Counters -/

/-- A total with the successes and the failures among it. -/
structure Counts where
  total : Nat
  success : Nat
  failure : Nat

namespace Counts

def zero : Counts := ⟨0, 0, 0⟩

def request (c : Counts) : Counts := { c with total := c.total + 1 }

/-- The effect of `n` hooks. -/
def response (c : Counts) (error : Bool) (n : Nat) : Counts :=
  if error then { c with failure := c.failure + n } else { c with success := c.success + n }

/-- All but `n` of the total are counted as successes or failures. -/
def Leaves (c : Counts) (n : Nat) : Prop := c.total = c.success + c.failure + n

variable {c : Counts} {n m k : Nat}

theorem Leaves.request (h : c.Leaves n) : c.request.Leaves (n + 1) := by
  unfold Leaves Counts.request at *
  dsimp only
  omega

theorem Leaves.response_iff (h : c.Leaves n) {error : Bool} :
    (c.response error k).Leaves m ↔ m + k = n := by
  unfold Leaves at h
  unfold Leaves Counts.response
  cases error
  · simp only [Bool.false_eq_true, if_false]
    omega
  · simp only [if_true]
    omega

end Counts

/-- The command under whose name a request is counted, if it has a handler. -/
def commandOf (body : RespValue) : Option Bytes :=
  if isValid body then (cmdHdlrs.find? fun e => lowersTo (word body 0) e.1).map Prod.fst else none

/-- The proxy with its counters and the hooks that are registered on its requests. -/
structure SystemStats where
  sys : System
  downstream : Counts
  commands : Bytes → Counts
  upstream : Counts
  /-- for each raw request the command that its second hook counts for -/
  rawCmds : List (Option Bytes)
  /-- the number of hooks that `MakeRequestToHost` has registered on a simple request -/
  dispatches : Nat → Nat

def newSystemStats : SystemStats where
  sys := newSystem
  downstream := .zero
  commands := fun _ => .zero
  upstream := .zero
  rawCmds := []
  dispatches := fun _ => 0

/-- A step of the proxy; the response that it sets, if it sets one, is an error or not. -/
structure StatsStep where
  step : SystemStep
  error : Bool

/-- The raw request that a hook makes its call on. -/
def HookCall.rid : HookCall → Nat
  | .setRaw rid => rid
  | .childDone rid => rid

namespace SystemStats

/-- Count for a command. -/
def setCommand (s : SystemStats) (cmd : Option Bytes) (f : Counts → Counts) : Bytes → Counts :=
  match cmd with
  | some cmd => Function.update s.commands cmd (f (s.commands cmd))
  | none => s.commands

/-- The first part of `handleRequest`. -/
def handled (s : SystemStats) (body : RespValue) : SystemStats :=
  { s with
    downstream := s.downstream.request
    commands := s.setCommand (commandOf body) Counts.request
    rawCmds := s.rawCmds ++ [commandOf body] }

/-- The first part of `MakeRequestToHost`. -/
def dispatched (s : SystemStats) (req : Nat) : SystemStats :=
  { s with
    upstream := s.upstream.request
    dispatches := Function.update s.dispatches req (s.dispatches req + 1) }

/-- What a step counts before it goes on. -/
def entered (s : SystemStats) : SystemStep → SystemStats
  | .request _ _ body => s.handled body
  | .check k _ =>
    match s.sys.callers k with
    | job :: _ => s.dispatched job.item.req
    | [] => s
  | _ => s

/-- The hooks of a simple request run. -/
def simpleAnswered (error : Bool) (s : SystemStats) (req : Nat) : SystemStats :=
  { s with upstream := s.upstream.response error (s.dispatches req) }

/-- The hooks of a raw request run. -/
def rawAnswered (error : Bool) (s : SystemStats) (rid : Nat) : SystemStats :=
  { s with
    commands := s.setCommand (s.rawCmds.getD rid none) fun c => c.response error 1
    downstream := s.downstream.response error 1 }

/-- The counters after a step to `sys'`. -/
def counted (s : SystemStats) (a : StatsStep) (sys' : System) : SystemStats :=
  let s₁ := s.entered a.step
  let s₂ := (sys'.simpleSet.drop s.sys.simpleSet.length).foldl (simpleAnswered a.error) s₁
  let s₃ := (sys'.rawSet.drop s.sys.rawSet.length).foldl (rawAnswered a.error) s₂
  { s₃ with sys := sys' }

def step (s : SystemStats) (a : StatsStep) : Option SystemStats :=
  (s.sys.step a.step).map (s.counted a)

/-! ## Open requests -/

/-- The requests of the first `n` whose response is not set. -/
def openReqs (n : Nat) (answered : List Nat) : Finset Nat :=
  (Finset.range n).filter fun req => req ∉ answered

/-- The requests of a command among some requests. -/
def ofCommand (s : SystemStats) (cmd : Bytes) (reqs : Finset Nat) : Finset Nat :=
  reqs.filter fun rid => s.rawCmds.getD rid none = some cmd

/-- For each counter, what is not counted as a success or a failure is what is open. -/
structure Balanced (s : SystemStats) : Prop where
  downstream : s.downstream.Leaves (openReqs s.sys.raws.length s.sys.rawSet).card
  commands : ∀ cmd, (s.commands cmd).Leaves
    (s.ofCommand cmd (openReqs s.sys.raws.length s.sys.rawSet)).card
  upstream : s.upstream.Leaves
    (∑ req ∈ openReqs s.sys.simples.length s.sys.simpleSet, s.dispatches req)

variable {n m req : Nat} {answered : List Nat} {w : Nat → Nat}

theorem mem_openReqs : req ∈ openReqs n answered ↔ req < n ∧ req ∉ answered := by
  simp [openReqs]

/-- The response of an open request is set. -/
theorem openReqs_answer : openReqs n (answered ++ [req]) = (openReqs n answered).erase req := by
  ext i
  simp only [mem_openReqs, List.mem_append, List.mem_singleton, Finset.mem_erase, not_or]
  tauto

theorem sum_openReqs_answer (h : req ∈ openReqs n answered) :
    (∑ i ∈ openReqs n (answered ++ [req]), w i) + w req = ∑ i ∈ openReqs n answered, w i := by
  rw [openReqs_answer, Finset.sum_erase_add _ _ h]

/-- The response of a request is set once more. -/
theorem openReqs_answer_again (h : req ∈ answered) :
    openReqs n (answered ++ [req]) = openReqs n answered := by
  rw [openReqs_answer, Finset.erase_eq_of_notMem]
  simp [mem_openReqs, h]

/-- A new request is open. -/
theorem openReqs_succ (h : n ∉ answered) :
    openReqs (n + 1) answered = insert n (openReqs n answered) := by
  ext i
  simp only [mem_openReqs, Finset.mem_insert]
  constructor
  · rintro ⟨hi, hnot⟩
    rcases Nat.lt_succ_iff_lt_or_eq.mp hi with hi | rfl
    · exact Or.inr ⟨hi, hnot⟩
    · exact Or.inl rfl
  · rintro (rfl | ⟨hi, hnot⟩)
    · exact ⟨Nat.lt_succ_self i, h⟩
    · exact ⟨Nat.lt_succ_of_lt hi, hnot⟩

theorem not_mem_openReqs_self : n ∉ openReqs n answered := by
  simp [mem_openReqs]

/-- Requests without hooks are made. -/
theorem sum_openReqs_grow (hle : n ≤ m) (hw : ∀ i, n ≤ i → w i = 0) :
    ∑ i ∈ openReqs m answered, w i = ∑ i ∈ openReqs n answered, w i := by
  symm
  apply Finset.sum_subset
  · intro i hi
    rw [mem_openReqs] at hi ⊢
    exact ⟨hi.1.trans_le hle, hi.2⟩
  · intro i hi hnot
    apply hw
    by_contra hlt
    rw [mem_openReqs] at hi hnot
    exact hnot ⟨Nat.lt_of_not_le hlt, hi.2⟩

/-- One hook more is registered on an open request. -/
theorem sum_openReqs_bump (h : req ∈ openReqs n answered) :
    ∑ i ∈ openReqs n answered, Function.update w req (w req + 1) i =
      (∑ i ∈ openReqs n answered, w i) + 1 := by
  have hrest : ∑ i ∈ (openReqs n answered).erase req, Function.update w req (w req + 1) i =
      ∑ i ∈ (openReqs n answered).erase req, w i := by
    refine Finset.sum_congr rfl fun i hi => ?_
    exact Function.update_of_ne (Finset.ne_of_mem_erase hi) _ _
  rw [← Finset.add_sum_erase _ _ h, ← Finset.add_sum_erase _ w h, Function.update_self, hrest]
  omega

/-! ## Steps -/

/-- What a step does to the numbers of requests and to those whose response is set. -/
inductive Effect (s s' : System) : SystemStep → Prop where
  | request {n : Nat} {env : Surroundings} {body : RespValue}
      (hraws : s'.raws.length = s.raws.length + 1) (hset : s'.rawSet = s.rawSet)
      (hsimples : s.simples.length ≤ s'.simples.length) (hanswered : s'.simpleSet = s.simpleSet) :
      Effect s s' (.request n env body)
  | check {k : Caller} {t : Nat} {item : Item} {addr : Bytes} {rest : List Job}
      (hk : s.callers k = ⟨item, .check addr⟩ :: rest) (hraws : s'.raws.length = s.raws.length)
      (hset : s'.rawSet = s.rawSet) (hsimples : s'.simples = s.simples)
      (hopen : item.req ∈ openReqs s.simples.length s.simpleSet)
      (hanswered : s'.simpleSet = s.simpleSet ∨ s'.simpleSet = s.simpleSet ++ [item.req]) :
      Effect s s' (.check k t)
  | setRaw {rid : Nat} (hcall : .setRaw rid ∈ s.calls) (hraws : s'.raws.length = s.raws.length)
      (hset : s'.rawSet = s.rawSet ++ [rid]) (hsimples : s'.simples = s.simples)
      (hanswered : s'.simpleSet = s.simpleSet) : Effect s s' (.hook (.setRaw rid))
  | other {a : SystemStep} (hentered : ∀ t : SystemStats, t.entered a = t)
      (hraw : ∀ rid, a ≠ .hook (.setRaw rid)) (hraws : s'.raws.length = s.raws.length)
      (hset : s'.rawSet = s.rawSet) (hsimples : s.simples.length ≤ s'.simples.length)
      (hanswered : s'.simpleSet = s.simpleSet ∨
        ∃ req ∈ openReqs s.simples.length s.simpleSet, s'.simpleSet = s.simpleSet ++ [req]) :
      Effect s s' a

theorem effect_of_step {s s' : System} {a : SystemStep} (hone : s.OnePlace) (hacc : s.Accounts)
    (h : System.Step s a s') : Effect s s' a := by
  have hjob : ∀ {k : Caller} {item : Item} {pc : CallPc} {rest : List Job},
      s.callers k = ⟨item, pc⟩ :: rest → (∀ c, pc ≠ .put c) →
      item.req ∈ openReqs s.simples.length s.simpleSet :=
    fun hk hpc => mem_openReqs.mpr (hone.open_of_job hk hpc)
  cases h with
  | respond => exact .request (by simp) rfl le_rfl rfl
  | split => exact .request (by simp [System.split]) rfl (by simp [System.split]) rfl
  | checkQuit hk => exact .check hk rfl rfl rfl (hjob hk (by simp)) (.inr rfl)
  | check hk => exact .check hk rfl rfl rfl (hjob hk (by simp)) (.inl rfl)
  | setRaw hcall => exact .setRaw hcall rfl rfl rfl rfl
  | noHost hk | gotErr hk | sendRefused hk =>
    exact .other (fun _ => rfl) (by simp) rfl rfl le_rfl (.inr ⟨_, hjob hk (by simp), rfl⟩)
  | answer ha hcl hstep hsettled =>
    have hopen := mem_openReqs.mpr (hone.open_of_client hacc ha hcl hstep hsettled)
    exact .other (fun _ => rfl) (by simp) rfl rfl le_rfl (.inr ⟨_, hopen, rfl⟩)
  | refresh | ask | dialOk => exact .other (fun _ => rfl) (by simp) rfl rfl (by simp) (.inl rfl)
  | childDone => exact .other (fun _ => rfl) (by simp) (by simp) rfl le_rfl (.inl rfl)
  | _ => exact .other (fun _ => rfl) (by simp) rfl rfl le_rfl (.inl rfl)

variable {s : SystemStats} {a : StatsStep} {sys' : System} {rid : Nat}

/-- No response is set. -/
theorem counted_of_none (hanswered : sys'.simpleSet = s.sys.simpleSet)
    (hset : sys'.rawSet = s.sys.rawSet) :
    s.counted a sys' = { s.entered a.step with sys := sys' } := by
  simp [counted, hanswered, hset]

/-- The response of a simple request is set. -/
theorem counted_of_simple (hanswered : sys'.simpleSet = s.sys.simpleSet ++ [req])
    (hset : sys'.rawSet = s.sys.rawSet) :
    s.counted a sys' = { simpleAnswered a.error (s.entered a.step) req with sys := sys' } := by
  simp [counted, hanswered, hset]

/-- The response of a raw request is set. -/
theorem counted_of_raw (hanswered : sys'.simpleSet = s.sys.simpleSet)
    (hset : sys'.rawSet = s.sys.rawSet ++ [rid]) :
    s.counted a sys' = { rawAnswered a.error (s.entered a.step) rid with sys := sys' } := by
  simp [counted, hanswered, hset]

/-! ## Simple requests -/

/-- The counters of dispatches in every run: hooks are registered on requests that are made. -/
structure Upstreamed (s : SystemStats) : Prop where
  fresh : ∀ req, s.sys.simples.length ≤ req → s.dispatches req = 0
  leaves : s.upstream.Leaves
    (∑ req ∈ openReqs s.sys.simples.length s.sys.simpleSet, s.dispatches req)

theorem upstreamed_new : Upstreamed newSystemStats :=
  ⟨fun _ _ => rfl, rfl⟩

/-- More simple requests are made, and nothing is counted. -/
theorem Upstreamed.grow {s' : SystemStats} (h : Upstreamed s)
    (hsimples : s.sys.simples.length ≤ s'.sys.simples.length)
    (hanswered : s'.sys.simpleSet = s.sys.simpleSet) (hupstream : s'.upstream = s.upstream)
    (hdispatches : s'.dispatches = s.dispatches) : Upstreamed s' := by
  refine ⟨fun req hreq => ?_, ?_⟩
  · rw [hdispatches]
    exact h.fresh req (hsimples.trans hreq)
  · rw [hupstream, hdispatches, hanswered, sum_openReqs_grow hsimples h.fresh]
    exact h.leaves

/-- The hooks of an open request run. -/
theorem Upstreamed.answer {s' : SystemStats} (h : Upstreamed s)
    (hopen : req ∈ openReqs s.sys.simples.length s.sys.simpleSet)
    (hsimples : s.sys.simples.length ≤ s'.sys.simples.length)
    (hanswered : s'.sys.simpleSet = s.sys.simpleSet ++ [req]) {error : Bool}
    (hupstream : s'.upstream = s.upstream.response error (s.dispatches req))
    (hdispatches : s'.dispatches = s.dispatches) : Upstreamed s' := by
  refine ⟨fun i hi => ?_, ?_⟩
  · rw [hdispatches]
    exact h.fresh i (hsimples.trans hi)
  · rw [hupstream, hdispatches, hanswered, sum_openReqs_grow hsimples h.fresh,
      h.leaves.response_iff]
    exact sum_openReqs_answer hopen

/-- A request is dispatched. -/
theorem Upstreamed.dispatched (h : Upstreamed s)
    (hopen : req ∈ openReqs s.sys.simples.length s.sys.simpleSet) :
    Upstreamed (s.dispatched req) := by
  refine ⟨fun i hi => ?_, ?_⟩
  · have hne : i ≠ req := by
      rintro rfl
      exact absurd (mem_openReqs.mp hopen).1 (Nat.not_lt.mpr hi)
    exact (Function.update_of_ne hne _ _).trans (h.fresh i hi)
  · unfold SystemStats.dispatched
    dsimp only
    rw [sum_openReqs_bump hopen]
    exact h.leaves.request

theorem Upstreamed.step (h : Upstreamed s) (he : Effect s.sys sys' a.step) :
    Upstreamed (s.counted a sys') := by
  obtain ⟨a, error⟩ := a
  cases he with
  | request hraws hset hsimples hanswered =>
    rw [counted_of_none hanswered hset]
    exact h.grow hsimples hanswered rfl rfl
  | setRaw hcall hraws hset hsimples hanswered =>
    rw [counted_of_raw hanswered hset]
    exact h.grow (congrArg List.length hsimples).ge hanswered rfl rfl
  | @check k t item addr rest hk hraws hset hsimples hopen hanswered =>
    have hentered : s.entered (.check k t) = s.dispatched item.req := by
      simp only [entered, hk]
    have hs := h.dispatched hopen
    -- the client takes the request, or it is answered at once
    rcases hanswered with hanswered | hanswered
    · rw [counted_of_none hanswered hset, hentered]
      exact hs.grow (congrArg List.length hsimples).ge hanswered rfl rfl
    · rw [counted_of_simple hanswered hset, hentered]
      exact hs.answer hopen (congrArg List.length hsimples).ge hanswered rfl rfl
  | other hentered hraw hraws hset hsimples hanswered =>
    rcases hanswered with hanswered | ⟨req, hopen, hanswered⟩
    · rw [counted_of_none hanswered hset, hentered]
      exact h.grow hsimples hanswered rfl rfl
    · rw [counted_of_simple hanswered hset, hentered]
      exact h.answer hopen hsimples hanswered rfl rfl

/-! ## Raw requests -/

/-- Hooks make their calls on raw requests that are made. -/
def CallsBelow (s : System) : Prop :=
  ∀ call ∈ s.calls ++ s.simples.flatten, call.rid < s.raws.length

theorem CallsBelow.mono {s s' : System} (h : CallsBelow s)
    (hraws : s.raws.length ≤ s'.raws.length)
    (hcalls : ∀ call ∈ s'.calls ++ s'.simples.flatten,
      call ∈ s.calls ++ s.simples.flatten ∨ call.rid < s'.raws.length) : CallsBelow s' := by
  intro call hcall
  rcases hcalls call hcall with hold | hnew
  · exact (h call hold).trans_le hraws
  · exact hnew

/-- The calls of the hooks of a request are under way. -/
theorem CallsBelow.setResponse {s : System} (h : CallsBelow s) (req : Nat) :
    CallsBelow (s.setResponse req) := by
  refine h.mono le_rfl fun call hcall => Or.inl ?_
  simp only [System.setResponse, List.mem_append] at hcall ⊢
  rcases hcall with (hcall | hcall) | hcall
  · exact Or.inl hcall
  · rw [List.getD_eq_getElem?_getD] at hcall
    cases hget : s.simples[req]? with
    | none =>
      rw [hget] at hcall
      cases hcall
    | some calls =>
      rw [hget] at hcall
      exact Or.inr (List.mem_flatten.mpr ⟨calls, List.mem_of_getElem? hget, hcall⟩)
  · exact Or.inr hcall

theorem rid_of_mem_calls {r : SimpleRequest} {rid : Nat} {call : HookCall}
    (h : call ∈ r.calls rid) : call.rid = rid := by
  obtain ⟨hook, -, hcall⟩ := List.mem_filterMap.mp h
  cases hook with
  | bindRaw | childDone =>
    cases hcall
    rfl
  | _ => cases hcall

theorem CallsBelow.step {s s' : System} {a : SystemStep} (h : CallsBelow s)
    (hstep : System.Step s a s') : CallsBelow s' := by
  cases hstep with
  | respond =>
    refine h.mono (by simp) fun call hcall => ?_
    simp only [List.mem_append, List.mem_singleton] at hcall ⊢
    rcases hcall with (hcall | rfl) | hcall
    · exact Or.inl (Or.inl hcall)
    · exact Or.inr (by simp [HookCall.rid])
    · exact Or.inl (Or.inr hcall)
  | @split n env body join children =>
    refine h.mono (by simp [System.split]) fun call hcall => ?_
    simp only [System.split, System.setJobs_calls, System.setJobs_simples, List.flatten_append,
      List.mem_append] at hcall ⊢
    rcases hcall with hcall | hcall | hcall
    · exact Or.inl (Or.inl hcall)
    · exact Or.inl (Or.inr hcall)
    · -- the hooks of the children
      obtain ⟨calls, hcalls, hcall⟩ := List.mem_flatten.mp hcall
      obtain ⟨c, -, rfl⟩ := List.mem_map.mp hcalls
      exact Or.inr (by simp [rid_of_mem_calls hcall])
  | noHost | checkQuit | gotErr | sendRefused | answer =>
    apply CallsBelow.setResponse
    exact h
  | refresh | ask | dialOk =>
    refine h.mono le_rfl fun call hcall => Or.inl ?_
    simpa using hcall
  | setRaw hcall =>
    refine h.mono le_rfl fun call hmem => Or.inl ?_
    rcases List.mem_append.mp hmem with hmem | hmem
    · exact List.mem_append_left _ (List.mem_of_mem_erase hmem)
    · exact List.mem_append_right _ hmem
  | @childDone rid wait hcall hwait =>
    refine h.mono (by simp) fun call hmem => ?_
    simp only [List.mem_append] at hmem ⊢
    rcases hmem with (hmem | hmem) | hmem
    · exact Or.inl (Or.inl (List.mem_of_mem_erase hmem))
    · refine Or.inr ?_
      split at hmem
      · obtain rfl := List.mem_singleton.mp hmem
        have hrid := h _ (List.mem_append_left _ hcall)
        simpa [HookCall.rid] using hrid
      · cases hmem
    · exact Or.inl (Or.inr hmem)
  | _ => exact h

/-- What holds in every run. -/
structure Kept (s : SystemStats) : Prop where
  accounts : s.sys.Accounts
  onePlace : s.sys.OnePlace
  calls : CallsBelow s.sys
  rawCmds : s.rawCmds.length = s.sys.raws.length
  rawSet : ∀ rid ∈ s.sys.rawSet, rid < s.sys.raws.length
  upstream : Upstreamed s

theorem kept_new : Kept newSystemStats where
  accounts := System.accounts_newSystem
  onePlace := System.onePlace_newSystem
  calls := fun call hcall => by cases hcall
  rawCmds := rfl
  rawSet := fun rid hrid => by cases hrid
  upstream := upstreamed_new

/-- What a step does to the raw requests and to what is counted for them. -/
inductive RawEffect (s s' : SystemStats) (a : StatsStep) : Prop where
  | request (cmd : Option Bytes) (ha : ∀ rid, a.step ≠ .hook (.setRaw rid))
      (hraws : s'.sys.raws.length = s.sys.raws.length + 1) (hset : s'.sys.rawSet = s.sys.rawSet)
      (hdownstream : s'.downstream = s.downstream.request)
      (hcommands : s'.commands = s.setCommand cmd Counts.request)
      (hcmds : s'.rawCmds = s.rawCmds ++ [cmd])
  | setRaw (rid : Nat) (ha : a.step = .hook (.setRaw rid)) (hcall : .setRaw rid ∈ s.sys.calls)
      (hraws : s'.sys.raws.length = s.sys.raws.length)
      (hset : s'.sys.rawSet = s.sys.rawSet ++ [rid])
      (hdownstream : s'.downstream = s.downstream.response a.error 1)
      (hcommands : s'.commands =
        s.setCommand (s.rawCmds.getD rid none) fun c => c.response a.error 1)
      (hcmds : s'.rawCmds = s.rawCmds)
  | other (ha : ∀ rid, a.step ≠ .hook (.setRaw rid))
      (hraws : s'.sys.raws.length = s.sys.raws.length) (hset : s'.sys.rawSet = s.sys.rawSet)
      (hdownstream : s'.downstream = s.downstream) (hcommands : s'.commands = s.commands)
      (hcmds : s'.rawCmds = s.rawCmds)

theorem rawEffect_of_effect (he : Effect s.sys sys' a.step) :
    RawEffect s (s.counted a sys') a := by
  obtain ⟨a, error⟩ := a
  cases he with
  | @request n env body hraws hset hsimples hanswered =>
    rw [counted_of_none hanswered hset]
    exact .request (commandOf body) nofun hraws hset rfl rfl rfl
  | setRaw hcall hraws hset hsimples hanswered =>
    rw [counted_of_raw hanswered hset]
    exact .setRaw _ rfl hcall hraws hset rfl rfl rfl
  | @check k t item addr rest hk hraws hset hsimples hopen hanswered =>
    have hentered : s.entered (.check k t) = s.dispatched item.req := by
      simp only [entered, hk]
    rcases hanswered with hanswered | hanswered
    · rw [counted_of_none hanswered hset, hentered]
      exact .other nofun hraws hset rfl rfl rfl
    · rw [counted_of_simple hanswered hset, hentered]
      exact .other nofun hraws hset rfl rfl rfl
  | other hentered hraw hraws hset hsimples hanswered =>
    rcases hanswered with hanswered | ⟨req, -, hanswered⟩
    · rw [counted_of_none hanswered hset, hentered]
      exact .other hraw hraws hset rfl rfl rfl
    · rw [counted_of_simple hanswered hset, hentered]
      exact .other hraw hraws hset rfl rfl rfl

theorem Kept.step (h : Kept s) (hstep : System.Step s.sys a.step sys') :
    Kept (s.counted a sys') := by
  have he := effect_of_step h.onePlace h.accounts hstep
  have hsys : (s.counted a sys').sys = sys' := rfl
  refine ⟨h.accounts.step hstep, h.onePlace.step h.accounts hstep, h.calls.step hstep, ?_, ?_,
    h.upstream.step he⟩
  · cases rawEffect_of_effect he with
    | request cmd ha hraws hset hdownstream hcommands hcmds =>
      rw [hcmds, hraws, List.length_append, List.length_singleton, h.rawCmds]
    | setRaw rid ha hcall hraws hset hdownstream hcommands hcmds =>
      rw [hcmds, hraws, h.rawCmds]
    | other ha hraws hset hdownstream hcommands hcmds => rw [hcmds, hraws, h.rawCmds]
  · intro i hi
    cases rawEffect_of_effect he with
    | request cmd ha hraws hset hdownstream hcommands hcmds =>
      rw [hset] at hi
      rw [hraws]
      exact Nat.lt_succ_of_lt (h.rawSet i hi)
    | setRaw rid ha hcall hraws hset hdownstream hcommands hcmds =>
      rw [hset, List.mem_append, List.mem_singleton] at hi
      rw [hraws]
      rcases hi with hi | rfl
      · exact h.rawSet i hi
      -- the hook ran for a request that was made
      · exact h.calls _ (List.mem_append_left _ hcall)
    | other ha hraws hset hdownstream hcommands hcmds =>
      rw [hset] at hi
      rw [hraws]
      exact h.rawSet i hi

/-! ## The balance -/

/-- The response of a raw request is set for the first time. -/
def AnswersOnce (s : SystemStats) (a : StatsStep) : Prop :=
  ∀ rid, a.step = .hook (.setRaw rid) → rid ∉ s.sys.rawSet

theorem setCommand_apply (s : SystemStats) (cmd : Option Bytes) (f : Counts → Counts)
    (cmd' : Bytes) : s.setCommand cmd f cmd' =
      if cmd = some cmd' then f (s.commands cmd') else s.commands cmd' := by
  cases cmd with
  | none => rfl
  | some cmd =>
    unfold setCommand
    by_cases h : cmd = cmd'
    · subst h
      simp
    · simp [h, Ne.symm h]

/-- A new request is one of its command. -/
theorem ofCommand_insert {s' : SystemStats} {cmd : Option Bytes} {cmd' : Bytes}
    (hcmds : s'.rawCmds = s.rawCmds ++ [cmd]) :
    s'.ofCommand cmd' (insert s.rawCmds.length (openReqs s.rawCmds.length answered)) =
      if cmd = some cmd' then
        insert s.rawCmds.length (s.ofCommand cmd' (openReqs s.rawCmds.length answered))
      else s.ofCommand cmd' (openReqs s.rawCmds.length answered) := by
  have hold : s'.ofCommand cmd' (openReqs s.rawCmds.length answered) =
      s.ofCommand cmd' (openReqs s.rawCmds.length answered) := by
    refine Finset.filter_congr fun rid hrid => ?_
    have hlt := (mem_openReqs.mp hrid).1
    rw [hcmds, List.getD_eq_getElem?_getD, List.getElem?_append_left hlt,
      ← List.getD_eq_getElem?_getD]
  have hnew : s'.rawCmds.getD s.rawCmds.length none = cmd := by
    rw [hcmds]
    simp
  unfold ofCommand at hold ⊢
  rw [Finset.filter_insert, hnew, hold]

/-- A new request leaves the counters of the commands balanced. -/
theorem leaves_request {s' : SystemStats} {cmd : Option Bytes} {cmd' : Bytes}
    (h : (s.commands cmd').Leaves (s.ofCommand cmd' (openReqs s.rawCmds.length answered)).card)
    (hcmds : s'.rawCmds = s.rawCmds ++ [cmd])
    (hcommands : s'.commands = s.setCommand cmd Counts.request) :
    (s'.commands cmd').Leaves (s'.ofCommand cmd'
      (insert s.rawCmds.length (openReqs s.rawCmds.length answered))).card := by
  rw [hcommands, setCommand_apply, ofCommand_insert hcmds]
  by_cases hcmd : cmd = some cmd'
  · rw [if_pos hcmd, if_pos hcmd, Finset.card_insert_of_notMem]
    · exact h.request
    · intro hmem
      exact not_mem_openReqs_self (Finset.mem_of_mem_filter _ hmem)
  · rw [if_neg hcmd, if_neg hcmd]
    exact h

/-- The first response of a request leaves the counters of the commands balanced. -/
theorem leaves_setRaw {s' : SystemStats} {reqs : Finset Nat} (hrid : rid ∈ reqs) {cmd' : Bytes}
    {error : Bool} (h : (s.commands cmd').Leaves (s.ofCommand cmd' reqs).card)
    (hcmds : s'.rawCmds = s.rawCmds)
    (hcommands : s'.commands =
      s.setCommand (s.rawCmds.getD rid none) fun c => c.response error 1) :
    (s'.commands cmd').Leaves (s'.ofCommand cmd' (reqs.erase rid)).card := by
  have herase : s'.ofCommand cmd' (reqs.erase rid) = (s.ofCommand cmd' reqs).erase rid := by
    unfold ofCommand
    rw [hcmds, Finset.filter_erase]
  rw [hcommands, setCommand_apply, herase]
  by_cases hcmd : s.rawCmds.getD rid none = some cmd'
  · have hmem : rid ∈ s.ofCommand cmd' reqs := Finset.mem_filter.mpr ⟨hrid, hcmd⟩
    rw [if_pos hcmd, h.response_iff]
    exact Finset.card_erase_add_one hmem
  · have hmem : rid ∉ s.ofCommand cmd' reqs := fun hmem => hcmd (Finset.mem_filter.mp hmem).2
    rw [if_neg hcmd, Finset.erase_eq_of_notMem hmem]
    exact h

/-- A step keeps the balance exactly if it does not set the response of a raw request again. -/
theorem Balanced.step_iff {s' : SystemStats} (h : Balanced s) (hkept : Kept s) (hkept' : Kept s')
    (he : RawEffect s s' a) : Balanced s' ↔ s.AnswersOnce a := by
  cases he with
  | other ha hraws hset hdownstream hcommands hcmds =>
    refine iff_of_true ⟨?_, fun cmd => ?_, hkept'.upstream.leaves⟩ fun rid hrid =>
      absurd hrid (ha rid)
    · rw [hdownstream, hraws, hset]
      exact h.downstream
    · rw [hcommands, hraws, hset, ofCommand, hcmds]
      exact h.commands cmd
  | request cmd ha hraws hset hdownstream hcommands hcmds =>
    have hnew : s.sys.raws.length ∉ s.sys.rawSet :=
      fun hmem => Nat.lt_irrefl _ (hkept.rawSet _ hmem)
    refine iff_of_true ⟨?_, fun cmd' => ?_, hkept'.upstream.leaves⟩ fun rid hrid =>
      absurd hrid (ha rid)
    · rw [hdownstream, hraws, hset, openReqs_succ hnew,
        Finset.card_insert_of_notMem not_mem_openReqs_self]
      exact h.downstream.request
    · rw [hraws, hset, openReqs_succ hnew, ← hkept.rawCmds]
      have hold := h.commands cmd'
      rw [← hkept.rawCmds] at hold
      exact leaves_request hold hcmds hcommands
  | setRaw rid ha hcall hraws hset hdownstream hcommands hcmds =>
    by_cases hrid : rid ∈ s.sys.rawSet
    · -- the response is counted twice
      refine iff_of_false (fun hbalanced => ?_) fun honce => honce rid ha hrid
      have hdown := hbalanced.downstream
      rw [hdownstream, h.downstream.response_iff, hraws, hset, openReqs_answer_again hrid] at hdown
      omega
    · have hopen : rid ∈ openReqs s.sys.raws.length s.sys.rawSet :=
        mem_openReqs.mpr ⟨hkept.calls _ (List.mem_append_left _ hcall), hrid⟩
      refine iff_of_true ⟨?_, fun cmd' => ?_, hkept'.upstream.leaves⟩ fun rid' hrid' => ?_
      · rw [hdownstream, h.downstream.response_iff, hraws, hset, openReqs_answer]
        exact Finset.card_erase_add_one hopen
      · rw [hraws, hset, openReqs_answer]
        exact leaves_setRaw hopen (h.commands cmd') hcmds hcommands
      · obtain rfl : rid = rid' := by
          rw [ha] at hrid'
          exact HookCall.setRaw.inj (SystemStep.hook.inj hrid')
        exact hrid

/-! ## Runs -/

theorem step_cases {s' : SystemStats} (h : s.step a = some s') :
    ∃ sys', System.Step s.sys a.step sys' ∧ s' = s.counted a sys' := by
  obtain ⟨sys', hsys, rfl⟩ := Option.map_eq_some_iff.mp h
  exact ⟨sys', System.step_cases hsys, rfl⟩

theorem kept_of_run {as : List StatsStep} (hrun : runFrom step newSystemStats as = some s) :
    Kept s := by
  refine invariant_of_run (fun s a s' hs h => ?_) kept_new hrun
  obtain ⟨sys', hstep, rfl⟩ := step_cases h
  exact hs.step hstep

/-- One step of a run. -/
theorem balanced_step_iff {s' : SystemStats} (hkept : Kept s) (h : Balanced s)
    (hstep : s.step a = some s') : Balanced s' ↔ s.AnswersOnce a := by
  obtain ⟨sys', hsys, rfl⟩ := step_cases hstep
  have he := effect_of_step hkept.onePlace hkept.accounts hsys
  exact h.step_iff hkept (hkept.step hsys) (rawEffect_of_effect he)

theorem balanced_new : Balanced newSystemStats :=
  ⟨rfl, fun _ => rfl, rfl⟩

/-- As long as requests are split into at most `2 ^ 32` children, a response that a hook is going
    to set was not set before. -/
theorem answersOnce_of_rawOk (hraw : s.sys.RawOk) {s' : SystemStats} (hstep : s.step a = some s') :
    s.AnswersOnce a := by
  intro rid ha hmem
  obtain ⟨sys', hsys, -⟩ := step_cases hstep
  rw [ha] at hsys
  cases hsys with
  | setRaw hcall =>
    have honce := hraw.once rid
    have hset := List.count_pos_iff.mpr hmem
    have hfuture : 0 < s.sys.future.count (.setRaw rid) :=
      List.count_pos_iff.mpr (List.mem_append_right _ hcall)
    omega

/-- **The statistics are balanced** in every state of a run exactly when no step of the run sets
    the response of a raw request once more. This is so when every request of the run is split into
    at most `2 ^ 32` children. -/
theorem balanced_iff_answersOnce {as : List StatsStep}
    (hrun : runFrom step newSystemStats as = some s) :
    ((∀ bs t, bs <+: as → runFrom step newSystemStats bs = some t → Balanced t) ↔
        RunMeets step AnswersOnce newSystemStats as) ∧
      (RunMeets step (fun s a => s.sys.SplitsFit a.step) newSystemStats as → Balanced s) := by
  constructor
  · refine good_iff_runMeets (fun _ t => Balanced t) balanced_new ?_ hrun
    intro bs t a t' _ ht hbalanced hstep
    exact balanced_step_iff (kept_of_run ht) hbalanced hstep
  · intro hmeets
    have hstep : ∀ (s : SystemStats) a s', Kept s ∧ s.sys.RawOk ∧ Balanced s →
        s.sys.SplitsFit a.step → s.step a = some s' →
        Kept s' ∧ s'.sys.RawOk ∧ Balanced s' := by
      rintro s a s' ⟨hkept, hraw, hbalanced⟩ hfits h
      have hbalanced' := (balanced_step_iff hkept hbalanced h).mpr (answersOnce_of_rawOk hraw h)
      obtain ⟨sys', hsys, rfl⟩ := step_cases h
      exact ⟨hkept.step hsys, hraw.step hkept.onePlace hkept.accounts hfits hsys, hbalanced'⟩
    exact (invariant_of_runMeets hstep ⟨kept_new, System.rawOk_newSystem, balanced_new⟩ hmeets
      hrun).2.2

/-! ## A request that is answered twice -/

/-- Every run of the proxy is one with counters. -/
theorem exists_run {as : List SystemStep} (s : SystemStats) {sys' : System}
    (h : runFrom System.step s.sys as = some sys') :
    ∃ s', runFrom step s (as.map fun a => ⟨a, false⟩) = some s' ∧ s'.sys = sys' := by
  induction as generalizing s with
  | nil => exact ⟨s, rfl, Option.some.inj h⟩
  | cons a as ih =>
    obtain ⟨sys₁, hsys₁, hrest⟩ := runFrom_cons_eq_some.mp h
    obtain ⟨s', hs', hsys'⟩ := ih (s.counted ⟨a, false⟩ sys₁) hrest
    refine ⟨s', runFrom_cons_eq_some.mpr ⟨s.counted ⟨a, false⟩ sys₁, ?_, hs'⟩, hsys'⟩
    rw [step, hsys₁]
    rfl

/-- As long as the balance is kept, no raw request is answered twice. -/
theorem nodup_of_balanced {s₀ : SystemStats} (hkept : Kept s₀) (hnodup : s₀.sys.rawSet.Nodup)
    (hall : ∀ t, Reachable step s₀ t → Balanced t) (h : Reachable step s₀ s) :
    s.sys.rawSet.Nodup := by
  have hstep : ∀ (t : SystemStats) a t', Reachable step s₀ t ∧ Kept t ∧ t.sys.rawSet.Nodup →
      t.step a = some t' → Reachable step s₀ t' ∧ Kept t' ∧ t'.sys.rawSet.Nodup := by
    rintro t a t' ⟨ht, hkept, hnodup⟩ hstep
    have hone : runFrom step t [a] = some t' := runFrom_cons_eq_some.mpr ⟨t', hstep, rfl⟩
    have ht' : Reachable step s₀ t' := ht.runFrom hone
    have honce := (balanced_step_iff hkept (hall t ht) hstep).mp (hall t' ht')
    obtain ⟨sys', hsys, rfl⟩ := step_cases hstep
    refine ⟨ht', hkept.step hsys, ?_⟩
    cases rawEffect_of_effect (effect_of_step hkept.onePlace hkept.accounts hsys) with
    | request cmd ha hraws hset | other ha hraws hset =>
      rw [hset]
      exact hnodup
    | setRaw rid ha hcall hraws hset =>
      rw [hset, List.nodup_append]
      refine ⟨hnodup, List.nodup_singleton rid, ?_⟩
      rintro i hi j hj rfl
      exact honce rid ha (List.mem_singleton.mp hj ▸ hi)
  exact (invariant_of_reachable hstep ⟨⟨[], rfl⟩, hkept, hnodup⟩ h).2.2

/-- When a raw request is answered twice, the counters were out of balance before. -/
theorem exists_not_balanced {s₀ : SystemStats} (hkept : Kept s₀) (hnodup : s₀.sys.rawSet.Nodup)
    (h : Reachable System.step s₀.sys sys') (htwice : ¬sys'.rawSet.Nodup) :
    ∃ t, Reachable step s₀ t ∧ ¬Balanced t := by
  obtain ⟨as, has⟩ := h
  obtain ⟨t, ht, rfl⟩ := exists_run s₀ has
  by_contra hnone
  have hall : ∀ t, Reachable step s₀ t → Balanced t := by
    intro t ht
    by_contra hnot
    exact hnone ⟨t, ht, hnot⟩
  exact htwice (nodup_of_balanced hkept hnodup hall ⟨_, ht⟩)

/-- A request with `2 ^ 32 + 1` children, which a session can read, takes the counters out of
    balance. -/
theorem not_balanced_wideMset :
    (∃ d d' : Decoder, d.decode = (.ok (System.wideMset (2 ^ 32 + 1)), d')) ∧
      ∃ s t, newSystemStats.step ⟨.request 0 noSurroundings (System.wideMset (2 ^ 32 + 1)), false⟩ =
          some s ∧ Reachable step s t ∧ ¬Balanced t := by
  refine ⟨System.exists_decoder_wideMset _, ?_⟩
  have hpos : 0 < 2 ^ 32 + 1 := Nat.succ_pos _
  have hwide := System.step_wideMset noSurroundings hpos
  obtain ⟨sys', hreach, htwice⟩ := System.not_nodup_of_zeros System.two_le_zeros
  generalize 2 ^ 32 + 1 = n at hwide hreach ⊢
  have hrun : runFrom System.step newSystem [.request 0 noSurroundings (System.wideMset n)] =
      some (System.wideState n 0) := runFrom_cons_eq_some.mpr ⟨_, hwide, rfl⟩
  obtain ⟨s, hs, hsys⟩ := exists_run newSystemStats hrun
  rw [← hsys] at hreach
  have hnodup : s.sys.rawSet.Nodup := by
    rw [hsys]
    exact List.nodup_nil
  obtain ⟨t, ht, hnot⟩ := exists_not_balanced (kept_of_run hs) hnodup hreach htwice
  obtain ⟨s', hs', ⟨⟩⟩ := runFrom_cons_eq_some.mp hs
  exact ⟨s, t, hs', ht, hnot⟩

/-- The counters are in balance behind a request with two children, none of which finds a host. -/
theorem balanced_pairRun :
    ∃ s, runFrom step newSystemStats (System.pairRun.map fun a => ⟨a, false⟩) = some s ∧
      Balanced s := by
  obtain ⟨s, hs, -⟩ := exists_run newSystemStats (Option.some_get System.pairRun_isSome).symm
  refine ⟨s, hs, (balanced_iff_answersOnce hs).2 ?_⟩
  exact ⟨System.pairRun_splitsFit.1, fun _ _ => ⟨trivial, fun _ _ => ⟨trivial, fun _ _ =>
    ⟨trivial, fun _ _ => ⟨trivial, fun _ _ => ⟨trivial, fun _ _ => trivial⟩⟩⟩⟩⟩⟩

end SystemStats

end Samaritan.Redis
