import Samaritan.Lib.Ownership
import Samaritan.Redis.ClientShutdown
import Samaritan.Redis.System

/-!
# Where Simple Requests Are

Each simple request is at one place of the proxy at a time: with a goroutine that dispatches it,
with a client, or answered. It goes from place to place through dispatches, redirections and
drains, and a response is only set for a request that leaves one of the other places.
-/

namespace Samaritan.Redis

open Samaritan.Lib

/-! ## Where simple requests are -/

/-- A place of a simple request. -/
inductive Place where
  | caller (k : Caller)
  | client (c : Nat)
  /-- its response is set -/
  | answered
  deriving DecidableEq

/-- The request of a dispatch. In `Send`, behind the test of `quit`, it is with the client. -/
def Job.held : Job → List Nat
  | ⟨_, .put _⟩ => []
  | ⟨item, _⟩ => [item.req]

namespace System

/-- The simple requests at a place. -/
def tokens (s : System) : Place → List Nat
  | .caller k => (s.callers k).flatMap Job.held
  | .client c => ((s.clients c).elim [] Client.inside).map Item.req
  | .answered => s.simpleSet

/-- Every simple request is at one place. -/
def OnePlace (s : System) : Prop := Owned s.simples.length s.tokens

theorem tokens_newSystem (i : Place) : newSystem.tokens i = [] := by
  cases i <;> rfl

theorem onePlace_newSystem : OnePlace newSystem := .of_nil tokens_newSystem

/-- An exchange of requests between one goroutine, one client and the answered requests. -/
theorem OnePlace.exchange {s s' : System} (h : OnePlace s) (k : Caller)
    (c : Nat) (hle : s.simples.length ≤ s'.simples.length)
    (hcallers : ∀ k', k' ≠ k → s'.callers k' = s.callers k')
    (hclients : ∀ c', c' ≠ c → s'.clients c' = s.clients c')
    (hin : ∀ x, (s'.tokens (.caller k)).count x + (s'.tokens (.client c)).count x +
        s'.simpleSet.count x ≤
      (s.tokens (.caller k)).count x + (s.tokens (.client c)).count x + s.simpleSet.count x +
        (List.range' s.simples.length (s'.simples.length - s.simples.length)).count x) :
    OnePlace s' := by
  refine Owned.exchange h [.caller k, .client c, .answered] (by simp) hle ?_ ?_
  · rintro (k' | c' | _) hplace
    · simp only [List.mem_cons, Place.caller.injEq, not_or] at hplace
      simp only [tokens, hcallers k' hplace.1]
    · simp only [List.mem_cons, Place.client.injEq, not_or] at hplace
      simp only [tokens, hclients c' hplace.2.1]
    · simp at hplace
  · intro x
    have hx := hin x
    simp only [List.flatMap_cons, List.flatMap_nil, List.count_append, List.append_nil, tokens]
      at hx ⊢
    omega

theorem held_of_pc {item : Item} {pc : CallPc} (hpc : ∀ c, pc ≠ .put c) :
    Job.held ⟨item, pc⟩ = [item.req] := by
  cases pc with
  | put c => exact absurd rfl (hpc c)
  | _ => rfl

theorem held_jobs (base : Nat) (children : List (Route × SimpleRequest)) :
    (jobs base children).flatMap Job.held = List.range' base children.length := by
  induction children generalizing base with
  | nil => rfl
  | cons c cs ih =>
    have hpc : ∀ c', c.1.pc ≠ .put c' := by
      intro c'
      cases c.1 <;> simp [Route.pc]
    simp [jobs, held_of_pc hpc, ih, List.range'_succ]

/-- A dispatch ends with a call of `SetResponse`. -/
theorem OnePlace.answerJob {s : System} (h : OnePlace s) {k : Caller}
    {item : Item} {pc : CallPc} {rest : List Job} (hk : s.callers k = ⟨item, pc⟩ :: rest)
    (hpc : ∀ c, pc ≠ .put c) :
    OnePlace ((s.setJobs k rest).setResponse item.req) := by
  refine h.exchange k 0 le_rfl (fun k' hk' => ?_) (fun _ _ => rfl) fun x => ?_
  · simp [hk']
  · simp [tokens, hk, held_of_pc hpc, List.count_cons]
    omega

/-- A dispatch goes on. -/
theorem OnePlace.moveJob {s : System} (h : OnePlace s) {k : Caller}
    {item : Item} {pc pc' : CallPc} {rest : List Job} (hk : s.callers k = ⟨item, pc⟩ :: rest)
    (hpc : ∀ c, pc ≠ .put c) (hpc' : ∀ c, pc' ≠ .put c) :
    OnePlace (s.setJobs k (⟨item, pc'⟩ :: rest)) := by
  refine h.exchange k 0 le_rfl (fun k' hk' => ?_) (fun _ _ => rfl) fun x => ?_
  · simp [hk']
  · simp [tokens, hk, held_of_pc hpc, held_of_pc hpc']

/-! ## The accounts of the clients -/

/-- Every client keeps the account of its requests. -/
def Accounts (s : System) : Prop := AllClients Client.Account s

theorem accounts_newSystem : Accounts newSystem := allClients_newSystem _

theorem Accounts.step {s s' : System} {a : SystemStep} (hs : Accounts s) (h : Step s a s') :
    Accounts s' :=
  AllClients.step (fun item => Client.account_of_run (connect_eq item))
    (fun _ _ _ hcl hb => hcl.step hb) hs h

/-- The requests with a client change by those that are passed to `Send` and those that leave. -/
theorem count_inside {cl cl' : Client Item} {a : ClientStep Item} (hcl : cl.Account)
    (hstep : cl.Step a cl') {new : List (Item × Outcome)}
    (hnew : cl'.settled = cl.settled ++ new) (x : Nat) :
    ((new.map Prod.fst).map Item.req).count x + (cl'.inside.map Item.req).count x =
      (cl.inside.map Item.req).count x + (a.sends.map Item.req).count x := by
  have hperm := (hstep.inside_perm hcl hnew).map Item.req
  rw [List.map_append, List.map_append] at hperm
  simpa only [List.count_append] using hperm.count_eq x

theorem sends_of_byItself {a : ClientStep Item} (ha : a.byItself = true) : a.sends = [] := by
  cases a <;> simp_all [ClientStep.byItself, ClientStep.sends]

/-! ## Simple requests -/

/-- A client makes a step, and one goroutine has other dispatches behind it: the requests that the
    client is sent come from the goroutine, and those that leave the client go on. -/
theorem OnePlace.clientStep {s s' : System} (h : OnePlace s) (hs : Accounts s) {k : Caller}
    {c : Nat} {a : ClientStep Item} {cl cl' : Client Item} {new : List (Item × Outcome)}
    (hcl : s.clients c = some cl) (hstep : cl.Step a cl')
    (hnew : cl'.settled = cl.settled ++ new) (hle : s.simples.length ≤ s'.simples.length)
    (hcallers : ∀ k', k' ≠ k → s'.callers k' = s.callers k')
    (hclients : s'.clients = Function.update s.clients c (some cl'))
    (hin : ∀ x, ((s'.callers k).flatMap Job.held).count x + s'.simpleSet.count x +
        (a.sends.map Item.req).count x ≤
      ((s.callers k).flatMap Job.held).count x + s.simpleSet.count x +
        ((new.map Prod.fst).map Item.req).count x +
        (List.range' s.simples.length (s'.simples.length - s.simples.length)).count x) :
    OnePlace s' := by
  refine h.exchange k c hle hcallers (fun c' hc' => ?_) fun x => ?_
  · rw [hclients, Function.update_of_ne hc']
  · have hcount := count_inside (hs c cl hcl) hstep hnew x
    have hx := hin x
    simp only [tokens, hclients, Function.update_self, hcl, Option.elim_some]
    omega

/-- A client makes a step in which no request comes or leaves. -/
theorem OnePlace.quietClient {s : System} (h : OnePlace s) (hs : Accounts s) {c : Nat}
    {a : ClientStep Item} {cl cl' : Client Item} (hcl : s.clients c = some cl)
    (hstep : cl.Step a cl') (ha : a.sends = []) (hsettled : cl'.settled = cl.settled) :
    OnePlace (s.setClient c cl') := by
  have hnew : cl'.settled = cl.settled ++ [] := by simpa using hsettled
  refine h.clientStep (k := .refresh) hs hcl hstep hnew le_rfl (fun _ _ => rfl) rfl fun x => ?_
  simp [ha]

/-- Every step keeps each simple request at one place. -/
theorem OnePlace.step {s s' : System} {a : SystemStep} (h : OnePlace s) (hs : Accounts s)
    (hstep : Step s a s') : OnePlace s' := by
  cases hstep with
  | respond | registry | startReturn | setRaw | childDone => exact h
  | @split n env body join children hidle hbody =>
    -- the children get the next numbers, in order
    refine h.exchange (.session n) 0 (by simp [System.split]) (fun k' hk' => ?_) (fun _ _ => rfl)
      fun x => ?_
    · simp [System.split, hk']
    · simp only [System.split, tokens, hidle, held_jobs, setJobs_callers, Function.update_self,
        setJobs_simpleSet, setJobs_simples, List.length_append, List.length_map]
      simp
      omega
  | refresh hidle =>
    refine h.exchange .refresh 0 (by simp) (fun k' hk' => ?_) (fun _ _ => rfl) fun x => ?_
    · simp [hk']
    · simp [tokens, hidle, Job.held]
      omega
  | noHost hk | checkQuit hk hquit | gotErr hk hres herr => exact h.answerJob hk (by simp)
  | choose hk | check hk hreg | got hk hres => exact h.moveJob hk (by simp) (by simp)
  | @sendRefused k c item rest cl cl' hk hcl hstep hquit =>
    have hnew : cl'.settled = cl.settled ++ [(item, .refused)] := by
      cases hstep with
      | sendRefused => rfl
      | send hopen => simp [hquit] at hopen
    refine h.clientStep (k := k) hs hcl hstep hnew le_rfl (fun k' hk' => ?_) rfl fun x => ?_
    · simp [hk']
    · simp [hk, Job.held, ClientStep.sends, List.count_cons]
      omega
  | @send k c item rest cl cl' hk hcl hstep hquit =>
    have hnew : cl'.settled = cl.settled ++ [] := by
      cases hstep with
      | sendRefused hclosed => simp [hquit] at hclosed
      | send => simp
    -- the request is with the client from here on, and no longer with the goroutine
    refine h.clientStep (k := k) hs hcl hstep hnew le_rfl (fun k' hk' => ?_) rfl fun x => ?_
    · simp [hk']
    · simp [hk, Job.held, ClientStep.sends, List.count_cons]
      omega
  | @put k c item rest cl cl' hk hcl hstep =>
    have hnew : cl'.settled = cl.settled ++ [] := by
      cases hstep
      simp
    refine h.clientStep (k := k) hs hcl hstep hnew le_rfl (fun k' hk' => ?_) rfl fun x => ?_
    · simp [hk']
    · simp [hk, Job.held, ClientStep.sends]
  | client ha hcl hstep hsettled =>
    exact h.quietClient hs hcl hstep (sends_of_byItself ha) hsettled
  | answer ha hcl hstep hsettled =>
    refine h.clientStep (k := .refresh) hs hcl hstep hsettled le_rfl (fun _ _ => rfl) rfl
      fun x => ?_
    simp [sends_of_byItself ha]
    omega
  | @moved c a cl cl' item o hostAddr ha hcl hstep hsettled =>
    refine h.clientStep (k := .client c) hs hcl hstep hsettled le_rfl (fun k' hk' => ?_) rfl
      fun x => ?_
    · simp [hk']
    · simp [Job.held, sends_of_byItself ha]
      omega
  | @ask c a cl cl' item o hostAddr ha hcl hstep hsettled =>
    -- `ASKING` is a new request
    refine h.clientStep (k := .client c) hs hcl hstep hsettled (by simp) (fun k' hk' => ?_) rfl
      fun x => ?_
    · simp [hk']
    · simp [Job.held, sends_of_byItself ha, List.count_cons]
      omega
  | redirected hidle hcl hstep | stop hcl hreg hstep | serveStop hcl hreg hstep =>
    exact h.quietClient hs hcl hstep rfl (by cases hstep; rfl)
  | @dialOk t c reg hcl hreg =>
    -- so is the `READONLY` of a new client
    refine h.exchange .refresh c (by simp) (fun _ _ => rfl) (fun c' hc' => ?_) fun x => ?_
    · simp [hc']
    · simp [tokens, hcl, connect, Client.inside, newClient]
      omega

/-- A request that is not at the answered ones is made and its response is not set. -/
theorem OnePlace.open_of_mem {s : System} (h : OnePlace s) {p : Place} {x : Nat}
    (hx : x ∈ s.tokens p) (hp : p ≠ .answered) : x < s.simples.length ∧ x ∉ s.simpleSet :=
  ⟨h.below p x hx, fun hset => hp (h.unique p .answered x hx hset)⟩

/-- The request of a dispatch is open. -/
theorem OnePlace.open_of_job {s : System} (h : OnePlace s) {k : Caller} {item : Item}
    {pc : CallPc} {rest : List Job} (hk : s.callers k = ⟨item, pc⟩ :: rest)
    (hpc : ∀ c, pc ≠ .put c) : item.req < s.simples.length ∧ item.req ∉ s.simpleSet :=
  h.open_of_mem (p := .caller k) (by simp [tokens, hk, held_of_pc hpc]) (by simp)

/-- A request that leaves a client is open. -/
theorem OnePlace.open_of_client {s : System} (h : OnePlace s) (hs : Accounts s) {c : Nat}
    {a : ClientStep Item} {cl cl' : Client Item} {item : Item} {o : Outcome}
    (ha : a.byItself = true) (hcl : s.clients c = some cl) (hstep : cl.Step a cl')
    (hsettled : cl'.settled = cl.settled ++ [(item, o)]) :
    item.req < s.simples.length ∧ item.req ∉ s.simpleSet := by
  have hcount := count_inside (hs c cl hcl) hstep hsettled item.req
  simp only [sends_of_byItself ha, List.map_cons, List.map_nil, List.count_cons_self,
    List.count_nil] at hcount
  refine h.open_of_mem (p := .client c) (List.count_pos_iff.mp ?_) (by simp)
  simp only [tokens, hcl, Option.elim_some]
  omega

end System

end Samaritan.Redis
