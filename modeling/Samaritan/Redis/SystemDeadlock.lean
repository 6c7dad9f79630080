import Mathlib.Data.Set.Finite.Basic
import Samaritan.Lib.WaitFor
import Samaritan.Redis.ClientStream
import Samaritan.Redis.SystemAsking

/-!
# Goroutines That Wait for Each Other

A read loop that has received a redirection dispatches the request itself: it calls `getClient`
and `Send` like a session, and receives no further reply before these return. Two things can then
wait for it for ever.

* `Serve` stops the clients with `clientsMu` in its hand, and waits for each of them to end. A
  read loop that is about to create a client waits for `clientsMu`.
* A client whose queues are full waits for its read loop to take a request off `processingReqs`.
  A read loop in `Send` waits for room on `pendingReqs`, maybe those of its own client.

For both the exact condition on the steps of a run is given under which this does not happen.
-/

namespace Samaritan.Redis

open Samaritan.Lib

/-! ## `Serve` and a read loop -/

/-- The call waits for `clientsMu` in `createClient`. -/
@[simp] def GetPc.locking : GetPc → Bool
  | .lock _ => true
  | _ => false

/-- The client for which `Serve` waits in `Stop`. -/
@[simp] def ServePc.waitsFor : ServePc → Option Nat
  | .waiting c _ => some c
  | _ => none

/-- The step of the registry that a step of the proxy makes. -/
inductive SystemStep.Drives : SystemStep → RegistryStep Bytes → Prop where
  | registry {b : RegistryStep Bytes} (hself : b.byItself = true) : Drives (.registry b) b
  | check {k : Caller} {t : Nat} {addr : Bytes} : Drives (.check k t) (.getClient t addr)
  | dialOk {t c : Nat} : Drives (.dialOk t c) (.dialOk t c)
  | startReturn {c : Nat} : Drives (.startReturn c) (.startReturn c)
  | stop {j c : Nat} : Drives (.stop j c) (.stop j c)
  | serveStop {c : Nat} : Drives (.serveStop c) (.serveStop c)

namespace Registry

variable {α : Type}

/-- A call that does not wait for the lock has moved on. -/
theorem locking_of_update {u : Registry α} {t t' : Nat} {g g' : GetClient α}
    (hg : Function.update u.gets t' (some g') t = some g) (hlock : g.pc.locking = true)
    (hmoved : g'.pc.locking = false) : u.gets t = some g := by
  by_cases ht : t = t'
  · subst ht
    rw [Function.update_self] at hg
    cases hg
    rw [hmoved] at hlock
    cases hlock
  · rwa [Function.update_of_ne ht] at hg

variable [DecidableEq α]

theorem Step.waitsFor_cases {u u' : Registry α} {b : RegistryStep α} (h : Step u b u') {c : Nat}
    (hc : u'.serve.waitsFor = some c) : u.serve.waitsFor = some c ∨ b = .serveStop c := by
  cases h with
  | serveStop =>
    cases hc
    exact .inr rfl
  | serveLock | serveStopped | serveUnlock => cases hc
  | _ => exact .inl hc

/-- A step changes one `getClient` call at most. -/
theorem Step.gets_cases {u u' : Registry α} {b : RegistryStep α} (h : Step u b u') :
    u'.gets = u.gets ∨ ∃ t g, u'.gets = Function.update u.gets t (some g) := by
  cases h with
  | getClient | createClient | loadFound | loadMissing | storeJoin | storeNew | wait | lockExited
  | lockFound | lockDial | dialFail | dialOk | startReturnEarly | register | finish =>
    exact .inr ⟨_, _, rfl⟩
  | _ => exact .inl rfl

/-- How a call comes to wait for the lock: it is the first one for its address. -/
theorem Step.locking_cases {u u' : Registry α} {b : RegistryStep α} (h : Step u b u') {t : Nat}
    {g : GetClient α} (hg : u'.gets t = some g) (hlock : g.pc.locking = true) :
    u.gets t = some g ∨ (∃ addr, b = .createClient t addr) ∨
      ∃ k g₀, b = .store t k ∧ u.gets t = some g₀ ∧ u.createClientCalls.lookup g₀.addr = none := by
  cases h with
  | @createClient t' addr hnew =>
    by_cases ht : t = t'
    · subst ht
      exact .inr (.inl ⟨addr, rfl⟩)
    · rw [gets_setGet, Function.update_of_ne ht] at hg
      exact .inl hg
  | @storeNew t' k addr e f hg' hcall hnew =>
    by_cases ht : t = t'
    · subst ht
      exact .inr (.inr ⟨k, _, rfl, hg', hcall⟩)
    · rw [gets_setGet, Function.update_of_ne ht] at hg
      exact .inl hg
  | getClient | loadFound | loadMissing | storeJoin | wait | lockExited | lockFound | lockDial
  | dialFail | dialOk | startReturnEarly | register | finish =>
    exact .inl (locking_of_update hg hlock rfl)
  | _ => exact .inl hg

end Registry

namespace System

/-- The read loop of the client waits for `clientsMu` in `createClient`. -/
def waitsForLock (s : System) (c : Nat) : Bool :=
  match s.pc (.client c) with
  | some (.get t) => (s.reg.gets t).any fun g => g.pc.locking
  | _ => false

theorem waitsForLock_iff {s : System} {c : Nat} :
    s.waitsForLock c = true ↔
      ∃ t g, s.pc (.client c) = some (.get t) ∧ s.reg.gets t = some g ∧ g.pc.locking = true := by
  rw [waitsForLock]
  split
  · rename_i t hpc
    simp [hpc, Option.any_eq_true]
  · rename_i hpc
    simp only [Bool.false_eq_true, false_iff, not_exists, not_and]
    intro t g ht
    exact absurd ht (hpc t)

/-- `Serve` waits for a client whose read loop waits for the lock that `Serve` holds. -/
def ServeStuck (s : System) : Prop :=
  ∃ c, s.reg.serve.waitsFor = some c ∧ s.waitsForLock c = true

/-- `Serve` stops a client only while its read loop does not wait for the lock, and the read loop
    of a client for which `Serve` waits finds another `createClient` call for its address. -/
def LocksApart (s : System) : SystemStep → Prop
  | .serveStop c => s.waitsForLock c = false
  | .registry (.store t _) => ∀ c, s.reg.serve.waitsFor = some c →
      s.pc (.client c) = some (.get t) →
        ∀ g ∈ s.reg.gets t, s.reg.createClientCalls.lookup g.addr ≠ none
  | _ => True

/-- What a step does to the registry: nothing, or a step of the registry. -/
theorem reg_cases {s s' : System} {a : SystemStep} (h : s.step a = some s') :
    s'.reg = s.reg ∨ ∃ b, s.reg.Step b s'.reg ∧ a.Drives b := by
  cases step_cases h with
  | @registry b reg hreg =>
    refine .inr ⟨b, Registry.step_cases hreg, .registry ?_⟩
    simp only [step] at h
    split at h
    · assumption
    · cases h
  | check hk hreg => exact .inr ⟨_, Registry.step_cases hreg, .check⟩
  | dialOk hcl hreg => exact .inr ⟨_, Registry.step_cases hreg, .dialOk⟩
  | startReturn hcl hdone hreg => exact .inr ⟨_, Registry.step_cases hreg, .startReturn⟩
  | stop hcl hreg => exact .inr ⟨_, Registry.step_cases hreg, .stop⟩
  | serveStop hcl hreg => exact .inr ⟨_, Registry.step_cases hreg, .serveStop⟩
  | _ => exact .inl rfl

/-- A goroutine that comes into `getClient` has just called it. -/
theorem Step.get_cases {s s' : System} {a : SystemStep} (hs : OneByOne s) (h : Step s a s')
    {k : Caller} {t : Nat} (hpc : s'.pc k = some (.get t)) :
    s.pc k = some (.get t) ∨ ∃ g, s'.reg.gets t = some g ∧ g.pc.locking = false := by
  rcases h.pc_cases hs hpc rfl with hpc' | ⟨pc, hpc', hnext⟩
  · exact .inl hpc'
  · cases hnext
    cases h with
    | @checkQuit _ _ item addr rest hk hquit =>
      have hrest := hs.pc_rest hk (by simpa [System.pc] using hpc)
      cases hrest
    | check hk hreg =>
      cases Registry.step_cases hreg with
      | getClient hnew => exact .inr ⟨_, Function.update_self .., rfl⟩

/-- **One step**: `Serve` does not get stuck. -/
theorem not_serveStuck_step {s s' : System} {a : SystemStep} (hs : OneByOne s)
    (hfree : ¬ ServeStuck s) (hok : LocksApart s a) (hstep : s.step a = some s') :
    ¬ ServeStuck s' := by
  rintro ⟨c, hserve, hwaits⟩
  obtain ⟨t, g, hpc', hg, hlock⟩ := waitsForLock_iff.mp hwaits
  have hpc : s.pc (.client c) = some (.get t) := by
    refine ((step_cases hstep).get_cases hs hpc').resolve_right ?_
    rintro ⟨g', hg', hmoved⟩
    obtain rfl := Option.some.inj (hg.symm.trans hg')
    rw [hlock] at hmoved
    cases hmoved
  rcases reg_cases hstep with hsame | ⟨b, hb, hcause⟩
  · rw [hsame] at hserve hg
    exact hfree ⟨c, hserve, waitsForLock_iff.mpr ⟨t, g, hpc, hg, hlock⟩⟩
  · rcases hb.locking_cases hg hlock with hg' | ⟨addr, rfl⟩ | ⟨k, g₀, rfl, hg₀, hnone⟩
    · have hwaits' : s.waitsForLock c = true := waitsForLock_iff.mpr ⟨t, g, hpc, hg', hlock⟩
      rcases hb.waitsFor_cases hserve with hserve' | rfl
      · exact hfree ⟨c, hserve', hwaits'⟩
      · cases hcause with
        | registry hself => cases hself
        | serveStop =>
          rw [LocksApart, hwaits'] at hok
          cases hok
    -- nobody but `getClient` calls `createClient`
    · cases hcause with
      | registry hself => cases hself
    · cases hcause with
      | registry hself =>
        have hserve' := (hb.waitsFor_cases hserve).resolve_right (by simp)
        exact hok c hserve' hpc g₀ hg₀ hnone

/-- A step that does not keep them apart leaves `Serve` stuck. -/
theorem locksApart_of_step {s s' : System} {a : SystemStep} (hstep : s.step a = some s')
    (hfree : ¬ ServeStuck s') : LocksApart s a := by
  cases step_cases hstep with
  | @serveStop c cl cl' reg hcl hreg hstop =>
    cases Registry.step_cases hreg with
    | serveStop hserve hc =>
      refine Bool.eq_false_iff.mpr fun hwaits => hfree ⟨c, rfl, ?_⟩
      obtain ⟨t, g, hpc, hg, hlock⟩ := waitsForLock_iff.mp hwaits
      exact waitsForLock_iff.mpr ⟨t, g, hpc, hg, hlock⟩
  | @registry b reg hreg =>
    cases Registry.step_cases hreg with
    | @storeJoin t k call addr e f hg hcall =>
      intro c hserve hpc g hg'
      obtain rfl := Option.some.inj (hg.symm.trans hg')
      simp [hcall]
    | @storeNew t k addr e f hg hcall hnew =>
      intro c hserve hpc g hg'
      refine absurd ⟨c, hserve, ?_⟩ hfree
      exact waitsForLock_iff.mpr ⟨t, _, hpc, Function.update_self .., rfl⟩
    | _ => trivial
  | _ => trivial

/-- **`Serve` and the read loops**: along a run `Serve` never waits for a client whose read loop
    waits for `clientsMu`, exactly when `Serve` stops no client whose read loop waits for it, and
    no read loop of a client for which `Serve` waits begins to create a client. -/
theorem not_serveStuck_iff {as : List SystemStep} {s : System}
    (hrun : runFrom step newSystem as = some s) :
    (∀ bs t, bs <+: as → runFrom step newSystem bs = some t → ¬ ServeStuck t) ↔
      RunMeets step LocksApart newSystem as := by
  constructor
  · intro hfree
    exact runMeets_of_good (fun _ _ _ => locksApart_of_step) hrun hfree
  · intro hmeets bs t hbs hrun'
    have hstep : ∀ (s : System) a s', (OneByOne s ∧ ¬ ServeStuck s) → LocksApart s a →
        step s a = some s' → OneByOne s' ∧ ¬ ServeStuck s' :=
      fun s a s' hs hok h => ⟨hs.1.step (step_cases h), not_serveStuck_step hs.1 hs.2 hok h⟩
    have hnew : OneByOne newSystem ∧ ¬ ServeStuck newSystem :=
      ⟨oneByOne_newSystem, by simp [ServeStuck, newSystem, newRegistry]⟩
    exact (invariant_of_runMeets hstep hnew (runMeets_of_isPrefix hmeets hbs) hrun').2

/-- A client is connected and its node answers the first request with this reply, which is a
    redirection. -/
def redirectRun (reply : RespValue) : List SystemStep :=
  [.request 0 noSurroundings (command ["get", "k"]), .choose (.session 0) (some (bytesOf "a")),
    .check (.session 0) 0, .registry (.load 0), .registry (.store 0 0), .registry (.lock 0),
    .dialOk 0 0, .registry (.finish 0), .got (.session 0), .send (.session 0),
    .put (.session 0)] ++
  clientSteps 0 [.take, .filterContinue (command ["readonly"]), .encode, .checkLen, .enqueue,
    .take, .filterContinue (command ["get", "k"]), .encode, .checkLen, .flush, .enqueue,
    .answer respOK, .decode, .receive, .handle, .answer reply, .decode, .receive, .handle]

/-- A node answers with `MOVED`, and the read loop of its client is about to create a client for
    the other node when the proxy is stopped. -/
def shutdownRun : List SystemStep :=
  redirectRun (.error (bytesOf "MOVED 1 b")) ++
  [.check (.client 0) 1, .registry (.load 1), .registry (.store 1 1), .registry .closeQuit,
    .registry .serveLock, .serveStop 0]

theorem shutdownRun_waits :
    (runFrom step newSystem shutdownRun).map (fun s => (s.reg.serve.waitsFor, s.waitsForLock 0)) =
      some (some 0, true) := by
  decide +kernel

/-- In `shutdownRun` `Serve` and a read loop wait for each other. -/
theorem serveStuck_shutdownRun : ∃ s, Reachable step newSystem s ∧ ServeStuck s := by
  obtain ⟨s, hrun, hwaits⟩ := Option.map_eq_some_iff.mp shutdownRun_waits
  obtain ⟨hserve, hlock⟩ := Prod.mk.inj hwaits
  exact ⟨s, ⟨_, hrun⟩, 0, hserve, hlock⟩

/-- `not_serveStuck_iff` at `shutdownRun`, whose last step breaks the condition. -/
theorem not_serveStuck_iff_shutdownRun :
    (runFrom step newSystem shutdownRun).isSome ∧
      ¬ RunMeets step LocksApart newSystem shutdownRun := by
  obtain ⟨s, hrun, hwaits⟩ := Option.map_eq_some_iff.mp shutdownRun_waits
  obtain ⟨hserve, hlock⟩ := Prod.mk.inj hwaits
  refine ⟨by rw [hrun]; rfl, fun hmeets => ?_⟩
  exact (not_serveStuck_iff hrun).mpr hmeets _ s List.prefix_rfl hrun ⟨0, hserve, hlock⟩

end System

/-! ## Clients with full queues -/

/-- `loopWrite` is at the `select` that puts a request on `processingReqs`. -/
@[simp] def ClientWrite.enqueuing {ρ : Type} : ClientWrite ρ → Bool
  | .enqueue _ => true
  | _ => false

namespace Client

variable {ρ : Type}

/-- With `n` more requests on `pendingReqs` both queues are full, and `quit` is open. -/
structure Filled (c : Client ρ) (n : Nat) : Prop where
  pending : clientQueueSize ≤ c.pendingReqs.length + n
  processing : clientQueueSize ≤ c.processingReqs.length
  running : c.quit = false

/-- `pendingReqs` is full, and `loopWrite` is blocked on the full `processingReqs`. -/
def Full (c : Client ρ) : Prop := c.Filled 0 ∧ c.loopWrite.enqueuing = true

/-- The step is the last one on the way there. -/
def Fills (c : Client ρ) : ClientStep ρ → Prop
  | .put _ => c.Filled 1 ∧ c.loopWrite.enqueuing = true
  | .checkLen => c.Filled 0
  | .flush => c.Filled 0 ∧ c.enc.flush.err = none
  | _ => False

theorem Full.of_eq {c c' : Client ρ} (hc : c.Full) (hpending : c'.pendingReqs = c.pendingReqs)
    (hprocessing : c'.processingReqs = c.processingReqs) (hwrite : c'.loopWrite = c.loopWrite)
    (hquit : c'.quit = c.quit) : c'.Full := by
  obtain ⟨⟨h₁, h₂, h₃⟩, h₄⟩ := hc
  refine ⟨⟨?_, ?_, ?_⟩, ?_⟩
  · rwa [hpending]
  · rwa [hprocessing]
  · rwa [hquit]
  · rwa [hwrite]

theorem Step.full_cases {c c' : Client ρ} {a : ClientStep ρ} (h : Step c a c') (hc : c'.Full) :
    c.Full ∨ c.Fills a := by
  obtain ⟨⟨hpending, hprocessing, hquit⟩, hwrite⟩ := hc
  cases h with
  | put hsend hroom =>
    refine .inr ⟨⟨?_, hprocessing, hquit⟩, hwrite⟩
    simpa using hpending
  | checkLen hpos hqueue => exact .inr ⟨hpending, hprocessing, hquit⟩
  | flush hpos hok => exact .inr ⟨⟨hpending, hprocessing, hquit⟩, hok⟩
  | receive hpos hqueue | drainProcessing hpos hqueue =>
    refine .inl ⟨⟨hpending, ?_, hquit⟩, hwrite⟩
    rw [hqueue, List.length_cons]
    exact Nat.le_succ_of_le hprocessing
  | drainPending hpos hqueue =>
    refine .inl ⟨⟨?_, hprocessing, hquit⟩, hwrite⟩
    rw [hqueue, List.length_cons]
    simp only at hpending
    omega
  | stop | closeQuit => cases hquit
  | writeQuit | take | filterStop | filterContinue | encode | encodeErr | checkLenEmpty | flushErr
  | enqueue | enqueueQuit | fail | writeExit => cases hwrite
  | _ => exact .inl ⟨⟨hpending, hprocessing, hquit⟩, hwrite⟩

theorem Step.full_of_fills {c c' : Client ρ} {a : ClientStep ρ} (h : Step c a c')
    (hc : c.Fills a) : c'.Full := by
  cases h with
  | put hsend hroom =>
    obtain ⟨⟨hpending, hprocessing, hquit⟩, hwrite⟩ := hc
    exact ⟨⟨by simpa using hpending, hprocessing, hquit⟩, hwrite⟩
  | checkLenEmpty hpos hqueue =>
    have hpending := hc.pending
    simp [hqueue, clientQueueSize] at hpending
  | checkLen hpos hqueue => exact ⟨⟨hc.pending, hc.processing, hc.running⟩, rfl⟩
  | flush hpos hok => exact ⟨⟨hc.1.pending, hc.1.processing, hc.1.running⟩, rfl⟩
  | flushErr hpos herr =>
    rw [Fills, herr] at hc
    cases hc.2
  | _ => exact hc.elim

theorem Step.not_full_of_fills {c c' : Client ρ} {a : ClientStep ρ} (h : Step c a c')
    (hc : c.Fills a) : ¬ c.Full := by
  rintro ⟨⟨hpending, -, -⟩, hwrite⟩
  cases h with
  | put hsend hroom => omega
  | checkLenEmpty hpos | checkLen hpos | flush hpos | flushErr hpos =>
    rw [hpos] at hwrite
    cases hwrite
  | _ => exact hc.elim

theorem Step.settled_of_fills {c c' : Client ρ} {a : ClientStep ρ} (h : Step c a c')
    (hc : c.Fills a) : c'.settled = c.settled := by
  cases h with
  | put | checkLenEmpty | checkLen | flush | flushErr => rfl
  | _ => exact hc.elim

end Client

namespace System

/-- The read loop of the client `c` is blocked in `Send` on the full `pendingReqs` of the client
    `t`, whose `loopWrite` is blocked on its full `processingReqs`. -/
def BlockedOn (s : System) (c t : Nat) : Prop :=
  s.pc (.client c) = some (.put t) ∧ ∃ cl, s.clients t = some cl ∧ cl.Full

/-- The step is the last one before `c` is blocked on `t`: it fills `t`, while `c` is in `Send`, or
    `c` calls `Send` on the full client. -/
def MakesWait (s : System) (c t : Nat) : SystemStep → Prop
  | .send k => k = .client c ∧ s.pc k = some (.send t) ∧ ∃ cl, s.clients t = some cl ∧ cl.Full
  | .put k => k ≠ .client c ∧ s.pc k = some (.put t) ∧ s.pc (.client c) = some (.put t) ∧
      ∃ cl item, s.clients t = some cl ∧ cl.Fills (.put item)
  | .client t' b => t' = t ∧ s.pc (.client c) = some (.put t) ∧
      ∃ cl, s.clients t = some cl ∧ cl.Fills b
  | _ => False

/-- How a client comes to be full. -/
theorem Step.full_cases {s s' : System} {a : SystemStep} (h : Step s a s') {t : Nat}
    {cl' : Client Item} (hcl' : s'.clients t = some cl') (hfull : cl'.Full) :
    (∃ cl, s.clients t = some cl ∧ cl.Full) ∨
      ∃ cl b, s.clients t = some cl ∧ cl.Fills b ∧
        (a = .client t b ∨ ∃ k item rest, a = .put k ∧ b = .put item ∧
          s.callers k = ⟨item, .put t⟩ :: rest) := by
  rcases h.client_cases hcl' with hsame | ⟨cl, b, hcl, hb, hcause⟩ | ⟨t', -, rfl⟩
  · exact .inl ⟨cl', hsame, hfull⟩
  · rcases hb.full_cases hfull with hfull' | hfills
    · exact .inl ⟨cl, hcl, hfull'⟩
    · refine .inr ⟨cl, b, hcl, hfills, ?_⟩
      cases hcause with
      | byItself => exact .inl rfl
      | put hk => exact .inr ⟨_, _, _, rfl, rfl, hk⟩
      | send | redirected | stop | serveStop => exact hfills.elim
  -- a new client has one request
  · have hpending := hfull.1.pending
    simp [connect, clientQueueSize] at hpending

/-- A new wait is one that the step makes. -/
theorem Step.blockedOn_cases {s s' : System} {a : SystemStep} (hs : OneByOne s) (h : Step s a s')
    {c t : Nat} (hblocked : s'.BlockedOn c t) : s.BlockedOn c t ∨ s.MakesWait c t a := by
  obtain ⟨hpc', cl', hcl', hfull'⟩ := hblocked
  rcases h.pc_cases hs hpc' rfl with hpc | ⟨pc, hpc, hnext⟩
  · rcases h.full_cases hcl' hfull' with hfull |
      ⟨cl, b, hcl, hfills, rfl | ⟨k, item, rest, rfl, rfl, hk⟩⟩
    · exact .inl ⟨hpc, hfull⟩
    · exact .inr ⟨rfl, hpc, cl, hcl, hfills⟩
    · refine .inr ⟨?_, by simp [System.pc, hk], hpc, cl, item, hcl, hfills⟩
      -- the goroutine that puts its request is no longer in `Send`
      rintro rfl
      cases h with
      | put hk' =>
        have hrest := hs.pc_rest hk' (by simpa [System.pc] using hpc')
        cases hrest
  · cases hnext
    rcases h.full_cases hcl' hfull' with hfull | ⟨cl, b, hcl, hfills, ha | ⟨k, item, rest, ha, -⟩⟩
    · exact .inr ⟨rfl, hpc, hfull⟩
    · cases ha
    · cases ha

/-- What a step that makes a wait does: it lets a client make a step behind which the client is
    full, and moves one goroutine at most. -/
theorem MakesWait.effect {s s' : System} {a : SystemStep} {c t : Nat} (hwait : s.MakesWait c t a)
    (h : Step s a s') :
    s'.pc (.client c) = some (.put t) ∧
      ∃ cl', s'.clients = Function.update s.clients t (some cl') ∧ cl'.Full ∧
      ∀ x y cl, s.pc (.client x) = some (.put y) → s.clients y = some cl → cl.Full →
        s'.pc (.client x) = some (.put y) := by
  cases h with
  | @send k t' item rest cl cl' hk hcl hstep hquit =>
    obtain ⟨rfl, hpc, cl₀, hcl₀, hfull⟩ := hwait
    obtain rfl : t' = t := by simpa [System.pc, hk] using hpc
    obtain rfl := Option.some.inj (hcl.symm.trans hcl₀)
    refine ⟨by simp [System.pc], cl', rfl, ?_, fun x y cl₁ hx hcl₁ hfull₁ => ?_⟩
    · cases hstep with
      | sendRefused hclosed =>
        rw [hquit] at hclosed
        cases hclosed
      | send => exact hfull.of_eq rfl rfl rfl rfl
    · by_cases hxc : x = c
      · subst hxc
        rw [hpc] at hx
        cases hx
      · rw [← hx]
        simp [System.pc, hxc]
  -- a client that is stopped is not full, as nothing blocks its `loopWrite`
  | sendRefused hk hcl hstep hquit =>
    obtain ⟨rfl, hpc, cl₀, hcl₀, hfull⟩ := hwait
    have hrunning := hfull.1.running
    simp only [System.pc, hk, List.head?_cons, Option.map_some, Option.some.injEq,
      CallPc.send.injEq] at hpc
    subst hpc
    obtain rfl := Option.some.inj (hcl.symm.trans hcl₀)
    rw [hrunning] at hquit
    cases hquit
  | @put k t' item rest cl cl' hk hcl hstep =>
    obtain ⟨hkc, hpc, hc, cl₀, item', hcl₀, hfills⟩ := hwait
    obtain rfl : t' = t := by simpa [System.pc, hk] using hpc
    obtain rfl := Option.some.inj (hcl.symm.trans hcl₀)
    have hfills' : cl.Fills (.put item) := hfills
    refine ⟨?_, cl', rfl, hstep.full_of_fills hfills', fun x y cl₁ hx hcl₁ hfull₁ => ?_⟩
    · rw [← hc]
      simp [System.pc, Ne.symm hkc]
    · by_cases hxk : Caller.client x = k
      -- the goroutine that puts its request is not blocked
      · subst hxk
        rw [hpc] at hx
        cases hx
        obtain rfl := Option.some.inj (hcl.symm.trans hcl₁)
        exact absurd hfull₁ (hstep.not_full_of_fills hfills')
      · rw [← hx]
        simp [System.pc, hxk]
  | client ha hcl hstep hsettled =>
    obtain ⟨rfl, hc, cl₀, hcl₀, hfills⟩ := hwait
    obtain rfl := Option.some.inj (hcl.symm.trans hcl₀)
    exact ⟨hc, _, rfl, hstep.full_of_fills hfills, fun x y cl₁ hx _ _ => hx⟩
  -- a step that fills a client settles nothing
  | answer ha hcl hstep hsettled | moved ha hcl hstep hsettled | ask ha hcl hstep hsettled =>
    obtain ⟨rfl, hc, cl₀, hcl₀, hfills⟩ := hwait
    obtain rfl := Option.some.inj (hcl.symm.trans hcl₀)
    rw [hstep.settled_of_fills hfills] at hsettled
    simp at hsettled
  | _ => exact hwait.elim

theorem MakesWait.blockedOn {s s' : System} {a : SystemStep} {c t : Nat}
    (hwait : s.MakesWait c t a) (h : Step s a s') : s'.BlockedOn c t := by
  obtain ⟨hpc, cl', hclients, hfull, -⟩ := hwait.effect h
  exact ⟨hpc, cl', by rw [hclients, Function.update_self], hfull⟩

/-- A step that makes a wait ends none. -/
theorem MakesWait.keeps {s s' : System} {a : SystemStep} {c t : Nat} (hwait : s.MakesWait c t a)
    (h : Step s a s') {x y : Nat} (hblocked : s.BlockedOn x y) : s'.BlockedOn x y := by
  obtain ⟨-, cl', hclients, hfull', hkeep⟩ := hwait.effect h
  obtain ⟨hx, cl, hcl, hfull⟩ := hblocked
  refine ⟨hkeep x y cl hx hcl hfull, ?_⟩
  by_cases hy : y = t
  · subst hy
    exact ⟨cl', by rw [hclients, Function.update_self], hfull'⟩
  · exact ⟨cl, by rw [hclients, Function.update_of_ne hy, hcl], hfull⟩

/-- All waits that a step makes are for one client. -/
theorem MakesWait.target_unique {s : System} {a : SystemStep} {c c' t t' : Nat}
    (hwait : s.MakesWait c t a) (hwait' : s.MakesWait c' t' a) : t' = t := by
  cases a with
  | send k | put k => simpa using hwait'.2.1.symm.trans hwait.2.1
  | client d b => exact hwait'.1.symm.trans hwait.1
  | _ => exact hwait.elim

/-- The step makes no read loop wait for a client that waits for it. -/
def ClosesNoCycle (s : System) (a : SystemStep) : Prop :=
  ∀ c t, s.MakesWait c t a → ¬ Relation.ReflTransGen s.BlockedOn t c

/-- **One step**: no clients come to wait for one another. -/
theorem not_deadlock_step {s s' : System} {a : SystemStep} (hs : OneByOne s)
    (hfree : ¬ Deadlock s.BlockedOn) (hok : ClosesNoCycle s a) (h : Step s a s') :
    ¬ Deadlock s'.BlockedOn := by
  by_cases hwait : ∃ c t, s.MakesWait c t a
  · obtain ⟨c₀, t, hwait₀⟩ := hwait
    refine not_deadlock_of_target (t := t) hfree (fun x y hxy => ?_) fun x hpath hxt => ?_
    · rcases h.blockedOn_cases hs hxy with hold | hwait
      · exact .inl hold
      · exact .inr (hwait₀.target_unique hwait)
    · rcases h.blockedOn_cases hs hxt with hold | hwait
      · exact hfree (deadlock_of_cycle hpath hold)
      · exact hok x t hwait hpath
  · refine not_deadlock_of_le hfree fun x y hxy => ?_
    refine (h.blockedOn_cases hs hxy).resolve_right fun hwait' => hwait ⟨x, y, hwait'⟩

/-- A step that closes a cycle leads into a deadlock. -/
theorem closesNoCycle_of_step {s s' : System} {a : SystemStep} (h : Step s a s')
    (hfree : ¬ Deadlock s'.BlockedOn) : ClosesNoCycle s a := by
  intro c t hwait hpath
  refine hfree (deadlock_of_cycle ?_ (hwait.blockedOn h))
  exact Relation.ReflTransGen.mono (fun x y hxy => hwait.keeps h hxy) _ _ hpath

/-- **Clients with full queues**: along a run there is never a set of clients whose read loops are
    all blocked in `Send` on a full client of the set, exactly when no step makes a read loop wait
    for a client that waits, directly or through others, for the client of this read loop. -/
theorem not_deadlock_iff {as : List SystemStep} {s : System}
    (hrun : runFrom step newSystem as = some s) :
    (∀ bs t, bs <+: as → runFrom step newSystem bs = some t → ¬ Deadlock t.BlockedOn) ↔
      RunMeets step ClosesNoCycle newSystem as := by
  constructor
  · intro hfree
    exact runMeets_of_good (fun _ _ _ h => closesNoCycle_of_step (step_cases h)) hrun hfree
  · intro hmeets bs t hbs hrun'
    have hstep : ∀ (s : System) a s', (OneByOne s ∧ ¬ Deadlock s.BlockedOn) → ClosesNoCycle s a →
        step s a = some s' → OneByOne s' ∧ ¬ Deadlock s'.BlockedOn :=
      fun s a s' hs hok h =>
        ⟨hs.1.step (step_cases h), not_deadlock_step hs.1 hs.2 hok (step_cases h)⟩
    have hnew : OneByOne newSystem ∧ ¬ Deadlock newSystem.BlockedOn := by
      refine ⟨oneByOne_newSystem, ?_⟩
      rintro ⟨S, ⟨x, hx⟩, hwait⟩
      obtain ⟨y, -, hpc, -⟩ := hwait x hx
      simp [System.pc, newSystem] at hpc
    exact (invariant_of_runMeets hstep hnew (runMeets_of_isPrefix hmeets hbs) hrun').2

/-! ## A client that waits for itself -/

/-- Only finitely many goroutines dispatch requests, and there were finitely many `getClient`
    calls. -/
structure FewBusy (s : System) : Prop where
  callers : {k | s.callers k ≠ []}.Finite
  gets : {t | s.reg.gets t ≠ none}.Finite

theorem finite_update {ι β : Type} [DecidableEq ι] {f : ι → β} {d : β}
    (h : {x | f x ≠ d}.Finite) (k : ι) (v : β) : {x | Function.update f k v x ≠ d}.Finite := by
  refine (h.insert k).subset fun x hx => ?_
  by_cases hk : x = k
  · exact .inl hk
  · simp only [Set.mem_ofPred_eq, Function.update_of_ne hk] at hx
    exact .inr hx

theorem FewBusy.step {s s' : System} {a : SystemStep} (hs : FewBusy s) (h : s.step a = some s') :
    FewBusy s' where
  callers := by
    rcases (step_cases h).callers_cases with hsame | ⟨k, jobs, hcallers, -⟩
    · rw [hsame]
      exact hs.callers
    · rw [hcallers]
      exact finite_update hs.callers k jobs
  gets := by
    rcases reg_cases h with hsame | ⟨b, hb, -⟩
    · rw [hsame]
      exact hs.gets
    · rcases hb.gets_cases with hsame | ⟨t, g, hgets⟩
      · rw [hsame]
        exact hs.gets
      · rw [hgets]
        exact finite_update hs.gets t (some g)

theorem fewBusy_of_reachable {s : System} (h : Reachable step newSystem s) : FewBusy s :=
  invariant_of_reachable (fun _ _ _ hs h => hs.step h) ⟨by simp [newSystem],
    by simp [newSystem, newRegistry]⟩ h

/-- In every state another session can send a request. -/
theorem FewBusy.exists_idle {s : System} (hs : FewBusy s) :
    ∃ n t, s.callers (.session n) = [] ∧ s.reg.gets t = none := by
  have hinj : Function.Injective Caller.session := fun m n h => Caller.session.inj h
  obtain ⟨n, hn⟩ := (hs.callers.preimage hinj.injOn).exists_notMem
  obtain ⟨t, ht⟩ := hs.gets.exists_notMem
  exact ⟨n, t, by simpa using hn, by simpa using ht⟩

/-- The read loop of the client of a node is in `Send` on this client. -/
structure SelfSend (s : System) (cl : Client Item) : Prop where
  reachable : Reachable step newSystem s
  running : s.reg.quit = false
  registered : s.reg.clients.lookup (bytesOf "a") = some 0
  client : s.clients 0 = some cl
  sending : s.pc (.client 0) = some (.put 0)
  started : cl.quit = false
  sound : cl.enc.Sound

/-- The client goes on by itself. -/
theorem SelfSend.client_step {s : System} {cl d : Client Item} (h : SelfSend s cl)
    {a : ClientStep Item} (ha : a.byItself = true) (hstep : cl.step a = some d)
    (hsettled : d.settled = cl.settled) (hquit : d.quit = cl.quit) (hsound : d.enc.Sound) :
    SelfSend (s.setClient 0 d) d where
  reachable := by
    have hrun : runFrom step s [.client 0 a] = some (s.setClient 0 d) := by
      simp [runFrom, step, ha, h.client, hstep, hsettled]
    exact h.reachable.runFrom hrun
  running := h.running
  registered := h.registered
  client := by simp
  sending := h.sending
  started := hquit.trans h.started
  sound := hsound

/-- `loopWrite` writes the only pending request, up to the place where it puts it on
    `processingReqs`. -/
theorem SelfSend.write {s : System} {cl : Client Item} (h : SelfSend s cl) {item : Item}
    (hpos : cl.loopWrite = .select) (hqueue : cl.pendingReqs = [item]) :
    ∃ s' cl', SelfSend s' cl' ∧ cl'.pendingReqs = [] ∧ cl'.processingReqs = cl.processingReqs ∧
      cl'.loopWrite = .enqueue item := by
  have hencode := h.sound.encode (command ["get", "k"])
  have hflush := hencode.flush
  -- one step of the loop each, up to the push
  have h₁ := h.client_step (a := .take)
    (d := { cl with pendingReqs := [], taken := cl.taken ++ [item], loopWrite := .filter item })
    rfl (by simp [Client.step, hpos, hqueue]) rfl rfl h.sound
  have h₂ := h₁.client_step (a := .filterContinue (command ["get", "k"]))
    (d := { cl with
      pendingReqs := [], taken := cl.taken ++ [item]
      loopWrite := .encode item (command ["get", "k"]) })
    rfl rfl rfl rfl h.sound
  have h₃ := h₂.client_step (a := .encode)
    (d := { cl with
      pendingReqs := [], taken := cl.taken ++ [item]
      enc := cl.enc.encode (command ["get", "k"])
      encoded := cl.encoded ++ [(item, command ["get", "k"])], loopWrite := .checkLen item })
    rfl (by simp [Client.step, hencode.noErr]) rfl rfl hencode
  have h₄ := h₃.client_step (a := .checkLen)
    (d := { cl with
      pendingReqs := [], taken := cl.taken ++ [item]
      enc := cl.enc.encode (command ["get", "k"])
      encoded := cl.encoded ++ [(item, command ["get", "k"])], loopWrite := .flush item })
    rfl (by simp [Client.step]) rfl rfl hencode
  have h₅ := h₄.client_step (a := .flush)
    (d := { cl with
      pendingReqs := [], taken := cl.taken ++ [item]
      enc := (cl.enc.encode (command ["get", "k"])).flush
      encoded := cl.encoded ++ [(item, command ["get", "k"])], loopWrite := .enqueue item })
    rfl (by simp [Client.step, hflush.noErr]) rfl rfl hflush
  exact ⟨_, _, h₅, rfl, rfl, rfl⟩

/-- `loopWrite` puts its request on `processingReqs`. -/
theorem SelfSend.enqueue {s : System} {cl : Client Item} (h : SelfSend s cl) {item : Item}
    (hpos : cl.loopWrite = .enqueue item) (hroom : cl.processingReqs.length < clientQueueSize) :
    ∃ s' cl', SelfSend s' cl' ∧ cl'.pendingReqs = cl.pendingReqs ∧
      cl'.processingReqs = cl.processingReqs ++ [item] ∧ cl'.loopWrite = .select := by
  have h' := h.client_step (a := .enqueue)
    (d := { cl with processingReqs := cl.processingReqs ++ [item], loopWrite := .select })
    rfl (by simp [Client.step, hpos, hroom]) rfl rfl h.sound
  exact ⟨_, _, h', rfl, rfl, rfl⟩

/-- The system goes on, and the client is as it was up to what it was sent. -/
theorem SelfSend.run {s s' : System} {cl cl' : Client Item} (h : SelfSend s cl)
    {as : List SystemStep} (hrun : runFrom step s as = some s') (hquit : s'.reg.quit = s.reg.quit)
    (hmap : s'.reg.clients = s.reg.clients)
    (hcaller : s'.callers (.client 0) = s.callers (.client 0)) (hclient : s'.clients 0 = some cl')
    (hstarted : cl'.quit = cl.quit) (henc : cl'.enc = cl.enc) : SelfSend s' cl' where
  reachable := h.reachable.runFrom hrun
  running := hquit.trans h.running
  registered := by rw [hmap, h.registered]
  client := hclient
  sending := by
    rw [System.pc, hcaller]
    exact h.sending
  started := hstarted.trans h.started
  sound := henc ▸ h.sound

/-- Another session comes to `Send` with a request to the node. -/
theorem SelfSend.dispatch {s : System} {cl : Client Item} (h : SelfSend s cl) :
    ∃ s' n item, SelfSend s' cl ∧ s'.callers (.session n) = [⟨item, .send 0⟩] := by
  obtain ⟨n, t, hidle, hget⟩ := (fewBusy_of_reachable h.reachable).exists_idle
  obtain ⟨req, hsplit⟩ : ∃ req, handleRequest noSurroundings (command ["get", "k"]) =
    .split .single [(.key (bytesOf "k"), req)] := ⟨_, rfl⟩
  have hrun : ∃ s', runFrom step s [.request n noSurroundings (command ["get", "k"]),
      .choose (.session n) (some (bytesOf "a")), .check (.session n) t, .registry (.load t),
      .got (.session n)] = some s' ∧ s'.reg.quit = s.reg.quit ∧
      s'.reg.clients = s.reg.clients ∧ s'.callers (.client 0) = s.callers (.client 0) ∧
      s'.clients = s.clients ∧
      s'.callers (.session n) = [⟨⟨s.simples.length, .plain⟩, .send 0⟩] := by
    simp only [runFrom, step, hidle, hsplit, System.split, setJobs, jobs, Route.pc, List.map_cons,
      List.map_nil, reduceCtorEq, imp_self, implies_true, Registry.step, Registry.setGet,
      Registry.newGet, RegistryStep.byItself, if_true, Option.bind_fun_some, Option.bind_some,
      Function.update_self, Function.update_idem, h.running, Bool.false_eq_true, hget,
      Option.map_some, h.registered, Option.some.injEq, exists_eq_left', ne_eq,
      not_false_eq_true, Function.update_of_ne, if_false, and_self]
  obtain ⟨s', hrun, hquit, hmap, hcaller, hclients, hjob⟩ := hrun
  exact ⟨s', n, _, h.run hrun hquit hmap hcaller (by rw [hclients, h.client]) rfl rfl, hjob⟩

/-- Another session sends a request to the node. -/
theorem SelfSend.request {s : System} {cl : Client Item} (h : SelfSend s cl)
    (hroom : cl.pendingReqs.length < clientQueueSize) :
    ∃ s' cl' item, SelfSend s' cl' ∧ cl'.pendingReqs = cl.pendingReqs ++ [item] ∧
      cl'.processingReqs = cl.processingReqs ∧ cl'.loopWrite = cl.loopWrite := by
  obtain ⟨s₁, n, item, h₁, hjob⟩ := h.dispatch
  have hrun : ∃ s₂, runFrom step s₁ [.send (.session n), .put (.session n)] = some s₂ ∧
      s₂.reg = s₁.reg ∧ s₂.callers (.client 0) = s₁.callers (.client 0) ∧
      s₂.clients 0 = some { cl with
        sent := cl.sent ++ [item]
        sending := (cl.sending ++ [item]).erase item
        pendingReqs := cl.pendingReqs ++ [item]
        accepted := cl.accepted ++ [item] } := by
    simp [runFrom, step, hjob, setJobs, setClient, h₁.client, Client.step, h₁.started, hroom]
  obtain ⟨s₂, hrun, hreg, hcaller, hclient⟩ := hrun
  have h₂ := h₁.run hrun (by rw [hreg]) (by rw [hreg]) hcaller hclient rfl rfl
  exact ⟨s₂, _, item, h₂, rfl, rfl, rfl⟩

deriving instance DecidableEq for CallPc

/-- A node answers with `MOVED` to itself, and the read loop of its client sends the request to
    this client again. -/
def selfMovedRun : List SystemStep :=
  redirectRun (.error (bytesOf "MOVED 1 a")) ++
  [.check (.client 0) 1, .registry (.load 1), .got (.client 0), .send (.client 0)]

theorem selfMovedRun_state : (runFrom step newSystem selfMovedRun).any fun s =>
    s.reg.quit = false ∧ s.reg.clients.lookup (bytesOf "a") = some 0 ∧
    s.pc (.client 0) = some (.put 0) ∧ (s.clients 0).any fun cl =>
      cl.quit = false ∧ cl.enc.err.isNone ∧ cl.enc.bw.err.isNone ∧ cl.enc.bw.wr.limit.isNone ∧
      cl.loopWrite.selecting ∧ cl.pendingReqs = [] ∧ cl.processingReqs = [] := by
  decide +kernel

theorem exists_selfSend : ∃ s cl, SelfSend s cl ∧ cl.loopWrite = .select ∧
    cl.pendingReqs = [] ∧ cl.processingReqs = [] := by
  obtain ⟨s, hrun, hrunning, hregistered, hpc, hclient⟩ := exists_of_any selfMovedRun_state
  obtain ⟨cl, hcl, hstate⟩ := (Option.any_eq_true _ _).mp hclient
  obtain ⟨hstarted, herr, hbw, hlimit, hselect, hpending, hprocessing⟩ := of_decide_eq_true hstate
  have hsound : cl.enc.Sound := ⟨by simpa using herr, by simpa using hbw, by simpa using hlimit⟩
  refine ⟨s, cl, ⟨⟨_, hrun⟩, hrunning, hregistered, hcl, hpc, hstarted, hsound⟩, ?_, hpending,
    hprocessing⟩
  cases hpos : cl.loopWrite <;> simp_all

/-- Requests of other sessions fill `processingReqs`. -/
theorem exists_processing {n : Nat} (hn : n ≤ clientQueueSize) :
    ∃ s cl, SelfSend s cl ∧ cl.loopWrite = .select ∧ cl.pendingReqs = [] ∧
      cl.processingReqs.length = n := by
  induction n with
  | zero =>
    obtain ⟨s, cl, h, hpos, hpending, hprocessing⟩ := exists_selfSend
    exact ⟨s, cl, h, hpos, hpending, by simp [hprocessing]⟩
  | succ n ih =>
    obtain ⟨s, cl, h, hpos, hpending, hlen⟩ := ih (by omega)
    obtain ⟨s₁, cl₁, item, h₁, hpending₁, hprocessing₁, hpos₁⟩ :=
      h.request (by simp [hpending, clientQueueSize])
    rw [hpending, List.nil_append] at hpending₁
    obtain ⟨s₂, cl₂, h₂, hpending₂, hprocessing₂, hpos₂⟩ := h₁.write (hpos₁.trans hpos) hpending₁
    have hlen₂ : cl₂.processingReqs.length = n := by rw [hprocessing₂, hprocessing₁, hlen]
    obtain ⟨s₃, cl₃, h₃, hpending₃, hprocessing₃, hpos₃⟩ := h₂.enqueue hpos₂ (by omega)
    exact ⟨s₃, cl₃, h₃, hpos₃, hpending₃.trans hpending₂, by simp [hprocessing₃, hlen₂]⟩

/-- Then `loopWrite` waits with one more request, and further requests fill `pendingReqs`. -/
theorem exists_pending {n : Nat} (hn : n ≤ clientQueueSize) :
    ∃ s cl, SelfSend s cl ∧ cl.loopWrite.enqueuing = true ∧ cl.pendingReqs.length = n ∧
      cl.processingReqs.length = clientQueueSize := by
  induction n with
  | zero =>
    obtain ⟨s, cl, h, hpos, hpending, hlen⟩ := exists_processing le_rfl
    obtain ⟨s₁, cl₁, item, h₁, hpending₁, hprocessing₁, hpos₁⟩ :=
      h.request (by simp [hpending, clientQueueSize])
    rw [hpending, List.nil_append] at hpending₁
    obtain ⟨s₂, cl₂, h₂, hpending₂, hprocessing₂, hpos₂⟩ := h₁.write (hpos₁.trans hpos) hpending₁
    exact ⟨s₂, cl₂, h₂, by simp [hpos₂], by simp [hpending₂],
      by rw [hprocessing₂, hprocessing₁, hlen]⟩
  | succ n ih =>
    obtain ⟨s, cl, h, hpos, hpending, hlen⟩ := ih (by omega)
    obtain ⟨s₁, cl₁, item, h₁, hpending₁, hprocessing₁, hpos₁⟩ := h.request (by omega)
    exact ⟨s₁, cl₁, h₁, by rw [hpos₁, hpos], by simp [hpending₁, hpending],
      by rw [hprocessing₁, hlen]⟩

/-- A client whose node answers with `MOVED` to itself, and that is sent 2049 more requests before
    its read loop has put the redirected request, is blocked on itself. -/
theorem exists_blockedOn_self : ∃ s, Reachable step newSystem s ∧ s.BlockedOn 0 0 := by
  obtain ⟨s, cl, h, hwrite, hpending, hprocessing⟩ := exists_pending le_rfl
  have hfull : cl.Full := ⟨⟨by omega, by omega, h.started⟩, hwrite⟩
  exact ⟨s, h.reachable, h.sending, cl, h.client, hfull⟩

/-- A client that waits for itself is a set of clients that wait for one another. -/
theorem waitSet_selfMoved : ∃ s, Reachable step newSystem s ∧ WaitSet s.BlockedOn {0} := by
  obtain ⟨s, hreach, hblocked⟩ := exists_blockedOn_self
  refine ⟨s, hreach, ⟨0, rfl⟩, ?_⟩
  rintro c rfl
  exact ⟨0, rfl, hblocked⟩

/-- `not_deadlock_iff` at a run that leads there, one of whose steps closes a cycle. -/
theorem not_deadlock_iff_selfMoved :
    ∃ as s, runFrom step newSystem as = some s ∧ ¬ RunMeets step ClosesNoCycle newSystem as := by
  obtain ⟨s, ⟨as, hrun⟩, hblocked⟩ := exists_blockedOn_self
  refine ⟨as, s, hrun, fun hmeets => ?_⟩
  exact (not_deadlock_iff hrun).mpr hmeets as s List.prefix_rfl hrun
    (deadlock_of_cycle .refl hblocked)

end System

end Samaritan.Redis
