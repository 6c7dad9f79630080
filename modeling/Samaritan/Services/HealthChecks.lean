import Samaritan.Hosts.Expect
import Samaritan.Services.Processor

/-!
# Changing the Health Check

What a change of the config does to the health check of a processor for TCP, with the state that is
left behind when it fails (`proc/tcp/proc.go`, `proc/internal/hc/monitor.go`, `checker.go` and
`atcp/config_actions.go`). The checkers are those of the source, and so are the constructors that
can fail or panic after the config has passed its validation; what the library functions make of a
quoted text and of a hexadecimal one is given by `Quoting`.

With the states behind errors left out this is the processor of `Services/Processor`.
-/

namespace Samaritan.Services

open Samaritan.Lib
open Samaritan.Hosts (Host HostSet newSet maxBufferSize)

/-! ## Checkers -/

/-- `ATCPChecker_Action`. -/
structure ATCPAction where
  send : Bytes
  expect : Bytes
  deriving DecidableEq

/-- The checker of a health check. The messages inside may be nil, and so may be the actions. -/
inductive CheckerConfig where
  | tcp (config : Option Unit)
  | atcp (config : Option (List (Option ATCPAction)))
  | mysql (username : Option Bytes)
  | redis (password : Option Bytes)
  deriving DecidableEq

/-- `Validate` of the messages, which passes nil. -/
def CheckerConfig.validate : CheckerConfig → Bool
  | .atcp (some actions) => 1 ≤ actions.length
  | .mysql (some username) => 1 ≤ username.length
  | _ => true

/-- A checker that has been made: what it sends and expects. -/
inductive Checker where
  | tcp
  | atcp (actions : List (Bytes × Bytes))
  | mysql (username : Bytes)
  | redis
  deriving DecidableEq

/-- The library functions `strconv.Unquote` and `hex.DecodeString`. -/
structure Quoting where
  unquote : Bytes → Option Bytes
  hexDecode : Bytes → Option Bytes

inductive CheckerErr where
  | invalidConfig
  | unquote
  | hex
  /-- `ErrPayloadEmpty` -/
  | payloadEmpty
  /-- `ErrPayloadTooLarge` -/
  | payloadTooLarge
  deriving DecidableEq

variable (lib : Quoting)

/-- `decodePayload`: the first byte is read before anything else. -/
def decodePayload : Bytes → Execution CheckerErr Bytes
  | [] => .panics
  | 98 :: rest =>
    match lib.unquote rest with
    | none => .fails .unquote
    | some rawData => (lib.hexDecode rawData).elim (.fails .hex) .returns
  | b => (lib.unquote b).elim (.fails .unquote) .returns

def validatePayload (payload : Bytes) : Execution CheckerErr Unit :=
  if payload.length = 0 then .fails .payloadEmpty
  else if maxBufferSize < payload.length then .fails .payloadTooLarge
  else .returns ()

/-- The payload of an action. -/
def newPayload (b : Bytes) : Execution CheckerErr Bytes :=
  (decodePayload lib b).bind fun payload => (validatePayload payload).bind fun _ => .returns payload

def newTCPSend (b : Bytes) : Execution CheckerErr Bytes := newPayload lib b

def newTCPExpect (b : Bytes) : Execution CheckerErr Bytes := newPayload lib b

/-- The loop of `atcp.NewChecker`; the fields of a nil action cannot be read. -/
def newActions : List (Option ATCPAction) → Execution CheckerErr (List (Bytes × Bytes))
  | [] => .returns []
  | none :: _ => .panics
  | some action :: actions =>
    (newTCPSend lib action.send).bind fun s =>
      (newTCPExpect lib action.expect).bind fun e =>
        (newActions actions).bind fun rest => .returns ((s, e) :: rest)

/-- `newChecker`; without a checker it is that for TCP. -/
def CheckerConfig.newChecker : Option CheckerConfig → Execution CheckerErr Checker
  | none => .returns .tcp
  | some (.tcp _) => .returns .tcp
  | some (.redis _) => .returns .redis
  | some (.mysql config) =>
    if (CheckerConfig.mysql config).validate then
      -- the name is read from the message
      config.elim .panics fun username => .returns (.mysql username)
    else .fails .invalidConfig
  | some (.atcp config) =>
    if (CheckerConfig.atcp config).validate then
      (newActions lib (config.getD [])).bind fun actions => .returns (.atcp actions)
    else .fails .invalidConfig

/-! ## The monitor and the processor -/

/-- What `hc.Monitor` has of a config. -/
structure HealthMonitor where
  config : HealthCheck CheckerConfig
  checker : Checker
  deriving DecidableEq

/-- The balancers of `proc/internal/lb`. -/
inductive Balancer where
  | roundRobin
  | leastConn
  | random
  deriving DecidableEq

/-- `lb.New`, by the number of the policy. -/
def Balancer.new (policy : Int32) : Balancer :=
  if policy = 1 then .leastConn else if policy = 2 then .random else .roundRobin

variable {Λ Ω : Type*}

structure TcpProc (Λ Ω : Type*) where
  name : Bytes
  cfg : ServiceConfig Λ CheckerConfig Ω
  lb : Balancer
  hm : Option HealthMonitor
  hostSet : HostSet

variable (env : Environment Λ CheckerConfig Ω)

/-- `NewMonitor`; there is no monitor without a config, and one that is not valid is replaced by the
    default. -/
def HealthMonitor.new : Option (HealthCheck CheckerConfig) →
    Execution CheckerErr (Option HealthMonitor)
  | none => .returns none
  | some config =>
    let config := if config.validate env then config else defaultHealthCheck env
    (CheckerConfig.newChecker lib config.checker).bind fun checker =>
      .returns (some ⟨config, checker⟩)

/-- `ResetHealthCheck` of a monitor that may be nil, with the monitor that an error leaves. -/
def HealthMonitor.resetHealthCheck :
    Option HealthMonitor → Option (HealthCheck CheckerConfig) →
      Execution (Option HealthMonitor) (Option HealthMonitor)
  | none, _ => .returns none
  -- `Validate` passes nil, then a field of it is read
  | some _, none => .panics
  | some m, some config =>
    if config.validate env then
      match config.checker with
      -- `Equal` of a nil interface is called
      | none => .panics
      | some checker =>
        if m.config.checker = some checker then .returns (some { m with config := config })
        else
          match CheckerConfig.newChecker lib (some checker) with
          | .returns made => .returns (some ⟨config, made⟩)
          -- the checker is replaced, the config is not
          | .fails _ => .fails (some { m with checker := .tcp })
          | .panics => .panics
          | .unfinished => .unfinished
    else .fails (some m)

namespace TcpProc

/-- The monitor behind a change of the health check. -/
def updateMonitor (p : TcpProc Λ Ω) (newHC : Option (HealthCheck CheckerConfig)) :
    Execution (Option HealthMonitor) (Option HealthMonitor) :=
  if p.cfg.healthCheck = newHC then .returns p.hm
  else
    match p.hm with
    | none =>
      match HealthMonitor.new lib env newHC with
      | .returns hm => .returns hm
      | .fails _ => .fails none
      | .panics => .panics
      | .unfinished => .unfinished
    | some m => HealthMonitor.resetHealthCheck lib env (some m) newHC

/-- `OnSvcConfigUpdate`, with the processor that an error leaves. -/
def onSvcConfigUpdate (p : TcpProc Λ Ω) (c : ServiceConfig Λ CheckerConfig Ω) :
    Execution (TcpProc Λ Ω) (TcpProc Λ Ω) :=
  match p.updateMonitor lib env c.healthCheck with
  | .returns hm =>
    .returns { p with
      hm := hm
      lb := if p.cfg.lbPolicy ≠ c.lbPolicy then Balancer.new c.lbPolicy else p.lb
      cfg := c }
  | .fails hm => .fails { p with hm := hm }
  | .panics => .panics
  | .unfinished => .unfinished

end TcpProc

/-! ## The payloads that a checker cannot use -/

/-- The payloads of the actions in the order in which they are decoded; a nil action has none. -/
def payloads (actions : List (Option ATCPAction)) : List (Option Bytes) :=
  actions.flatMap fun
    | none => [none]
    | some action => [some action.send, some action.expect]

/-- The text that a payload stands for. -/
def payloadText : Bytes → Option Bytes
  | 98 :: rest => (lib.unquote rest).bind lib.hexDecode
  | b => lib.unquote b

/-- A payload that is there, is not empty and stands for a text of 1 to 2048 bytes. -/
def usable : Option Bytes → Bool
  | none => false
  | some b =>
    b ≠ [] && (payloadText lib b).any fun p => 1 ≤ p.length ∧ p.length ≤ maxBufferSize

/-- The first payload that cannot be used. -/
def unusableIn (steps : List (Option Bytes)) : Option (Option Bytes) :=
  steps.find? fun b => !usable lib b

/-- What `newChecker` stumbles over first: a payload that cannot be used, or a message that is not
    there. -/
def CheckerConfig.firstUnusable : CheckerConfig → Option (Option Bytes)
  | .atcp (some actions) => unusableIn lib (payloads actions)
  | .mysql none => some none
  | _ => none

theorem validatePayload_cases (payload : Bytes) :
    (validatePayload payload = .returns () ∧ 1 ≤ payload.length ∧
        payload.length ≤ maxBufferSize) ∨
      (∃ e, validatePayload payload = .fails e) ∧
        ¬(1 ≤ payload.length ∧ payload.length ≤ maxBufferSize) := by
  unfold validatePayload
  split
  · exact .inr ⟨⟨_, rfl⟩, by omega⟩
  · split
    · exact .inr ⟨⟨_, rfl⟩, by omega⟩
    · exact .inl ⟨rfl, by omega, by omega⟩

theorem decodePayload_eq {b : Bytes} (hb : b ≠ []) :
    (∃ e, decodePayload lib b = .fails e ∧ payloadText lib b = none) ∨
      ∃ payload, decodePayload lib b = .returns payload ∧ payloadText lib b = some payload := by
  unfold decodePayload
  split
  · exact absurd rfl hb
  -- a leading b: the text is hexadecimal
  · rename_i rest
    have htext : payloadText lib (98 :: rest) = (lib.unquote rest).bind lib.hexDecode := rfl
    rw [htext]
    cases lib.unquote rest with
    | none => exact .inl ⟨.unquote, rfl, rfl⟩
    | some rawData =>
      simp only [Option.bind_some]
      cases lib.hexDecode rawData with
      | none => exact .inl ⟨.hex, rfl, rfl⟩
      | some payload => exact .inr ⟨payload, rfl, rfl⟩
  · rename_i hbinary
    have htext : payloadText lib b = lib.unquote b := by
      unfold payloadText
      split
      · exact absurd rfl (hbinary _)
      · rfl
    rw [htext]
    cases lib.unquote b with
    | none => exact .inl ⟨.unquote, rfl, rfl⟩
    | some payload => exact .inr ⟨payload, rfl, rfl⟩

/-- What a constructor comes to, by what it stumbles over first. -/
inductive Stumbles {α : Type*} : Option (Option Bytes) → Execution CheckerErr α → Prop where
  | not (a : α) : Stumbles none (.returns a)
  /-- the fields of nil cannot be read -/
  | missing : Stumbles (some none) .panics
  /-- an empty payload has no first byte -/
  | empty : Stumbles (some (some [])) .panics
  | refused {b : Bytes} (hb : b ≠ []) (e : CheckerErr) : Stumbles (some (some b)) (.fails e)

variable {lib}

theorem Stumbles.bind {α β : Type*} {steps steps' : List (Option Bytes)}
    {r : Execution CheckerErr α} {k : α → Execution CheckerErr β}
    (h : Stumbles (unusableIn lib steps) r) (hk : ∀ a, Stumbles (unusableIn lib steps') (k a)) :
    Stumbles (unusableIn lib (steps ++ steps')) (r.bind k) := by
  rw [unusableIn, List.find?_append]
  change Stumbles ((unusableIn lib steps).or (unusableIn lib steps')) (r.bind k)
  generalize unusableIn lib steps = first at h
  cases h with
  | not a => exact hk a
  | missing => exact .missing
  | empty => exact .empty
  | refused hb e => exact .refused hb e

theorem Stumbles.map {α β : Type*} {first : Option (Option Bytes)} {r : Execution CheckerErr α}
    (h : Stumbles first r) (f : α → β) : Stumbles first (r.bind fun a => .returns (f a)) := by
  cases h with
  | not a => exact .not (f a)
  | missing => exact .missing
  | empty => exact .empty
  | refused hb e => exact .refused hb e

/-- The constructor of an action panics on an empty payload, and refuses one that cannot be used. -/
theorem stumbles_newPayload (b : Bytes) :
    Stumbles (unusableIn lib [some b]) (newPayload lib b) := by
  by_cases hb : b = []
  · subst hb
    exact .empty
  · have hunusable : usable lib (some b) = false → unusableIn lib [some b] = some (some b) := by
      intro h
      simp [unusableIn, h]
    have husable : usable lib (some b) = true → unusableIn lib [some b] = none := by
      intro h
      simp [unusableIn, h]
    rcases decodePayload_eq lib hb with ⟨e, hdecode, htext⟩ | ⟨payload, hdecode, htext⟩
    · rw [hunusable (by simp [usable, htext]), newPayload, hdecode]
      exact .refused hb e
    · rw [newPayload, hdecode, Execution.returns_bind]
      rcases validatePayload_cases payload with ⟨hvalid, hbounds⟩ | ⟨⟨e, hvalid⟩, hbounds⟩
      · rw [husable (by simp [usable, htext, hb, hbounds]), hvalid]
        exact .not payload
      · rw [hunusable (by simpa [usable, htext, hb] using hbounds), hvalid]
        exact .refused hb e

theorem stumbles_newActions (actions : List (Option ATCPAction)) :
    Stumbles (unusableIn lib (payloads actions)) (newActions lib actions) := by
  induction actions with
  | nil => exact .not []
  | cons action actions ih =>
    cases action with
    | none => exact .missing
    | some action =>
      have hsteps : payloads (some action :: actions) =
          [some action.send] ++ ([some action.expect] ++ payloads actions) := rfl
      rw [hsteps, newActions]
      refine (stumbles_newPayload action.send).bind fun s => ?_
      refine (stumbles_newPayload action.expect).bind fun e => ?_
      exact ih.map _

/-- `newChecker` for a checker that has passed the validation. -/
theorem stumbles_newChecker {checker : CheckerConfig} (hvalid : checker.validate = true) :
    Stumbles (checker.firstUnusable lib) (CheckerConfig.newChecker lib (some checker)) := by
  cases checker with
  | tcp config => exact .not Checker.tcp
  | redis password => exact .not Checker.redis
  | mysql username =>
    simp only [CheckerConfig.newChecker, hvalid, if_true]
    cases username with
    | none => exact .missing
    | some username => exact .not (Checker.mysql username)
  | atcp config =>
    simp only [CheckerConfig.newChecker, hvalid, if_true]
    cases config with
    | none => exact .not (Checker.atcp [])
    | some actions => exact (stumbles_newActions actions).map _

/-! ## Changes that are safe -/

/-- The environment validates checkers as the messages do. -/
def Environment.ValidatesCheckers (env : Environment Λ CheckerConfig Ω) : Prop :=
  env.checkerValid = CheckerConfig.validate

/-- What is asked of `ResetHealthCheck`: it does not panic, no health check ends in no monitor, and
    an error leaves the monitor as it was. -/
def SafeReset (m : Option HealthMonitor) (config : Option (HealthCheck CheckerConfig)) :
    Execution (Option HealthMonitor) (Option HealthMonitor) → Prop
  | .returns m' => config = none → m' = none
  | .fails m' => m' = m
  | .panics => False
  | .unfinished => False

/-- What is asked of `OnSvcConfigUpdate`. -/
def SafeUpdate (p : TcpProc Λ Ω) (c : ServiceConfig Λ CheckerConfig Ω) :
    Execution (TcpProc Λ Ω) (TcpProc Λ Ω) → Prop
  | .returns p' => c.healthCheck = none → p'.hm = none
  | .fails p' => p' = p
  | .panics => False
  | .unfinished => False

variable (lib)

/-- A monitor can be changed to the config: the health check is there and names its checker, and if
    that is a new one, then it can be made; or the first payload that cannot be used is not empty
    and the monitor has the checker for TCP anyway. -/
def Resettable (m : Option HealthMonitor) (config : Option (HealthCheck CheckerConfig)) : Prop :=
  ∀ old, m = some old → ∃ hc checker, config = some hc ∧ hc.checker = some checker ∧
    (old.config.checker = some checker ∨ checker.firstUnusable lib = none ∨
      old.checker = .tcp ∧ ∃ b ≠ [], checker.firstUnusable lib = some (some b))

/-- A processor can be changed to the config: the health check stays as it is, and there is no
    monitor without one; or there is no monitor, and nothing that is missing or empty is met before
    the checker is made or refused; or the monitor can be changed. -/
def Updatable (p : TcpProc Λ Ω) (c : ServiceConfig Λ CheckerConfig Ω) : Prop :=
  if p.cfg.healthCheck = c.healthCheck then c.healthCheck = none → p.hm = none
  else
    p.hm = none ∧ (∀ checker, c.healthCheck.bind HealthCheck.checker = some checker →
      checker.firstUnusable lib ≠ some none ∧ checker.firstUnusable lib ≠ some (some [])) ∨
    p.hm ≠ none ∧ Resettable lib p.hm c.healthCheck

variable {lib} {env}

theorem validate_checker {hc : HealthCheck CheckerConfig} {checker : CheckerConfig}
    (henv : env.ValidatesCheckers) (hvalid : hc.validate env = true)
    (hchecker : hc.checker = some checker) : checker.validate = true := by
  simp only [HealthCheck.validate, hchecker, Option.all_some, Bool.and_eq_true] at hvalid
  rw [henv] at hvalid
  exact hvalid.2

/-- `ResetHealthCheck` for a config that has passed the validation. -/
theorem resetHealthCheck_safe_iff (henv : env.ValidatesCheckers) (m : Option HealthMonitor)
    {config : Option (HealthCheck CheckerConfig)}
    (hvalid : ∀ hc, config = some hc → hc.validate env = true) :
    SafeReset m config (HealthMonitor.resetHealthCheck lib env m config) ↔
      Resettable lib m config := by
  cases m with
  | none => simp [HealthMonitor.resetHealthCheck, SafeReset, Resettable]
  | some old =>
    cases config with
    | none => simp [HealthMonitor.resetHealthCheck, SafeReset, Resettable]
    | some hc =>
      have hhc := hvalid hc rfl
      cases hchecker : hc.checker with
      | none => simp [HealthMonitor.resetHealthCheck, SafeReset, Resettable, hhc, hchecker]
      | some checker =>
        have hmake := @stumbles_newChecker lib _ (validate_checker henv hhc hchecker)
        by_cases hsame : old.config.checker = some checker
        · simp [HealthMonitor.resetHealthCheck, SafeReset, Resettable, hhc, hchecker, hsame]
        · simp only [HealthMonitor.resetHealthCheck, Resettable, hhc, hchecker, hsame, if_true,
            if_false, Option.some.injEq, forall_eq', exists_and_left, exists_eq_left', false_or]
          generalize checker.firstUnusable lib = first at hmake ⊢
          generalize CheckerConfig.newChecker lib (some checker) = made at hmake ⊢
          cases hmake with
          | not made | missing | empty => simp [SafeReset]
          | refused hb e =>
            -- the error leaves the checker for TCP
            obtain ⟨config, current⟩ := old
            simp [SafeReset, hb, eq_comm]

/-- A new monitor for a config that has passed the validation. -/
theorem new_safe_iff (henv : env.ValidatesCheckers) {p : TcpProc Λ Ω}
    {c : ServiceConfig Λ CheckerConfig Ω}
    (hvalid : ∀ hc, c.healthCheck = some hc → hc.validate env = true) (hhm : p.hm = none)
    (hdiff : p.cfg.healthCheck ≠ c.healthCheck) :
    SafeUpdate p c (p.onSvcConfigUpdate lib env c) ↔
      ∀ checker, c.healthCheck.bind HealthCheck.checker = some checker →
        checker.firstUnusable lib ≠ some none ∧ checker.firstUnusable lib ≠ some (some []) := by
  unfold TcpProc.onSvcConfigUpdate TcpProc.updateMonitor
  rw [if_neg hdiff, hhm]
  cases hhc : c.healthCheck with
  | none => simp [HealthMonitor.new, SafeUpdate]
  | some hc =>
    have hvalid' := hvalid hc hhc
    cases hchecker : hc.checker with
    | none => simp [HealthMonitor.new, hvalid', hchecker, CheckerConfig.newChecker, SafeUpdate, hhc]
    | some checker =>
      have hmake := @stumbles_newChecker lib _ (validate_checker henv hvalid' hchecker)
      simp only [HealthMonitor.new, hvalid', if_true, hchecker, Option.bind_some,
        Option.some.injEq, forall_eq']
      generalize checker.firstUnusable lib = first at hmake ⊢
      generalize CheckerConfig.newChecker lib (some checker) = made at hmake ⊢
      cases hmake with
      | not made => simp [SafeUpdate, hhc]
      | missing | empty => simp [SafeUpdate]
      -- the error leaves the processor without a monitor, as it was
      | refused hb e =>
        have hsame : { p with hm := none } = p := by rw [← hhm]
        simp [SafeUpdate, hb, hsame]

theorem onSvcConfigUpdate_safe_iff (henv : env.ValidatesCheckers) (p : TcpProc Λ Ω)
    {c : ServiceConfig Λ CheckerConfig Ω} (hvalid : c.validate env = true) :
    SafeUpdate p c (p.onSvcConfigUpdate lib env c) ↔ Updatable lib p c := by
  have hhc : ∀ hc, c.healthCheck = some hc → hc.validate env = true :=
    fun hc h => Proc.healthCheck_validate hvalid h
  unfold Updatable
  by_cases hsame : p.cfg.healthCheck = c.healthCheck
  · simp [TcpProc.onSvcConfigUpdate, TcpProc.updateMonitor, hsame, SafeUpdate]
  · rw [if_neg hsame]
    -- `Reset` is only called on a monitor that is there
    cases hhm : p.hm with
    | none =>
      rw [new_safe_iff henv hhc hhm hsame]
      simp
    | some old =>
      have hreset : SafeReset (some old) c.healthCheck
          (HealthMonitor.resetHealthCheck lib env (some old) c.healthCheck) ↔
          Resettable lib (some old) c.healthCheck :=
        resetHealthCheck_safe_iff henv (some old) hhc
      simp only [reduceCtorEq, false_and, false_or, ne_eq, not_false_eq_true, true_and, ← hreset]
      unfold TcpProc.onSvcConfigUpdate TcpProc.updateMonitor
      rw [if_neg hsame, hhm]
      dsimp only
      cases HealthMonitor.resetHealthCheck lib env (some old) c.healthCheck with
      | returns hm | panics | unfinished => exact Iff.rfl
      | fails hm =>
        show { p with hm := hm } = p ↔ hm = some old
        constructor
        · intro h
          rw [← hhm, ← h]
        · rintro rfl
          rw [← hhm]

/-- **Changes of the health check**: for a config that has passed the validation, a reset of a
    monitor and an update of a processor are safe exactly if the condition on them holds. -/
theorem healthCheck_change_safe_iff (lib : Quoting) (env : Environment Λ CheckerConfig Ω)
    (henv : env.ValidatesCheckers) :
    (∀ m config, (∀ hc, config = some hc → hc.validate env = true) →
      (SafeReset m config (HealthMonitor.resetHealthCheck lib env m config) ↔
        Resettable lib m config)) ∧
    ∀ (p : TcpProc Λ Ω) (c : ServiceConfig Λ CheckerConfig Ω), c.validate env = true →
      (SafeUpdate p c (p.onSvcConfigUpdate lib env c) ↔ Updatable lib p c) :=
  ⟨fun m _ hvalid => resetHealthCheck_safe_iff henv m hvalid,
    fun p _ hvalid => onSvcConfigUpdate_safe_iff henv p hvalid⟩

/-! ## Without the states behind errors -/

/-- What is seen of a computation when errors carry nothing. -/
def outcomeOf {ε α β : Type*} (f : α → β) : Execution ε α → Outcome β
  | .returns a => .ok (f a)
  | .fails _ => .err
  | .panics => .panic
  | .unfinished => .panic

/-- The environment makes the checkers of the source. -/
structure Environment.Models (env : Environment Λ CheckerConfig Ω) (lib : Quoting) : Prop where
  validates : env.ValidatesCheckers
  tcpChecker : env.tcpChecker = .tcp (some ())
  makeChecker : ∀ checker, env.makeChecker checker =
    outcomeOf (fun _ => ()) (CheckerConfig.newChecker lib (some checker))

def TcpProc.erase (p : TcpProc Λ Ω) : Proc Λ CheckerConfig Ω :=
  ⟨.tcp, p.name, some p.cfg, p.hm.map HealthMonitor.config, p.hostSet⟩

theorem newMonitor_eq (henv : env.Models lib) (config : Option (HealthCheck CheckerConfig)) :
    newMonitor env config =
      outcomeOf (Option.map HealthMonitor.config) (HealthMonitor.new lib env config) := by
  cases config with
  | none => rfl
  | some hc =>
    simp only [newMonitor, HealthMonitor.new]
    generalize (if hc.validate env then hc else defaultHealthCheck env) = hc'
    cases hchecker : hc'.checker with
    | none => rfl
    | some checker =>
      simp only [newChecker, henv.makeChecker]
      cases CheckerConfig.newChecker lib (some checker) <;> rfl

theorem resetHealthCheck_cases (henv : env.Models lib) (old : HealthMonitor)
    (config : Option (HealthCheck CheckerConfig)) :
    (∃ m, HealthMonitor.resetHealthCheck lib env (some old) config = .returns (some m) ∧
        resetHealthCheck env old.config config = .ok m.config) ∨
      (∃ m, HealthMonitor.resetHealthCheck lib env (some old) config = .fails m ∧
        resetHealthCheck env old.config config = .err) ∨
      (HealthMonitor.resetHealthCheck lib env (some old) config = .panics ∨
          HealthMonitor.resetHealthCheck lib env (some old) config = .unfinished) ∧
        resetHealthCheck env old.config config = .panic := by
  cases config with
  -- the checker of nil is read
  | none => exact .inr (.inr ⟨.inl rfl, rfl⟩)
  | some hc =>
    simp only [resetHealthCheck, HealthMonitor.resetHealthCheck]
    by_cases hvalid : hc.validate env = true
    · simp only [hvalid, if_true]
      cases hchecker : hc.checker with
      | none => exact .inr (.inr ⟨.inl rfl, rfl⟩)
      | some checker =>
        by_cases hsame : old.config.checker = some checker
        · simp only [hsame, if_true]
          exact .inl ⟨_, rfl, rfl⟩
        · simp only [hsame, if_false, newChecker, henv.makeChecker]
          cases CheckerConfig.newChecker lib (some checker) with
          | returns made => exact .inl ⟨_, rfl, rfl⟩
          | fails e => exact .inr (.inl ⟨_, rfl, rfl⟩)
          | panics => exact .inr (.inr ⟨.inl rfl, rfl⟩)
          | unfinished => exact .inr (.inr ⟨.inr rfl, rfl⟩)
    · refine .inr (.inl ⟨some old, ?_, ?_⟩)
      · exact if_neg hvalid
      · exact if_neg hvalid

/-- The update of a processor, with the wrapper that sets the default values. -/
theorem erase_onSvcConfigUpdate (henv : env.Models lib) (p : TcpProc Λ Ω)
    (c : ServiceConfig Λ CheckerConfig Ω) :
    p.erase.onSvcConfigUpdate env (some c) =
      outcomeOf TcpProc.erase (p.onSvcConfigUpdate lib env c.setDefaultValue) := by
  have hmonitor : p.erase.updateMonitor env c.setDefaultValue.healthCheck =
      outcomeOf (Option.map HealthMonitor.config)
        (p.updateMonitor lib env c.setDefaultValue.healthCheck) := by
    unfold Proc.updateMonitor TcpProc.updateMonitor
    by_cases hsame : p.cfg.healthCheck = c.setDefaultValue.healthCheck
    · simp [TcpProc.erase, hsame, outcomeOf]
    · simp only [TcpProc.erase, Option.bind_some, hsame, if_false]
      cases hhm : p.hm with
      | none =>
        simp only [Option.map_none, newMonitor_eq henv]
        cases HealthMonitor.new lib env c.setDefaultValue.healthCheck <;> rfl
      | some old =>
        simp only [Option.map_some]
        rcases resetHealthCheck_cases henv old c.setDefaultValue.healthCheck with
          ⟨m, hm, hok⟩ | ⟨m, hm, herr⟩ | ⟨hm | hm, hpanic⟩ <;> simp [*, outcomeOf]
  unfold Proc.onSvcConfigUpdate TcpProc.onSvcConfigUpdate
  simp only [Option.map_some, Option.bind_some]
  have htcp : p.erase.kind = .tcp := rfl
  simp only [htcp, hmonitor]
  cases p.updateMonitor lib env c.setDefaultValue.healthCheck <;> rfl

/-! ## Sample changes -/

/-- A library that takes the quotes off and knows no hexadecimal text. -/
def sampleQuoting : Quoting where
  unquote b := if b.head? = some 34 ∧ b.getLast? = some 34 ∧ 2 ≤ b.length then
    some (b.drop 1).dropLast else none
  hexDecode _ := none

def sampleEnvironment : Environment Unit CheckerConfig Unit where
  listenerValid _ := true
  checkerValid := CheckerConfig.validate
  optionsValid _ := true
  tcpChecker := .tcp (some ())
  newListener _ := .ok ()
  makeChecker checker :=
    outcomeOf (fun _ => ()) (CheckerConfig.newChecker sampleQuoting (some checker))

def healthCheckWith (checker : Option CheckerConfig) : HealthCheck CheckerConfig :=
  ⟨10000000000, 3000000000, 3, 3, checker⟩

def configWith (healthCheck : Option (HealthCheck CheckerConfig)) :
    ServiceConfig Unit CheckerConfig Unit :=
  ⟨some (), healthCheck, none, none, 0, .tcp, none⟩

/-- A processor whose hosts are checked by the protocol of Redis. -/
def checkedProc : TcpProc Unit Unit where
  name := []
  cfg := configWith (some (healthCheckWith (some (.redis none))))
  lb := .roundRobin
  hm := some ⟨healthCheckWith (some (.redis none)), .redis⟩
  hostSet := newSet []

/-- An action whose payloads are these. -/
def actionOf (send expect : Bytes) : CheckerConfig := .atcp (some [some ⟨send, expect⟩])

/-- No health check, a health check without a checker and one with an empty payload make the update
    panic, and a payload that is not quoted makes it fail with the checker changed; all these
    configs have passed the validation. -/
theorem healthCheck_change_unsafe :
    (∀ hc ∈ [none, some (healthCheckWith none), some (healthCheckWith (some (actionOf [] [34]))),
        some (healthCheckWith (some (actionOf [120] [120])))],
      (configWith hc).validate sampleEnvironment = true) ∧
    checkedProc.onSvcConfigUpdate sampleQuoting sampleEnvironment (configWith none) = .panics ∧
    checkedProc.onSvcConfigUpdate sampleQuoting sampleEnvironment
      (configWith (some (healthCheckWith none))) = .panics ∧
    checkedProc.onSvcConfigUpdate sampleQuoting sampleEnvironment
      (configWith (some (healthCheckWith (some (actionOf [] [34]))))) = .panics ∧
    checkedProc.onSvcConfigUpdate sampleQuoting sampleEnvironment
        (configWith (some (healthCheckWith (some (actionOf [120] [120]))))) =
      .fails { checkedProc with hm := some ⟨healthCheckWith (some (.redis none)), .tcp⟩ } := by
  refine ⟨by decide +kernel, ?_, ?_, ?_, ?_⟩
  · rfl
  · rfl
  · rfl
  · rfl

theorem healthCheck_change_safe_actions :
    SafeUpdate checkedProc (configWith (some (healthCheckWith (some (actionOf [34, 120, 34]
        [34, 121, 34])))))
      (checkedProc.onSvcConfigUpdate sampleQuoting sampleEnvironment
        (configWith (some (healthCheckWith (some (actionOf [34, 120, 34] [34, 121, 34])))))) :=
  ((healthCheck_change_safe_iff sampleQuoting sampleEnvironment rfl).2 checkedProc _
    (by decide +kernel)).mpr (by
      unfold Updatable
      rw [if_neg (by decide +kernel)]
      refine .inr ⟨by decide, ?_⟩
      rintro old hold
      exact ⟨_, _, rfl, rfl, .inr (.inl (by decide +kernel))⟩)

end Samaritan.Services
