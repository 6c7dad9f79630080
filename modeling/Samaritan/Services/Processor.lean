import Samaritan.Hosts.Set
import Samaritan.Services.Config

/-!
# Processors of Services

A processor serves one service with the config and the hosts it is given (`proc/proc.go`,
`proc/tcp/proc.go`, `proc/redis/redis.go`). It is created from a valid config; later configs are
handed to `OnSvcConfigUpdate`, which takes them or fails. The processor for TCP also renews its
health check monitor there (`proc/internal/hc/monitor.go`), and this part can panic.

The listener, the checker and the protocol options of a config are messages of types `Λ`, `χ` and
`Ω`; what is done with them outside of these files is given by an `Environment`.
-/

namespace Samaritan.Services

open Samaritan.Lib
open Samaritan.Hosts (Host HostSet newSet)

variable {Λ χ Ω : Type*}

/-! ## Configs -/

/-- `protocol.Protocol`. -/
inductive Protocol where
  | unknown
  | tcp
  | mysql
  | redis
  | other
  deriving DecidableEq, Repr

/-- `hc.HealthCheck`, with durations in nanoseconds. -/
structure HealthCheck (χ : Type*) where
  interval : Int64
  timeout : Int64
  fallThreshold : UInt32
  riseThreshold : UInt32
  checker : Option χ
  deriving DecidableEq

/-- `service.Config`. -/
structure ServiceConfig (Λ χ Ω : Type*) where
  listener : Option Λ
  healthCheck : Option (HealthCheck χ)
  connectTimeout : Option Int64
  idleTimeout : Option Int64
  lbPolicy : Int32
  protocol : Protocol
  protocolOptions : Option Ω

/-- A result, an error that is logged, or a panic of the whole process. -/
inductive Outcome (α : Type*) where
  | ok (a : α)
  | err
  | panic

/-- What is done with parts of a config. -/
structure Environment (Λ χ Ω : Type*) where
  /-- `Validate` of the embedded messages -/
  listenerValid : Λ → Bool
  checkerValid : χ → Bool
  optionsValid : Ω → Bool
  /-- the checker of the default config -/
  tcpChecker : χ
  /-- `proc.NewListener` -/
  newListener : Option Λ → Outcome Unit
  /-- the constructors behind `newChecker` -/
  makeChecker : χ → Outcome Unit

def HealthCheck.validate (env : Environment Λ χ Ω) (config : HealthCheck χ) : Bool :=
  0 < config.interval && 0 < config.timeout && config.checker.all env.checkerValid

def ServiceConfig.validate (env : Environment Λ χ Ω) (cfg : ServiceConfig Λ χ Ω) : Bool :=
  cfg.listener.any env.listenerValid && cfg.healthCheck.all (HealthCheck.validate env) &&
    cfg.connectTimeout.all (fun d => 0 < d) && cfg.idleTimeout.all (fun d => 0 < d) &&
    cfg.protocol ≠ .unknown && cfg.protocolOptions.all env.optionsValid

def defaultConnectTimeout : Int64 := 3000000000

def defaultIdleTimeout : Int64 := 600000000000

def ServiceConfig.setDefaultValue (cfg : ServiceConfig Λ χ Ω) : ServiceConfig Λ χ Ω :=
  { cfg with
    connectTimeout := some (cfg.connectTimeout.getD defaultConnectTimeout)
    idleTimeout := some (cfg.idleTimeout.getD defaultIdleTimeout) }

/-- The default values are valid. -/
theorem validate_setDefaultValue (env : Environment Λ χ Ω) (cfg : ServiceConfig Λ χ Ω) :
    cfg.setDefaultValue.validate env = cfg.validate env := by
  have hconnect : (0 < defaultConnectTimeout) = True := by decide
  have hidle : (0 < defaultIdleTimeout) = True := by decide
  cases hc : cfg.connectTimeout <;> cases hi : cfg.idleTimeout <;>
    simp [ServiceConfig.setDefaultValue, ServiceConfig.validate, hc, hi, hconnect, hidle]

/-! ## The health check monitor -/

/-- `newChecker`; without a checker it is that for TCP. -/
def newChecker (env : Environment Λ χ Ω) : Option χ → Outcome Unit
  | none => .ok ()
  | some checker => env.makeChecker checker

/-- `defaultConfig`. -/
def defaultHealthCheck (env : Environment Λ χ Ω) : HealthCheck χ where
  interval := 10000000000
  timeout := 3000000000
  fallThreshold := 3
  riseThreshold := 3
  checker := some env.tcpChecker

/-- The config of the monitor that `NewMonitor` makes; there is no monitor without a config. -/
def newMonitor (env : Environment Λ χ Ω) :
    Option (HealthCheck χ) → Outcome (Option (HealthCheck χ))
  | none => .ok none
  | some config =>
    let config := if config.validate env then config else defaultHealthCheck env
    match newChecker env config.checker with
    | .ok _ => .ok (some config)
    | .err => .err
    | .panic => .panic

section

variable [DecidableEq χ]

/-- `ResetHealthCheck` of a monitor with the config `old`. -/
def resetHealthCheck (env : Environment Λ χ Ω) (old : HealthCheck χ) :
    Option (HealthCheck χ) → Outcome (HealthCheck χ)
  -- `Validate` passes nil, then a field of it is read
  | none => .panic
  | some config =>
    if config.validate env then
      match config.checker with
      -- `Equal` of a nil interface is called
      | none => .panic
      | some checker =>
        if old.checker = some checker then .ok config
        else
          match newChecker env (some checker) with
          | .ok _ => .ok config
          | .err => .err
          | .panic => .panic
    else .err

end

/-! ## Processors -/

inductive ProcKind where
  | tcp
  | redis
  deriving DecidableEq, Repr

structure Proc (Λ χ Ω : Type*) where
  kind : ProcKind
  name : Bytes
  cfg : Option (ServiceConfig Λ χ Ω)
  /-- the config of the monitor of a processor for TCP -/
  hm : Option (HealthCheck χ)
  hostSet : HostSet

/-- `proc.New` for a config that is not nil, and `Start`, which does not fail. -/
def newProc (env : Environment Λ χ Ω) (name : Bytes) (cfg : ServiceConfig Λ χ Ω)
    (hosts : List Host) : Outcome (Proc Λ χ Ω) :=
  match cfg.protocol with
  | .tcp =>
    match env.newListener cfg.listener, newMonitor env cfg.healthCheck with
    | .ok _, .ok hm => .ok ⟨.tcp, name, some cfg.setDefaultValue, hm, newSet hosts⟩
    | .ok _, .err => .err
    | .ok _, .panic => .panic
    | .err, _ => .err
    | .panic, _ => .panic
  | .redis =>
    match env.newListener cfg.listener with
    | .ok _ => .ok ⟨.redis, name, some cfg.setDefaultValue, none, newSet hosts⟩
    | .err => .err
    | .panic => .panic
  | _ => .err

namespace Proc

variable [DecidableEq χ]

/-- The monitor behind a change of the health check. -/
def updateMonitor (env : Environment Λ χ Ω) (p : Proc Λ χ Ω) (newHC : Option (HealthCheck χ)) :
    Outcome (Option (HealthCheck χ)) :=
  if p.cfg.bind ServiceConfig.healthCheck = newHC then .ok p.hm
  else
    match p.hm with
    | none => newMonitor env newHC
    | some old =>
      match resetHealthCheck env old newHC with
      | .ok hm => .ok (some hm)
      | .err => .err
      | .panic => .panic

/-- `OnSvcConfigUpdate`, in its wrapper that sets the default values. -/
def onSvcConfigUpdate (env : Environment Λ χ Ω) (p : Proc Λ χ Ω)
    (newCfg : Option (ServiceConfig Λ χ Ω)) : Outcome (Proc Λ χ Ω) :=
  let cfg := newCfg.map ServiceConfig.setDefaultValue
  match p.kind with
  | .redis =>
    -- `Validate` passes nil
    if cfg.all (ServiceConfig.validate env) then .ok { p with cfg := cfg } else .err
  | .tcp =>
    match p.updateMonitor env (cfg.bind ServiceConfig.healthCheck) with
    | .ok hm => .ok { p with cfg := cfg, hm := hm }
    | .err => .err
    | .panic => .panic

def onSvcHostAdd (p : Proc Λ χ Ω) (hosts : List Host) : Proc Λ χ Ω :=
  { p with hostSet := p.hostSet.add hosts }

def onSvcHostRemove (p : Proc Λ χ Ω) (hosts : List Host) : Proc Λ χ Ω :=
  { p with hostSet := p.hostSet.remove hosts }

/-! ## Configs that are taken -/

/-- The processor takes a valid config: for TCP, a health check that is new can be made, and one
    that replaces another names its checker. -/
def Takes (env : Environment Λ χ Ω) (p : Proc Λ χ Ω) (c : ServiceConfig Λ χ Ω) : Prop :=
  match p.kind with
  | .redis => True
  | .tcp =>
    p.cfg.bind ServiceConfig.healthCheck = c.healthCheck ∨
      match p.hm, c.healthCheck with
      | none, none => True
      | none, some hc => newChecker env hc.checker = .ok ()
      | some _, none => False
      | some old, some hc => ∃ checker, hc.checker = some checker ∧
          (old.checker = some checker ∨ env.makeChecker checker = .ok ())

variable {env : Environment Λ χ Ω} {p p' : Proc Λ χ Ω} {c : ServiceConfig Λ χ Ω}

omit [DecidableEq χ] in
theorem healthCheck_validate (hc : c.validate env = true) {h : HealthCheck χ}
    (hh : c.healthCheck = some h) : h.validate env = true := by
  simp only [ServiceConfig.validate, hh, Option.all_some, Bool.and_eq_true] at hc
  exact hc.1.1.1.1.2

omit [DecidableEq χ] in
theorem newMonitor_ok_iff {hc : HealthCheck χ} (hvalid : hc.validate env = true) :
    (∃ hm, newMonitor env (some hc) = .ok hm) ↔ newChecker env hc.checker = .ok () := by
  simp only [newMonitor, hvalid, if_true]
  cases hnew : newChecker env hc.checker <;> simp

theorem resetHealthCheck_ok_iff {old hc : HealthCheck χ} (hvalid : hc.validate env = true) :
    (∃ hm, resetHealthCheck env old (some hc) = .ok hm) ↔ ∃ checker, hc.checker = some checker ∧
      (old.checker = some checker ∨ env.makeChecker checker = .ok ()) := by
  simp only [resetHealthCheck, hvalid, if_true]
  cases hchecker : hc.checker with
  | none => simp
  | some checker =>
    by_cases hsame : old.checker = some checker
    · simp [hsame]
    · simp only [hsame, if_false, newChecker]
      cases hnew : env.makeChecker checker <;> simp [hsame, hnew]

theorem updateMonitor_ok_iff (hvalid : c.validate env = true) (htcp : p.kind = .tcp) :
    (∃ hm, p.updateMonitor env c.healthCheck = .ok hm) ↔ p.Takes env c := by
  rw [updateMonitor, Takes, htcp]
  by_cases hsame : p.cfg.bind ServiceConfig.healthCheck = c.healthCheck
  · simp [hsame]
  · simp only [hsame, if_false, false_or]
    cases hh : c.healthCheck with
    | none =>
      cases p.hm with
      | none => simp [newMonitor]
      | some old => simp [resetHealthCheck]
    | some hc =>
      have hhc := healthCheck_validate hvalid hh
      cases p.hm with
      | none => exact newMonitor_ok_iff hhc
      | some old =>
        refine Iff.trans ?_ (resetHealthCheck_ok_iff hhc)
        dsimp only
        cases resetHealthCheck env old (some hc) <;> simp

/-- A valid config is taken as it is, with the default values. -/
theorem onSvcConfigUpdate_ok_iff (hvalid : c.validate env = true) :
    (∃ p', p.onSvcConfigUpdate env (some c) = .ok p') ↔ p.Takes env c := by
  cases hkind : p.kind with
  | redis =>
    simp [onSvcConfigUpdate, Takes, hkind, validate_setDefaultValue, hvalid]
  | tcp =>
    rw [← updateMonitor_ok_iff hvalid hkind]
    have hhc : c.setDefaultValue.healthCheck = c.healthCheck := rfl
    simp only [onSvcConfigUpdate, hkind, Option.map_some, Option.bind_some, hhc]
    cases p.updateMonitor env c.healthCheck <;> simp

theorem onSvcConfigUpdate_cfg (h : p.onSvcConfigUpdate env (some c) = .ok p') :
    p'.cfg = some c.setDefaultValue := by
  simp only [onSvcConfigUpdate, Option.map_some] at h
  cases hkind : p.kind with
  | redis =>
    simp only [hkind] at h
    split at h
    · cases h
      rfl
    · cases h
  | tcp =>
    simp only [hkind] at h
    split at h
    · cases h
      rfl
    · cases h
    · cases h

omit [DecidableEq χ] in
/-- A processor that does not take a config does not have it. -/
theorem cfg_ne_of_not_takes (h : ¬ p.Takes env c) : p.cfg ≠ some c.setDefaultValue := by
  intro hcfg
  apply h
  rw [Takes]
  split
  · trivial
  · exact .inl (by rw [hcfg]; rfl)

omit [DecidableEq χ] in
theorem newProc_cfg {name : Bytes} {hosts : List Host} (h : newProc env name c hosts = .ok p) :
    p.cfg = some c.setDefaultValue := by
  rw [newProc] at h
  split at h
  · split at h <;> cases h
    rfl
  · split at h <;> cases h
    rfl
  · cases h

end Proc

end Samaritan.Services
