import Samaritan.Lib.Crc
import Samaritan.Lib.Execution
import Samaritan.Redis.Routing

/-!
# What Routing Is For

The cluster specification fixes the slot of a key, and the servers know which of their commands may
modify a key. `chooseHost` is compared with both here: the slot that it looks up, and the address
that it returns for a request whose slot has an owner.

The specification of the slot is bitwise, and the hashed part of a key is described by a
decomposition of the key; the code has a table of 256 entries and two loops. What the servers say of
their commands is a table of theirs, which is documented for the commands that are routed by a key
and open for all others.
-/

namespace Samaritan.Redis

open Samaritan.Lib

/-! ## The slot of a key -/

/-- The lower case of an ASCII character. -/
def asciiLower (c : UInt8) : UInt8 := if 65 ≤ c ∧ c ≤ 90 then c + 32 else c

/-- The commands that requests routed by a key begin with. -/
def routedCommands : List String := simpleCommands ++ sumResultCommands ++ ["eval"]

/-- Those of them that the servers flag as writing, and `eval`, whose script may write. `sort`,
    `georadius` and `georadiusbymember` are flagged since they can store their result. -/
def modifyingCommands : List String :=
  ["expire", "expireat", "persist", "pexpire", "pexpireat", "restore", "sort", "del", "unlink",
    "append", "decr", "decrby", "getset", "incr", "incrby", "incrbyfloat", "psetex", "set",
    "setbit", "setex", "setnx", "setrange",
    "hdel", "hincrby", "hincrbyfloat", "hmset", "hset", "hsetnx",
    "linsert", "lpop", "lpush", "lpushx", "lrem", "lset", "ltrim", "rpop", "rpoplpush", "rpush",
    "rpushx",
    "sadd", "sdiffstore", "sinterstore", "smove", "spop", "srem", "sunionstore",
    "zadd", "zincrby", "zinterstore", "zrem", "zremrangebylex", "zremrangebyrank",
    "zremrangebyscore", "zunionstore", "pfadd", "pfmerge",
    "geoadd", "georadius", "georadiusbymember", "eval"]

/-- What the servers say of their commands. The names of commands are compared without regard to the
    case of ASCII letters; what is said of a command that the proxy does not know is open. -/
structure CommandTable where
  mayModify : Bytes → Bool
  ignoresCase : ∀ cmd, mayModify (cmd.map asciiLower) = mayModify cmd
  documented : ∀ cmd ∈ routedCommands,
    mayModify (bytesOf cmd) = decide (cmd ∈ modifyingCommands)

/-- The commands that the proxy counts as read-only but may modify a key. -/
theorem CommandTable.mayModify_readOnly (table : CommandTable) :
    ∀ cmd ∈ readOnlyCommands, table.mayModify (bytesOf cmd) = true ↔
      cmd = "sort" ∨ cmd = "geoadd" := by
  intro cmd hcmd
  have hrouted : ∀ cmd ∈ readOnlyCommands, cmd ∈ routedCommands := by decide +kernel
  have hboth : ∀ cmd ∈ readOnlyCommands,
      cmd ∈ modifyingCommands ↔ cmd = "sort" ∨ cmd = "geoadd" := by decide +kernel
  rw [table.documented cmd (hrouted cmd hcmd), decide_eq_true_iff]
  exact hboth cmd hcmd

/-! ## The address that is returned -/

/-- The addresses that a read strategy allows for a slot of the instance. -/
def ReadStrategy.Allows (inst : Instance) (addr : Bytes) : ReadStrategy → Prop
  | .master => addr = inst.addr
  -- the master stands in for replicas that do not exist
  | .replica => addr ∈ inst.replicas ∨ inst.replicas = [] ∧ addr = inst.addr
  | .both => addr = inst.addr ∨ addr ∈ inst.replicas

instance (inst : Instance) (addr : Bytes) :
    (readStrategy : ReadStrategy) → Decidable (readStrategy.Allows inst addr)
  | .master => inferInstanceAs (Decidable (addr = inst.addr))
  | .replica => inferInstanceAs (Decidable (addr ∈ inst.replicas ∨ _ = [] ∧ addr = inst.addr))
  | .both => inferInstanceAs (Decidable (addr = inst.addr ∨ addr ∈ inst.replicas))

/-- The list that `chooseHost` picks from. -/
def ReadStrategy.choices (inst : Instance) (readStrategy : ReadStrategy) : List Bytes :=
  if (readStrategy.candidates inst).length = 0 then [inst.addr] else readStrategy.candidates inst

/-- The candidate that the clock picks. A clock that stands before 1970 has a negative time in
    nanoseconds and a negative remainder; an index outside of the list panics. -/
def pickAt (now : Int) (candidates : List Bytes) : Execution Unit Bytes :=
  let i := if 1 < candidates.length then now.tmod candidates.length else 0
  if i < 0 then .panics else candidates[i.toNat]?.elim .panics .returns

/-- `chooseHost` with any clock and with its panics: the command of a body without elements cannot
    be read, and a negative index is outside of the candidates. -/
def chooseHostAt (slots : Nat → Option Instance) (readStrategy : ReadStrategy)
    (randomHost : Option Bytes) (now : Int) (routingKey : Bytes) (body : RespValue) :
    Execution Unit Bytes :=
  match slots (slotOf routingKey) with
  | none => randomHost.elim (.fails ()) .returns
  | some inst =>
    if body.elems = [] then .panics
    else if !isReadOnly body then .returns inst.addr
    else pickAt now (readStrategy.choices inst)

theorem choices_ne_nil (inst : Instance) (readStrategy : ReadStrategy) :
    readStrategy.choices inst ≠ [] := by
  unfold ReadStrategy.choices
  split
  · simp
  · rename_i h
    exact List.length_pos_iff.mp (Nat.pos_of_ne_zero h)

theorem mem_choices_iff {inst : Instance} {readStrategy : ReadStrategy} {addr : Bytes} :
    addr ∈ readStrategy.choices inst ↔ readStrategy.Allows inst addr := by
  cases readStrategy with
  | master | both => simp [ReadStrategy.choices, ReadStrategy.candidates, ReadStrategy.Allows]
  | replica =>
    unfold ReadStrategy.choices ReadStrategy.candidates ReadStrategy.Allows
    by_cases h : inst.replicas = []
    · simp [h]
    · simp [h]

section PickAt

variable {l : List Bytes}

theorem pickAt_natCast (hl : l ≠ []) (n : Nat) :
    ∃ h : n % l.length < l.length, pickAt n l = .returns l[n % l.length] := by
  have hpos : 0 < l.length := List.length_pos_iff.mpr hl
  refine ⟨Nat.mod_lt _ hpos, ?_⟩
  unfold pickAt
  by_cases hone : 1 < l.length
  · have hi : ((n : Int).tmod l.length) = ((n % l.length : Nat) : Int) := rfl
    simp only [hone, if_true, hi]
    rw [if_neg (by omega), Int.toNat_natCast, List.getElem?_eq_getElem (Nat.mod_lt _ hpos)]
    rfl
  · have hlen : l.length = 1 := by omega
    simp [hlen, Nat.mod_one]

/-- A clock from 1970 on picks one of the list. -/
theorem pickAt_of_nonneg (hl : l ≠ []) {now : Int} (hnow : 0 ≤ now) :
    ∃ addr ∈ l, pickAt now l = .returns addr := by
  lift now to Nat using hnow
  obtain ⟨h, hpick⟩ := pickAt_natCast hl now
  exact ⟨_, List.getElem_mem h, hpick⟩

/-- Each of the list is picked at some time. -/
theorem exists_pickAt {addr : Bytes} (haddr : addr ∈ l) :
    ∃ now : Int, 0 ≤ now ∧ pickAt now l = .returns addr := by
  obtain ⟨n, hn, rfl⟩ := List.getElem_of_mem haddr
  obtain ⟨h, hpick⟩ := pickAt_natCast (List.ne_nil_of_mem haddr) n
  refine ⟨n, by omega, ?_⟩
  rw [hpick]
  simp [Nat.mod_eq_of_lt hn]

/-- The index is outside of the list when the clock stands before 1970, the list has more than one
    entry and the remainder is not zero. -/
theorem pickAt_ne_panics_iff (hl : l ≠ []) (now : Int) :
    pickAt now l ≠ .panics ↔ 0 ≤ now ∨ l.length ≤ 1 ∨ (l.length : Int) ∣ now := by
  have hpos : 0 < l.length := List.length_pos_iff.mpr hl
  by_cases hnow : 0 ≤ now
  · obtain ⟨addr, -, hpick⟩ := pickAt_of_nonneg hl hnow
    simp [hpick, hnow]
  · unfold pickAt
    by_cases hone : 1 < l.length
    · by_cases hdvd : (l.length : Int) ∣ now
      · have hmod : now.tmod l.length = 0 := Int.tmod_eq_zero_of_dvd hdvd
        simp [hmod, hdvd, hpos]
      · have hneg : now.tmod l.length < 0 := by
          have hle : 0 ≤ (-now).tmod l.length := Int.tmod_nonneg _ (by omega)
          rw [Int.neg_tmod] at hle
          have hne : now.tmod l.length ≠ 0 := fun h => hdvd (Int.dvd_of_tmod_eq_zero h)
          omega
        simp [hone, hneg, hdvd, hnow]
    · have hlen : l.length = 1 := by omega
      simp [hlen]

end PickAt

section Owner

variable {slots : Nat → Option Instance} {routingKey : Bytes} {inst : Instance} {body : RespValue}

theorem chooseHostAt_of_owner (howner : slots (slotOf routingKey) = some inst)
    (hbody : body.elems ≠ []) (readStrategy : ReadStrategy) (randomHost : Option Bytes)
    (now : Int) :
    chooseHostAt slots readStrategy randomHost now routingKey body =
      if isReadOnly body then pickAt now (readStrategy.choices inst) else .returns inst.addr := by
  unfold chooseHostAt
  rw [howner]
  cases isReadOnly body <;> simp [hbody]

/-- With a clock from 1970 on this is `chooseHost`. -/
theorem chooseHostAt_natCast (howner : slots (slotOf routingKey) = some inst)
    (hbody : body.elems ≠ []) (readStrategy : ReadStrategy) (randomHost : Option Bytes)
    (now : Nat) (addr : Bytes) :
    chooseHostAt slots readStrategy randomHost now routingKey body = .returns addr ↔
      chooseHost slots readStrategy randomHost now routingKey body = some addr := by
  rw [chooseHostAt_of_owner howner hbody]
  unfold chooseHost
  rw [howner]
  cases hread : isReadOnly body with
  | false => simp
  | true =>
    obtain ⟨h, hpick⟩ := pickAt_natCast (choices_ne_nil inst readStrategy) now
    have hidx : (if 1 < (readStrategy.choices inst).length then
        now % (readStrategy.choices inst).length else 0) =
          now % (readStrategy.choices inst).length := by
      split
      · rfl
      · rw [show (readStrategy.choices inst).length = 1 by omega, Nat.mod_one]
    show pickAt now (readStrategy.choices inst) = _ ↔ (readStrategy.choices inst)[
      if 1 < (readStrategy.choices inst).length then now % (readStrategy.choices inst).length
        else 0]? = _
    rw [hidx, hpick, List.getElem?_eq_getElem h]
    simp

/-- What the servers and the strategy ask of the address that is returned. -/
def RoutesRight (table : CommandTable) (inst : Instance) (readStrategy : ReadStrategy)
    (body : RespValue) : Execution Unit Bytes → Prop
  | .returns addr =>
    if table.mayModify (word body 0) then addr = inst.addr else readStrategy.Allows inst addr
  | _ => False

instance (table : CommandTable) (inst : Instance) (readStrategy : ReadStrategy)
    (body : RespValue) :
    (result : Execution Unit Bytes) → Decidable (RoutesRight table inst readStrategy body result)
  | .returns addr => inferInstanceAs (Decidable (ite _ (addr = inst.addr) _))
  | .fails _ | .panics | .unfinished => inferInstanceAs (Decidable False)

/-- The proxy and the servers agree on the command, or the address is right all the same: the
    strategy allows nothing but the master for a command that is wrongly held to be read-only, and
    it allows the master for one that is wrongly held to write. -/
def WellJudged (table : CommandTable) (inst : Instance) (readStrategy : ReadStrategy)
    (body : RespValue) : Prop :=
  if isReadOnly body then
    table.mayModify (word body 0) → ∀ addr, readStrategy.Allows inst addr → addr = inst.addr
  else table.mayModify (word body 0) ∨ readStrategy.Allows inst inst.addr

/-- **The address that is returned** for a slot with an owner. The index is inside of the candidates
    unless the clock stands before 1970; and with a later clock the address is right at all times
    exactly when the command is judged well. Of the commands that are held to be read-only, `sort`
    and `geoadd` may modify a key. -/
theorem chooseHostAt_routesRight_iff (table : CommandTable)
    (howner : slots (slotOf routingKey) = some inst) (hbody : body.elems ≠ [])
    (readStrategy : ReadStrategy) (randomHost : Option Bytes) :
    (∀ now, chooseHostAt slots readStrategy randomHost now routingKey body ≠ .panics ↔
      0 ≤ now ∨ isReadOnly body = false ∨ (readStrategy.choices inst).length ≤ 1 ∨
        ((readStrategy.choices inst).length : Int) ∣ now) ∧
    ((∀ now, 0 ≤ now → RoutesRight table inst readStrategy body
        (chooseHostAt slots readStrategy randomHost now routingKey body)) ↔
      WellJudged table inst readStrategy body) ∧
    ∀ cmd ∈ readOnlyCommands, table.mayModify (bytesOf cmd) = true ↔
      cmd = "sort" ∨ cmd = "geoadd" := by
  simp only [chooseHostAt_of_owner howner hbody]
  have hne := choices_ne_nil inst readStrategy
  refine ⟨fun now => ?_, ?_, table.mayModify_readOnly⟩
  · cases hread : isReadOnly body with
    | false => simp
    | true => simpa using pickAt_ne_panics_iff hne now
  · unfold WellJudged
    cases hread : isReadOnly body with
    | false =>
      cases hmodify : table.mayModify (word body 0) with
      | true => simp [RoutesRight, hmodify]
      | false => simpa [RoutesRight, hmodify] using ⟨fun h => h 0 le_rfl, fun h _ _ => h⟩
    | true =>
      simp only [if_true]
      constructor
      · intro h hmodify addr haddr
        -- every candidate is picked at some time
        obtain ⟨now, hnow, hpick⟩ := exists_pickAt (mem_choices_iff.mpr haddr)
        have hright := h now hnow
        rw [hpick] at hright
        simpa [RoutesRight, hmodify] using hright
      · intro h now hnow
        obtain ⟨addr, haddr, hpick⟩ := pickAt_of_nonneg hne hnow
        have hallows := mem_choices_iff.mp haddr
        rw [hpick]
        show ite _ _ _
        split
        · rename_i hmodify
          exact h hmodify addr hallows
        · exact hallows

end Owner

/-- The table that says nothing of commands that the proxy does not know. -/
def knownCommandTable : CommandTable where
  mayModify cmd := modifyingCommands.any fun name => bytesOf name = cmd.map asciiLower
  ignoresCase := by
    intro cmd
    have hidem : ∀ c, asciiLower (asciiLower c) = asciiLower c := by
      intro c
      unfold asciiLower
      grind
    simp [Function.comp_def, hidem]
  documented := by
    intro cmd hcmd
    have hlower : ∀ cmd ∈ routedCommands, (bytesOf cmd).map asciiLower = bytesOf cmd := by
      decide +kernel
    have hinj : ∀ name, bytesOf name = bytesOf cmd ↔ name = cmd := by
      intro name
      unfold bytesOf
      rw [Array.toList_inj, ← ByteArray.ext_iff]
      exact String.toByteArray_inj
    rw [hlower cmd hcmd, Bool.eq_iff_iff]
    simp [hinj]

/-- One slot owner with a replica. -/
def replicated : Instance := ⟨bytesOf "10.0.0.1:6379", [bytesOf "10.0.0.2:6379"]⟩

def geoaddBody : RespValue :=
  .array (some [.bulkString (some (bytesOf "GEOADD")), .bulkString (some (bytesOf "Sicily"))])

def geodistBody : RespValue :=
  .array (some [.bulkString (some (bytesOf "GEODIST")), .bulkString (some (bytesOf "Sicily"))])

def getBody : RespValue :=
  .array (some [.bulkString (some (bytesOf "get")), .bulkString (some (bytesOf "Sicily"))])

/-- `GEOADD` is sent to the replica, `GEODIST` to the master although the strategy allows replicas
    only, and a clock that stands before 1970 picks no candidate for `get`. -/
theorem chooseHostAt_misroutes :
    (chooseHostAt (fun _ => some replicated) .replica none 0 (bytesOf "Sicily") geoaddBody =
        .returns (bytesOf "10.0.0.2:6379") ∧
      ¬RoutesRight knownCommandTable replicated .replica geoaddBody
        (chooseHostAt (fun _ => some replicated) .replica none 0 (bytesOf "Sicily") geoaddBody)) ∧
    ¬RoutesRight knownCommandTable replicated .replica geodistBody
      (chooseHostAt (fun _ => some replicated) .replica none 0 (bytesOf "Sicily") geodistBody) ∧
    chooseHostAt (fun _ => some replicated) .both none (-1) (bytesOf "Sicily") getBody =
      .panics := by
  decide +kernel

theorem wellJudged_getBody : WellJudged knownCommandTable replicated .both getBody := by
  have hjudged : isReadOnly getBody = true ∧
      knownCommandTable.mayModify (word getBody 0) = false := by decide +kernel
  unfold WellJudged
  rw [if_pos hjudged.1, hjudged.2]
  intro h
  cases h

theorem chooseHostAt_routesRight_get :
    WellJudged knownCommandTable replicated .both getBody ∧
    ∀ now, 0 ≤ now → RoutesRight knownCommandTable replicated .both getBody
      (chooseHostAt (fun _ => some replicated) .both none now (bytesOf "Sicily") getBody) := by
  refine ⟨wellJudged_getBody, ?_⟩
  exact (chooseHostAt_routesRight_iff knownCommandTable rfl (by decide) .both none).2.1.mpr
    wellJudged_getBody

end Samaritan.Redis
