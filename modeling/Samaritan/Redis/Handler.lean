import Samaritan.Redis.Filter

/-!
# Command Handlers

`handleRequest` (`proc/redis/redis.go`) and the handlers it calls (`handler.go`, `request.go`):
a raw request is answered at once, or it is split into simple requests whose responses are
joined into its own.

What the handlers read from their surroundings (hosts, clock, hot keys) is a parameter, and so
is what happens to each simple request behind `MakeRequest`: which clients it passes and how it
is answered there.
-/

namespace Samaritan.Redis

open Samaritan.Lib

/-! ## Commands -/

/-- The handlers, named after their functions. -/
inductive Handler where
  | simpleCommand
  | sumResultCommand
  | eval
  | mset
  | mget
  | scan
  | hotKey
  | ping
  | quit
  | info
  | time
  | select
  deriving DecidableEq

def simpleCommands : List String :=
  ["dump", "expire", "expireat", "persist", "pexpire", "pexpireat", "pttl",
    "restore", "sort", "ttl", "type",
    -- string
    "append", "bitcount", "bitpos", "decr", "decrby", "get", "getbit", "getrange",
    "getset", "incr", "incrby", "incrbyfloat", "psetex", "set", "setbit", "setex",
    "setnx", "setrange", "strlen",
    -- hash
    "hdel", "hexists", "hget", "hgetall", "hincrby", "hincrbyfloat", "hkeys",
    "hlen", "hmget", "hmset", "hset", "hsetnx", "hstrlen", "hvals", "hscan",
    -- list
    "lindex", "linsert", "llen", "lpop", "lpush", "lpushx", "lrange", "lrem",
    "lset", "ltrim", "rpop", "rpoplpush", "rpush", "rpushx",
    -- set
    "sadd", "scard", "sdiff", "sdiffstore", "sinter", "sinterstore", "sismember",
    "smembers", "smove", "spop", "srandmember", "srem", "sunion", "sunionstore",
    "sscan",
    -- zset
    "zadd", "zcard", "zcount", "zincrby", "zinterstore", "zlexcount", "zrange",
    "zrangebylex", "zrangebyscore", "zrank", "zrem", "zremrangebylex", "zremrangebyrank",
    "zremrangebyscore", "zrevrange", "zrevrangebylex", "zrevrangebyscore", "zrevrank",
    "zscore", "zunionstore", "zscan", "pfadd", "pfcount", "pfmerge",
    -- geo
    "geoadd", "geodist", "geohash", "geopos", "georadius", "georadiusbymember"]

def sumResultCommands : List String := ["del", "exists", "touch", "unlink"]

/-- The table built by `initCommandHandlers`. -/
def cmdHdlrs : List (Bytes × Handler) :=
  (simpleCommands.map fun cmd => (bytesOf cmd, .simpleCommand)) ++
    (sumResultCommands.map fun cmd => (bytesOf cmd, .sumResultCommand)) ++
    [(bytesOf "eval", .eval), (bytesOf "mset", .mset), (bytesOf "mget", .mget),
      (bytesOf "scan", .scan), (bytesOf "hotkey", .hotKey), (bytesOf "ping", .ping),
      (bytesOf "quit", .quit), (bytesOf "info", .info), (bytesOf "time", .time),
      (bytesOf "select", .select)]

/-- `findHandler`: the entry under the lower case of the command word. -/
def findHandler (cmd : Bytes) : Option Handler :=
  (cmdHdlrs.find? fun e => lowersTo cmd e.1).map Prod.snd

/-- The table has one entry for a name. -/
example : (cmdHdlrs.map Prod.fst).Nodup := by decide +kernel

/-! ## Splitting a request -/

/-- What the handlers read from their surroundings. -/
structure Surroundings where
  /-- the addresses of the healthy hosts, in their order -/
  hosts : List Bytes
  /-- the hot keys with their counters -/
  hotKeys : List (Nat × Bytes)
  unixTime : Int
  nanosecond : Int
  egid : Int

/-- No hosts, no hot keys and time zero. -/
def noSurroundings : Surroundings := ⟨[], [], 0, 0, 0⟩

/-- How a simple request is routed: by a key, or to a fixed host. -/
inductive Route where
  | key (key : Bytes)
  | host (addr : Bytes)

/-- How the responses of the simple requests make the response of the raw request. -/
inductive Join where
  /-- the response of the only one -/
  | single
  | mset
  | mget
  | sumResult
  deriving DecidableEq

/-- What `handleRequest` does with a request. -/
inductive Handling where
  /-- it is answered at once -/
  | respond (v : RespValue)
  /-- it is split into simple requests -/
  | split (join : Join) (children : List (Route × SimpleRequest))

def invalidRequest : RespValue := .error (bytesOf "invalid request")

def invalidCursor : RespValue := .error (bytesOf "invalid cursor")

def respOK : RespValue := .simpleString (bytesOf "OK")

def respPong : RespValue := .simpleString (bytesOf "PONG")

def respScanTerm : RespValue :=
  .array (some [.bulkString (some (bytesOf "0")), .array (some [])])

def RespValue.isBulkString : RespValue → Bool
  | .bulkString _ => true
  | _ => false

/-- `IsValid`: a non-empty array of bulk strings. -/
def isValid : RespValue → Bool
  | .array (some (v :: vs)) => (v :: vs).all RespValue.isBulkString
  | _ => false

/-- The text of the `i`-th word of a request. -/
def word (body : RespValue) (i : Nat) : Bytes := (body.elems.getD i (.array none)).text

/-- Forward a request as it is, by the key at the given place. -/
def forward (body : RespValue) (key : Nat) : Handling :=
  .split .single [(.key (word body key), ⟨body, [.bindRaw]⟩)]

/-- A child of a split request. -/
def child (cmd key : RespValue) (args : List RespValue) : Route × SimpleRequest :=
  (.key key.text, ⟨.array (some (cmd :: key :: args)), [.childDone]⟩)

/-- The children of `MSET`, for its key-value pairs. -/
def msetChildren : List RespValue → List (Route × SimpleRequest)
  | key :: value :: rest =>
    child (.bulkString (some (bytesOf "set"))) key [value] :: msetChildren rest
  | _ => []

/-- `parseCursor`: the node index in the highest 16 bits, and the cursor of the node. -/
def parseCursor (cursor : UInt64) : UInt16 × UInt64 :=
  ((cursor >>> 48).toUInt16, cursor &&& 0xffffffffffff)

/-- `genCursor`. -/
def genCursor (nodeIdx : UInt16) (nodeCursor : UInt64) : UInt64 :=
  (nodeIdx.toUInt64 <<< 48) ||| nodeCursor

/-- `strconv.FormatUint`. -/
def formatUint (n : UInt64) : Bytes := formatNat n.toNat

/-- The request `Convert` makes of a `SCAN`: with the cursor of the node. -/
def scanConvert (body : RespValue) (nodeIdx : UInt16) (nodeCursor : UInt64) : SimpleRequest :=
  ⟨.array (some (body.elems.modify 1 (·.setText (formatUint nodeCursor)))),
    [.bindRaw, .nextCursor nodeIdx]⟩

/-- `handleScan`; the number of hosts is cut to 16 bits as in the source. -/
def handleScan (s : Surroundings) (body : RespValue) : Handling :=
  if body.elems.length < 2 then .respond invalidRequest
  else
    match btoi64 (word body 1) with
    | .error _ => .respond invalidCursor
    | .ok cursor =>
      let (nodeIdx, nodeCursor) := parseCursor cursor.toUInt64
      if UInt16.ofNat s.hosts.length ≤ nodeIdx then .respond respScanTerm
      else
        .split .single
          [(.host (s.hosts.getD nodeIdx.toNat []), scanConvert body nodeIdx nodeCursor)]

/-- The summary `handleHotKey` gives. -/
def hotKeySummary (keys : List (Nat × Bytes)) : Bytes :=
  bytesOf "Collect " ++ formatNat keys.length ++ bytesOf " keys in this period!" ++
    keys.flatMap fun key =>
      bytesOf "\ncounter: " ++ formatNat key.1 ++ bytesOf "  keyname: " ++ key.2

/-- The handlers. -/
def Handler.handle (s : Surroundings) (body : RespValue) : Handler → Handling
  | .simpleCommand =>
    if body.elems.length < 2 then .respond invalidRequest else forward body 1
  | .sumResultCommand =>
    match body.elems with
    | cmd :: key :: keys =>
      .split .sumResult ((key :: keys).map fun key => child cmd key [])
    | _ => .respond invalidRequest
  | .eval => if body.elems.length < 4 then .respond invalidRequest else forward body 3
  | .mset =>
    if body.elems.length = 1 ∨ body.elems.length % 2 ≠ 1 then .respond invalidRequest
    else .split .mset (msetChildren body.elems.tail)
  | .mget =>
    match body.elems with
    | _ :: key :: keys =>
      .split .mget
        ((key :: keys).map fun key => child (.bulkString (some (bytesOf "get"))) key [])
    | _ => .respond invalidRequest
  | .scan => handleScan s body
  | .hotKey => .respond (.bulkString (some (hotKeySummary s.hotKeys)))
  | .ping => .respond respPong
  | .quit => .respond respOK
  | .info => .respond (.bulkString (some (bytesOf "pid: " ++ formatInt s.egid ++ bytesOf "\n")))
  | .time =>
    .respond (.array (some [.bulkString (some (formatInt s.unixTime)),
      .bulkString (some (formatInt (s.nanosecond / 1000)))]))
  | .select => .respond respOK

/-- `handleRequest`. -/
def handleRequest (s : Surroundings) (body : RespValue) : Handling :=
  if !isValid body then .respond invalidRequest
  else
    match findHandler (word body 0) with
    | none =>
      .respond (.error (bytesOf "ERR unsupported command '" ++ word body 0 ++ bytesOf "'"))
    | some hdlr => hdlr.handle s body

theorem msetChildren_hooks {vs : List RespValue} {c : Route × SimpleRequest}
    (hc : c ∈ msetChildren vs) : c.2.hooks = [.childDone] := by
  induction vs using msetChildren.induct with
  | case1 key value rest ih =>
    rcases List.mem_cons.mp hc with rfl | hc
    · rfl
    · exact ih hc
  | case2 vs hvs =>
    unfold msetChildren at hc
    split at hc
    · exact absurd rfl (hvs _ _ _)
    · cases hc

/-- What a handler makes of a request: an answer, one simple request that is bound to it, or
    children that are counted. -/
theorem Handler.handle_cases (s : Surroundings) (body : RespValue) (hdlr : Handler) :
    (∃ v, hdlr.handle s body = .respond v) ∨
    (∃ c, hdlr.handle s body = .split .single [c] ∧
      (c.2.hooks = [.bindRaw] ∨ ∃ nodeIdx, c.2.hooks = [.bindRaw, .nextCursor nodeIdx])) ∨
    (∃ join children, hdlr.handle s body = .split join children ∧ join ≠ .single ∧
      ∀ c ∈ children, c.2.hooks = [.childDone]) := by
  cases hdlr with
  | simpleCommand | eval =>
    rw [Handler.handle]
    split
    · exact .inl ⟨_, rfl⟩
    · exact .inr (.inl ⟨_, rfl, .inl rfl⟩)
  -- these split, with a child for each key
  | sumResultCommand | mget =>
    rw [Handler.handle]
    split
    · refine .inr (.inr ⟨_, _, rfl, by simp, fun c hc => ?_⟩)
      obtain ⟨key, -, rfl⟩ := List.mem_map.mp hc
      rfl
    · exact .inl ⟨_, rfl⟩
  | mset =>
    rw [Handler.handle]
    split
    · exact .inl ⟨_, rfl⟩
    · exact .inr (.inr ⟨_, _, rfl, by simp, fun c hc => msetChildren_hooks hc⟩)
  | scan =>
    rw [Handler.handle, handleScan]
    split
    · exact .inl ⟨_, rfl⟩
    · split
      · exact .inl ⟨_, rfl⟩
      · dsimp only
        split
        · exact .inl ⟨_, rfl⟩
        · exact .inr (.inl ⟨_, rfl, .inr ⟨_, rfl⟩⟩)
  | _ => exact .inl ⟨_, rfl⟩

/-- A request that is not answered is handled so by one of the handlers. -/
theorem exists_handle_of_split {s : Surroundings} {body : RespValue} {join : Join}
    {children : List (Route × SimpleRequest)} (h : handleRequest s body = .split join children) :
    ∃ hdlr : Handler, hdlr.handle s body = .split join children := by
  rw [handleRequest] at h
  split at h
  · cases h
  · split at h
    · cases h
    · exact ⟨_, h⟩

/-! ## Responses -/

/-- How a simple request is answered behind the filters. -/
inductive Answer where
  /-- there is no host to send it to -/
  | noHost
  /-- the upstream has quit -/
  | upstreamExited
  /-- no connection to the host could be made -/
  | dialErr (text : Bytes)
  /-- the client has quit -/
  | backendExited
  /-- the connection failed while the request was written -/
  | writeErr (e : IoErr)
  /-- the backend has replied -/
  | reply (v : RespValue)

/-- The text of an error of the connection. -/
def IoErr.text : IoErr → Bytes
  | .eof => bytesOf "EOF"
  | .noProgress => bytesOf "multiple Read calls return no data or error"
  | .net msg => msg

/-- The value given to `SetResponse`. -/
def Answer.value : Answer → RespValue
  | .noHost => .error (bytesOf "no available host")
  | .upstreamExited => .error (bytesOf "upstream exited")
  | .dialErr text => .error text
  | .backendExited => .error (bytesOf "backend exited")
  | .writeErr e => .error e.text
  | .reply v => v

/-- What happens to a simple request behind `MakeRequest`: the compression options found by the
    filters of the clients it is sent through, and its answer. -/
structure Life where
  filters : List (Option Compression)
  answer : Answer

/-- The cursor hook of a `SCAN`; `none` is the index out of range for an empty array. -/
def nextCursorHook (nodeIdx : UInt16) : RespValue → Option RespValue
  | .array (some (v :: vs)) =>
    match btoi64 v.text with
    | .error _ => some (.array (some (v :: vs)))
    | .ok next =>
      let idx := if next = 0 then nodeIdx + 1 else nodeIdx
      some (.array (some (v.setText (formatUint (genCursor idx next.toUInt64)) :: vs)))
  | .array _ => none
  | v => some v

/-- The effect of a hook on the response. -/
def Hook.run (z : Snappy) : Hook → RespValue → Option RespValue
  | .bindRaw, v => some v
  | .childDone, v => some v
  | .nextCursor nodeIdx, v => nextCursorHook nodeIdx v
  | .decompress, v => some (Redis.decompress z v)

/-- `SetResponse`: the response after the hooks, which run last to first. -/
def SimpleRequest.setResponse (z : Snappy) (req : SimpleRequest) (v : RespValue) :
    Option RespValue :=
  req.hooks.foldr (fun hook resp => resp.bind (hook.run z)) (some v)

/-- The response of a simple request. -/
def SimpleRequest.response (z : Snappy) (req : SimpleRequest) (life : Life) : Option RespValue :=
  match passFilters z life.filters req with
  | .passed req' => req'.setResponse z life.answer.value
  | .stopped req' v => req'.setResponse z v

/-- The loop of `sumResultRequest.setResponse`: the sum, in `int64` arithmetic, and the number
    of responses that are no integers. -/
def sumResults : List RespValue → Int64 × Nat
  | [] => (0, 0)
  | .integer i :: vs => ((sumResults vs).1 + i, (sumResults vs).2)
  | _ :: vs => ((sumResults vs).1, (sumResults vs).2 + 1)

/-- The response of the raw request, from those of its simple requests. -/
def Join.response : Join → List RespValue → RespValue
  | .single, vs => vs.headD (.array none)
  | .mset, _ => respOK
  | .mget, vs => .array (some vs)
  | .sumResult, vs =>
    if (sumResults vs).2 = 0 then .integer (sumResults vs).1
    else .error (bytesOf "finished with " ++ formatNat (sumResults vs).2 ++ bytesOf " error(s)")

/-- The responses of the simple requests, from the `i`-th one on. -/
def responses (z : Snappy) (lives : Nat → Life) (i : Nat) :
    List (Route × SimpleRequest) → Option (List RespValue)
  | [] => some []
  | c :: cs => do
    let v ← c.2.response z (lives i)
    let vs ← responses z lives (i + 1) cs
    return v :: vs

/-- The response of a raw request, given the life of each of its simple requests. It is `none`
    when a hook panics. -/
def response (z : Snappy) (s : Surroundings) (body : RespValue) (lives : Nat → Life) :
    Option RespValue :=
  match handleRequest s body with
  | .respond v => some v
  | .split join children => (responses z lives 0 children).map join.response

end Samaritan.Redis
