import Samaritan.Lib.CaseFold
import Samaritan.Redis.Codec

/-!
# Simple Requests and the Compression Filter

A simple request is what the proxy sends to a backend: a body, and hooks that run when its
response is set, the last one registered first (`proc/redis/request.go`). On its way through a
client it passes the filters (`proc/redis/filter.go`, `filter_compress.go`). The hot-key filter
only counts; the compression filter may answer the request itself, shorten its values, and
register a hook that decompresses the response.

The compression algorithm is a parameter.
-/

namespace Samaritan.Redis

open Samaritan.Lib

/-! ## Requests and hooks -/

/-- The hooks of a simple request, apart from those that only count. -/
inductive Hook where
  /-- give the response to the raw request -/
  | bindRaw
  /-- count the children of a split request that are done -/
  | childDone
  /-- put the index of the node into the cursor of a `SCAN` response -/
  | nextCursor (nodeIdx : UInt16)
  /-- the hook of the compression filter -/
  | decompress
  deriving DecidableEq

structure SimpleRequest where
  body : RespValue
  hooks : List Hook

def SimpleRequest.registerHook (req : SimpleRequest) (hook : Hook) : SimpleRequest :=
  { req with hooks := req.hooks ++ [hook] }

/-- The command word of a request, as it was sent. -/
def SimpleRequest.cmd (req : SimpleRequest) : Bytes := (req.body.elems.headD (.array none)).text

/-- Replace the `Text` of a value. -/
def RespValue.setText (v : RespValue) (t : Bytes) : RespValue :=
  match v with
  | .simpleString _ => .simpleString t
  | .error _ => .error t
  | .bulkString _ => .bulkString (some t)
  | .integer i => .integer i
  | .array vs => .array vs

/-! ## Compression -/

/-- The compression option of a service; algorithm 0 is `SNAPPY`. -/
structure Compression where
  enable : Bool
  algorithm : Nat
  threshold : UInt32

/-- The `SNAPPY` codec: what its writer puts out and what its reader delivers, `none` for an
    error. -/
structure Snappy where
  compress : Bytes → Option Bytes
  decompress : Bytes → Option Bytes

def cpsMagicNumber : Bytes := bytesOf "(P$"

def cpsHdrLen : Nat := cpsMagicNumber.length + 3

/-- The header in front of compressed data. -/
def cpsHdr (algorithm : Nat) : Bytes := cpsMagicNumber ++ [UInt8.ofNat algorithm] ++ CRLF

/-- The commands which are disabled in compress mode. -/
def bannedCmdsInCps : List Bytes :=
  ["append", "eval", "setbit", "getbit", "setrange", "getrange"].map bytesOf

/-- Well known commands which could skip the decompress check. -/
def wkSkipCheckCmdsInDecps : List Bytes :=
  ["incr", "decr", "incrby", "decrby",
    "hkeys", "hincrby", "hincrbyfloat",
    "lpop", "lpush", "rpop", "rpush", "lrange", "lindex",
    "spop", "sunion", "smembers",
    "zadd", "zrange", "zcard", "zrangebyscore",
    "cluster", "ping"].map bytesOf

/-- `compress` of a text: the text itself unless the result with its header is shorter. -/
def compressText (z : Snappy) (src : Bytes) (algorithm : Nat) : Bytes :=
  if algorithm ≠ 0 then src
  else
    match z.compress src with
    | none => src
    | some out =>
      if src.length ≤ (cpsHdr algorithm ++ out).length then src else cpsHdr algorithm ++ out

/-- One step of the loop of `Compress`; a nil text stays nil. -/
def compressArg (z : Snappy) (cfg : Compression) (v : RespValue) : RespValue :=
  match v with
  | .bulkString none => .bulkString none
  | v =>
    if UInt32.ofNat v.text.length < cfg.threshold then v
    else v.setText (compressText z v.text cfg.algorithm)

/-- The loop of `Compress`: every second argument. -/
def compressArgs (z : Snappy) (cfg : Compression) : List RespValue → List RespValue
  | [] => []
  | [v] => [compressArg z cfg v]
  | v :: w :: vs => compressArg z cfg v :: w :: compressArgs z cfg vs

/-- The offset of the first value among the arguments. -/
def compressOffset (cmd : Bytes) : Option Nat :=
  if ["set", "getset", "setnx"].any fun c => lowersTo cmd (bytesOf c) then some 2
  else if ["hset", "hmset", "hsetnx", "psetex", "setex"].any fun c => lowersTo cmd (bytesOf c) then
    some 3
  else none

/-- `Compress`. -/
def compress (z : Snappy) (cfg : Compression) (cmd : Bytes) (body : RespValue) : RespValue :=
  match compressOffset cmd, body with
  | some offset, .array (some vs) =>
    .array (some (vs.take offset ++ compressArgs z cfg (vs.drop offset)))
  | _, body => body

/-- `decompress` of a text; the CR LF of the header is not looked at. -/
def decompressText (z : Snappy) (src : Bytes) : Option Bytes :=
  if src.length < cpsHdrLen then none
  else if src.take cpsMagicNumber.length ≠ cpsMagicNumber then none
  else if src[cpsMagicNumber.length]? ≠ some 0 then none
  else z.decompress (src.drop cpsHdrLen)

/-- The text as it is after decompression, which leaves it alone when it fails. -/
def decompressed (z : Snappy) (t : Bytes) : Bytes := (decompressText z t).getD t

mutual

/-- `Decompress`. -/
def decompress (z : Snappy) : RespValue → RespValue
  | .integer i => .integer i
  | .error t => .error t
  | .array none => .array none
  | .array (some vs) => .array (some (decompressList z vs))
  | .simpleString t => .simpleString (decompressed z t)
  | .bulkString none => .bulkString none
  | .bulkString (some t) => .bulkString (some (decompressed z t))

/-- The loop of `Decompress` over an array. -/
def decompressList (z : Snappy) : List RespValue → List RespValue
  | [] => []
  | v :: vs => decompress z v :: decompressList z vs

end

/-! ## The filter -/

/-- The outcome of the filters for a request. -/
inductive FilterStatus where
  /-- `Continue` -/
  | passed (req : SimpleRequest)
  /-- `Stop`: the filter gives the request this response -/
  | stopped (req : SimpleRequest) (resp : RespValue)

/-- Register the decompression hook if the command needs it. -/
def SimpleRequest.withDecompress (req : SimpleRequest) : SimpleRequest :=
  if wkSkipCheckCmdsInDecps.any (lowersTo req.cmd) then req else req.registerHook .decompress

/-- `compressFilter.Do`, with the compression option in force at that moment. -/
def compressFilterDo (z : Snappy) (cfg : Option Compression) (req : SimpleRequest) :
    FilterStatus :=
  match cfg with
  | none => .passed req
  | some cfg =>
    if !cfg.enable then .passed req.withDecompress
    else
      match bannedCmdsInCps.find? (lowersTo req.cmd) with
      | some cmd =>
        .stopped req.withDecompress
          (.error (bytesOf "ERR command '" ++ cmd ++ bytesOf "' is disabled in compress mode"))
      | none => .passed { req.withDecompress with body := compress z cfg req.cmd req.body }

/-- The filters of one client after the other, each with the compression option it finds. -/
def passFilters (z : Snappy) : List (Option Compression) → SimpleRequest → FilterStatus
  | [], req => .passed req
  | cfg :: cfgs, req =>
    match compressFilterDo z cfg req with
    | .passed req' => passFilters z cfgs req'
    | .stopped req' resp => .stopped req' resp

end Samaritan.Redis
