import Samaritan.Redis.Resp
import Samaritan.Redis.Bufio

/-!
# The RESP Codec

Decoder and encoder of `proc/redis/codec.go`.

- **Integers**: `btoi64` with its allocation-free path for short texts, and `itoa` with
  the offset table and the shared text that `init` builds.
- **Decoder**: typed values, inline commands and arrays over the buffered reader. The
  source recurses without a bound; here the recursion has a budget, and a decoder gives
  itself one more than the number of bytes it has not read yet.
- **Encoder**: the calls made on the buffered writer, one by one.
-/

namespace Samaritan.Redis

open Samaritan.Lib

/-! ## Integers -/

/-- The digit loop of the short path of `btoi64`, in `int64` arithmetic. -/
def btoi64Loop : Int64 → Bytes → Option Int64
  | n, [] => some n
  | n, c :: cs =>
    if isDigit c then btoi64Loop (Int64.ofNat (digitVal c) + n * 10) cs else none

/-- The short path of `btoi64`: at most nine bytes, an optional sign, digits only. -/
def btoi64Fast (b : Bytes) : Option Int64 :=
  match b with
  | [] => none
  | c :: cs =>
    if 10 ≤ (c :: cs).length then none
    -- a sign alone is no number
    else if c = 45 then if cs = [] then none else (btoi64Loop 0 cs).map (- ·)
    else if c = 43 then if cs = [] then none else btoi64Loop 0 cs
    else btoi64Loop 0 (c :: cs)

/-- `btoi64`: parse bytes to an `int64`. -/
def btoi64 (b : Bytes) : Except NumError Int64 :=
  match btoi64Fast b with
  | some n => .ok n
  | none => parseInt b

def minItoa : Int := -128

def maxItoa : Int := 32768

/-- The buffer of `init` when its loop reaches index `n`: the texts of the numbers before. -/
def itoaText (n : Nat) : Bytes := (List.range n).flatMap fun (i : Nat) => formatInt (i + minItoa)

/-- The table entry `init` writes at index `i`: the length of the buffer so far. -/
def itoaOffset (i : Nat) : UInt32 := UInt32.ofNat (itoaText i).length

/-- All texts from `minItoa` to `maxItoa`, one after the other. -/
def itoaBuffer : Bytes := itoaText (maxItoa - minItoa + 1).toNat

/-- `itoa`: the text of a number, cut out of the shared buffer when it is in the table. -/
def itoa (i : Int64) : Bytes :=
  if minItoa ≤ i.toInt ∧ i.toInt ≤ maxItoa then
    if i.toInt = maxItoa then
      -- the table has no offset behind the last text
      itoaBuffer.drop (itoaOffset (i.toInt - minItoa).toNat).toNat
    else
      (itoaBuffer.take (itoaOffset ((i.toInt - minItoa).toNat + 1)).toNat).drop
        (itoaOffset (i.toInt - minItoa).toNat).toNat
  else formatInt i.toInt

/-! ## Decoder -/

def maxArrayLen : Nat := 1024 * 1024

def maxBulkStringLen : Nat := 1024 * 1024 * 512

/-- A line without its CR LF end. -/
def chopCRLF (b : Bytes) : Except Err Bytes :=
  if b.length < 2 then .error .badCRLFEnd
  else if b[b.length - 2]? = some CR then .ok (b.take (b.length - 2))
  else .error .badCRLFEnd

abbrev DecodeM := EStateM Err Reader

/-- Lift a pure result. -/
def liftExcept {α : Type} : Except Err α → DecodeM α
  | .ok a => pure a
  | .error e => throw e

/-- The line up to the next LF, which has to fit into the buffer. -/
def readLine : DecodeM Bytes := fun b =>
  match b.readSlice LF with
  | (line, none, b') => .ok line b'
  | (_, some e, b') => .error e b'

/-- `decodeInt`. -/
def decodeInt : DecodeM Int64 := do
  let line ← readLine
  let text ← liftExcept (chopCRLF line)
  liftExcept ((btoi64 text).mapError .num)

/-- `decodeTextBytes`. -/
def decodeTextBytes : DecodeM Bytes := do
  let line ← Reader.readBytes LF []
  liftExcept (chopCRLF line)

/-- `decodeBulkString`. -/
def decodeBulkString : DecodeM (Option Bytes) := do
  let n ← decodeInt
  if n.toInt < -1 then throw .badBulkStringLen
  else if maxBulkStringLen < n.toInt then throw .badBulkStringLenTooLong
  else if n.toInt = -1 then return none
  else
    -- the content and its CR LF in one read; LF bytes in the content do not end it
    let b ← Reader.readFull (n.toInt.toNat + 2)
    if b[n.toInt.toNat]? = some CR ∧ b[n.toInt.toNat + 1]? = some LF then
      return some (b.take n.toInt.toNat)
    else throw .badCRLFEnd

/-- The words of an inline command; `cur` is the word the loop is in. -/
def inlineWords (cur : Bytes) : Bytes → List Bytes
  | [] => if cur = [] then [] else [cur]
  | c :: cs =>
    if c ≠ 32 then inlineWords (cur ++ [c]) cs
    else (if cur = [] then [] else [cur]) ++ inlineWords [] cs

/-- `decodeInline`. -/
def decodeInline : DecodeM RespValue := do
  let b ← decodeTextBytes
  let multi := (inlineWords [] b).map fun w => RespValue.bulkString (some w)
  if multi = [] then throw .badMultiBulkLen
  else return .array (some multi)

/-- The loop of `decodeArray`: `n` values decoded by `dec`. -/
def decodeElems (dec : DecodeM RespValue) : Nat → DecodeM (List RespValue)
  | 0 => pure []
  | n + 1 => do
    let v ← dec
    let vs ← decodeElems dec n
    return v :: vs

/-- `decodeArray`, with `dec` to decode an element. -/
def decodeArray (dec : DecodeM RespValue) : DecodeM (Option (List RespValue)) := do
  let n ← decodeInt
  if n.toInt < -1 then throw .badArrayLen
  else if maxArrayLen < n.toInt then throw .badArrayLenTooLong
  else if n.toInt = -1 then return none
  else
    let vs ← decodeElems dec n.toInt.toNat
    return some vs

/-- `decodeResp`, with `dec` to decode the elements of an array. -/
def decodeResp (dec : DecodeM RespValue) : RespType → DecodeM RespValue
  | .integer => .integer <$> decodeInt
  | .simpleString => .simpleString <$> decodeTextBytes
  | .error => .error <$> decodeTextBytes
  | .bulkString => .bulkString <$> decodeBulkString
  | .array => .array <$> decodeArray dec

/-- `decode`: a typed value, or an inline command when the next byte is no type byte.
    The argument bounds the nesting of the recursion. -/
def decode : Nat → DecodeM RespValue
  | 0 => throw .tooDeep
  | depth + 1 => do
    let c ← Reader.peekByte
    match RespType.ofByte c with
    | some typ =>
      let _ ← Reader.readByte
      decodeResp (decode depth) typ
    | none => decodeInline

/-! ## The budget

The recursion of the source has no bound. A level of it consumes at least a type byte, so a budget
larger than the input is never used up, whatever the connection returns. -/

section Budget

open Reader (LeavesBelow)

/-- On less than `n` bytes of input a computation leaves less than `n`, and it does not end for lack
    of budget. -/
def Within {α : Type} (n : Nat) (m : DecodeM α) : Prop :=
  ∀ b : Reader, b.unread.length < n → LeavesBelow n (m b)

variable {α β : Type} {n : Nat}

theorem within_pure (a : α) : Within n (pure a : DecodeM α) := fun _ hb => hb

theorem within_throw {e : Err} (he : e ≠ .tooDeep) : Within n (throw e : DecodeM α) :=
  fun _ _ => he

theorem within_of_bounded {m : DecodeM α} (hm : ∀ b, LeavesBelow (b.unread.length + 1) (m b)) :
    Within n m :=
  fun b hb => (hm b).mono hb

theorem Within.bind {m : DecodeM α} {f : α → DecodeM β} (hm : Within n m)
    (hf : ∀ a, Within n (f a)) : Within n (m >>= f) := by
  intro b hb
  have hmb := hm b hb
  simp only [Bind.bind, EStateM.bind]
  cases h : m b with
  | ok a b' =>
    rw [h] at hmb
    exact hf a b' hmb
  | error e b' =>
    rw [h] at hmb
    exact hmb

theorem Within.map {m : DecodeM α} (hm : Within n m) (f : α → β) : Within n (f <$> m) := by
  intro b hb
  have hmb := hm b hb
  simp only [Functor.map, EStateM.map]
  cases h : m b <;> rw [h] at hmb <;> exact hmb

theorem within_readLine : Within n readLine := by
  intro b hb
  obtain ⟨hle, hdeep⟩ := b.readSlice_bounded LF
  rw [readLine]
  split
  · rename_i h
    rw [h] at hle
    exact lt_of_le_of_lt hle hb
  · rename_i h
    rw [h] at hdeep
    exact fun he => hdeep (congrArg some he)

theorem within_chopCRLF (b : Bytes) : Within n (liftExcept (chopCRLF b)) := by
  rw [chopCRLF]
  split
  · exact within_throw (by simp)
  · split
    · exact within_pure _
    · exact within_throw (by simp)

theorem within_decodeInt : Within n decodeInt := by
  refine within_readLine.bind fun line => (within_chopCRLF line).bind fun text => ?_
  cases btoi64 text with
  | ok i => exact within_pure i
  | error e => exact within_throw (by simp)

theorem within_decodeTextBytes : Within n decodeTextBytes :=
  (within_of_bounded (Reader.readBytes_bounded LF [])).bind within_chopCRLF

theorem within_decodeBulkString : Within n decodeBulkString := by
  refine within_decodeInt.bind fun len => ?_
  split
  · exact within_throw (by simp)
  split
  · exact within_throw (by simp)
  split
  · exact within_pure none
  refine (within_of_bounded (Reader.readFull_bounded _)).bind fun b => ?_
  split
  · exact within_pure _
  · exact within_throw (by simp)

theorem within_decodeInline : Within n decodeInline := by
  refine within_decodeTextBytes.bind fun b => ?_
  dsimp only
  split
  · exact within_throw (by simp)
  · exact within_pure _

theorem within_decodeElems {dec : DecodeM RespValue} (hdec : Within n dec) (k : Nat) :
    Within n (decodeElems dec k) := by
  induction k with
  | zero => exact within_pure []
  | succ k ih => exact hdec.bind fun v => ih.bind fun vs => within_pure (v :: vs)

theorem within_decodeArray {dec : DecodeM RespValue} (hdec : Within n dec) :
    Within n (decodeArray dec) := by
  refine within_decodeInt.bind fun len => ?_
  split
  · exact within_throw (by simp)
  split
  · exact within_throw (by simp)
  split
  · exact within_pure none
  · exact (within_decodeElems hdec _).bind fun vs => within_pure (some vs)

theorem within_decodeResp {dec : DecodeM RespValue} (hdec : Within n dec) (t : RespType) :
    Within n (decodeResp dec t) := by
  cases t with
  | integer => exact within_decodeInt.map _
  | simpleString | error => exact within_decodeTextBytes.map _
  | bulkString => exact within_decodeBulkString.map _
  | array => exact (within_decodeArray hdec).map _

/-- **Budget**: one that is larger than the input is never used up. -/
theorem within_decode (n : Nat) : Within n (decode n) := by
  -- induction on the budget: the type byte of each level is gone one level down
  induction n with
  | zero => exact fun b hb => absurd hb (Nat.not_lt_zero _)
  | succ n ih =>
    refine (within_of_bounded Reader.peekByte_bounded).bind fun c => ?_
    cases RespType.ofByte c with
    | none => exact within_decodeInline
    | some typ =>
      intro b hb
      have hread := b.readByte_bounded
      simp only [bind, EStateM.bind]
      cases h : b.readByte with
      | error e b' =>
        rw [h] at hread
        exact hread
      | ok c' b' =>
        rw [h] at hread
        have hb' : b'.unread.length < n := lt_of_lt_of_le hread (Nat.le_of_lt_succ hb)
        exact (within_decodeResp ih typ b' hb').mono (Nat.le_succ n)

end Budget

/-- A decoder keeps its first error. -/
structure Decoder where
  br : Reader
  err : Option Err

/-- `newDecoder`. -/
def newDecoder (r : Source IoErr) (bufSize : Nat) : Decoder where
  br := Reader.newReaderSize r bufSize
  err := none

/-- `Decode`. -/
def Decoder.decode (d : Decoder) : Except Err RespValue × Decoder :=
  match d.err with
  | some e => (.error e, d)
  | none =>
    match Redis.decode (d.br.unread.length + 1) d.br with
    | .ok v b => (.ok v, { d with br := b })
    | .error e b => (.error e, ⟨b, some e⟩)

/-- The error that ends a decoder is one of the source, not the end of the budget. -/
theorem Decoder.decode_ne_tooDeep {d d' : Decoder} {e : Err} (hd : d.err ≠ some .tooDeep)
    (h : d.decode = (.error e, d')) : e ≠ .tooDeep ∧ d'.err ≠ some .tooDeep := by
  rw [Decoder.decode] at h
  split at h
  · rename_i e' herr
    cases h
    exact ⟨fun he => hd (he ▸ herr), hd⟩
  · have hwithin := within_decode (d.br.unread.length + 1) d.br (Nat.lt_succ_self _)
    split at h
    · cases h
    · rename_i e' b hdec
      cases h
      rw [hdec] at hwithin
      exact ⟨hwithin, fun he => hwithin (Option.some.inj he)⟩

/-- `n` calls of `Decode`, stopping at the first error. -/
def Decoder.decodeMany : Nat → Decoder → Except Err (List RespValue) × Decoder
  | 0, d => (.ok [], d)
  | n + 1, d =>
    match d.decode with
    | (.error e, d') => (.error e, d')
    | (.ok v, d') =>
      match Decoder.decodeMany n d' with
      | (.ok vs, d'') => (.ok (v :: vs), d'')
      | (.error e, d'') => (.error e, d'')

/-! ## Encoder -/

/-- One call of the encoder on its buffered writer. -/
inductive Piece where
  | byte (c : UInt8)
  | bytes (b : Bytes)
  | str (b : Bytes)

/-- The bytes of a call. -/
def Piece.data : Piece → Bytes
  | byte c => [c]
  | bytes b => b
  | str b => b

/-- `encodeInt`. -/
def encodeInt (i : Int64) : List Piece := [.str (itoa i), .bytes CRLF]

/-- `encodeTextBytes`. -/
def encodeTextBytes (b : Bytes) : List Piece := [.bytes b, .bytes CRLF]

/-- `encodeBulkBytes`. -/
def encodeBulkBytes : Option Bytes → List Piece
  | none => encodeInt (-1)
  | some b => encodeInt (Int64.ofNat b.length) ++ encodeTextBytes b

mutual

/-- `encode`: the calls on the writer, in order. -/
def encodePieces : RespValue → List Piece
  | .integer i => .byte RespType.integer.byte :: encodeInt i
  | .error t => .byte RespType.error.byte :: encodeTextBytes t
  | .simpleString t => .byte RespType.simpleString.byte :: encodeTextBytes t
  | .bulkString t => .byte RespType.bulkString.byte :: encodeBulkBytes t
  | .array none => .byte RespType.array.byte :: encodeInt (-1)
  | .array (some vs) =>
    .byte RespType.array.byte :: (encodeInt (Int64.ofNat vs.length) ++ encodeElems vs)

/-- The loop of `encodeArray`. -/
def encodeElems : List RespValue → List Piece
  | [] => []
  | v :: vs => encodePieces v ++ encodeElems vs

end

/-- The encoding of a value. -/
def encode (v : RespValue) : Bytes := (encodePieces v).flatMap Piece.data

/-- Make one call on the writer. -/
def Piece.put (w : BufWriter IoErr) : Piece → BufWriter IoErr
  | byte c => w.writeByte c
  | bytes b => w.write b
  | str b => w.writeString b

/-- Make calls on the writer until one fails. -/
def putAll (w : BufWriter IoErr) : List Piece → BufWriter IoErr
  | [] => w
  | p :: ps => if (p.put w).err.isSome then p.put w else putAll (p.put w) ps

/-- An encoder keeps its first error. -/
structure Encoder where
  bw : BufWriter IoErr
  err : Option IoErr

/-- `newEncoder` on a connection. -/
def newEncoder (w : Sink IoErr) (bufSize : Nat) (h : 0 < bufSize) : Encoder where
  bw := { size := bufSize, buf := [], wr := w, err := none, size_pos := h, buf_le := by simp }
  err := none

/-- `Encode`; the outcome is `err`. -/
def Encoder.encode (e : Encoder) (v : RespValue) : Encoder :=
  if e.err.isSome then e
  else ⟨putAll e.bw (encodePieces v), (putAll e.bw (encodePieces v)).err⟩

/-- `Flush`; the outcome is `err`. -/
def Encoder.flush (e : Encoder) : Encoder :=
  if e.err.isSome then e else ⟨e.bw.flush, e.bw.flush.err⟩

/-- The encoder on a connection that will fail after `k` more bytes. -/
def Encoder.limit (e : Encoder) (k : Nat) (err : IoErr) : Encoder :=
  { e with bw := { e.bw with wr := { e.bw.wr with limit := some (k, err) } } }

end Samaritan.Redis
