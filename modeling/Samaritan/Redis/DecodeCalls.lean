import Samaritan.Redis.Codec
import Samaritan.Redis.StreamReader

/-!
# The Decoder as a Program over the Reader

The decoder uses its reader only through five operations. Written as a program over them it runs
with the reader, which gives the decoder of `Redis/Codec`, and it runs on a stream, without a buffer
and without pieces. The second run tells what the first one returns on every connection that returns
its bytes in non-empty pieces: the results depend on the bytes, on the error behind them and on the
size of the buffer, and not on the pieces.
-/

namespace Samaritan.Redis

open Samaritan.Lib Program

/-! ## Operations -/

/-- The operations of the reader that the decoder calls. -/
inductive ReaderOp : Type → Type where
  | peekByte : ReaderOp UInt8
  | readByte : ReaderOp UInt8
  /-- `ReadSlice` up to an LF -/
  | readLine : ReaderOp Bytes
  /-- `ReadBytes` up to an LF -/
  | readBytes : ReaderOp Bytes
  /-- `ReadFull`, which the decoder never asks for nothing -/
  | readFull (n : Nat) (hn : 0 < n) : ReaderOp Bytes

namespace ReaderOp

/-- The operations as the reader has them. -/
def onReader {β : Type} : ReaderOp β → DecodeM β
  | peekByte => Reader.peekByte
  | readByte => Reader.readByte
  | readLine => Redis.readLine
  | readBytes => Reader.readBytes LF []
  | readFull n _ => Reader.readFull n

/-- The operations on a stream that ends in an error. -/
def onStream (size : Nat) (final : IoErr) {β : Type} : ReaderOp β → EStateM Err Bytes β
  | peekByte => ByteStream.peekByte final
  | readByte => ByteStream.readByte final
  | readLine => ByteStream.readLine size final
  | readBytes => ByteStream.readBytes final
  | readFull n _ => ByteStream.readFull final n

open Reader (Streams)

/-- **The operations refine those on the stream.** -/
theorem agree_onReader {size : Nat} {final : IoErr} {b : Reader} {input : Bytes} {β : Type}
    (op : ReaderOp β) (h : Streams size final b input) :
    Agree (Streams size final) (op.onReader b) (op.onStream size final input) := by
  cases op with
  | peekByte => exact h.peekByte
  | readByte => exact h.readByte
  | readLine =>
    have hslice := h.readSlice LF
    show Agree _ (Redis.readLine b) (ByteStream.readLine size final input)
    unfold Redis.readLine ByteStream.readLine
    generalize b.readSlice LF = r at hslice
    -- a line is found, the buffer is full, or the input ends
    cases hslice with
    | line hmem hb =>
      rw [if_pos hmem]
      exact .ok hb
    | full hmem hlen hb =>
      rw [if_neg hmem, if_pos hlen]
      exact .error
    | ended hmem hlen =>
      rw [if_neg (fun hin => hmem (List.mem_of_mem_take hin)), if_neg hlen.not_ge]
      exact .error
  | readBytes =>
    show Agree _ (Reader.readBytes LF [] b) (ByteStream.readBytes final input)
    unfold ByteStream.readBytes
    rcases h.readBytes [] with ⟨hmem, b', hread, hb'⟩ | ⟨hmem, b', hread⟩
    · rw [hread, if_pos hmem]
      exact .ok hb'
    · rw [hread, if_neg hmem]
      exact .error
  | readFull n hn => exact h.readFull hn

end ReaderOp

/-! ## The decoder -/

/-- `decodeInt`, call by call. -/
def decodeIntCalls : Program ReaderOp Err Int64 := do
  let line ← perform .readLine
  let text ← fromExcept (chopCRLF line)
  fromExcept ((btoi64 text).mapError .num)

/-- `decodeTextBytes`, call by call. -/
def decodeTextCalls : Program ReaderOp Err Bytes := do
  let line ← perform .readBytes
  fromExcept (chopCRLF line)

/-- `decodeBulkString`, call by call. -/
def decodeBulkCalls : Program ReaderOp Err (Option Bytes) := do
  let n ← decodeIntCalls
  if n.toInt < -1 then fail .badBulkStringLen
  else if maxBulkStringLen < n.toInt then fail .badBulkStringLenTooLong
  else if n.toInt = -1 then return none
  else
    let b ← perform (.readFull (n.toInt.toNat + 2) (Nat.succ_pos _))
    if b[n.toInt.toNat]? = some CR ∧ b[n.toInt.toNat + 1]? = some LF then
      return some (b.take n.toInt.toNat)
    else fail .badCRLFEnd

/-- `decodeInline`, call by call. -/
def decodeInlineCalls : Program ReaderOp Err RespValue := do
  let b ← decodeTextCalls
  let multi := (inlineWords [] b).map fun w => RespValue.bulkString (some w)
  if multi = [] then fail .badMultiBulkLen
  else return .array (some multi)

/-- The loop of `decodeArray`, call by call. -/
def decodeElemsCalls (dec : Program ReaderOp Err RespValue) :
    Nat → Program ReaderOp Err (List RespValue)
  | 0 => pure []
  | n + 1 => do
    let v ← dec
    let vs ← decodeElemsCalls dec n
    return v :: vs

/-- `decodeArray`, call by call. -/
def decodeArrayCalls (dec : Program ReaderOp Err RespValue) :
    Program ReaderOp Err (Option (List RespValue)) := do
  let n ← decodeIntCalls
  if n.toInt < -1 then fail .badArrayLen
  else if maxArrayLen < n.toInt then fail .badArrayLenTooLong
  else if n.toInt = -1 then return none
  else
    let vs ← decodeElemsCalls dec n.toInt.toNat
    return some vs

/-- `decodeResp`, call by call. -/
def decodeRespCalls (dec : Program ReaderOp Err RespValue) :
    RespType → Program ReaderOp Err RespValue
  | .integer => .integer <$> decodeIntCalls
  | .simpleString => .simpleString <$> decodeTextCalls
  | .error => .error <$> decodeTextCalls
  | .bulkString => .bulkString <$> decodeBulkCalls
  | .array => .array <$> decodeArrayCalls dec

/-- `decode`, call by call. -/
def decodeCalls : Nat → Program ReaderOp Err RespValue
  | 0 => fail .tooDeep
  | depth + 1 => do
    let c ← perform .peekByte
    match RespType.ofByte c with
    | some typ =>
      let _ ← perform .readByte
      decodeRespCalls (decodeCalls depth) typ
    | none => decodeInlineCalls

section Run

theorem run_fromExcept {α : Type} (x : Except Err α) :
    (fromExcept x).run ReaderOp.onReader = liftExcept x := by
  cases x <;> rfl

theorem run_decodeIntCalls : decodeIntCalls.run ReaderOp.onReader = decodeInt := by
  simp only [decodeIntCalls, run_bind, run_perform, run_fromExcept]
  rfl

theorem run_decodeTextCalls : decodeTextCalls.run ReaderOp.onReader = decodeTextBytes := by
  simp only [decodeTextCalls, run_bind, run_perform, run_fromExcept]
  rfl

theorem run_decodeBulkCalls : decodeBulkCalls.run ReaderOp.onReader = decodeBulkString := by
  simp only [decodeBulkCalls, decodeBulkString, run_bind, run_decodeIntCalls, apply_ite (run _),
    run_fail, run_pure, run_perform]
  rfl

theorem run_decodeInlineCalls : decodeInlineCalls.run ReaderOp.onReader = decodeInline := by
  simp only [decodeInlineCalls, decodeInline, run_bind, run_decodeTextCalls, apply_ite (run _),
    run_fail, run_pure]

variable {prog : Program ReaderOp Err RespValue} {dec : DecodeM RespValue}

theorem run_decodeElemsCalls (h : prog.run ReaderOp.onReader = dec) (n : Nat) :
    (decodeElemsCalls prog n).run ReaderOp.onReader = decodeElems dec n := by
  induction n with
  | zero => rfl
  | succ n ih => simp only [decodeElemsCalls, decodeElems, run_bind, run_pure, h, ih]

theorem run_decodeArrayCalls (h : prog.run ReaderOp.onReader = dec) :
    (decodeArrayCalls prog).run ReaderOp.onReader = decodeArray dec := by
  simp only [decodeArrayCalls, decodeArray, run_bind, run_decodeIntCalls, apply_ite (run _),
    run_fail, run_pure, run_decodeElemsCalls h]

theorem run_decodeRespCalls (h : prog.run ReaderOp.onReader = dec) (typ : RespType) :
    (decodeRespCalls prog typ).run ReaderOp.onReader = decodeResp dec typ := by
  cases typ with
  | integer => simp only [decodeRespCalls, decodeResp, run_map, run_decodeIntCalls]
  | simpleString | error => simp only [decodeRespCalls, decodeResp, run_map, run_decodeTextCalls]
  | bulkString => simp only [decodeRespCalls, decodeResp, run_map, run_decodeBulkCalls]
  | array => simp only [decodeRespCalls, decodeResp, run_map, run_decodeArrayCalls h]

/-- **The program is the decoder**, when it runs with the reader. -/
theorem run_decodeCalls (depth : Nat) :
    (decodeCalls depth).run ReaderOp.onReader = decode depth := by
  induction depth with
  | zero => rfl
  | succ depth ih =>
    simp only [decodeCalls, decode, run_bind, run_perform]
    show (Reader.peekByte >>= _) = (Reader.peekByte >>= _)
    congr 1
    funext c
    cases RespType.ofByte c with
    | none => exact run_decodeInlineCalls
    | some typ =>
      simp only [run_bind, run_perform, run_decodeRespCalls ih]
      rfl

end Run

/-- The decoder on a stream. -/
def decodeStream (size : Nat) (final : IoErr) (depth : Nat) : EStateM Err Bytes RespValue :=
  (decodeCalls depth).run (ReaderOp.onStream size final)

open Reader (Streams)

/-- **Decoding refines decoding the stream.** -/
theorem agree_decode {size : Nat} {final : IoErr} {b : Reader} {input : Bytes}
    (h : Streams size final b input) (depth : Nat) :
    Agree (Streams size final) (decode depth b) (decodeStream size final depth input) := by
  have hmeets : (decodeCalls depth).Meets ReaderOp.onReader (fun _ _ => True) b :=
    meets_of_forall (fun _ _ => trivial) _ b
  have hrun := agree_run (fun op s t hst _ => ReaderOp.agree_onReader op hst) _ h hmeets
  rwa [run_decodeCalls] at hrun

/-! ## Repeated calls -/

/-- What `n` calls of `Decode` return. -/
def Decoder.results : Nat → Decoder → List (Except Err RespValue)
  | 0, _ => []
  | n + 1, d => d.decode.1 :: d.decode.2.results n

/-- Two decoders have the same error, or they stand in front of the same stream. -/
inductive Decoder.SameStream (size : Nat) (final : IoErr) : Decoder → Decoder → Prop
  | failed {d d' : Decoder} (e : Err) (hd : d.err = some e) (hd' : d'.err = some e) :
      SameStream size final d d'
  | ready {b b' : Reader} {input : Bytes} (hb : Streams size final b input)
      (hb' : Streams size final b' input) : SameStream size final ⟨b, none⟩ ⟨b', none⟩

/-- One call of `Decode` returns the same and leaves the decoders in front of the same stream. -/
theorem Decoder.SameStream.decode {size : Nat} {final : IoErr} {d d' : Decoder}
    (h : SameStream size final d d') :
    d.decode.1 = d'.decode.1 ∧ SameStream size final d.decode.2 d'.decode.2 := by
  cases h with
  | failed e hd hd' =>
    simp only [Decoder.decode, hd, hd', true_and]
    exact .failed e hd hd'
  | @ready b b' input hb hb' =>
    have hres := agree_decode hb (input.length + 1)
    have hres' := agree_decode hb' (input.length + 1)
    simp only [Decoder.decode, hb.unread_eq, hb'.unread_eq]
    generalize decodeStream size final (input.length + 1) input = r at hres hres'
    generalize Redis.decode (input.length + 1) b = x at hres
    generalize Redis.decode (input.length + 1) b' = x' at hres'
    cases hres with
    | ok hs =>
      cases hres' with
      | ok hs' => exact ⟨rfl, .ready hs hs'⟩
    | error =>
      cases hres' with
      | error => exact ⟨rfl, .failed _ rfl rfl⟩

theorem Decoder.SameStream.results {size : Nat} {final : IoErr} {d d' : Decoder}
    (h : SameStream size final d d') (n : Nat) : d.results n = d'.results n := by
  induction n generalizing d d' with
  | zero => rfl
  | succ n ih =>
    obtain ⟨hres, hnext⟩ := h.decode
    rw [Decoder.results, Decoder.results, hres, ih hnext]

/-- The connection that returns the pieces one by one, and then an error. -/
def inPieces (pieces : List Bytes) (final : IoErr) : Source IoErr :=
  ⟨pieces.map (⟨·, none⟩), final⟩

theorem streams_inPieces {pieces : List Bytes} (h : ∀ p ∈ pieces, p ≠ []) (final : IoErr)
    (bufSize : Nat) :
    Streams (newDecoder (inPieces pieces final) bufSize).br.size final
      (newDecoder (inPieces pieces final) bufSize).br pieces.flatten := by
  have hclean : (inPieces pieces final).Clean := by
    intro c hc
    obtain ⟨p, hp, rfl⟩ := List.mem_map.mp hc
    exact ⟨h p hp, rfl⟩
  have hbytes : (inPieces pieces final).bytes = pieces.flatten := by
    simp [inPieces, Source.bytes, Function.comp_def]
  exact hbytes ▸ Reader.streams_newReaderSize hclean bufSize

/-- **Decoding does not depend on the pieces**: on two connections that return the same bytes in
    non-empty pieces, cut in any two ways, and then the same error, all calls of `Decode` return the
    same values and the same error. -/
theorem results_eq_of_flatten_eq (pieces pieces' : List Bytes) (h : ∀ p ∈ pieces, p ≠ [])
    (h' : ∀ p ∈ pieces', p ≠ []) (hsame : pieces.flatten = pieces'.flatten) (final : IoErr)
    (bufSize n : Nat) :
    (newDecoder (inPieces pieces final) bufSize).results n =
      (newDecoder (inPieces pieces' final) bufSize).results n := by
  have hb := streams_inPieces h final bufSize
  have hb' := streams_inPieces h' final bufSize
  rw [← hsame] at hb'
  exact (Decoder.SameStream.ready hb hb').results n

theorem results_eq_of_flatten_eq_cut :
    (newDecoder (inPieces [bytesOf "$3\r", bytesOf "\nab", bytesOf "c\r\n:7"] .eof) 2).results 2 =
      (newDecoder (inPieces [bytesOf "$", bytesOf "3\r\nabc\r", bytesOf "\n:7"] .eof)
        2).results 2 :=
  results_eq_of_flatten_eq _ _ (by decide +kernel) (by decide +kernel) (by decide +kernel) .eof 2 2

end Samaritan.Redis
