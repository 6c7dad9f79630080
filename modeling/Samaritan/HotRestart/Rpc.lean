import Samaritan.Lib.Decimal
import Samaritan.Lib.Execution

/-!
# The Messages of a Hot Restart

A new instance asks the running one to hand over by messages on a Unix socket
(`cmd/samaritan/hotrestart/rpc.go`). A message has a type, the length of its data in 16 bits, and
the data. It is read by one call into a buffer of 4096 bytes.

* `readMessage` counts the last byte of the header among the bytes of the data, so it accepts a
  message whose last byte has not come, and slices out of bounds when the buffer is full.
* A message comes back as it was sent exactly if it fits into the buffer: `newMessage` accepts data
  of any length, but cuts off its length at 16 bits.

Indexing and slicing panic out of bounds, as in the source. `json.Marshal` is a parameter.
-/

namespace Samaritan.HotRestart

open Samaritan.Lib Execution

/-! ## Messages -/

structure Message where
  type : UInt8
  len : UInt16
  data : Bytes
  deriving DecidableEq

/-- Why a message cannot be read. -/
inductive ReadError (ε : Type) where
  /-- the error of the connection -/
  | conn (e : ε)
  /-- "invalid header" -/
  | invalidHeader
  /-- "incomplete data" -/
  | incompleteData
  deriving DecidableEq

variable {ε ι : Type}

/-- `newMessage`; without a value there is no data. -/
def newMessage (marshal : ι → Except ε Bytes) (typ : UInt8) (i : Option ι) : Except ε Message :=
  match i with
  | none => .ok ⟨typ, 0, []⟩
  | some x =>
    match marshal x with
    | .error e => .error e
    | .ok data => .ok ⟨typ, UInt16.ofNat data.length, data⟩

/-- `sendMessage`: the bytes that are written to the connection. -/
def sendMessage (msg : Message) : Execution ε Bytes :=
  -- the size is computed in 16 bits
  let b := List.replicate (3 + msg.len).toNat 0
  (assign b 0 msg.type).bind fun b =>
  (assign b 1 (msg.len >>> 8).toUInt8).bind fun b =>
  (assign b 2 msg.len.toUInt8).bind fun b =>
  (slice b 3 b.length).bind fun tail => returns (b.take 3 ++ copyOver tail msg.data)

/-- The size of the buffer of `readMessage`. -/
def rpcBufSize : Nat := 4096

/-- The length in the two bytes of the header. -/
def lenOf (hi lo : UInt8) : UInt16 := hi.toUInt16 <<< 8 ||| lo.toUInt16

/-- `readMessage`, for what the connection has to give: the read takes as much of it as the buffer
    holds, and leaves zeros in the rest of the buffer. -/
def readMessage (conn : Except ε Bytes) : Execution (ReadError ε) Message :=
  match conn with
  | .error e => fails (.conn e)
  | .ok pending =>
    let n := (pending.take rpcBufSize).length
    let b := pending.take rpcBufSize ++ List.replicate (rpcBufSize - n) 0
    if n < 3 then fails .invalidHeader
    else
      (index b 0).bind fun typ =>
      (index b 1).bind fun hi =>
      (index b 2).bind fun lo =>
      (slice b 2 n).bind fun rest =>
        if UInt16.ofNat rest.length < lenOf hi lo then fails .incompleteData
        else (slice b 3 (3 + lenOf hi lo).toNat).bind fun data => returns ⟨typ, lenOf hi lo, data⟩

/-! ## What `readMessage` does -/

theorem toNat_lenOf (hi lo : UInt8) : (lenOf hi lo).toNat = hi.toNat * 256 + lo.toNat := by
  have hhi := hi.toNat_lt
  have hlo := lo.toNat_lt
  have hor := Nat.shiftLeft_add_eq_or_of_lt (show lo.toNat < 2 ^ 8 from hlo) hi.toNat
  have hshift : hi.toNat <<< 8 = hi.toNat * 256 := Nat.shiftLeft_eq _ _
  simp only [lenOf, UInt16.toNat_or, UInt16.toNat_shiftLeft, UInt8.toNat_toUInt16]
  show hi.toNat <<< 8 % 2 ^ 16 ||| lo.toNat = _
  rw [Nat.mod_eq_of_lt (by omega), ← hor, hshift]

/-- The outcome for bytes that are all in the buffer, behind the check of their number. -/
theorem readMessage_cons {typ hi lo : UInt8} {rest : Bytes}
    (hlen : (typ :: hi :: lo :: rest).length ≤ rpcBufSize) :
    (readMessage (.ok (typ :: hi :: lo :: rest)) : Execution (ReadError ε) Message) =
      if rest.length + 1 < (lenOf hi lo).toNat then fails .incompleteData
      else if (lenOf hi lo).toNat + 3 ≤ rpcBufSize then
        returns ⟨typ, lenOf hi lo,
          (rest ++ List.replicate (rpcBufSize - (rest.length + 3)) 0).take (lenOf hi lo).toNat⟩
      else panics := by
  have hfits : rest.length + 3 ≤ 4096 := hlen
  have hcount : (UInt16.ofNat (rest.length + 1)).toNat = rest.length + 1 :=
    UInt16.toNat_ofNat_of_lt' (show rest.length + 1 < 2 ^ 16 by omega)
  generalize hzeros : List.replicate (rpcBufSize - (rest.length + 3)) (0 : UInt8) = zeros
  have hsize : (rest ++ zeros).length + 3 = rpcBufSize := by
    rw [← hzeros, List.length_append, List.length_replicate, rpcBufSize]
    omega
  -- the bytes behind the second one, up to the last one received
  have hrest : (slice (typ :: hi :: lo :: (rest ++ zeros)) 2 (rest.length + 3) :
      Execution (ReadError ε) Bytes) = returns (lo :: rest) := by
    rw [slice_eq_returns_iff]
    refine ⟨by omega, ?_, by simp⟩
    simp only [List.length_cons, List.length_append]
    omega
  have hbuf : typ :: hi :: lo :: rest ++ zeros = typ :: hi :: lo :: (rest ++ zeros) := rfl
  simp only [readMessage, List.take_of_length_le hlen, List.length_cons, hzeros, hbuf]
  rw [if_neg (by omega)]
  simp only [index, List.getElem?_cons_zero, List.getElem?_cons_succ, returns_bind, hrest,
    List.length_cons, UInt16.lt_iff_toNat_lt, hcount]
  split
  · rfl
  · rename_i hcomplete
    -- so the end of the slice does not overflow
    have hend : (3 + lenOf hi lo).toNat = (lenOf hi lo).toNat + 3 := by
      rw [UInt16.toNat_add]
      show (3 + (lenOf hi lo).toNat) % 2 ^ 16 = _
      omega
    rw [hend, slice]
    simp only [List.length_cons, hsize]
    split
    · rename_i hbounds
      rw [if_pos hbounds.2]
      simp
    · rename_i hbounds
      rw [if_neg (by omega)]
      rfl

/-- What is pending behind the end of the buffer is not looked at. -/
theorem readMessage_take (pending : Bytes) :
    (readMessage (.ok pending) : Execution (ReadError ε) Message) =
      readMessage (.ok (pending.take rpcBufSize)) := by
  simp only [readMessage, List.take_take, Nat.min_self]

/-- The smallest data that do not fit into the buffer pass the check of their length. -/
theorem readMessage_full {typ hi lo : UInt8} {rest : Bytes} (hlen : (lenOf hi lo).toNat = 4094)
    (hrest : rest.length = 4094) :
    (readMessage (.ok (typ :: hi :: lo :: rest)) : Execution (ReadError ε) Message) = panics := by
  have htake : (typ :: hi :: lo :: rest).take rpcBufSize = typ :: hi :: lo :: rest.take 4093 := rfl
  have hlength : (rest.take 4093).length = 4093 := by
    rw [List.length_take]
    omega
  rw [readMessage_take, htake, readMessage_cons, hlength, hlen]
  · rfl
  · simp only [List.length_cons, hlength, rpcBufSize]
    omega

/-- A header is needed. -/
theorem readMessage_short {received : Bytes} (h : received.length < 3) :
    (readMessage (.ok received) : Execution (ReadError ε) Message) = fails .invalidHeader := by
  have htake : (received.take rpcBufSize).length < 3 := by
    rw [List.length_take]
    omega
  simp only [readMessage]
  rw [if_pos htake]

/-! ## Reading what was received -/

/-- The length that the header of some bytes gives. -/
def headerLen : Bytes → Nat
  | _ :: hi :: lo :: _ => hi.toNat * 256 + lo.toNat
  | _ => 0

variable (ε) in
/-- `readMessage` stays in bounds, accepts exactly the bytes that hold a complete message, and
    returns nothing that was not received. -/
structure ReadsReceived (received : Bytes) : Prop where
  inBounds : (readMessage (.ok received) : Execution (ReadError ε) Message) ≠ panics
  accepts : (∃ msg, (readMessage (.ok received) : Execution (ReadError ε) Message) = returns msg) ↔
    3 ≤ received.length ∧ headerLen received ≤ (received.drop 3).length
  exact : ∀ msg, (readMessage (.ok received) : Execution (ReadError ε) Message) = returns msg →
    msg.len.toNat = headerLen received ∧ msg.data = (received.drop 3).take (headerLen received)

theorem readsReceived_short {received : Bytes} (h : received.length < 3) :
    ReadsReceived ε received := by
  have hread : (readMessage (.ok received) : Execution (ReadError ε) Message) = _ :=
    readMessage_short h
  refine ⟨by simp [hread], ?_, by simp [hread]⟩
  constructor
  · rintro ⟨msg, hmsg⟩
    rw [hread] at hmsg
    cases hmsg
  · rintro ⟨hthree, -⟩
    omega

theorem readsReceived_cons_iff {typ hi lo : UInt8} {rest : Bytes}
    (hlen : (typ :: hi :: lo :: rest).length ≤ rpcBufSize) :
    ReadsReceived ε (typ :: hi :: lo :: rest) ↔ (lenOf hi lo).toNat ≠ rest.length + 1 := by
  have hread : (readMessage (.ok (typ :: hi :: lo :: rest)) :
      Execution (ReadError ε) Message) = _ := readMessage_cons hlen
  have hheader : headerLen (typ :: hi :: lo :: rest) = (lenOf hi lo).toNat :=
    (toNat_lenOf hi lo).symm
  have hfits : rest.length + 3 ≤ rpcBufSize := hlen
  constructor
  · -- one byte too few: accepted with a byte of the buffer, or out of bounds
    intro h hone
    rw [if_neg (by omega)] at hread
    split at hread
    · have hcomplete := (h.accepts.mp ⟨_, hread⟩).2
      rw [hheader, hone] at hcomplete
      exact absurd hcomplete (Nat.not_succ_le_self _)
    · exact h.inBounds hread
  · intro hne
    by_cases hmore : rest.length + 1 < (lenOf hi lo).toNat
    · -- two bytes or more are missing: refused
      rw [if_pos hmore] at hread
      refine ⟨by simp [hread], ?_, by simp [hread]⟩
      constructor
      · rintro ⟨msg, hmsg⟩
        rw [hread] at hmsg
        cases hmsg
      · rintro ⟨-, hle⟩
        rw [hheader] at hle
        have : (lenOf hi lo).toNat ≤ rest.length := hle
        omega
    · -- all bytes have come, and the rest of the buffer is not looked at
      have hall : (lenOf hi lo).toNat ≤ rest.length := by omega
      rw [if_neg hmore, if_pos (by omega), List.take_append_of_le_length hall] at hread
      refine ⟨by simp [hread], ?_, ?_⟩
      · refine iff_of_true ⟨_, hread⟩ ⟨Nat.le_add_left 3 _, ?_⟩
        rw [hheader]
        exact hall
      · intro msg hmsg
        obtain rfl := Execution.returns.inj (hread.symm.trans hmsg)
        rw [hheader]
        exact ⟨rfl, rfl⟩

/-- **When `readMessage` is right**: for all bytes that fit into its buffer, exactly unless the
    header asks for one byte more than came behind it. -/
theorem readsReceived_iff {received : Bytes} (hlen : received.length ≤ 4096) :
    ReadsReceived ε received ↔ received.length < 3 ∨ headerLen received + 2 ≠ received.length := by
  rcases Nat.lt_or_ge received.length 3 with hshort | hheader
  · exact iff_of_true (readsReceived_short hshort) (.inl hshort)
  · obtain ⟨typ, hi, lo, rest, rfl⟩ : ∃ typ hi lo rest, received = typ :: hi :: lo :: rest := by
      cases received with
      | nil => simp at hheader
      | cons typ received =>
        cases received with
        | nil => simp at hheader
        | cons hi received =>
          cases received with
          | nil => simp at hheader
          | cons lo rest => exact ⟨typ, hi, lo, rest, rfl⟩
    rw [readsReceived_cons_iff hlen, toNat_lenOf]
    simp only [headerLen, List.length_cons]
    omega

/-- The byte of the data is missing, and comes from the buffer; and a full buffer is left. -/
theorem not_readsReceived_short :
    (readMessage (.ok [1, 0, 1]) : Execution (ReadError Empty) Message) = returns ⟨1, 1, [0]⟩ ∧
      ¬ ReadsReceived Empty [1, 0, 1] ∧
      (readMessage (.ok (1 :: 15 :: 254 :: List.replicate 4093 104)) :
        Execution (ReadError Empty) Message) = panics := by
  refine ⟨by decide +kernel, fun h => ?_, ?_⟩
  · exact absurd ((readsReceived_cons_iff (by decide)).mp h) (by decide)
  · rw [readMessage_cons (by rw [List.length_cons, List.length_cons, List.length_cons,
      List.length_replicate, rpcBufSize])]
    decide +kernel

theorem readsReceived_iff_complete : ReadsReceived Empty [1, 0, 1, 104] :=
  (readsReceived_iff (by decide)).mpr (by decide)

/-! ## The way of a message -/

/-- The data of a message: what `json.Marshal` makes of the value, if there is one. -/
def payload (marshal : ι → Except ε Bytes) : Option ι → Except ε Bytes
  | none => .ok []
  | some x => marshal x

/-- The message comes back as it was sent, and its length is that of its data. -/
structure RoundTrips (msg : Message) : Prop where
  back : ∃ b, (sendMessage msg : Execution Empty Bytes) = returns b ∧
    (readMessage (.ok b) : Execution (ReadError Empty) Message) = returns msg
  len : msg.len.toNat = msg.data.length

theorem newMessage_of_payload {marshal : ι → Except ε Bytes} {i : Option ι} {data : Bytes}
    (h : payload marshal i = .ok data) (typ : UInt8) :
    newMessage marshal typ i = .ok ⟨typ, UInt16.ofNat data.length, data⟩ := by
  cases i with
  | none =>
    obtain rfl := Except.ok.inj h
    rfl
  | some x =>
    have hdata : marshal x = .ok data := h
    simp only [newMessage, hdata]

/-- The two bytes of a length give it back. -/
theorem lenOf_bytes (n : UInt16) : lenOf (n >>> 8).toUInt8 n.toUInt8 = n := by
  apply UInt16.toNat.inj
  have hlt := n.toNat_lt
  rw [toNat_lenOf, UInt16.toNat_toUInt8, UInt16.toNat_toUInt8, UInt16.toNat_shiftRight]
  show n.toNat >>> 8 % 2 ^ 8 * 256 + n.toNat % 2 ^ 8 = n.toNat
  rw [Nat.shiftRight_eq_div_pow]
  omega

/-- Data of the stated length are sent behind the header, as long as the size does not overflow. -/
theorem sendMessage_eq {msg : Message} (hlen : msg.len.toNat = msg.data.length)
    (hfits : msg.data.length + 3 < 2 ^ 16) :
    (sendMessage msg : Execution ε Bytes) =
      returns (msg.type :: (msg.len >>> 8).toUInt8 :: msg.len.toUInt8 :: msg.data) := by
  have hsize : (3 + msg.len).toNat = msg.data.length + 3 := by
    rw [UInt16.toNat_add, hlen]
    show (3 + msg.data.length) % 2 ^ 16 = _
    omega
  have hbuf : List.replicate (3 + msg.len).toNat (0 : UInt8) =
      0 :: 0 :: 0 :: List.replicate msg.data.length 0 := by
    rw [hsize]
    rfl
  have htail (x y z : UInt8) (l : Bytes) :
      (slice (x :: y :: z :: l) 3 (x :: y :: z :: l).length : Execution ε Bytes) = returns l := by
    rw [slice_eq_returns_iff]
    exact ⟨by simp, le_refl _, by simp⟩
  -- the data fill what is left of the buffer
  have hcopy : copyOver (List.replicate msg.data.length (0 : UInt8)) msg.data = msg.data := by
    simp [copyOver]
  simp only [sendMessage, hbuf]
  rw [assign, if_pos (by simp), returns_bind, assign, if_pos (by simp), returns_bind, assign,
    if_pos (by simp), returns_bind]
  refine bind_eq_returns.mpr ⟨List.replicate msg.data.length 0, htail _ _ _ _, ?_⟩
  rw [hcopy]
  rfl

/-- Whatever is read: the data are in the buffer, behind the header. -/
theorem readMessage_data_length {conn : Except ε Bytes} {msg : Message}
    (h : readMessage conn = returns msg) : msg.data.length ≤ 4093 := by
  cases conn with
  | error e => cases h
  | ok pending =>
    simp only [readMessage] at h
    split at h
    · cases h
    · simp only [bind_eq_returns] at h
      obtain ⟨typ, -, hi, -, lo, -, rest, -, h⟩ := h
      split at h
      · cases h
      · obtain ⟨data, hdata, hmsg⟩ := bind_eq_returns.mp h
        obtain rfl := returns.inj hmsg
        obtain ⟨-, hend, rfl⟩ := slice_eq_returns_iff.mp hdata
        have hbuf : (3 + lenOf hi lo).toNat ≤ 4096 := by
          refine le_trans hend ?_
          simp only [List.length_append, List.length_take, List.length_replicate, rpcBufSize]
          omega
        simp only [List.length_drop, List.length_take]
        omega

theorem roundTrips_iff (typ : UInt8) (data : Bytes) :
    RoundTrips ⟨typ, UInt16.ofNat data.length, data⟩ ↔ data.length ≤ 4093 := by
  constructor
  · rintro ⟨⟨b, -, hread⟩, -⟩
    exact readMessage_data_length hread
  · intro hle
    -- nothing overflows, and the message is not longer than the buffer
    have hlen : (UInt16.ofNat data.length).toNat = data.length :=
      UInt16.toNat_ofNat_of_lt' (show data.length < 2 ^ 16 by omega)
    generalize hn : UInt16.ofNat data.length = n at hlen ⊢
    have hfits : data.length + 3 < 2 ^ 16 := by omega
    refine ⟨⟨typ :: (n >>> 8).toUInt8 :: n.toUInt8 :: data, sendMessage_eq hlen hfits, ?_⟩, hlen⟩
    rw [readMessage_cons (by simp only [List.length_cons, rpcBufSize]; omega), lenOf_bytes, hlen,
      if_neg (by omega), if_pos (by rw [rpcBufSize]; omega), List.take_left']
    rfl

/-- **The way of a message**: every value that can be marshalled makes a message of its data, which
    comes back with its type, length and data exactly if the data are at most 4093 bytes. -/
theorem newMessage_roundTrips_iff {marshal : ι → Except ε Bytes} {i : Option ι} {data : Bytes}
    (h : payload marshal i = .ok data) (typ : UInt8) :
    ∃ msg, newMessage marshal typ i = .ok msg ∧ msg.type = typ ∧ msg.data = data ∧
      (RoundTrips msg ↔ data.length ≤ 4093) :=
  ⟨_, newMessage_of_payload h typ, rfl, rfl, roundTrips_iff typ data⟩

/-- A string of so many letters, as `json.Marshal` writes it: between quotation marks. -/
def quoted (n : Nat) : Bytes := 34 :: List.replicate n 97 ++ [34]

def marshalLetters (n : Nat) : Except Empty Bytes := .ok (quoted n)

theorem length_quoted (n : Nat) : (quoted n).length = n + 2 := by simp [quoted]

/-- One byte more is sent, and makes the reader slice out of bounds; and the length of 65536 bytes
    becomes 0. -/
theorem not_roundTrips_large :
    (∃ msg b, newMessage marshalLetters 1 (some 4092) = .ok msg ∧ ¬ RoundTrips msg ∧
      (sendMessage msg : Execution Empty Bytes) = returns b ∧
      (readMessage (.ok b) : Execution (ReadError Empty) Message) = panics) ∧
    ∃ msg, newMessage marshalLetters 1 (some 65534) = .ok msg ∧ ¬ RoundTrips msg ∧
      msg.len = 0 ∧ msg.data.length = 65536 := by
  have hnew (n : Nat) : newMessage marshalLetters 1 (some n) =
      .ok ⟨1, UInt16.ofNat (n + 2), quoted n⟩ := by
    have hpayload : payload marshalLetters (some n) = .ok (quoted n) := rfl
    rw [newMessage_of_payload hpayload, length_quoted]
  have hback (n : Nat) (hn : 4091 < n) : ¬ RoundTrips ⟨1, UInt16.ofNat (n + 2), quoted n⟩ := by
    have hiff := roundTrips_iff 1 (quoted n)
    rw [length_quoted] at hiff
    exact fun h => absurd (hiff.mp h) (by omega)
  refine ⟨⟨_, _, hnew 4092, hback 4092 (by decide), sendMessage_eq ?_ ?_, ?_⟩,
    ⟨_, hnew 65534, hback 65534 (by decide), by decide, length_quoted _⟩⟩
  · rw [length_quoted]
    decide
  · rw [length_quoted]
    decide
  · -- the last byte is not in the buffer any more
    refine readMessage_full ?_ (length_quoted _)
    rw [lenOf_bytes]
    rfl

/-- The empty string comes back. -/
theorem newMessage_roundTrips_two :
    ∃ msg, newMessage marshalLetters 1 (some 0) = .ok msg ∧ RoundTrips msg := by
  have hpayload : payload marshalLetters (some 0) = .ok [34, 34] := rfl
  obtain ⟨msg, hmsg, -, -, hback⟩ := newMessage_roundTrips_iff hpayload 1
  exact ⟨msg, hmsg, hback.mpr (by decide)⟩

end Samaritan.HotRestart
