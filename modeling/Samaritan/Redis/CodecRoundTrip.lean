import Samaritan.Redis.Grammar

/-!
# The Codec Round Trip

Decoding what the encoder wrote gives the values back, however the bytes were cut into
pieces on the way and whatever follows them.

1. The integer texts: `itoa` is the canonical text, and `btoi64` reads it back.
2. Each frame kind: the decoder consumes exactly the bytes of one encoded value.
3. A pipeline: repeated `Decode` returns a list of values in order and stops in front of
   the bytes behind it.

The encoder side is connected to the buffered writer: a successful `Encode` hands exactly
the encoding of its value to the writer.
-/

namespace Samaritan.Redis

open Samaritan.Lib

/-! ## Integer texts -/

theorem itoaText_succ (n : Nat) : itoaText (n + 1) = itoaText n ++ formatInt (n + minItoa) := by
  simp [itoaText, List.range_succ]

/-- The table only grows at its end, so that the offsets stay right. -/
theorem itoaText_prefix {m n : Nat} (h : m ≤ n) : itoaText m <+: itoaText n := by
  induction n with
  | zero =>
    obtain rfl := Nat.le_zero.mp h
    exact List.prefix_refl _
  | succ n ih =>
    rcases Nat.le_succ_iff.mp h with h | rfl
    · rw [itoaText_succ]
      exact (ih h).trans (List.prefix_append _ _)
    · exact List.prefix_refl _

/-- Every text of the table has at most six bytes. -/
theorem length_itoaText_le {n : Nat} (hn : n ≤ 32897) : (itoaText n).length ≤ 6 * n := by
  induction n with
  | zero => simp [itoaText]
  | succ n ih =>
    have habs : (n + minItoa : Int).natAbs < 10 ^ (4 + 1) := by
      simp only [minItoa]
      omega
    have hlen := length_formatNat_le habs
    have htext : (formatInt (n + minItoa)).length ≤ 6 := by
      rw [formatInt]
      split
      · rw [List.length_cons]
        omega
      · omega
    rw [itoaText_succ, List.length_append]
    have := ih (by omega)
    omega

/-- The offsets fit into their 32 bits. -/
theorem itoaOffset_toNat {n : Nat} (hn : n ≤ 32897) :
    (itoaOffset n).toNat = (itoaText n).length := by
  have := length_itoaText_le hn
  rw [itoaOffset, UInt32.toNat_ofNat', Nat.mod_eq_of_lt (by omega)]

theorem itoaBuffer_eq : itoaBuffer = itoaText 32897 := rfl

/-- The slice between two neighbouring offsets is the text written between them. -/
theorem itoaBuffer_slice {n : Nat} (hn : n < 32897) :
    (itoaBuffer.take (itoaOffset (n + 1)).toNat).drop (itoaOffset n).toNat =
      formatInt (n + minItoa) := by
  have hprefix : itoaText (n + 1) <+: itoaBuffer := by
    rw [itoaBuffer_eq]
    exact itoaText_prefix hn
  rw [itoaOffset_toNat (by omega), itoaOffset_toNat (by omega),
    ← List.prefix_iff_eq_take.mp hprefix, itoaText_succ, List.drop_left]

/-- `itoa` is the canonical decimal text over all of `int64`. -/
theorem itoa_eq_formatInt (i : Int64) : itoa i = formatInt i.toInt := by
  rw [itoa]
  split
  · rename_i hrange
    obtain ⟨n, hn⟩ : ∃ n : Nat, (i.toInt - minItoa).toNat = n := ⟨_, rfl⟩
    have hlt : n < 32897 := by
      simp only [minItoa, maxItoa] at hrange hn
      omega
    have hi : (n : Int) + minItoa = i.toInt := by
      simp only [minItoa, maxItoa] at hrange hn ⊢
      omega
    rw [hn, ← hi]
    split
    · rename_i hmax
      -- the last text ends with the buffer, so that cutting it off changes nothing
      have hlast : n + 1 = 32897 := by
        simp only [minItoa, maxItoa] at hmax
        omega
      have hslice := itoaBuffer_slice hlt
      rwa [hlast, itoaOffset_toNat le_rfl, itoaBuffer_eq, List.take_length,
        ← itoaBuffer_eq] at hslice
    · exact itoaBuffer_slice hlt
  · rfl

theorem denotes_itoa (i : Int64) : Denotes (itoa i) i.toInt := by
  rw [itoa_eq_formatInt]
  exact denotes_formatInt i.toInt

/-- `btoi64` reads back every `itoa` text. -/
theorem btoi64_itoa (i : Int64) : btoi64 (itoa i) = .ok i :=
  btoi64_eq_ok_iff.mpr (denotes_itoa i)

/-- **The text of an integer**: `itoa` gives the canonical text of every 64-bit integer, which
    `btoi64` reads back. Within the table it is the piece of the shared buffer that `init` has
    written for the number, from its offset on. -/
theorem itoa_canonical (i : Int64) :
    (∀ t, t = itoa i ↔ Canonical t ∧ Denotes t i.toInt) ∧ btoi64 (itoa i) = .ok i ∧
      ∀ n : Nat, i.toInt = n + minItoa → i.toInt ≤ maxItoa →
        (itoaOffset n).toNat = (itoaText n).length ∧
          ∃ rest, itoaBuffer = itoaText n ++ itoa i ++ rest := by
  refine ⟨fun t => ?_, btoi64_itoa i, fun n hn hmax => ?_⟩
  · rw [itoa_eq_formatInt]
    exact canonical_and_denotes_iff.symm
  · have hlt : n < 32897 := by
      simp only [minItoa, maxItoa] at hn hmax
      omega
    refine ⟨itoaOffset_toNat hlt.le, ?_⟩
    obtain ⟨rest, hrest⟩ := itoaText_prefix (Nat.succ_le_of_lt hlt)
    refine ⟨rest, ?_⟩
    rw [itoaBuffer_eq, ← hrest, itoaText_succ, itoa_eq_formatInt, hn]

/-! ## The encoding as a byte string -/

theorem encodeInt_data (i : Int64) : (encodeInt i).flatMap Piece.data = itoa i ++ CRLF := by
  simp [encodeInt, Piece.data]

theorem encodeTextBytes_data (b : Bytes) :
    (encodeTextBytes b).flatMap Piece.data = b ++ CRLF := by
  simp [encodeTextBytes, Piece.data]

theorem encode_integer (i : Int64) :
    encode (.integer i) = RespType.integer.byte :: (itoa i ++ CRLF) := by
  show RespType.integer.byte :: (encodeInt i).flatMap Piece.data = _
  rw [encodeInt_data]

theorem encode_simpleString (t : Bytes) :
    encode (.simpleString t) = RespType.simpleString.byte :: (t ++ CRLF) := by
  show RespType.simpleString.byte :: (encodeTextBytes t).flatMap Piece.data = _
  rw [encodeTextBytes_data]

theorem encode_error (t : Bytes) : encode (.error t) = RespType.error.byte :: (t ++ CRLF) := by
  show RespType.error.byte :: (encodeTextBytes t).flatMap Piece.data = _
  rw [encodeTextBytes_data]

theorem encode_bulkString_none :
    encode (.bulkString none) = RespType.bulkString.byte :: (itoa (-1) ++ CRLF) := by
  show RespType.bulkString.byte :: (encodeInt (-1)).flatMap Piece.data = _
  rw [encodeInt_data]

theorem encode_bulkString_some (t : Bytes) :
    encode (.bulkString (some t)) =
      RespType.bulkString.byte :: (itoa (Int64.ofNat t.length) ++ CRLF ++ (t ++ CRLF)) := by
  show RespType.bulkString.byte ::
    (encodeInt (Int64.ofNat t.length) ++ encodeTextBytes t).flatMap Piece.data = _
  rw [List.flatMap_append, encodeInt_data, encodeTextBytes_data]

theorem encode_array_none :
    encode (.array none) = RespType.array.byte :: (itoa (-1) ++ CRLF) := by
  show RespType.array.byte :: (encodeInt (-1)).flatMap Piece.data = _
  rw [encodeInt_data]

theorem encodeElems_data (vs : List RespValue) :
    (encodeElems vs).flatMap Piece.data = vs.flatMap encode := by
  induction vs with
  | nil => rfl
  | cons v vs ih =>
    show (encodePieces v ++ encodeElems vs).flatMap Piece.data = _
    rw [List.flatMap_append, ih]
    rfl

theorem encode_array_some (vs : List RespValue) :
    encode (.array (some vs)) =
      RespType.array.byte :: (itoa (Int64.ofNat vs.length) ++ CRLF ++ vs.flatMap encode) := by
  show RespType.array.byte ::
    (encodeInt (Int64.ofNat vs.length) ++ encodeElems vs).flatMap Piece.data = _
  rw [List.flatMap_append, encodeInt_data, encodeElems_data]

/-! ## The encoder on its writer -/

/-- A call that succeeds leaves the writer with its bytes. -/
theorem put_held {p : Piece} {w : BufWriter IoErr} (h : (p.put w).err = none) :
    (p.put w).held = w.held ++ p.data := by
  cases p with
  | byte c => exact BufWriter.writeByte_held h
  | bytes b => exact BufWriter.write_held h
  | str b => exact BufWriter.writeString_held h

theorem putAll_held {ps : List Piece} {w : BufWriter IoErr} (h : (putAll w ps).err = none) :
    (putAll w ps).held = w.held ++ ps.flatMap Piece.data := by
  induction ps generalizing w with
  | nil => simp [putAll]
  | cons p ps ih =>
    rw [putAll] at h ⊢
    split at h
    · rename_i herr
      simp [h] at herr
    · rename_i herr
      rw [if_neg herr, ih h, put_held (by simpa using herr)]
      simp

/-- Without an error all calls are made. -/
theorem putAll_concat {ps : List Piece} {p : Piece} {w : BufWriter IoErr}
    (h : (putAll w ps).err = none) : putAll w (ps ++ [p]) = p.put (putAll w ps) := by
  induction ps generalizing w with
  | nil =>
    simp only [List.nil_append, putAll]
    split <;> rfl
  | cons q ps ih =>
    rw [putAll] at h
    rw [List.cons_append, putAll, putAll]
    split at h
    · rename_i herr
      simp [h] at herr
    · rename_i herr
      rw [if_neg herr, if_neg herr]
      exact ih h

/-- A successful `Encode` hands exactly the encoding of its value to the writer. -/
theorem Encoder.encode_held {e : Encoder} {v : RespValue} (h : (e.encode v).err = none) :
    (e.encode v).bw.held = e.bw.held ++ Redis.encode v := by
  rw [Encoder.encode] at h ⊢
  split at h
  · rename_i herr
    simp [h] at herr
  · rename_i herr
    rw [if_neg herr]
    exact putAll_held h

theorem Encoder.flush_held (e : Encoder) : e.flush.bw.held = e.bw.held := by
  rw [Encoder.flush]
  split
  · rfl
  · exact (BufWriter.flush_spec e.bw).1

theorem Encoder.flush_buf {e : Encoder} (h : e.flush.err = none) : e.flush.bw.buf = [] := by
  rw [Encoder.flush] at h ⊢
  split at h
  · rename_i herr
    simp [h] at herr
  · rename_i herr
    rw [if_neg herr]
    exact BufWriter.flush_buf_of_err h

theorem takes_put (p : Piece) (w : BufWriter IoErr) : w.Takes p.data (p.put w) := by
  cases p with
  | byte c => exact BufWriter.takes_writeByte w c
  | bytes b => exact BufWriter.takes_write w b
  | str b => exact BufWriter.takes_writeString w b

/-- Calls that fail on the way have handed on less than they were given. -/
theorem takes_putAll (ps : List Piece) (w : BufWriter IoErr) :
    w.Takes (ps.flatMap Piece.data) (putAll w ps) := by
  induction ps generalizing w with
  | nil => exact .of_wr_eq _ rfl rfl
  | cons p ps ih =>
    rw [putAll, List.flatMap_cons]
    split
    · exact (takes_put p w).append _
    · rename_i hfail
      have hnone : (p.put w).err = none := by simpa using hfail
      exact (takes_put p w).trans hnone (put_held hnone) (ih _)

/-- `Encode` only adds to the output, and if it fails, the encoding has not gone out completely. -/
theorem Encoder.takes_encode (e : Encoder) (v : RespValue) :
    e.bw.Takes (Redis.encode v) (e.encode v).bw := by
  rw [Encoder.encode]
  split
  · exact .of_wr_eq _ rfl rfl
  · exact takes_putAll _ _

theorem Encoder.takes_flush (e : Encoder) : e.bw.Takes [] e.flush.bw := by
  rw [Encoder.flush]
  split
  · exact .of_wr_eq _ rfl rfl
  · exact BufWriter.takes_flush e.bw

theorem put_size (p : Piece) (w : BufWriter IoErr) : (p.put w).size = w.size := by
  cases p with
  | byte c => exact w.writeByte_size c
  | bytes b => exact w.write_size b
  | str b => exact w.writeString_size b

theorem putAll_size (ps : List Piece) (w : BufWriter IoErr) : (putAll w ps).size = w.size := by
  induction ps generalizing w with
  | nil => rfl
  | cons p ps ih =>
    rw [putAll]
    split
    · exact put_size p w
    · rw [ih, put_size]

@[simp] theorem Encoder.encode_size (e : Encoder) (v : RespValue) :
    (e.encode v).bw.size = e.bw.size := by
  rw [Encoder.encode]
  split
  · rfl
  · exact putAll_size _ _

@[simp] theorem Encoder.flush_size (e : Encoder) : e.flush.bw.size = e.bw.size := by
  rw [Encoder.flush]
  split
  · rfl
  · exact BufWriter.flush_size e.bw

/-- The encoder has seen every error of its writer. -/
def Encoder.Faithful (e : Encoder) : Prop := e.err = e.bw.err

theorem Encoder.Faithful.encode {e : Encoder} (h : e.Faithful) (v : RespValue) :
    (e.encode v).Faithful := by
  rw [Encoder.encode]
  split
  · exact h
  · rfl

theorem Encoder.Faithful.flush {e : Encoder} (h : e.Faithful) : e.flush.Faithful := by
  rw [Encoder.flush]
  split
  · exact h
  · rfl

theorem sound_put (p : Piece) {w : BufWriter IoErr} (h : w.Sound) : (p.put w).Sound := by
  cases p with
  | byte c => exact h.writeByte c
  | bytes b => exact h.write b
  | str b => exact h.writeString b

theorem sound_putAll (ps : List Piece) {w : BufWriter IoErr} (h : w.Sound) :
    (putAll w ps).Sound := by
  induction ps generalizing w with
  | nil => exact h
  | cons p ps ih =>
    rw [putAll]
    split
    · exact sound_put p h
    · exact ih (sound_put p h)

/-- Nothing has failed on the connection, and it is not going to fail. -/
structure Encoder.Sound (e : Encoder) : Prop where
  noErr : e.err = none
  bw : e.bw.Sound

theorem Encoder.Sound.encode {e : Encoder} (h : e.Sound) (v : RespValue) : (e.encode v).Sound := by
  rw [Encoder.encode]
  split
  · exact h
  · exact ⟨(sound_putAll _ h.bw).noErr, sound_putAll _ h.bw⟩

theorem Encoder.Sound.flush {e : Encoder} (h : e.Sound) : e.flush.Sound := by
  rw [Encoder.flush]
  split
  · exact h
  · exact ⟨h.bw.flush.noErr, h.bw.flush⟩

/-! ## Frames -/

/-- What a value needs, besides its elements, to survive the round trip: texts that end at
    their CR LF, and lengths within the limits of the decoder. -/
def Framed : RespValue → Prop
  | .simpleString t => LF ∉ t
  | .error t => LF ∉ t
  | .integer _ => True
  | .bulkString none => True
  | .bulkString (some t) => t.length ≤ maxBulkStringLen
  | .array none => True
  | .array (some vs) => vs.length ≤ maxArrayLen

instance : DecidablePred Framed := fun v =>
  match v with
  | .simpleString t => inferInstanceAs (Decidable (LF ∉ t))
  | .error t => inferInstanceAs (Decidable (LF ∉ t))
  | .integer _ => isTrue trivial
  | .bulkString none => isTrue trivial
  | .bulkString (some t) => inferInstanceAs (Decidable (t.length ≤ maxBulkStringLen))
  | .array none => isTrue trivial
  | .array (some vs) => inferInstanceAs (Decidable (vs.length ≤ maxArrayLen))

/-- `Framed` at every nesting depth. -/
def WellFramed (v : RespValue) : Prop := ∀ u ∈ v.nodes, Framed u

instance : DecidablePred WellFramed := fun v =>
  inferInstanceAs (Decidable (∀ u ∈ v.nodes, Framed u))

theorem WellFramed.self {v : RespValue} (h : WellFramed v) : Framed v :=
  h v (RespValue.mem_nodes_self v)

theorem WellFramed.elem {vs : List RespValue} (h : WellFramed (.array (some vs))) {v : RespValue}
    (hv : v ∈ vs) : WellFramed v :=
  fun u hu => h u (RespValue.mem_nodes_array.mpr (Or.inr ⟨v, hv, hu⟩))

open Reader (Delivers Streams)

/-- `dec` turns the encoding of `v` back into `v` and stops behind it. -/
def Decodes (dec : DecodeM RespValue) (v : RespValue) : Prop :=
  ∀ (b : Reader) (rest : Bytes), 32 ≤ b.size → Delivers b (encode v ++ rest) →
    ∃ b', dec b = .ok v b' ∧ Delivers b' rest ∧ b'.size = b.size

/-- The payload of a value, behind its type byte. -/
def payload (v : RespValue) : Bytes := (encode v).tail

/-- Every encoding begins with the byte of its type. -/
theorem encode_eq_cons (v : RespValue) : encode v = v.type.byte :: payload v := by
  cases v with
  | simpleString t => simp [payload, encode_simpleString, RespValue.type]
  | error t => simp [payload, encode_error, RespValue.type]
  | integer i => simp [payload, encode_integer, RespValue.type]
  | bulkString t =>
    cases t with
    | none => simp [payload, encode_bulkString_none, RespValue.type]
    | some t => simp [payload, encode_bulkString_some, RespValue.type]
  | array vs =>
    cases vs with
    | none => simp [payload, encode_array_none, RespValue.type]
    | some vs => simp [payload, encode_array_some, RespValue.type]

/-- The elements of an array have shorter encodings than the array. -/
theorem length_encode_lt {vs : List RespValue} {u : RespValue} (hu : u ∈ vs) :
    (encode u).length < (encode (.array (some vs))).length := by
  have hsub : (encode u).Sublist (vs.flatMap encode) :=
    List.sublist_flatten_of_mem (List.mem_map_of_mem hu)
  have hle := hsub.length_le
  simp only [encode_array_some, List.length_cons, List.length_append]
  omega

/-- An encoded integer fits into a buffer of at least 32 bytes: it has a sign, nineteen digits and
    CR LF. -/
theorem number_itoa {size : Nat} (hsize : 32 ≤ size) {i : Int64} {n : Int} (hn : i.toInt = n) :
    (accepted size).Number (itoa i) n := by
  refine ⟨hn ▸ denotes_itoa i, ?_⟩
  rintro limit ⟨⟩
  have hlen := length_formatInt_le i
  rw [← itoa_eq_formatInt] at hlen
  omega

/-- **One value**: the encoding is a word for the value. -/
theorem respWord_encode {size : Nat} (hsize : 32 ≤ size) {v : RespValue} (hv : WellFramed v)
    (p : WordPlace) : RespWord (accepted size) p (encode v) v := by
  -- induction on the length of the encoding: those of the elements are shorter
  induction hn : (encode v).length using Nat.strongRecOn generalizing v p with
  | ind n ih =>
    subst hn
    have hframed := hv.self
    cases v with
    | simpleString t =>
      rw [encode_simpleString]
      exact .simpleString hframed
    | error t =>
      rw [encode_error]
      exact .error hframed
    | integer i =>
      rw [encode_integer]
      exact .integer (number_itoa hsize rfl)
    | bulkString t =>
      cases t with
      | none =>
        rw [encode_bulkString_none]
        exact .nilBulkString (number_itoa hsize rfl)
      | some t =>
        rw [encode_bulkString_some]
        exact .bulkString (number_itoa hsize (toInt_ofNat_length hframed)) hframed
    | array vs =>
      cases vs with
      | none =>
        rw [encode_array_none]
        exact .nilArray (number_itoa hsize rfl)
      | some vs =>
        have hlimit : vs.length ≤ maxArrayLen := hframed
        have hlen : (Int64.ofNat vs.length).toInt = vs.length :=
          toInt_ofNat_length (le_trans hlimit (by decide))
        have helems : ∀ e ∈ vs.map fun u => (encode u, u),
            RespWord (accepted size) .inside e.1 e.2 := by
          intro e he
          obtain ⟨u, hu, rfl⟩ := List.mem_map.mp he
          exact ih _ (length_encode_lt hu) (hv.elem hu) .inside rfl
        have hcount : (vs.map fun u => (encode u, u)).length = vs.length := List.length_map ..
        have hword := RespWord.array (p := p)
          (number_itoa hsize (hlen.trans (congrArg _ hcount.symm))) (hcount ▸ hlimit) helems
        rw [encode_array_some]
        simpa [List.flatMap_map, Function.comp_def] using hword

/-- With a budget that covers its encoding, the decoder returns the value and stops behind it. -/
theorem decodes_of_wellFramed {v : RespValue} (hv : WellFramed v) {depth : Nat}
    (hdepth : (encode v).length ≤ depth) : Decodes (decode depth) v := by
  intro b rest hsize h
  have hword := respWord_encode hsize hv .top
  have hagree := agree_decode ⟨h, rfl, rfl⟩ depth
  rw [decodeStream_complete hword hdepth] at hagree
  generalize decode depth b = res at hagree
  cases hagree with
  | ok hst => exact ⟨_, rfl, hst.toDelivers, hst.size_eq⟩

/-! ## Pipelines -/

/-- One call of `Decode` on the encoding of a value. -/
theorem Decoder.decode_encode {d : Decoder} {v : RespValue} {rest : Bytes} (hv : WellFramed v)
    (herr : d.err = none) (hsize : 32 ≤ d.br.size) (h : Delivers d.br (encode v ++ rest)) :
    ∃ d', d.decode = (.ok v, d') ∧ d'.err = none ∧ d'.br.size = d.br.size ∧
      Delivers d'.br rest := by
  have hdepth : (encode v).length ≤ d.br.unread.length + 1 := by
    rw [h.unread_eq, List.length_append]
    omega
  obtain ⟨b, hb, hdel, hsz⟩ := decodes_of_wellFramed hv hdepth d.br rest hsize h
  exact ⟨{ d with br := b }, by simp only [Decoder.decode, herr, hb], herr, hsz, hdel⟩

/-- Every line that does not begin with a type byte and that has a word is read as an inline
    command. -/
theorem exists_decoder_inline {c : UInt8} {t : Bytes} (hc : RespType.ofByte c = none)
    (ht : LF ∉ c :: t) (hne : inlineWords [] (c :: t) ≠ []) :
    ∃ d d' : Decoder, d.decode =
      (.ok (.array (some ((inlineWords [] (c :: t)).map fun w => .bulkString (some w)))), d') := by
  have hwords : inlineWords [] (c :: t) = wordsOf (c :: t) := inlineWords_eq List.not_mem_nil
  have hstreams := @streams_inPieces [c :: (t ++ CRLF)] (by simp) .eof 32
  have hword : RespWord (accepted 32) .top (c :: (t ++ CRLF)) _ :=
    .inline (.inl rfl) hc ht (hwords ▸ hne)
  have hparses : (newDecoder (inPieces [c :: (t ++ CRLF)] .eof) 32).Parses _ [] :=
    (parses_iff hstreams).mpr ⟨_, hword, by simp⟩
  rw [hwords]
  exact ⟨_, _, Prod.ext hparses.1 rfl⟩

/-- The calls of `Decode` take one value each, and leave the bytes behind them. -/
theorem Decoder.decodeMany_encode {vs : List RespValue} (hvs : ∀ v ∈ vs, WellFramed v)
    {d : Decoder} {rest : Bytes} (herr : d.err = none) (hsize : 32 ≤ d.br.size)
    (h : Delivers d.br (vs.flatMap encode ++ rest)) :
    ∃ d', d.decodeMany vs.length = (.ok vs, d') ∧ d'.err = none ∧ Delivers d'.br rest := by
  induction vs generalizing d with
  | nil => exact ⟨d, rfl, herr, by simpa using h⟩
  | cons v vs ih =>
    rw [List.flatMap_cons, List.append_assoc] at h
    obtain ⟨d₁, hd₁, herr₁, hsz₁, hdel₁⟩ :=
      Decoder.decode_encode (hvs v (List.mem_cons_self ..)) herr hsize h
    obtain ⟨d₂, hd₂, herr₂, hdel₂⟩ :=
      ih (fun u hu => hvs u (List.mem_cons_of_mem _ hu)) herr₁ (hsz₁ ▸ hsize) hdel₁
    exact ⟨d₂, by simp only [List.length_cons, Decoder.decodeMany, hd₁, hd₂], herr₂, hdel₂⟩

/-- **Codec round trip**: for every list of values whose texts end at their CR LF and whose
    lengths are within the limits, every continuation `s`, every buffer of at least 32 bytes
    and every way of cutting the stream into non-empty pieces, repeated decoding returns
    exactly the values, in order, and leaves exactly `s` unread. -/
theorem decodeMany_encodings (vs : List RespValue) (hvs : ∀ v ∈ vs, WellFramed v) (s : Bytes)
    (bufSize : Nat) (hbuf : 32 ≤ bufSize) (pieces : List Bytes) (hpieces : ∀ p ∈ pieces, p ≠ [])
    (hstream : pieces.flatten = vs.flatMap encode ++ s) (final : IoErr) :
    ∃ d', (newDecoder ⟨pieces.map (⟨·, none⟩), final⟩ bufSize).decodeMany vs.length =
        (.ok vs, d') ∧ d'.err = none ∧ d'.br.unread = s := by
  have hdel := (streams_inPieces hpieces final bufSize).toDelivers
  rw [hstream] at hdel
  have hsize : 32 ≤ (Reader.newReaderSize ⟨pieces.map (⟨·, none⟩), final⟩ bufSize).size := by
    simp only [Reader.newReaderSize]
    split
    · decide
    · exact hbuf
  obtain ⟨d', hd', herr', hrest⟩ := Decoder.decodeMany_encode
    (d := newDecoder ⟨pieces.map (⟨·, none⟩), final⟩ bufSize) hvs rfl hsize hdel
  exact ⟨d', hd', herr', hrest.unread_eq⟩

/-- A pipeline of a nested request with CR, LF and type bytes in its contents, a nil array and
    the smallest integer, arriving byte by byte in front of the start of another request. -/
def samplePipeline : List RespValue :=
  [.array (some [.bulkString (some (bytesOf "*$\r\n")), .bulkString none, .array (some [])]),
    .array none, .integer (-9223372036854775808), .bulkString (some [])]

theorem decodeMany_samplePipeline :
    ∃ d', (newDecoder
          ⟨((samplePipeline.flatMap encode ++ bytesOf "*2\r").map ([·])).map (⟨·, none⟩), .eof⟩
          32).decodeMany 4 = (.ok samplePipeline, d') ∧ d'.err = none ∧
      d'.br.unread = bytesOf "*2\r" :=
  decodeMany_encodings samplePipeline (by decide) (bytesOf "*2\r") 32 (by decide) _
    (by
      intro p hp
      obtain ⟨c, -, rfl⟩ := List.mem_map.mp hp
      exact List.cons_ne_nil c [])
    (by rw [← List.flatMap_def, List.flatMap_singleton']) .eof

end Samaritan.Redis
