import Samaritan.Redis.Framing

/-!
# Transparency of Compression

The compression filter should not be seen by the clients of the proxy: what it shortens on the
way to a backend it restores on the way back, and everything else it leaves alone. The filter
recognises its own output by its header only, and it works on a request again each time the
request is redirected. This module shows how far it is transparent.

* A value that does not start with the magic number comes back as it was sent, whatever the
  threshold and wherever it stands in a reply.
* A value that was stored as it is comes back changed exactly when it is itself a frame that the
  codec can decode.
* A redirected request is sent and answered as if it had been dispatched once exactly when no frame
  of a value is long enough, and short enough for the codec, to be put into a frame itself, and no
  text of the reply is a frame of a frame.
-/

namespace Samaritan.Redis

open Samaritan.Lib

/-! ## Places in a reply -/

/-- The value at a place, given by the indices that lead to it through nested arrays. -/
def RespValue.place : List Nat → RespValue → Option RespValue
  | [], v => some v
  | i :: path, v => (v.elems[i]?).bind (RespValue.place path)

/-- The text of a value, if it is one that `Decompress` looks at. -/
def RespValue.data : RespValue → Option Bytes
  | .simpleString t => some t
  | .bulkString t => t
  | _ => none

/-- The text at a place. -/
def RespValue.textAt (v : RespValue) (path : List Nat) : Option Bytes :=
  (v.place path).bind RespValue.data

theorem elems_decompress (z : Snappy) (v : RespValue) :
    (decompress z v).elems = v.elems.map (decompress z) := by
  cases v with
  | array vs =>
    cases vs with
    | none => rfl
    | some vs => simp [decompress, RespValue.elems, decompressList_eq_map]
  | bulkString t => cases t <;> rfl
  | _ => rfl

theorem data_decompress (z : Snappy) (v : RespValue) :
    (decompress z v).data = v.data.map (decompressed z) := by
  cases v with
  | array vs => cases vs <;> rfl
  | bulkString t => cases t <;> rfl
  | _ => rfl

theorem place_decompress (z : Snappy) (path : List Nat) (v : RespValue) :
    (decompress z v).place path = (v.place path).map (decompress z) := by
  induction path generalizing v with
  | nil => rfl
  | cons i path ih =>
    simp only [RespValue.place, elems_decompress, List.getElem?_map]
    cases v.elems[i]? with
    | none => rfl
    | some u => exact ih u

/-- `Decompress` works on each text of a reply alone. -/
theorem textAt_decompress (z : Snappy) (v : RespValue) (path : List Nat) :
    (decompress z v).textAt path = (v.textAt path).map (decompressed z) := by
  rw [RespValue.textAt, RespValue.textAt, place_decompress]
  cases v.place path with
  | none => rfl
  | some u => exact data_decompress z u

/-! ## Values that are compressed -/

/-- The reader of the codec restores what its writer was given. -/
def Snappy.Lossless (z : Snappy) : Prop :=
  ∀ src out, z.compress src = some out → z.decompress out = some src

/-- What `Compress` sends for a value. -/
def sentValue (z : Snappy) (cfg : Compression) (v : Bytes) : Bytes :=
  if UInt32.ofNat v.length < cfg.threshold then v else compressText z v cfg.algorithm

@[simp] theorem compressArg_bulkString (z : Snappy) (cfg : Compression) (v : Bytes) :
    compressArg z cfg (.bulkString (some v)) = .bulkString (some (sentValue z cfg v)) := by
  rw [sentValue]
  split <;> rename_i h <;> simp [compressArg, RespValue.text, RespValue.setText, h]

/-- The filter has a frame for the value: the value is not below the threshold, and what the codec
    makes of it is shorter, also with the header. -/
def HasFrame (z : Snappy) (cfg : Compression) (v out : Bytes) : Prop :=
  cfg.algorithm = 0 ∧ cfg.threshold ≤ UInt32.ofNat v.length ∧ z.compress v = some out ∧
    cpsHdrLen + out.length < v.length

/-- A value is sent as it is, or as a shorter frame. -/
theorem sentValue_cases (z : Snappy) (cfg : Compression) (v : Bytes) :
    (∃ out, HasFrame z cfg v out ∧ sentValue z cfg v = cpsHdr 0 ++ out) ∨
      (∀ out, ¬ HasFrame z cfg v out) ∧ sentValue z cfg v = v := by
  have hhdr : ∀ out : Bytes, (cpsHdr 0 ++ out).length = cpsHdrLen + out.length := by
    intro out
    rw [List.length_append]
    rfl
  rw [sentValue]
  split
  · rename_i hbelow
    exact .inr ⟨fun out h => absurd hbelow (UInt32.not_lt.mpr h.2.1), rfl⟩
  · rename_i hbelow
    rw [compressText]
    split
    · rename_i halg
      exact .inr ⟨fun out h => halg h.1, rfl⟩
    · rename_i halg
      obtain halg : cfg.algorithm = 0 := by simpa using halg
      rw [halg]
      split
      · rename_i hnone
        refine .inr ⟨fun out h => ?_, rfl⟩
        rw [h.2.2.1] at hnone
        cases hnone
      · rename_i out hout
        rw [hhdr]
        split
        · rename_i hlen
          refine .inr ⟨fun out' h => ?_, rfl⟩
          obtain rfl := Option.some.inj (hout.symm.trans h.2.2.1)
          exact absurd h.2.2.2 (by omega)
        · rename_i hlen
          exact .inl ⟨out, ⟨halg, UInt32.not_lt.mp hbelow, hout, by omega⟩, rfl⟩

theorem length_sentValue_le (z : Snappy) (cfg : Compression) (v : Bytes) :
    (sentValue z cfg v).length ≤ v.length := by
  rcases sentValue_cases z cfg v with ⟨out, hframe, h⟩ | ⟨-, h⟩
  · rw [h, List.length_append]
    exact hframe.2.2.2.le
  · rw [h]

theorem cpsHdr_zero : cpsHdr 0 = [40, 80, 36, 0, 13, 10] := by decide

/-- Behind a header of the filter the codec decides. -/
theorem decompressText_cpsHdr (z : Snappy) (out : Bytes) :
    decompressText z (cpsHdr 0 ++ out) = z.decompress out := by
  have hmagic : cpsMagicNumber = [40, 80, 36] := by decide
  simp [decompressText, cpsHdr_zero, cpsHdrLen, hmagic]

/-- A text without the magic number in front is left alone. -/
theorem decompressed_of_not_magic (z : Snappy) {v : Bytes} (h : ¬ cpsMagicNumber <+: v) :
    decompressed z v = v := by
  have htake : v.take cpsMagicNumber.length ≠ cpsMagicNumber :=
    fun htake => h (List.prefix_iff_eq_take.mpr htake.symm)
  have hnone : decompressText z v = none := by simp [decompressText, htake]
  rw [decompressed, hnone, Option.getD_none]

/-- **One value**: decompression restores it. -/
theorem decompressed_sentValue {z : Snappy} (hz : z.Lossless) (cfg : Compression) {v : Bytes}
    (h : ¬ cpsMagicNumber <+: v) : decompressed z (sentValue z cfg v) = v := by
  rcases sentValue_cases z cfg v with ⟨out, ⟨-, -, hout, -⟩, hsent⟩ | ⟨-, hsent⟩
  · rw [hsent, decompressed, decompressText_cpsHdr, hz v out hout, Option.getD_some]
  · rw [hsent, decompressed_of_not_magic z h]

/-! ### Commands with values -/

/-- A command in one of the documented shapes. -/
inductive ValueCommand where
  /-- `set`, `getset`, `setnx`: key value -/
  | value (cmd key value : Bytes)
  /-- `hset`, `hmset`, `hsetnx`: key field value [field value ...] -/
  | fields (cmd key : Bytes) (pairs : List (Bytes × Bytes))
  /-- `setex`, `psetex`: key time value -/
  | timed (cmd key time value : Bytes)

namespace ValueCommand

/-- The command word, in any letter case. -/
def cmd : ValueCommand → Bytes
  | value cmd _ _ => cmd
  | fields cmd _ _ => cmd
  | timed cmd _ _ _ => cmd

/-- The command word names a command of this shape. -/
def Named : ValueCommand → Prop
  | value cmd _ _ => ∃ name ∈ ["set", "getset", "setnx"], lowersTo cmd (bytesOf name) = true
  | fields cmd _ _ => ∃ name ∈ ["hset", "hmset", "hsetnx"], lowersTo cmd (bytesOf name) = true
  | timed cmd _ _ _ => ∃ name ∈ ["psetex", "setex"], lowersTo cmd (bytesOf name) = true

/-- The value arguments. -/
def values : ValueCommand → List Bytes
  | value _ _ v => [v]
  | fields _ _ pairs => pairs.map Prod.snd
  | timed _ _ _ v => [v]

/-- The same command with other values. -/
def mapValues (f : Bytes → Bytes) : ValueCommand → ValueCommand
  | value cmd key v => value cmd key (f v)
  | fields cmd key pairs => fields cmd key (pairs.map fun p => (p.1, f p.2))
  | timed cmd key time v => timed cmd key time (f v)

/-- The words of the command. -/
def words : ValueCommand → List Bytes
  | value cmd key v => [cmd, key, v]
  | fields cmd key pairs => cmd :: key :: pairs.flatMap fun p => [p.1, p.2]
  | timed cmd key time v => [cmd, key, time, v]

/-- The body of a request with this command. -/
def body (c : ValueCommand) : RespValue :=
  .array (some (c.words.map fun w => .bulkString (some w)))

/-- Where `Compress` finds the first value. -/
def offset : ValueCommand → Nat
  | value _ _ _ => 2
  | fields _ _ _ => 3
  | timed _ _ _ _ => 3

end ValueCommand

/-- No name of the first group is one of the second group. -/
theorem not_any_of_lowersTo {cmd : Bytes} {name : String} {names : List String}
    (h : lowersTo cmd (bytesOf name) = true) (hname : IsLower (bytesOf name))
    (hnames : ∀ n ∈ names, IsLower (bytesOf n) ∧ bytesOf n ≠ bytesOf name) :
    (names.any fun c => lowersTo cmd (bytesOf c)) = false := by
  rw [List.any_eq_false]
  intro n hn hlower
  exact (hnames n hn).2 (lowersTo_unique (hnames n hn).1 hname hlower h)

theorem ValueCommand.compressOffset_cmd {c : ValueCommand} (hc : c.Named) :
    compressOffset c.cmd = some c.offset := by
  have hsecond : ∀ {cmd : Bytes} {name : String},
      name ∈ ["hset", "hmset", "hsetnx", "psetex", "setex"] →
      lowersTo cmd (bytesOf name) = true → compressOffset cmd = some 3 := by
    intro cmd name hname hlower
    have hnames : ∀ m ∈ ["hset", "hmset", "hsetnx", "psetex", "setex"], IsLower (bytesOf m) ∧
        ∀ n ∈ ["set", "getset", "setnx"], IsLower (bytesOf n) ∧ bytesOf n ≠ bytesOf m := by
      decide +kernel
    obtain ⟨hlow, hother⟩ := hnames name hname
    rw [compressOffset, not_any_of_lowersTo hlower hlow hother, if_neg (by simp),
      if_pos (List.any_eq_true.mpr ⟨name, hname, hlower⟩)]
  cases c with
  | value cmd key v =>
    obtain ⟨name, hname, hlower⟩ := hc
    exact if_pos (List.any_eq_true.mpr ⟨name, hname, hlower⟩)
  | fields cmd key pairs =>
    obtain ⟨name, hname, hlower⟩ := hc
    exact hsecond (List.mem_append_left ["psetex", "setex"] hname) hlower
  | timed cmd key time v =>
    obtain ⟨name, hname, hlower⟩ := hc
    exact hsecond (List.mem_append_right ["hset", "hmset", "hsetnx"] hname) hlower

/-- The loop of `Compress` over field-value pairs, from the first value on. -/
theorem compressArgs_pairs (z : Snappy) (cfg : Compression) (v : Bytes)
    (pairs : List (Bytes × Bytes)) :
    compressArgs z cfg (.bulkString (some v) ::
      (pairs.flatMap fun p => [p.1, p.2]).map fun w => .bulkString (some w)) =
    .bulkString (some (sentValue z cfg v)) ::
      (pairs.flatMap fun p => [p.1, sentValue z cfg p.2]).map fun w => .bulkString (some w) := by
  induction pairs generalizing v with
  | nil => simp [compressArgs]
  | cons p pairs ih => simp [compressArgs, ih]

/-- `Compress` replaces the value arguments and nothing else. -/
theorem ValueCommand.compress_body (z : Snappy) (cfg : Compression) {c : ValueCommand}
    (hc : c.Named) : compress z cfg c.cmd c.body = (c.mapValues (sentValue z cfg)).body := by
  unfold compress
  rw [c.compressOffset_cmd hc]
  cases c with
  | value cmd key v | timed cmd key time v => simp [body, words, offset, mapValues, compressArgs]
  | fields cmd key pairs =>
    cases pairs with
    | nil => simp [body, words, offset, mapValues, compressArgs]
    | cons p pairs =>
      simp [body, words, offset, mapValues, compressArgs_pairs, List.flatMap_map]

/-- **Compression is transparent**: with a lossless codec, for every threshold and every command
    of the documented shapes none of whose values starts with the magic number, `Compress` changes
    nothing but the values, makes none of them longer, and `Decompress` restores each of them
    wherever it stands in a reply. -/
theorem compression_transparent {z : Snappy} (hz : z.Lossless) (cfg : Compression)
    {c : ValueCommand} (hc : c.Named) (hmagic : ∀ v ∈ c.values, ¬ cpsMagicNumber <+: v) :
    compress z cfg c.cmd c.body = (c.mapValues (sentValue z cfg)).body ∧
      ∀ v ∈ c.values, (sentValue z cfg v).length ≤ v.length ∧
        ∀ (reply : RespValue) (path : List Nat), reply.textAt path = some (sentValue z cfg v) →
          (decompress z reply).textAt path = some v := by
  refine ⟨c.compress_body z cfg hc, fun v hv => ⟨length_sentValue_le z cfg v, ?_⟩⟩
  intro reply path hreply
  rw [textAt_decompress, hreply, Option.map_some, decompressed_sentValue hz cfg (hmagic v hv)]

/-! ### Outputs of the codec -/

/-- What the `SNAPPY` writer puts in front of every stream. -/
def snappyId : Bytes := [255, 6, 0, 0] ++ bytesOf "sNaPpY"

/-- The stream for the text `hello`: one chunk, not compressed, behind its checksum. -/
def helloStream : Bytes := snappyId ++ [1, 9, 0, 0, 187, 31, 28, 25] ++ bytesOf "hello"

def helloFrame : Bytes := cpsHdr 0 ++ helloStream

/-- A thousand zero bytes. -/
def zeros : Bytes := List.replicate 1000 0

/-- Their stream: one zero, and copies of 64 bytes and of the 39 bytes that are left. -/
def zerosStream : Bytes :=
  snappyId ++ [0, 56, 0, 0, 115, 155, 50, 87, 232, 7, 0, 0] ++
    (List.replicate 15 [254, 1, 0]).flatten ++ [154, 1, 0]

def zerosFrame : Bytes := cpsHdr 0 ++ zerosStream

/-- Some texts and the streams that the writer makes of them. -/
def snappyTable : List (Bytes × Bytes) :=
  [(bytesOf "hello", helloStream),
    (helloFrame, snappyId ++ [1, 33, 0, 0, 227, 109, 81, 139] ++ helloFrame),
    (zeros, zerosStream),
    (zerosFrame, snappyId ++ [0, 43, 0, 0, 20, 59, 219, 251, 76, 116] ++ zerosFrame.take 30 ++
      [170, 3, 0, 8, 154, 1, 0])]

/-- The codec on these texts. -/
def tableSnappy : Snappy where
  compress src := (snappyTable.find? fun e => e.1 = src).map Prod.snd
  decompress out := (snappyTable.find? fun e => e.2 = out).map Prod.fst

theorem tableSnappy_lossless : tableSnappy.Lossless := by
  have hall : ∀ e ∈ snappyTable, tableSnappy.decompress e.2 = some e.1 := by decide +kernel
  intro src out h
  obtain ⟨e, hfind, rfl⟩ := Option.map_eq_some_iff.mp h
  have hsrc : e.1 = src := by simpa using List.find?_some hfind
  rw [← hsrc]
  exact hall e (List.mem_of_find?_eq_some hfind)

/-- A hash with one field whose value can be shortened and one whose value is too short. -/
def sampleHset : ValueCommand :=
  .fields (bytesOf "HSet") (bytesOf "k") [(bytesOf "f", zeros), (bytesOf "g", bytesOf "v")]

theorem compression_transparent_sampleHset :
    sentValue tableSnappy ⟨true, 0, 10⟩ zeros = zerosFrame ∧
      compress tableSnappy ⟨true, 0, 10⟩ sampleHset.cmd sampleHset.body =
        (sampleHset.mapValues (sentValue tableSnappy ⟨true, 0, 10⟩)).body ∧
      ∀ v ∈ sampleHset.values, (sentValue tableSnappy ⟨true, 0, 10⟩ v).length ≤ v.length ∧
        ∀ (reply : RespValue) (path : List Nat),
          reply.textAt path = some (sentValue tableSnappy ⟨true, 0, 10⟩ v) →
          (decompress tableSnappy reply).textAt path = some v :=
  ⟨by decide +kernel, compression_transparent tableSnappy_lossless _
    ⟨"hset", by simp, by decide +kernel⟩ (by decide +kernel)⟩

/-! ## Values that are not compressed -/

/-- The filter sends the value as it is: compression is off, or does not shorten it, or the value
    is below the threshold. -/
def StoredPlain (z : Snappy) (cfg : Option Compression) (v : Bytes) : Prop :=
  ∀ c, cfg = some c → c.enable = true → sentValue z c v = v

/-- The value is taken for a frame of the filter: it has the magic number and the number of the
    algorithm where a frame has them, and the codec makes something else of the rest. -/
def Misread (z : Snappy) (v : Bytes) : Prop :=
  cpsHdrLen ≤ v.length ∧ v.take cpsMagicNumber.length = cpsMagicNumber ∧
    v[cpsMagicNumber.length]? = some 0 ∧
    ∃ w, z.decompress (v.drop cpsHdrLen) = some w ∧ w ≠ v

theorem decompressed_eq_self_iff (z : Snappy) (v : Bytes) :
    decompressed z v = v ↔ ¬ Misread z v := by
  rw [decompressed, decompressText, Misread]
  split
  · rename_i hlen
    simp [Nat.not_le.mpr hlen]
  · rename_i hlen
    split
    · rename_i hmagic
      simp [hmagic]
    · rename_i hmagic
      split
      · rename_i halg
        simp [halg]
      · rename_i halg
        simp only [Nat.not_lt.mp hlen, not_not.mp hmagic, not_not.mp halg, true_and, not_exists,
          not_and, not_not]
        cases z.decompress (v.drop cpsHdrLen) <;> simp

/-- **Values stored as they are**: `Decompress` leaves a value alone in every reply that holds it
    exactly when the value is not taken for a frame. -/
theorem decompress_leaves_iff (z : Snappy) (v : Bytes) :
    (∀ (reply : RespValue) (path : List Nat), reply.textAt path = some v →
      (decompress z reply).textAt path = some v) ↔ ¬ Misread z v := by
  rw [← decompressed_eq_self_iff]
  constructor
  -- the reply may be the value itself
  · intro h
    have hself := h (.bulkString (some v)) [] rfl
    rw [textAt_decompress] at hself
    exact Option.some.inj hself
  · intro hv reply path hreply
    rw [textAt_decompress, hreply, Option.map_some, hv]

/-- Whatever the codec, the frame of a text is taken for a frame, also when a client stores it. -/
theorem misread_frame {z : Snappy} (hz : z.Lossless) {v out : Bytes} (h : z.compress v = some out)
    (hne : cpsHdr 0 ++ out ≠ v) : Misread z (cpsHdr 0 ++ out) := by
  by_contra hnot
  rw [← decompressed_eq_self_iff, decompressed, decompressText_cpsHdr, hz v out h,
    Option.getD_some] at hnot
  exact hne hnot.symm

/-- A frame that a client stores is not compressed under any configuration, and comes back as the
    text it stands for. -/
theorem not_decompress_leaves_frame :
    tableSnappy.Lossless ∧ (∀ cfg, StoredPlain tableSnappy cfg helloFrame) ∧
      Misread tableSnappy helloFrame ∧
      (decompress tableSnappy (.bulkString (some helloFrame))).textAt [] =
        some (bytesOf "hello") := by
  refine ⟨tableSnappy_lossless, fun cfg c _ _ => ?_, ?_, by decide +kernel⟩
  · rcases sentValue_cases tableSnappy c helloFrame with ⟨out, ⟨-, -, hout, hlt⟩, -⟩ | ⟨-, h⟩
    · -- the codec adds its own header to the frame
      have hlen : ∀ out' ∈ tableSnappy.compress helloFrame,
          helloFrame.length ≤ out'.length := by decide +kernel
      exact absurd (hlen out hout) (by omega)
    · exact h
  · exact misread_frame tableSnappy_lossless (v := bytesOf "hello") (by decide +kernel)
      (by decide +kernel)

/-! ## Requests that are dispatched again -/

/-- The body of the request behind the filters. -/
def FilterStatus.body : FilterStatus → RespValue
  | .passed req => req.body
  | .stopped req _ => req.body

/-- What a filter that passes a request on does to its body. -/
def filterBody (z : Snappy) (cfg : Option Compression) (cmd : Bytes) (body : RespValue) :
    RespValue :=
  match cfg with
  | none => body
  | some c => if c.enable then compress z c cmd body else body

theorem compressFilterDo_of_not_banned (z : Snappy) (cfg : Option Compression)
    (req : SimpleRequest) (hban : bannedBy req.cmd [cfg] = false) :
    compressFilterDo z cfg req = .passed ⟨filterBody z cfg req.cmd req.body,
      req.hooks ++ List.replicate (decompressions req.cmd [cfg]) .decompress⟩ := by
  cases cfg with
  | none => simp [compressFilterDo, filterBody, decompressions]
  | some c =>
    have hhooks := withDecompress_hooks req c
    cases henable : c.enable with
    | false => simp [compressFilterDo, filterBody, henable, ← hhooks, ← withDecompress_body req]
    | true =>
      have hfind : bannedCmdsInCps.find? (lowersTo req.cmd) = none := by
        simpa [bannedBy, henable] using hban
      simp [compressFilterDo, filterBody, henable, hfind, ← hhooks]

theorem cmd_filterBody (z : Snappy) (cfg : Option Compression) (req : SimpleRequest)
    (hooks : List Hook) :
    (⟨filterBody z cfg req.cmd req.body, hooks⟩ : SimpleRequest).cmd = req.cmd := by
  cases cfg with
  | none => rfl
  | some c =>
    rw [SimpleRequest.cmd, filterBody]
    split
    · rw [head_elems_compress]
      rfl
    · rfl

/-- A request that is not banned goes through one filter after the other. -/
theorem passFilters_replicate (z : Snappy) (cfg : Option Compression) (k : Nat)
    (req : SimpleRequest) (hban : bannedBy req.cmd [cfg] = false) :
    passFilters z (List.replicate k cfg) req = .passed ⟨(filterBody z cfg req.cmd)^[k] req.body,
      req.hooks ++ List.replicate (k * decompressions req.cmd [cfg]) .decompress⟩ := by
  induction k generalizing req with
  | zero => simp [passFilters]
  | succ k ih =>
    rw [List.replicate_succ, passFilters, compressFilterDo_of_not_banned z cfg req hban]
    have hcmd := cmd_filterBody z cfg req
      (req.hooks ++ List.replicate (decompressions req.cmd [cfg]) .decompress)
    dsimp only
    rw [ih _ (by rw [hcmd]; exact hban), hcmd, Function.iterate_succ_apply, List.append_assoc,
      List.replicate_append_replicate, Nat.succ_mul, Nat.add_comm]

/-- A banned request is answered by the first filter. -/
theorem passFilters_of_banned (z : Snappy) (cfg : Option Compression) (k : Nat)
    (req : SimpleRequest) (hban : bannedBy req.cmd [cfg] = true) :
    passFilters z (List.replicate (k + 1) cfg) req = passFilters z [cfg] req := by
  rcases compressFilterDo_cases z cfg req with ⟨-, req', t, hdo, -⟩ | ⟨hpass, -⟩
  · rw [List.replicate_succ, passFilters, passFilters, hdo]
  · rw [hban] at hpass
    cases hpass

/-- A text that `Decompress` changes is no number. -/
theorem btoi64_eq_error_of_decompressed {z : Snappy} {t : Bytes} (h : decompressed z t ≠ t) :
    ∃ e, btoi64 t = .error e := by
  cases hnum : btoi64 t with
  | error e => exact ⟨e, rfl⟩
  | ok n =>
    have hmagic : cpsMagicNumber <+: t := by
      by_contra hnot
      exact h (decompressed_of_not_magic z hnot)
    have hmem : (40 : UInt8) ∈ t := hmagic.subset (by decide)
    exact absurd (mem_of_btoi64 hnum hmem) (by decide)

theorem formatUint_ne_of_decompressed {z : Snappy} {t : Bytes} (h : decompressed z t ≠ t)
    (m : UInt64) : formatUint m ≠ t := by
  rintro rfl
  have hmagic : cpsMagicNumber <+: formatUint m := by
    by_contra hnot
    exact h (decompressed_of_not_magic z hnot)
  exact absurd (isDigit_of_mem_formatNat (hmagic.subset (by decide : (40 : UInt8) ∈ _))) (by decide)

/-- An element that `Decompress` changes is no cursor, and no cursor is put in its place. -/
theorem not_cursor_of_decompress {z : Snappy} {v : RespValue} (h : decompress z v ≠ v) :
    (∃ e, btoi64 v.text = .error e) ∧
      ∀ n m, btoi64 (decompress z v).text = .ok n →
        (decompress z v).setText (formatUint m) ≠ v := by
  cases v with
  | simpleString t =>
    have ht : decompressed z t ≠ t := fun ht => h (by rw [decompress, ht])
    exact ⟨btoi64_eq_error_of_decompressed ht, fun n m _ heq =>
      formatUint_ne_of_decompressed ht m (RespValue.simpleString.inj heq)⟩
  | bulkString t =>
    cases t with
    | none => exact absurd (by rw [decompress]) h
    | some t =>
      have ht : decompressed z t ≠ t := fun ht => h (by rw [decompress, ht])
      exact ⟨btoi64_eq_error_of_decompressed ht, fun n m _ heq =>
        formatUint_ne_of_decompressed ht m (Option.some.inj (RespValue.bulkString.inj heq))⟩
  | error t | integer i => exact absurd (by rw [decompress]) h
  | array vs =>
    -- an array has no text
    refine ⟨⟨_, rfl⟩, fun n m hn => ?_⟩
    cases vs <;> cases hn

/-- The cursor hook does not hide a decompression. -/
theorem nextCursorHook_decompress_iff (z : Snappy) (nodeIdx : UInt16) (u : RespValue) :
    nextCursorHook nodeIdx (decompress z u) = nextCursorHook nodeIdx u ↔ decompress z u = u := by
  constructor
  · intro h
    match u with
    | .array (some (v :: vs)) =>
      simp only [decompress, decompressList, decompressList_eq_map] at h ⊢
      -- only the first element, the cursor, is read by the hook
      by_cases hv : decompress z v = v
      · rw [hv] at h ⊢
        simp only [nextCursorHook] at h
        cases hnum : btoi64 v.text <;> simp_all
      · obtain ⟨⟨e, herr⟩, hcursor⟩ := not_cursor_of_decompress hv
        simp only [nextCursorHook, herr] at h
        cases hnum : btoi64 (decompress z v).text with
        | error e' => simpa [hnum] using h
        -- the decompressed cursor is a number, the frame is not
        | ok n =>
          simp only [hnum] at h
          have hfirst := (List.cons.inj (Option.some.inj
            (RespValue.array.inj (Option.some.inj h)))).1
          exact absurd hfirst (hcursor n _ hnum)
    | .array (some []) => rfl
    | .array none => rfl
    | .bulkString none => rfl
    | .bulkString (some t) => exact Option.some.inj h
    | .simpleString t => exact Option.some.inj h
    | .error t => rfl
    | .integer i => rfl
  · intro h
    rw [h]

/-- The simple requests the handlers make. -/
def Dispatched (req : SimpleRequest) : Prop :=
  ∃ s body join children route, handleRequest s body = .split join children ∧
    (route, req) ∈ children

/-- The hooks of such a request do not hide a decompression. -/
theorem Dispatched.setResponse_decompress_iff {req : SimpleRequest} (h : Dispatched req)
    (z : Snappy) (u : RespValue) :
    req.setResponse z (decompress z u) = req.setResponse z u ↔ decompress z u = u := by
  obtain ⟨s, body, join, children, route, hsplit, hmem⟩ := h
  obtain ⟨hdlr, hhdlr⟩ := exists_handle_of_split hsplit
  -- the handlers register one of three lists of hooks
  have hhooks : req.hooks = [.bindRaw] ∨ (∃ nodeIdx, req.hooks = [.bindRaw, .nextCursor nodeIdx]) ∨
      req.hooks = [.childDone] := by
    rcases hdlr.handle_cases s body with ⟨v, hv⟩ | ⟨c, hc, hhooks⟩ | ⟨join', cs, hc, -, hhooks⟩
    · rw [hhdlr] at hv
      cases hv
    · rw [hhdlr] at hc
      obtain ⟨-, rfl⟩ := Handling.split.inj hc
      obtain rfl := List.mem_singleton.mp hmem
      rcases hhooks with hhooks | hhooks
      · exact .inl hhooks
      · exact .inr (.inl hhooks)
    · rw [hhdlr] at hc
      obtain ⟨-, rfl⟩ := Handling.split.inj hc
      exact .inr (.inr (hhooks _ hmem))
  rcases hhooks with hhooks | ⟨nodeIdx, hhooks⟩ | hhooks
  · simp [SimpleRequest.setResponse, hhooks, Hook.run]
  · rw [← nextCursorHook_decompress_iff z nodeIdx u]
    have hrun : ∀ w : Option RespValue, (w.bind fun v => Hook.run z .bindRaw v) = w := by
      intro w
      cases w <;> rfl
    simp only [SimpleRequest.setResponse, hhooks, List.foldr_cons, List.foldr_nil, Option.bind_some,
      hrun]
    rfl
  · simp [SimpleRequest.setResponse, hhooks, Hook.run]

/-! ### What a second pass changes -/

/-- Every second element, from the first one on. -/
def everySecond {α : Type} : List α → List α
  | [] => []
  | [v] => [v]
  | v :: _ :: vs => v :: everySecond vs

/-- The arguments the loop of `Compress` looks at. -/
def valueArgs (cmd : Bytes) (body : RespValue) : List RespValue :=
  match compressOffset cmd, body with
  | some offset, .array (some vs) => everySecond (vs.drop offset)
  | _, _ => []

theorem compressArgs_compressArgs_iff (z : Snappy) (cfg : Compression) (vs : List RespValue) :
    compressArgs z cfg (compressArgs z cfg vs) = compressArgs z cfg vs ↔
      ∀ a ∈ everySecond vs, compressArg z cfg (compressArg z cfg a) = compressArg z cfg a := by
  induction vs using everySecond.induct with
  | case1 | case2 v => simp [compressArgs, everySecond]
  | case3 v w vs ih => simp [compressArgs, everySecond, ih]

/-- The frame of a value has a frame itself. -/
def Recompresses (z : Snappy) (cfg : Compression) (v : Bytes) : Prop :=
  ∃ out out', HasFrame z cfg v out ∧ HasFrame z cfg (cpsHdr 0 ++ out) out'

theorem sentValue_sentValue_iff (z : Snappy) (cfg : Compression) (v : Bytes) :
    sentValue z cfg (sentValue z cfg v) = sentValue z cfg v ↔ ¬ Recompresses z cfg v := by
  rcases sentValue_cases z cfg v with ⟨out, hout, hsent⟩ | ⟨hnot, hsent⟩
  · rw [hsent]
    rcases sentValue_cases z cfg (cpsHdr 0 ++ out) with ⟨out', hout', hsent'⟩ | ⟨hnot', hsent'⟩
    · -- the second frame is shorter than the first one
      refine iff_of_false (fun heq => ?_) fun h => h ⟨out, out', hout, hout'⟩
      have hlen := congrArg List.length (hsent'.symm.trans heq)
      have hlt := hout'.2.2.2
      simp only [List.length_append] at hlen hlt
      have hhdr : (cpsHdr 0).length = cpsHdrLen := rfl
      omega
    · refine iff_of_true hsent' ?_
      rintro ⟨out₁, out', hout₁, hout'⟩
      obtain rfl := Option.some.inj (hout.2.2.1.symm.trans hout₁.2.2.1)
      exact hnot' out' hout'
  · refine iff_of_true (by rw [hsent, hsent]) ?_
    rintro ⟨out, -, hout, -⟩
    exact hnot out hout

/-- A second pass leaves the compressed value alone exactly when its frame has no frame. A value
    without a text has no frame at all. -/
theorem compressArg_compressArg_iff (z : Snappy) (cfg : Compression) (a : RespValue) :
    compressArg z cfg (compressArg z cfg a) = compressArg z cfg a ↔
      ¬ Recompresses z cfg a.text := by
  -- nothing is shorter than the empty value
  have hnil : ¬ Recompresses z cfg [] := by
    rintro ⟨out, -, ⟨-, -, -, hlt⟩, -⟩
    simp at hlt
  have hargs : ∀ t, compressArg z cfg (.simpleString t) = .simpleString (sentValue z cfg t) ∧
      compressArg z cfg (.error t) = .error (sentValue z cfg t) := by
    intro t
    rw [sentValue]
    split <;> rename_i h <;> simp [compressArg, RespValue.text, RespValue.setText, h]
  cases a with
  | simpleString t =>
    rw [(hargs t).1, (hargs _).1, RespValue.simpleString.injEq, sentValue_sentValue_iff]
    rfl
  | error t =>
    rw [(hargs t).2, (hargs _).2, RespValue.error.injEq, sentValue_sentValue_iff]
    rfl
  | bulkString t =>
    cases t with
    | none => exact iff_of_true rfl hnil
    | some t =>
      rw [compressArg_bulkString, compressArg_bulkString, RespValue.bulkString.injEq,
        Option.some.injEq, sentValue_sentValue_iff]
      rfl
  | integer i | array vs => exact iff_of_true (by simp [compressArg, RespValue.setText]) hnil

/-- A second pass leaves the body alone exactly when no frame of a value has a frame. -/
theorem compress_compress_iff (z : Snappy) (cfg : Compression) (cmd : Bytes) (body : RespValue) :
    compress z cfg cmd (compress z cfg cmd body) = compress z cfg cmd body ↔
      ∀ a ∈ valueArgs cmd body, ¬ Recompresses z cfg a.text := by
  simp only [← compressArg_compressArg_iff]
  unfold compress valueArgs
  cases hoffset : compressOffset cmd with
  | none => simp
  | some offset =>
    match body with
    | .array (some vs) =>
      rw [← compressArgs_compressArgs_iff]
      -- the second pass finds the first value at the same place
      have hparts : (vs.take offset ++ compressArgs z cfg (vs.drop offset)).take offset =
            vs.take offset ∧
          (vs.take offset ++ compressArgs z cfg (vs.drop offset)).drop offset =
            compressArgs z cfg (vs.drop offset) := by
        rcases le_total offset vs.length with hle | hle
        · have hlen : (vs.take offset).length = offset := by simpa using hle
          exact ⟨List.take_left' hlen, List.drop_left' hlen⟩
        · rw [List.drop_of_length_le hle]
          simp [compressArgs, hle]
      simp [hparts.1, hparts.2]
    | .array none => simp
    | .bulkString t => simp
    | .simpleString t => simp
    | .error t => simp
    | .integer i => simp

/-- The text has the header of a frame, and the codec makes `w` of the rest. -/
def FrameOf (z : Snappy) (t w : Bytes) : Prop :=
  cpsHdrLen ≤ t.length ∧ t.take cpsMagicNumber.length = cpsMagicNumber ∧
    t[cpsMagicNumber.length]? = some 0 ∧ z.decompress (t.drop cpsHdrLen) = some w

theorem decompressText_eq_some_iff (z : Snappy) (t w : Bytes) :
    decompressText z t = some w ↔ FrameOf z t w := by
  rw [decompressText, FrameOf]
  split
  · rename_i hlen
    simp [Nat.not_le.mpr hlen]
  · rename_i hlen
    split
    · rename_i hmagic
      simp [hmagic]
    · rename_i hmagic
      split
      · rename_i halg
        simp [halg]
      · rename_i halg
        simp [Nat.not_lt.mp hlen, not_not.mp hmagic, not_not.mp halg]

/-- A second decompression leaves a text alone exactly when the text is not a frame of a frame. -/
theorem decompressed_decompressed_iff (z : Snappy) (t : Bytes) :
    decompressed z (decompressed z t) = decompressed z t ↔
      ∀ w, FrameOf z t w → ¬ Misread z w := by
  simp only [← decompressText_eq_some_iff, ← decompressed_eq_self_iff]
  cases htext : decompressText z t with
  | none => simp [decompressed, htext]
  | some w =>
    have hw : decompressed z t = w := by simp [decompressed, htext]
    simp [hw]

/-- A second decompression leaves the reply alone exactly when no text of it is a frame of a
    frame. -/
theorem decompress_decompress_iff (z : Snappy) (v : RespValue) :
    decompress z (decompress z v) = decompress z v ↔
      ∀ path t, v.textAt path = some t → ∀ w, FrameOf z t w → ¬ Misread z w := by
  simp only [← decompressed_decompressed_iff]
  constructor
  · intro h path t ht
    have htext := congrArg (·.textAt path) h
    simpa [textAt_decompress, ht] using htext
  · intro h
    induction v using RespValue.inductionOn with
    | hsimple t => simp only [decompress, h [] t rfl]
    | hbulk t =>
      cases t with
      | none => rfl
      | some t => simp only [decompress, h [] t rfl]
    | herror t | hint i | hnil => rfl
    | harray vs ih =>
      simp only [decompress, decompressList_eq_map, List.map_map]
      congr 2
      refine List.map_congr_left fun v hv => ih v hv fun path t ht => ?_
      obtain ⟨i, hi⟩ := List.mem_iff_getElem?.mp hv
      exact h (i :: path) t (by simpa [RespValue.textAt, RespValue.place, RespValue.elems, hi]
        using ht)

/-- The request and the reply leave nothing to a second pass through the filter: no frame of a
    value has a frame, and no text of the reply is a frame of a frame. -/
def Settles (z : Snappy) (c : Compression) (req : SimpleRequest) (v : RespValue) : Prop :=
  (c.enable = true → ∀ a ∈ valueArgs req.cmd req.body, ¬ Recompresses z c a.text) ∧
  (wkSkipCheckCmdsInDecps.any (lowersTo req.cmd) = false → ∀ path t, v.textAt path = some t →
    ∀ w, FrameOf z t w → ¬ Misread z w)

theorem response_replicate (z : Snappy) (cfg : Option Compression) (k : Nat) (req : SimpleRequest)
    (answer : Answer) (hban : bannedBy req.cmd [cfg] = false) :
    req.response z ⟨List.replicate k cfg, answer⟩ =
      req.setResponse z ((decompress z)^[k * decompressions req.cmd [cfg]] answer.value) := by
  rw [SimpleRequest.response, passFilters_replicate z cfg k req hban]
  exact setResponse_of_hooks z rfl answer.value

/-- A second pass is enough to see whether more passes change anything. -/
theorem settles_iff (z : Snappy) (c : Compression) {req : SimpleRequest} (v : RespValue) :
    Settles z c req v ↔
      filterBody z (some c) req.cmd (filterBody z (some c) req.cmd req.body) =
        filterBody z (some c) req.cmd req.body ∧
      (decompress z)^[2 * decompressions req.cmd [some c]] v =
        (decompress z)^[decompressions req.cmd [some c]] v := by
  rw [Settles]
  refine and_congr ?_ ?_
  · cases henable : c.enable with
    | false => simp [filterBody, henable]
    | true => simpa [filterBody, henable] using (compress_compress_iff z c req.cmd req.body).symm
  · cases hskip : wkSkipCheckCmdsInDecps.any (lowersTo req.cmd) with
    | false => simpa [decompressions, hskip] using (decompress_decompress_iff z v).symm
    | true => simp [decompressions, hskip]

/-- **Redirected requests**: a request that the filters of `k` clients see is sent and answered as
    if one had seen it, for every `k`, exactly when no frame of one of its values has a frame and
    no text of the reply is a frame of a frame. The filter answers a banned command at the first
    pass, and without a compression option it does nothing. -/
theorem redispatch_iff (z : Snappy) (cfg : Option Compression) {req : SimpleRequest}
    (hreq : Dispatched req) (answer : Answer) :
    (∀ k, 1 ≤ k →
      (passFilters z (List.replicate k cfg) req).body = (passFilters z [cfg] req).body ∧
      req.response z ⟨List.replicate k cfg, answer⟩ = req.response z ⟨[cfg], answer⟩) ↔
    (∀ c, cfg = some c → bannedBy req.cmd [cfg] = false → Settles z c req answer.value) := by
  cases hban : bannedBy req.cmd [cfg] with
  | true =>
    simp only [Bool.true_eq_false, false_implies, implies_true, iff_true]
    intro k hk
    obtain ⟨k, rfl⟩ := Nat.exists_eq_add_of_le' hk
    simp only [SimpleRequest.response, passFilters_of_banned z cfg k req hban, and_self]
  | false =>
    have hbody : ∀ k, (passFilters z (List.replicate k cfg) req).body =
        (filterBody z cfg req.cmd)^[k] req.body := fun k => by
      rw [passFilters_replicate z cfg k req hban, FilterStatus.body]
    have hresp := fun k => response_replicate z cfg k req answer hban
    have hone : [cfg] = List.replicate 1 cfg := rfl
    simp only [forall_const]
    constructor
    · rintro h c rfl
      have htwo := h 2 (by decide)
      rw [hone, hbody, hbody, hresp, hresp] at htwo
      rw [settles_iff]
      refine ⟨htwo.1, ?_⟩
      rw [Nat.one_mul] at htwo
      -- the number of hooks a pass adds is zero or one
      have hle : decompressions req.cmd [some c] = 0 ∨ decompressions req.cmd [some c] = 1 := by
        rw [decompressions]
        split <;> simp
      rcases hle with hd | hd
      · rw [hd]
      · rw [hd] at htwo ⊢
        exact (hreq.setResponse_decompress_iff z (decompress z answer.value)).mp htwo.2
    · intro h k hk
      rw [hone, hbody, hbody, hresp, hresp]
      obtain ⟨k, rfl⟩ := Nat.exists_eq_add_of_le' hk
      cases cfg with
      | none =>
        have hfix : filterBody z none req.cmd req.body = req.body := rfl
        rw [Function.iterate_fixed hfix, Function.iterate_fixed hfix]
        simp [decompressions]
      | some c =>
        obtain ⟨hfix, hfix'⟩ := (settles_iff z c answer.value).mp (h c rfl)
        rw [Nat.two_mul, Function.iterate_add_apply] at hfix'
        refine ⟨?_, ?_⟩
        · rw [Function.iterate_succ_apply, Function.iterate_fixed hfix]
          rfl
        · rw [Nat.one_mul, Nat.mul_comm, Function.iterate_mul, Function.iterate_succ_apply,
            Function.iterate_fixed hfix']

/-- A `SET` of a thousand zero bytes. -/
def zerosSet : SimpleRequest :=
  ⟨(ValueCommand.value (bytesOf "set") (bytesOf "k") zeros).body, [.bindRaw]⟩

theorem dispatched_zerosSet : Dispatched zerosSet := by
  refine ⟨noSurroundings, zerosSet.body, .single, [(.key (bytesOf "k"), zerosSet)],
    .key (bytesOf "k"), ?_, by simp⟩
  have hvalid : isValid zerosSet.body = true := by decide +kernel
  have hfind : findHandler (word zerosSet.body 0) = some .simpleCommand := by decide +kernel
  simp only [handleRequest, hvalid, hfind]
  rfl

/-- After one redirection the value is compressed twice. -/
theorem redispatch_zerosSet :
    tableSnappy.Lossless ∧ Dispatched zerosSet ∧
      (passFilters tableSnappy (List.replicate 2 (some ⟨true, 0, 10⟩)) zerosSet).body ≠
        (passFilters tableSnappy [some ⟨true, 0, 10⟩] zerosSet).body := by
  refine ⟨tableSnappy_lossless, dispatched_zerosSet, fun h => ?_⟩
  have hlen := congrArg (fun body => (word body 2).length) h
  revert hlen
  decide +kernel

theorem redispatch_iff_zerosSet :
    (∀ k, 1 ≤ k →
      (passFilters tableSnappy (List.replicate k (some ⟨true, 0, 10⟩)) zerosSet).body =
        (passFilters tableSnappy [some ⟨true, 0, 10⟩] zerosSet).body ∧
      zerosSet.response tableSnappy ⟨List.replicate k (some ⟨true, 0, 10⟩), .reply respOK⟩ =
        zerosSet.response tableSnappy ⟨[some ⟨true, 0, 10⟩], .reply respOK⟩) ↔
    (∀ c, some ⟨true, 0, 10⟩ = some c → bannedBy zerosSet.cmd [some ⟨true, 0, 10⟩] = false →
      Settles tableSnappy c zerosSet respOK) :=
  redispatch_iff tableSnappy (some ⟨true, 0, 10⟩) dispatched_zerosSet (.reply respOK)

end Samaritan.Redis
