import Samaritan.Redis.CodecRoundTrip
import Samaritan.Redis.Handler

/-!
# Responses Are Single Frames

The encoder writes the texts of errors and simple strings as they are, so a response is one
frame for its receiver only if these texts hold no LF. This module finds the requests, replies
and configurations for which the response of a request has this property.

* What the decoder returns has the property.
* Every response text the proxy makes up has it, except that of an unsupported command, which
  repeats the command word.
* The compression filter can destroy it: it decompresses simple strings as well as bulk
  strings, once for every client the request was sent through.
-/

namespace Samaritan.Redis

open Samaritan.Lib

/-! ## Texts without LF -/

/-- The value is no error or simple string with an LF. -/
def OneLine : RespValue → Prop
  | .simpleString t => LF ∉ t
  | .error t => LF ∉ t
  | _ => True

/-- No error or simple string at any nesting depth has an LF. -/
def OneFrame (v : RespValue) : Prop := ∀ u ∈ v.nodes, OneLine u

@[simp] theorem oneFrame_simpleString {t : Bytes} : OneFrame (.simpleString t) ↔ LF ∉ t :=
  List.forall_mem_singleton (p := OneLine)

@[simp] theorem oneFrame_error {t : Bytes} : OneFrame (.error t) ↔ LF ∉ t :=
  List.forall_mem_singleton (p := OneLine)

@[simp] theorem oneFrame_integer {i : Int64} : OneFrame (.integer i) :=
  (List.forall_mem_singleton (p := OneLine)).mpr trivial

@[simp] theorem oneFrame_bulkString {t : Option Bytes} : OneFrame (.bulkString t) :=
  (List.forall_mem_singleton (p := OneLine)).mpr trivial

@[simp] theorem oneFrame_array_none : OneFrame (.array none) :=
  (List.forall_mem_singleton (p := OneLine)).mpr trivial

@[simp] theorem oneFrame_array_some {vs : List RespValue} :
    OneFrame (.array (some vs)) ↔ ∀ v ∈ vs, OneFrame v := by
  constructor
  · exact fun h v hv u hu => h u (RespValue.mem_nodes_array.mpr (.inr ⟨v, hv, hu⟩))
  · intro h u hu
    rcases RespValue.mem_nodes_array.mp hu with rfl | ⟨v, hv, hu⟩
    · trivial
    · exact h v hv u hu

/-! ## What the decoder returns -/

/-- A text that ends at CR LF has no LF. -/
theorem LF_notMem_of_decodeTextBytes {b b' : Reader} {t : Bytes}
    (h : decodeTextBytes b = .ok t b') : LF ∉ t := by
  obtain ⟨line, b₁, hline, hchop⟩ := bind_eq_ok h
  obtain ⟨l, rfl, hl⟩ := Reader.readBytes_line (by simp) hline
  rw [chopCRLF] at hchop
  split at hchop
  · cases hchop
  · split at hchop
    · cases hchop
      intro hmem
      have hlen : (l ++ [LF]).length - 2 ≤ l.length := by simp
      rw [List.take_append_of_le_length hlen] at hmem
      exact hl (List.mem_of_mem_take hmem)
    · cases hchop

theorem oneFrame_of_decodeElems {dec : DecodeM RespValue}
    (hdec : ∀ b v b', dec b = .ok v b' → OneFrame v) {n : Nat} {b b' : Reader}
    {vs : List RespValue} (h : decodeElems dec n b = .ok vs b') : ∀ v ∈ vs, OneFrame v := by
  induction n generalizing b vs with
  | zero =>
    cases h
    simp
  | succ n ih =>
    obtain ⟨v, b₁, hv, h⟩ := bind_eq_ok h
    obtain ⟨ws, b₂, hws, h⟩ := bind_eq_ok h
    cases h
    intro u hu
    rcases List.mem_cons.mp hu with rfl | hu
    · exact hdec _ _ _ hv
    · exact ih hws u hu

/-- The elements of an array that is decoded are decoded values. -/
theorem oneFrame_of_decodeArray {dec : DecodeM RespValue}
    (hdec : ∀ b v b', dec b = .ok v b' → OneFrame v) {b b' : Reader}
    {vs : Option (List RespValue)} (h : decodeArray dec b = .ok vs b') : OneFrame (.array vs) := by
  obtain ⟨n, b₁, -, h⟩ := bind_eq_ok h
  split at h
  · cases h
  · split at h
    · cases h
    · split at h
      · cases h
        simp
      · obtain ⟨ws, b₂, hws, h⟩ := bind_eq_ok h
        cases h
        simpa using oneFrame_of_decodeElems hdec hws

/-- The words of an inline command are bulk strings. -/
theorem oneFrame_of_decodeInline {b b' : Reader} {v : RespValue}
    (h : decodeInline b = .ok v b') : OneFrame v := by
  obtain ⟨t, b₁, -, h⟩ := bind_eq_ok h
  dsimp only at h
  split at h
  · cases h
  · cases h
    simp

theorem oneFrame_of_decodeResp {dec : DecodeM RespValue}
    (hdec : ∀ b v b', dec b = .ok v b' → OneFrame v) {typ : RespType} {b b' : Reader}
    {v : RespValue} (h : decodeResp dec typ b = .ok v b') : OneFrame v := by
  cases typ with
  | integer =>
    obtain ⟨i, -, rfl⟩ := map_eq_ok h
    simp
  | simpleString | error =>
    obtain ⟨t, ht, rfl⟩ := map_eq_ok h
    simpa using LF_notMem_of_decodeTextBytes ht
  | bulkString =>
    obtain ⟨t, -, rfl⟩ := map_eq_ok h
    simp
  | array =>
    obtain ⟨vs, hvs, rfl⟩ := map_eq_ok h
    exact oneFrame_of_decodeArray hdec hvs

/-- Whatever the decoder returns is a single frame. -/
theorem oneFrame_of_decode {depth : Nat} {b b' : Reader} {v : RespValue}
    (h : decode depth b = .ok v b') : OneFrame v := by
  induction depth generalizing b b' v with
  | zero => cases h
  | succ depth ih =>
    obtain ⟨c, b₁, -, h⟩ := bind_eq_ok h
    cases htyp : RespType.ofByte c with
    | none =>
      simp only [htyp] at h
      exact oneFrame_of_decodeInline h
    | some typ =>
      simp only [htyp] at h
      obtain ⟨_, b₂, -, h⟩ := bind_eq_ok h
      exact oneFrame_of_decodeResp (fun b v b' => ih) h

/-- A text that is decoded ends at its first LF, so that it has none. -/
theorem oneFrame_of_decoder {d d' : Decoder} {v : RespValue} (h : d.decode = (.ok v, d')) :
    OneFrame v := by
  rw [Decoder.decode] at h
  split at h
  · cases h
  · split at h
    · rename_i hdec
      cases h
      exact oneFrame_of_decode hdec
    · cases h

/-- Every value within the limits of the decoder is returned by some decoder. -/
theorem exists_decoder_of_wellFramed {v : RespValue} (hv : WellFramed v) :
    ∃ d d' : Decoder, d.decode = (.ok v, d') := by
  have hstreams := @streams_inPieces [encode v] (by simp [encode_eq_cons]) .eof 32
  have hparses : (newDecoder (inPieces [encode v] .eof) 32).Parses v [] :=
    (parses_iff hstreams).mpr ⟨_, respWord_encode le_rfl hv .top, by simp⟩
  exact ⟨_, _, Prod.ext hparses.1 rfl⟩

/-! ## Decompression -/

/-- The texts of the simple strings in a value, at any nesting depth. -/
def simpleTexts (v : RespValue) : List Bytes :=
  v.nodes.filterMap fun u =>
    match u with
    | .simpleString t => some t
    | _ => none

theorem decompressList_eq_map (z : Snappy) (vs : List RespValue) :
    decompressList z vs = vs.map (decompress z) := by
  induction vs with
  | nil => rfl
  | cons v vs ih => rw [decompressList, ih, List.map_cons]

theorem mem_simpleTexts {v : RespValue} {t : Bytes} :
    t ∈ simpleTexts v ↔ .simpleString t ∈ v.nodes := by
  simp only [simpleTexts, List.mem_filterMap]
  constructor
  · rintro ⟨u, hu, h⟩
    split at h <;> cases h
    exact hu
  · exact fun h => ⟨_, h, rfl⟩

theorem iterate_decompress_simpleString (z : Snappy) (n : Nat) (t : Bytes) :
    (decompress z)^[n] (.simpleString t) = .simpleString ((decompressed z)^[n] t) := by
  induction n generalizing t with
  | zero => rfl
  | succ n ih => rw [Function.iterate_succ_apply, Function.iterate_succ_apply, decompress, ih]

theorem iterate_decompress_bulkString (z : Snappy) (n : Nat) (t : Option Bytes) :
    ∃ t', (decompress z)^[n] (.bulkString t) = .bulkString t' := by
  induction n generalizing t with
  | zero => exact ⟨t, rfl⟩
  | succ n ih =>
    rw [Function.iterate_succ_apply]
    cases t with
    | none => exact ih none
    | some t => exact ih (some (decompressed z t))

/-- Decompression goes into arrays, element by element. -/
theorem iterate_decompress_array (z : Snappy) (n : Nat) (vs : List RespValue) :
    (decompress z)^[n] (.array (some vs)) = .array (some (vs.map (decompress z)^[n])) := by
  induction n generalizing vs with
  | zero => simp
  | succ n ih =>
    rw [Function.iterate_succ_apply, decompress, decompressList_eq_map, ih, List.map_map,
      Function.iterate_succ]

/-- **Decompression and frames**: a decompressed value is a single frame exactly when none of
    its simple strings has been turned into a text with an LF. -/
theorem oneFrame_iterate_decompress (z : Snappy) (n : Nat) {v : RespValue} (hv : OneFrame v) :
    OneFrame ((decompress z)^[n] v) ↔ ∀ t ∈ simpleTexts v, LF ∉ (decompressed z)^[n] t := by
  induction v using RespValue.inductionOn with
  -- only the texts of simple strings can lose their line, and errors are not touched
  | hsimple t =>
    rw [iterate_decompress_simpleString]
    simp [mem_simpleTexts, RespValue.nodes]
  | herror t =>
    rw [Function.iterate_fixed (by rw [decompress])]
    simpa [mem_simpleTexts, RespValue.nodes] using hv
  | hint i | hnil =>
    rw [Function.iterate_fixed (by rw [decompress])]
    simp [mem_simpleTexts, RespValue.nodes]
  | hbulk t =>
    obtain ⟨t', ht'⟩ := iterate_decompress_bulkString z n t
    rw [ht']
    simp [mem_simpleTexts, RespValue.nodes]
  | harray vs ih =>
    rw [iterate_decompress_array, oneFrame_array_some]
    rw [oneFrame_array_some] at hv
    have htexts : ∀ t, t ∈ simpleTexts (.array (some vs)) ↔ ∃ v ∈ vs, t ∈ simpleTexts v := by
      simp [mem_simpleTexts, RespValue.mem_nodes_array]
    constructor
    · intro h t ht
      obtain ⟨v, hvs, hvt⟩ := (htexts t).mp ht
      exact (ih v hvs (hv v hvs)).mp (h _ (List.mem_map_of_mem hvs)) t hvt
    · intro h w hw
      obtain ⟨v, hvs, rfl⟩ := List.mem_map.mp hw
      exact (ih v hvs (hv v hvs)).mpr fun t ht => h t ((htexts t).mpr ⟨v, hvs, ht⟩)

/-! ## What the filters add -/

/-- How often the response of a command is decompressed. -/
def decompressions (cmd : Bytes) (filters : List (Option Compression)) : Nat :=
  if wkSkipCheckCmdsInDecps.any (lowersTo cmd) then 0 else filters.countP Option.isSome

/-- Some filter answers the command itself. -/
def bannedBy (cmd : Bytes) (filters : List (Option Compression)) : Bool :=
  bannedCmdsInCps.any (lowersTo cmd) && filters.any fun cfg => cfg.any Compression.enable

theorem compressOffset_pos {cmd : Bytes} {offset : Nat} (h : compressOffset cmd = some offset) :
    0 < offset := by
  simp only [compressOffset] at h
  split at h
  · cases h
    decide
  · split at h <;> cases h
    decide

/-- Compression leaves the command word alone. -/
theorem head_elems_compress (z : Snappy) (cfg : Compression) (cmd : Bytes) (body v : RespValue) :
    (compress z cfg cmd body).elems.headD v = body.elems.headD v := by
  unfold compress
  split
  · rename_i offset vs hoffset
    obtain ⟨k, rfl⟩ := Nat.exists_eq_add_one.mpr (compressOffset_pos hoffset)
    cases vs with
    | nil => simp [RespValue.elems, compressArgs]
    | cons w ws => simp [RespValue.elems]
  · rfl

theorem withDecompress_body (req : SimpleRequest) : req.withDecompress.body = req.body := by
  rw [SimpleRequest.withDecompress]
  split <;> rfl

/-- The filter registers the decompression of the reply once, or not at all. -/
theorem withDecompress_hooks (req : SimpleRequest) (cfg : Compression) :
    req.withDecompress.hooks =
      req.hooks ++ List.replicate (decompressions req.cmd [some cfg]) .decompress := by
  rw [SimpleRequest.withDecompress, decompressions]
  split <;> simp [SimpleRequest.registerHook]

/-- The request after one filter: its command word is the same, and it may have one more
    hook. -/
structure Filtered (cfg : Option Compression) (req req' : SimpleRequest) : Prop where
  cmd : req'.cmd = req.cmd
  hooks : req'.hooks = req.hooks ++ List.replicate (decompressions req.cmd [cfg]) .decompress

/-- What one filter does: it answers a banned command, or it passes the request on. -/
theorem compressFilterDo_cases (z : Snappy) (cfg : Option Compression) (req : SimpleRequest) :
    (bannedBy req.cmd [cfg] = true ∧ ∃ req' t,
      compressFilterDo z cfg req = .stopped req' (.error t) ∧ Filtered cfg req req' ∧ LF ∉ t) ∨
    (bannedBy req.cmd [cfg] = false ∧ ∃ req', compressFilterDo z cfg req = .passed req' ∧
      Filtered cfg req req') := by
  cases cfg with
  | none =>
    refine .inr ⟨by simp [bannedBy], req, rfl, rfl, ?_⟩
    simp [decompressions]
  | some cfg =>
    have hcmd : req.withDecompress.cmd = req.cmd := by
      rw [SimpleRequest.cmd, withDecompress_body, ← SimpleRequest.cmd]
    have hhooks := withDecompress_hooks req cfg
    cases henable : cfg.enable with
    | false =>
      refine .inr ⟨by simp [bannedBy, henable], req.withDecompress, ?_, hcmd, hhooks⟩
      simp [compressFilterDo, henable]
    | true =>
      cases hban : bannedCmdsInCps.find? (lowersTo req.cmd) with
      | none =>
        refine .inr ⟨?_, { req.withDecompress with body := compress z cfg req.cmd req.body }, ?_,
          ?_, hhooks⟩
        · simpa [bannedBy, henable] using hban
        · simp [compressFilterDo, henable, hban]
        · exact congrArg RespValue.text (head_elems_compress z cfg req.cmd req.body _)
      | some cmd =>
        -- the error names the command as the table has it, in lower case
        have hmem : cmd ∈ bannedCmdsInCps := List.mem_of_find?_eq_some hban
        have hLF : ∀ c ∈ bannedCmdsInCps, LF ∉ c := by decide
        refine .inl ⟨?_, req.withDecompress,
          bytesOf "ERR command '" ++ cmd ++ bytesOf "' is disabled in compress mode",
          by simp [compressFilterDo, henable, hban], ⟨hcmd, hhooks⟩, ?_⟩
        · simpa [bannedBy, henable] using ⟨cmd, hmem, List.find?_some hban⟩
        · simp only [List.mem_append, not_or]
          exact ⟨⟨by decide, hLF cmd hmem⟩, by decide⟩

/-- Each client on the way registers the decompression again. -/
theorem decompressions_cons (cmd : Bytes) (cfg : Option Compression)
    (cfgs : List (Option Compression)) :
    decompressions cmd (cfg :: cfgs) = decompressions cmd [cfg] + decompressions cmd cfgs := by
  simp only [decompressions]
  split
  · rfl
  · rw [List.countP_cons, List.countP_singleton, Nat.add_comm]

theorem bannedBy_cons (cmd : Bytes) (cfg : Option Compression) (cfgs : List (Option Compression)) :
    bannedBy cmd (cfg :: cfgs) = (bannedBy cmd [cfg] || bannedBy cmd cfgs) := by
  simp [bannedBy, Bool.and_or_distrib_left]

/-- What the filters of all clients do: one of them answers a banned command, or the request
    arrives with as many decompression hooks as there were filters to register one. -/
theorem passFilters_cases (z : Snappy) (cfgs : List (Option Compression)) (req : SimpleRequest) :
    (bannedBy req.cmd cfgs = true ∧ ∃ req' t n, passFilters z cfgs req = .stopped req' (.error t) ∧
      req'.hooks = req.hooks ++ List.replicate n .decompress ∧ LF ∉ t) ∨
    (bannedBy req.cmd cfgs = false ∧ ∃ req', passFilters z cfgs req = .passed req' ∧
      req'.hooks = req.hooks ++ List.replicate (decompressions req.cmd cfgs) .decompress) := by
  induction cfgs generalizing req with
  | nil =>
    refine .inr ⟨by simp [bannedBy], req, rfl, ?_⟩
    simp [decompressions]
  | cons cfg cfgs ih =>
    rw [bannedBy_cons, passFilters]
    rcases compressFilterDo_cases z cfg req with ⟨hban, req', t, hdo, hreq', ht⟩ |
      ⟨hpass, req', hdo, hreq'⟩
    · simp only [hdo]
      exact .inl ⟨by simp [hban], req', t, _, rfl, hreq'.hooks, ht⟩
    · simp only [hdo, hpass, Bool.false_or]
      -- the next filter sees the same command word, and one more hook at most
      have ih := ih req'
      rw [hreq'.cmd, hreq'.hooks] at ih
      simp only [List.append_assoc, List.replicate_append_replicate] at ih
      rw [decompressions_cons]
      rcases ih with ⟨hban, req'', t, n, hall, hhooks, ht⟩ | ih
      · exact .inl ⟨hban, req'', t, _, hall, hhooks, ht⟩
      · exact .inr ih

/-! ## Responses of simple requests -/

theorem foldr_replicate_decompress (z : Snappy) (n : Nat) (v : RespValue) :
    (List.replicate n Hook.decompress).foldr (fun hook resp => resp.bind (hook.run z)) (some v) =
      some ((decompress z)^[n] v) := by
  induction n with
  | zero => rfl
  | succ n ih =>
    rw [List.replicate_succ, List.foldr_cons, ih, Function.iterate_succ_apply']
    rfl

/-- Decompression hooks behind other hooks: the response is decompressed first. -/
theorem setResponse_of_hooks (z : Snappy) {req : SimpleRequest} {hooks : List Hook} {n : Nat}
    (h : req.hooks = hooks ++ List.replicate n .decompress) (v : RespValue) :
    req.setResponse z v =
      (⟨req.body, hooks⟩ : SimpleRequest).setResponse z ((decompress z)^[n] v) := by
  rw [SimpleRequest.setResponse, h, List.foldr_append, foldr_replicate_decompress,
    SimpleRequest.setResponse]

/-- A text that `btoi64` accepts consists of digits and signs. -/
theorem mem_of_btoi64 {t : Bytes} {n : Int64} (h : btoi64 t = .ok n) {c : UInt8} (hc : c ∈ t) :
    isDigit c = true ∨ c = 43 ∨ c = 45 :=
  (btoi64_eq_ok_iff.mp h).mem hc

/-- A text that `btoi64` accepts has no LF. -/
theorem LF_notMem_of_btoi64 {t : Bytes} {n : Int64} (h : btoi64 t = .ok n) : LF ∉ t :=
  LF_notMem_of_denotes (btoi64_eq_ok_iff.mp h)

theorem LF_notMem_formatNat (n : Nat) : LF ∉ formatNat n :=
  fun h => absurd (isDigit_of_mem_formatNat h) (by decide)

/-- The cursor hook only ever replaces a text without LF by another one. -/
theorem oneFrame_setText_cursor {v : RespValue} {n : Int64} (h : btoi64 v.text = .ok n)
    (m : UInt64) : OneFrame (v.setText (formatUint m)) ↔ OneFrame v := by
  have htext := LF_notMem_of_btoi64 h
  have hcursor : LF ∉ formatUint m := LF_notMem_formatNat _
  cases v with
  | simpleString t | error t => simpa [RespValue.setText, RespValue.text, hcursor] using htext
  | bulkString t | integer i | array vs => simp [RespValue.setText]

/-- The cursor is a number, which has no LF. -/
theorem oneFrame_nextCursorHook (nodeIdx : UInt16) (v : RespValue) :
    (∀ w, nextCursorHook nodeIdx v = some w → OneFrame w) ↔ OneFrame v := by
  cases v with
  | array vs =>
    match vs with
    | none => simp [nextCursorHook]
    | some [] => simp [nextCursorHook]
    | some (u :: us) =>
      simp only [nextCursorHook]
      cases h : btoi64 u.text with
      | error e => simp
      -- the text that is replaced was a number, so it had no LF either
      | ok next => simp [oneFrame_setText_cursor h]
  | _ => simp [nextCursorHook]

/-- Hooks other than decompression keep single frames apart from broken ones. -/
theorem oneFrame_setResponse (z : Snappy) {body : RespValue} {hooks : List Hook}
    (hhooks : .decompress ∉ hooks) (v : RespValue) :
    (∀ w, (⟨body, hooks⟩ : SimpleRequest).setResponse z v = some w → OneFrame w) ↔ OneFrame v := by
  -- induction from the hook that runs last, which is the first one of the list
  induction hooks with
  | nil => simp [SimpleRequest.setResponse]
  | cons hook hooks ih =>
    rw [List.mem_cons, not_or] at hhooks
    have ih := ih hhooks.2
    rw [SimpleRequest.setResponse] at ih ⊢
    rw [List.foldr_cons]
    cases hresp : hooks.foldr (fun hook resp => resp.bind (hook.run z)) (some v) with
    | none =>
      -- a hook has panicked: there is no response
      rw [hresp] at ih
      simpa using ih
    | some u =>
      rw [hresp] at ih
      have hu : OneFrame u ↔ OneFrame v := by simpa using ih
      rw [← hu]
      cases hook with
      | bindRaw | childDone => simp [Hook.run]
      | nextCursor nodeIdx => exact oneFrame_nextCursorHook nodeIdx u
      | decompress => exact absurd rfl hhooks.1

/-- The answer is a single frame after `n` decompressions: the text of an error of the connection
    has no LF, and no simple string of a reply is decompressed to a text with an LF. -/
def Answer.Safe (z : Snappy) (n : Nat) : Answer → Prop
  | .dialErr text => LF ∉ text
  | .writeErr e => LF ∉ e.text
  | .reply v => ∀ t ∈ simpleTexts v, LF ∉ (decompressed z)^[n] t
  | _ => True

/-- The life of a simple request with this command word ends with a single frame: a filter
    answers it, or its answer stays a single frame. -/
def Life.Safe (z : Snappy) (cmd : Bytes) (life : Life) : Prop :=
  bannedBy cmd life.filters = true ∨ life.answer.Safe z (decompressions cmd life.filters)

/-- A reply from a node is one frame; what it is decompressed to need not be. -/
theorem oneFrame_answer (z : Snappy) (n : Nat) {answer : Answer}
    (hreply : ∀ v, answer = .reply v → OneFrame v) :
    OneFrame ((decompress z)^[n] answer.value) ↔ answer.Safe z n := by
  have herror : ∀ t, (decompress z)^[n] (.error t) = .error t :=
    fun t => Function.iterate_fixed (by rw [decompress]) n
  cases answer with
  | reply v => exact oneFrame_iterate_decompress z n (hreply v rfl)
  | dialErr text | writeErr e => simp [Answer.value, Answer.Safe, herror]
  | noHost | upstreamExited | backendExited =>
    simp only [Answer.value, Answer.Safe, herror, oneFrame_error, iff_true]
    decide

/-- **Responses of simple requests**: they are single frames exactly when the life is safe. -/
theorem oneFrame_simple_response (z : Snappy) {req : SimpleRequest} {life : Life}
    (hhooks : .decompress ∉ req.hooks) (hreply : ∀ v, life.answer = .reply v → OneFrame v) :
    (∀ w, req.response z life = some w → OneFrame w) ↔ life.Safe z req.cmd := by
  rw [SimpleRequest.response, Life.Safe]
  rcases passFilters_cases z life.filters req with ⟨hban, req', t, n, hpass, hreq', ht⟩ |
    ⟨hpass', req', hpass, hreq'⟩
  -- the filter's error goes through the hooks that were registered before
  · simp only [hpass, hban, true_or, iff_true]
    rw [setResponse_of_hooks z hreq', Function.iterate_fixed (by rw [decompress]),
      oneFrame_setResponse z hhooks]
    simpa using ht
  · simp only [hpass, hpass', Bool.false_eq_true, false_or]
    rw [setResponse_of_hooks z hreq', oneFrame_setResponse z hhooks]
    exact oneFrame_answer z _ hreply

/-! ## Responses of raw requests -/

/-- The responses of the children reach the client. -/
def Join.relays : Join → Bool
  | .single => true
  | .mget => true
  | .mset => false
  | .sumResult => false

/-- The request leads to a single frame: an unsupported command word has no LF, and the simple
    requests whose responses reach the client have safe lives. -/
def SafeRequest (z : Snappy) (s : Surroundings) (body : RespValue) (lives : Nat → Life) : Prop :=
  (isValid body = true → findHandler (word body 0) = none → LF ∉ word body 0) ∧
    ∀ join children, handleRequest s body = .split join children → join.relays = true →
      ∀ (i : Nat) c, children[i]? = some c → (lives i).Safe z c.2.cmd

theorem oneFrame_invalidRequest : OneFrame invalidRequest := by
  rw [invalidRequest, oneFrame_error]
  decide

/-- What the handlers answer by themselves is a single frame. -/
theorem oneFrame_of_respond {s : Surroundings} {body v : RespValue} {hdlr : Handler}
    (h : hdlr.handle s body = .respond v) : OneFrame v := by
  cases hdlr with
  | simpleCommand | eval | sumResultCommand | mget | mset =>
    rw [Handler.handle] at h
    split at h <;> cases h
    exact oneFrame_invalidRequest
  | scan =>
    rw [Handler.handle, handleScan] at h
    split at h
    · cases h
      exact oneFrame_invalidRequest
    · split at h
      · cases h
        simp only [invalidCursor, oneFrame_error]
        decide
      · dsimp only at h
        split at h <;> cases h
        simp [respScanTerm]
  -- constant answers
  | ping | quit | select =>
    cases h
    simp only [respPong, respOK, oneFrame_simpleString]
    decide
  | hotKey | info | time =>
    cases h
    simp

/-- A child of a split request always gets a response. -/
theorem exists_child_response (z : Snappy) {req : SimpleRequest} (hhooks : req.hooks = [.childDone])
    (life : Life) : ∃ w, req.response z life = some w := by
  rw [SimpleRequest.response]
  rcases passFilters_cases z life.filters req with ⟨-, req', t, n, hpass, hreq', -⟩ |
    ⟨-, req', hpass, hreq'⟩
  · rw [hhooks] at hreq'
    simp only [hpass, setResponse_of_hooks z hreq']
    exact ⟨_, rfl⟩
  · rw [hhooks] at hreq'
    simp only [hpass, setResponse_of_hooks z hreq']
    exact ⟨_, rfl⟩

/-- The responses of the children are single frames exactly when their lives are safe. -/
theorem oneFrame_responses (z : Snappy) {lives : Nat → Life}
    (hreplies : ∀ i v, (lives i).answer = .reply v → OneFrame v)
    {children : List (Route × SimpleRequest)} (hhooks : ∀ c ∈ children, c.2.hooks = [.childDone])
    (i : Nat) :
    ∃ vs, responses z lives i children = some vs ∧
      ((∀ v ∈ vs, OneFrame v) ↔
        ∀ (k : Nat) c, children[k]? = some c → (lives (i + k)).Safe z c.2.cmd) := by
  induction children generalizing i with
  | nil => exact ⟨[], rfl, by simp⟩
  | cons c cs ih =>
    have hc := hhooks c (List.mem_cons_self ..)
    obtain ⟨w, hw⟩ := exists_child_response z hc (lives i)
    obtain ⟨vs, hvs, hsafe⟩ := ih (fun c hc => hhooks c (List.mem_cons_of_mem _ hc)) (i + 1)
    -- the first child by itself; the others are counted from the next life on
    have hone : OneFrame w ↔ (lives i).Safe z c.2.cmd := by
      rw [← oneFrame_simple_response z (by simp [hc]) (hreplies i)]
      simp [hw]
    refine ⟨w :: vs, by simp [responses, hw, hvs], ?_⟩
    rw [List.forall_mem_cons, hone, hsafe]
    constructor
    · rintro ⟨hfirst, hrest⟩ k d hk
      cases k with
      | zero =>
        cases hk
        exact hfirst
      | succ k => simpa [Nat.add_assoc, Nat.add_comm 1] using hrest k d hk
    · intro h
      refine ⟨h 0 c rfl, fun k d hk => ?_⟩
      simpa [Nat.add_assoc, Nat.add_comm 1] using h (k + 1) d hk

/-- Joins that do not relay the responses make a single frame of any responses. -/
theorem oneFrame_join_of_not_relays {join : Join} (h : join.relays = false) (vs : List RespValue) :
    OneFrame (join.response vs) := by
  cases join with
  | single | mget => cases h
  | mset =>
    simp only [Join.response, respOK, oneFrame_simpleString]
    decide
  | sumResult =>
    simp only [Join.response]
    split
    · simp
    · simp only [oneFrame_error, List.mem_append, not_or]
      exact ⟨⟨by decide, LF_notMem_formatNat _⟩, by decide⟩

theorem response_of_single (z : Snappy) {s : Surroundings} {body : RespValue} {lives : Nat → Life}
    {c : Route × SimpleRequest} (h : handleRequest s body = .split .single [c]) :
    response z s body lives = c.2.response z (lives 0) := by
  simp only [response, h, responses]
  cases c.2.response z (lives 0) <;> rfl

theorem oneFrame_response_of_children (z : Snappy) {s : Surroundings} {body : RespValue}
    {lives : Nat → Life} {join : Join} {children : List (Route × SimpleRequest)}
    (h : handleRequest s body = .split join children) (hjoin : join ≠ .single)
    (hhooks : ∀ c ∈ children, c.2.hooks = [.childDone])
    (hreplies : ∀ i v, (lives i).answer = .reply v → OneFrame v) :
    (∀ v, response z s body lives = some v → OneFrame v) ↔
      (join.relays = true →
        ∀ (i : Nat) c, children[i]? = some c → (lives i).Safe z c.2.cmd) := by
  obtain ⟨vs, hvs, hsafe⟩ := oneFrame_responses z hreplies hhooks 0
  have hresponse : response z s body lives = some (join.response vs) := by
    simp [response, h, hvs]
  simp only [Nat.zero_add] at hsafe
  cases hrelays : join.relays with
  | false => simp [hresponse, oneFrame_join_of_not_relays hrelays]
  | true =>
    cases join with
    | mget => simpa [hresponse, Join.response] using hsafe
    | single => exact absurd rfl hjoin
    | mset | sumResult => cases hrelays

/-- What is asked of a request that is split is asked of its children. -/
theorem safeRequest_of_split (z : Snappy) {s : Surroundings} {body : RespValue}
    {lives : Nat → Life} {join : Join} {children : List (Route × SimpleRequest)}
    (h : handleRequest s body = .split join children) :
    SafeRequest z s body lives ↔ (join.relays = true →
      ∀ (i : Nat) c, children[i]? = some c → (lives i).Safe z c.2.cmd) := by
  have hfound : isValid body = true → findHandler (word body 0) ≠ none := by
    intro hvalid hfind
    simp [handleRequest, hvalid, hfind] at h
  constructor
  · exact fun hsafe => hsafe.2 join children h
  · intro hlives
    refine ⟨fun hvalid hfind => absurd hfind (hfound hvalid), fun join' children' h' => ?_⟩
    obtain ⟨rfl, rfl⟩ := Handling.split.inj (h.symm.trans h')
    exact hlives

/-- **Single frames**: for every request, every surroundings and all replies that a decoder can
    return, the response of the request is a single frame exactly when an unsupported command
    word has no LF and the simple requests whose responses reach the client have safe lives. -/
theorem oneFrame_response_iff (z : Snappy) (s : Surroundings) (body : RespValue)
    (lives : Nat → Life)
    (hreplies : ∀ i v, (lives i).answer = .reply v → ∃ d d' : Decoder, d.decode = (.ok v, d')) :
    (∀ v, response z s body lives = some v → OneFrame v) ↔ SafeRequest z s body lives := by
  have hframes : ∀ i v, (lives i).answer = .reply v → OneFrame v := by
    intro i v hv
    obtain ⟨d, d', hd⟩ := hreplies i v hv
    exact oneFrame_of_decoder hd
  cases hvalid : isValid body with
  | false =>
    have hhandle : handleRequest s body = .respond invalidRequest := by simp [handleRequest, hvalid]
    simp [response, SafeRequest, hhandle, hvalid, oneFrame_invalidRequest]
  | true =>
    cases hfind : findHandler (word body 0) with
    | none =>
      have hhandle : handleRequest s body = .respond
          (.error (bytesOf "ERR unsupported command '" ++ word body 0 ++ bytesOf "'")) := by
        simp [handleRequest, hvalid, hfind]
      have hbefore : LF ∉ bytesOf "ERR unsupported command '" := by decide
      have hbehind : LF ∉ bytesOf "'" := by decide
      simp [response, SafeRequest, hhandle, hvalid, hfind, hbefore, hbehind]
    | some hdlr =>
      have hhandle : handleRequest s body = hdlr.handle s body := by
        simp [handleRequest, hvalid, hfind]
      rcases hdlr.handle_cases s body with ⟨v, hv⟩ | ⟨c, hc, hhooks⟩ |
        ⟨join, children, hsplit, hjoin, hhooks⟩
      · simp [response, SafeRequest, hhandle, hv, hfind, oneFrame_of_respond hv]
      -- one simple request, whose response is that of the raw request
      · have hsplit := hhandle.trans hc
        have hnone : .decompress ∉ c.2.hooks := by
          rcases hhooks with hhooks | ⟨nodeIdx, hhooks⟩ <;> simp [hhooks]
        rw [response_of_single z hsplit, safeRequest_of_split z hsplit,
          oneFrame_simple_response z hnone (hframes 0)]
        simp [Join.relays, List.getElem?_singleton]
      -- children that are counted
      · have hsplit := hhandle.trans hsplit
        rw [oneFrame_response_of_children z hsplit hjoin hhooks hframes,
          safeRequest_of_split z hsplit]

/-- A request whose command word holds a line break and the start of another reply. -/
def injection : RespValue := .array (some [.bulkString (some (bytesOf "x\r\n+OK"))])

theorem findHandler_injection : findHandler (word injection 0) = none := by decide +kernel

theorem handleRequest_injection (s : Surroundings) : handleRequest s injection =
    .respond (.error (bytesOf "ERR unsupported command 'x\r\n+OK'")) := by
  have hvalid : isValid injection = true := by decide
  simp only [handleRequest, hvalid, findHandler_injection]
  rfl

/-- A codec that never succeeds. -/
def noSnappy : Snappy := ⟨fun _ => none, fun _ => none⟩

/-- A decoder can return `injection` as a request, and whoever decodes its response reads two
    values. -/
theorem response_injection :
    ∃ v, (∃ d d' : Decoder, d.decode = (.ok injection, d')) ∧
      response noSnappy noSurroundings injection (fun _ => ⟨[], .noHost⟩) = some v ∧
      ¬ OneFrame v ∧
      encode v = encode (.error (bytesOf "ERR unsupported command 'x")) ++
        encode (.simpleString (bytesOf "OK'")) := by
  refine ⟨.error (bytesOf "ERR unsupported command 'x\r\n+OK'"),
    exists_decoder_of_wellFramed (by decide), ?_, ?_, by decide⟩
  · simp only [response, handleRequest_injection]
  · rw [oneFrame_error]
    decide

/-- A `GET` whose reply is a bulk string with line breaks. -/
def sampleGet : RespValue :=
  .array (some [.bulkString (some (bytesOf "GET")), .bulkString (some (bytesOf "k"))])

theorem oneFrame_response_sampleGet :
    (∀ v, response noSnappy noSurroundings sampleGet
      (fun _ => ⟨[none], .reply (.bulkString (some CRLF))⟩) = some v → OneFrame v) ↔
    SafeRequest noSnappy noSurroundings sampleGet
      (fun _ => ⟨[none], .reply (.bulkString (some CRLF))⟩) :=
  oneFrame_response_iff _ _ _ _ (by
    rintro i v hv
    obtain rfl := Answer.reply.inj hv
    exact exists_decoder_of_wellFramed (by decide))

end Samaritan.Redis
