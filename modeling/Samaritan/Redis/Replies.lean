import Samaritan.Redis.Client
import Samaritan.Redis.Handler

/-!
# What Becomes of a Reply

`handleResp` (`proc/redis/upstream.go`) gives a reply of a backend to the request it answers, or
hands both to a callback of the upstream. `handleRedirection` dispatches the request again, and
`SetResponse` runs the hooks of the request, among them the one that puts the node into the cursor
of a `SCAN` (`proc/redis/request.go`).

A reply is not trusted: the text of an error is looked at by two functions that split and compare it
differently, and the hook reads the first element of any array. The module says for which replies
and requests exactly one thing happens.
-/

namespace Samaritan.Redis

open Samaritan.Lib

/-! ## The effect of a reply -/

/-- What is done with a request or for it. -/
inductive ReplyEvent where
  /-- `SetResponse`, with the response behind the hooks -/
  | setResponse (v : RespValue)
  /-- `MakeRequestToHost` with the request -/
  | dispatch (hostAddr : Bytes)
  /-- `MakeRequestToHost` with a new `ASKING` request -/
  | asking (hostAddr : Bytes)

/-- `handleResp` with the callbacks of the upstream; `none` is a panic. -/
def handleResp (z : Snappy) (req : SimpleRequest) (v : RespValue) : Option (List ReplyEvent) :=
  match respAction v with
  | .onRedirection =>
    match handleRedirection v.text with
    | .moved hostAddr => some [.dispatch hostAddr]
    | .ask hostAddr => some [.asking hostAddr, .dispatch hostAddr]
    | .ignored => some []
    | .panics => none
  -- `handleClusterDown` sets the response as well
  | .onClusterDown => (req.setResponse z v).map fun resp => [.setResponse resp]
  | .setResponse => (req.setResponse z v).map fun resp => [.setResponse resp]

/-- The address that a redirection names: its third field. -/
def namedAddr (text : Bytes) : Option Bytes := (text.splitOn 32)[2]?

/-- Exactly one thing is done: the response is set, or the request is dispatched to the address that
    the redirection names, behind `ASKING` or not. -/
def Settled (v : RespValue) : Option (List ReplyEvent) → Prop
  | none => False
  | some events => (∃ resp, events = [.setResponse resp]) ∨
      ∃ addr, namedAddr v.text = some addr ∧
        (events = [.dispatch addr] ∨ events = [.asking addr, .dispatch addr])

/-! ## The hooks -/

/-- The reply has a first element, if it is an array. -/
def hasFirst : RespValue → Bool
  | .array none => false
  | .array (some []) => false
  | _ => true

theorem hasFirst_decompress (z : Snappy) (v : RespValue) :
    hasFirst (decompress z v) = hasFirst v := by
  cases v with
  | array vs =>
    cases vs with
    | none => rfl
    | some vs => cases vs <;> rfl
  | bulkString t => cases t <;> rfl
  | simpleString t | error t | integer i => rfl

/-- The hook of a `SCAN` reads the first element of an array. -/
def Hook.readsFirst : Hook → Bool
  | .nextCursor _ => true
  | _ => false

theorem Hook.run_of_hasFirst (z : Snappy) (hook : Hook) {v : RespValue} (hv : hasFirst v = true) :
    ∃ v', hook.run z v = some v' ∧ hasFirst v' = true := by
  cases hook with
  | bindRaw | childDone => exact ⟨v, rfl, hv⟩
  | decompress => exact ⟨_, rfl, by rw [hasFirst_decompress, hv]⟩
  | nextCursor nodeIdx =>
    show ∃ v', nextCursorHook nodeIdx v = some v' ∧ _
    unfold nextCursorHook
    split
    · split <;> exact ⟨_, rfl, rfl⟩
    · rename_i vs hnil
      cases vs with
      | none => simp [hasFirst] at hv
      | some vs =>
        cases vs with
        | nil => simp [hasFirst] at hv
        | cons v vs => exact absurd rfl (hnil v vs)
    · exact ⟨v, rfl, hv⟩

theorem Hook.run_of_not_hasFirst (z : Snappy) (hook : Hook) {v : RespValue}
    (hv : hasFirst v = false) :
    (hook.readsFirst = true ∧ hook.run z v = none) ∨
      (hook.readsFirst = false ∧ ∃ v', hook.run z v = some v' ∧ hasFirst v' = false) := by
  cases hook with
  | bindRaw | childDone => exact .inr ⟨rfl, v, rfl, hv⟩
  | decompress => exact .inr ⟨rfl, _, rfl, by rw [hasFirst_decompress, hv]⟩
  | nextCursor nodeIdx =>
    refine .inl ⟨rfl, ?_⟩
    cases v with
    | array vs =>
      cases vs with
      | none => rfl
      | some vs =>
        cases vs with
        | nil => rfl
        | cons v vs => simp [hasFirst] at hv
    | _ => simp [hasFirst] at hv

/-- **The hooks of a request** panic exactly if one of them is that of a `SCAN` and the reply is an
    array without elements. -/
theorem setResponse_eq_none_iff (z : Snappy) (req : SimpleRequest) (v : RespValue) :
    req.setResponse z v = none ↔ req.hooks.any Hook.readsFirst = true ∧ hasFirst v = false := by
  unfold SimpleRequest.setResponse
  cases hv : hasFirst v with
  | true =>
    have hrun : ∃ resp, req.hooks.foldr (fun hook resp => resp.bind (hook.run z)) (some v) =
        some resp ∧ hasFirst resp = true := by
      induction req.hooks with
      | nil => exact ⟨v, rfl, hv⟩
      | cons hook hooks ih =>
        obtain ⟨resp, hresp, hfirst⟩ := ih
        obtain ⟨resp', hresp', hfirst'⟩ := hook.run_of_hasFirst z hfirst
        exact ⟨resp', by simp [hresp, hresp'], hfirst'⟩
    obtain ⟨resp, hresp, -⟩ := hrun
    simp [hresp]
  | false =>
    have hrun : (req.hooks.any Hook.readsFirst = true ∧
          req.hooks.foldr (fun hook resp => resp.bind (hook.run z)) (some v) = none) ∨
        (req.hooks.any Hook.readsFirst = false ∧ ∃ resp,
          req.hooks.foldr (fun hook resp => resp.bind (hook.run z)) (some v) = some resp ∧
            hasFirst resp = false) := by
      induction req.hooks with
      | nil => exact .inr ⟨rfl, v, rfl, hv⟩
      | cons hook hooks ih =>
        rcases ih with ⟨hany, hnone⟩ | ⟨hany, resp, hresp, hfirst⟩
        · exact .inl ⟨by simp [hany], by simp [hnone]⟩
        · rcases hook.run_of_not_hasFirst z hfirst with ⟨hreads, hnone⟩ | ⟨hreads, resp', hresp', h⟩
          · exact .inl ⟨by simp [hreads], by simp [hresp, hnone]⟩
          · exact .inr ⟨by simp [hreads, hany], resp', by simp [hresp, hresp'], h⟩
    rcases hrun with ⟨hany, hnone⟩ | ⟨hany, resp, hresp, -⟩
    · simp [hany, hnone]
    · simp [hany, hresp]

/-! ## Redirections -/

/-- A text that folds to `ask` begins with the letter. -/
theorem exists_cons_of_equalFold_ask {w : Bytes} (h : equalFold w ASK = true) :
    ∃ x rest, w = x :: rest ∧ (x = 97 ∨ x + 32 = 97) ∧ equalFold rest [115, 107] = true := by
  rw [show ASK = [97, 115, 107] by decide, equalFold] at h
  split at h
  · rename_i rest hrest
    cases w with
    | nil => cases hrest
    | cons x w =>
      have hx : (x = 97 ∨ x + 32 = 97) ∧ w = rest := by grind [foldRune]
      exact ⟨x, w, rfl, hx.1, hx.2 ▸ h⟩
  · cases h

/-- `strings.ToLower` takes a text that folds to `ask` to it, unless it is written with the long
    s. -/
theorem lowersTo_ask_iff {w : Bytes} (h : equalFold w ASK = true) :
    lowersTo w ASK = true ↔ ¬[0xC5, 0xBF] <+: w.drop 1 := by
  obtain ⟨x, rest, rfl, hx, hrest⟩ := exists_cons_of_equalFold_ask h
  have hfirst : lowerRune 97 (x :: rest) = some rest := by grind [lowerRune]
  rw [show ASK = [97, 115, 107] by decide, lowersTo, hfirst, List.drop_one, List.tail_cons]
  rw [equalFold] at hrest
  split at hrest
  · rename_i rest' hs
    have hlower := lowerRune_s_iff hs
    show lowersTo rest [115, 107] = true ↔ _
    rw [lowersTo]
    split at hlower
    · simp [*]
    · rw [hlower]
      exact iff_of_true (lowersTo_of_equalFold (by decide +kernel) (by decide) hrest) ‹_›
  · cases hrest

theorem lowersTo_moved_of_equalFold {w : Bytes} (h : equalFold w MOVED = true) :
    lowersTo w MOVED = true :=
  lowersTo_of_equalFold (by decide +kernel) (by decide) h

theorem not_lowersTo_moved {w : Bytes} (h : equalFold w ASK = true) : lowersTo w MOVED = false := by
  obtain ⟨x, rest, rfl, hx, -⟩ := exists_cons_of_equalFold_ask h
  have hfirst : lowerRune 109 (x :: rest) = none := by
    rcases hx with rfl | hx
    · grind [lowerRune]
    · grind [lowerRune]
  rw [show MOVED = [109, 111, 118, 101, 100] by decide, lowersTo, hfirst]

theorem errPrefix_append {kind rest : Bytes} (hkind : 32 ∉ kind) :
    errPrefix (kind ++ 32 :: rest) = kind := by
  rw [errPrefix, if_pos (by simp), List.idxOf_append_of_notMem hkind, List.idxOf_cons_self]
  simp

/-- A redirection is an error text with a space behind a word that folds to `moved` or `ask`. -/
theorem exists_words_of_onRedirection {v : RespValue} (h : respAction v = .onRedirection) :
    ∃ kind rest, v = .error (kind ++ 32 :: rest) ∧ 32 ∉ kind ∧
      (equalFold kind MOVED = true ∨ equalFold kind ASK = true) := by
  cases v with
  | error text =>
    simp only [respAction] at h
    split at h
    · rename_i hfold
      rw [Bool.or_eq_true] at hfold
      have hmem : (32 : UInt8) ∈ text := by
        by_contra hnot
        rw [errPrefix, if_neg hnot] at hfold
        exact absurd hfold (by decide)
      obtain ⟨kind, rest, rfl, hkind⟩ := List.eq_append_cons_of_mem hmem
      rw [errPrefix_append hkind] at hfold
      exact ⟨kind, rest, rfl, hkind, hfold⟩
    · split at h <;> cases h
  | _ => cases h

/-- The third field of a redirection, if there is one. -/
theorem fields_cases {kind rest : Bytes} (hkind : 32 ∉ kind) :
    (∃ slot addr more, (kind ++ 32 :: rest).splitOn 32 = kind :: slot :: addr :: more ∧
        2 ≤ (kind ++ 32 :: rest).count 32) ∨
      (kind ++ 32 :: rest).splitOn 32 = [kind, rest] ∧ (kind ++ 32 :: rest).count 32 = 1 := by
  rw [List.splitOn_append_cons_self_of_not_mem hkind, List.count_append, List.count_cons_self,
    List.count_eq_zero_of_not_mem hkind]
  by_cases hrest : (32 : UInt8) ∈ rest
  · obtain ⟨slot, rest, rfl, hslot⟩ := List.eq_append_cons_of_mem hrest
    obtain ⟨addr, more, hmore⟩ := List.exists_cons_of_ne_nil (List.splitOn_ne_nil 32 rest)
    refine .inl ⟨slot, addr, more, ?_, ?_⟩
    · rw [List.splitOn_append_cons_self_of_not_mem hslot, hmore]
    · have hpos := List.count_pos_iff.mpr hrest
      omega
  · refine .inr ⟨?_, ?_⟩
    · rw [List.splitOn_eq_singleton hrest]
    · rw [List.count_eq_zero_of_not_mem hrest]

/-- The word of a redirection has a lower case that `handleRedirection` knows, unless it is written
    with the long s. -/
theorem lowersTo_iff_of_fold {kind : Bytes}
    (h : equalFold kind MOVED = true ∨ equalFold kind ASK = true) :
    (lowersTo kind MOVED = true ∨ lowersTo kind ASK = true) ↔ ¬[0xC5, 0xBF] <+: kind.drop 1 := by
  rcases h with hmoved | hask
  · -- the second letter of `moved` is an ASCII letter
    refine iff_of_true (.inl (lowersTo_moved_of_equalFold hmoved)) ?_
    rw [show MOVED = [109, 111, 118, 101, 100] by decide] at hmoved
    cases kind with
    | nil => simp
    | cons x kind =>
      cases kind with
      | nil => simp
      | cons y kind =>
        intro hprefix
        rw [List.drop_one, List.tail_cons, List.cons_prefix_cons] at hprefix
        obtain ⟨rfl, -⟩ := hprefix
        grind [equalFold, foldRune]
  · rw [not_lowersTo_moved hask, lowersTo_ask_iff hask]
    simp

/-- The reply can be handled: a redirection has three fields, and its word is not written with the
    long s; and an array has a first element if a hook of the request reads it. -/
def Answerable (req : SimpleRequest) (v : RespValue) : Prop :=
  (respAction v = .onRedirection →
    2 ≤ v.text.count 32 ∧ ¬[0xC5, 0xBF] <+: (errPrefix v.text).drop 1) ∧
  (req.hooks.any Hook.readsFirst = true → hasFirst v = true)

theorem settled_setResponse_iff (z : Snappy) (req : SimpleRequest) (v : RespValue) :
    Settled v ((req.setResponse z v).map fun resp => [.setResponse resp]) ↔
      (req.hooks.any Hook.readsFirst = true → hasFirst v = true) := by
  have hnone := setResponse_eq_none_iff z req v
  cases hresp : req.setResponse z v with
  | none =>
    obtain ⟨hreads, hfirst⟩ := hnone.mp hresp
    simp [Settled, hreads, hfirst]
  | some resp =>
    refine iff_of_true (.inl ⟨resp, rfl⟩) fun hreads => ?_
    by_contra hfirst
    rw [hnone.mpr ⟨hreads, by simpa using hfirst⟩] at hresp
    cases hresp

theorem settled_redirection_iff (z : Snappy) (req : SimpleRequest) {v : RespValue}
    (h : respAction v = .onRedirection) :
    Settled v (handleResp z req v) ↔
      2 ≤ v.text.count 32 ∧ ¬[0xC5, 0xBF] <+: (errPrefix v.text).drop 1 := by
  obtain ⟨kind, rest, hv, hkind, hfold⟩ := exists_words_of_onRedirection h
  have htext : v.text = kind ++ 32 :: rest := by rw [hv]; rfl
  have hlower := lowersTo_iff_of_fold hfold
  unfold handleResp handleRedirection
  rw [h, htext, errPrefix_append hkind, ← hlower]
  rcases @fields_cases kind rest hkind with
    ⟨slot, addr, more, hsplit, hcount⟩ | ⟨hsplit, hcount⟩
  · have hnamed : namedAddr v.text = some addr := by
      rw [namedAddr, htext, hsplit]
      rfl
    simp only [hsplit, hcount, true_and]
    -- the word is compared once more, by its lower case
    by_cases hmoved : lowersTo kind MOVED = true
    · simp [hmoved, Settled, hnamed]
    · by_cases hask : lowersTo kind ASK = true
      · simp [hmoved, hask, Settled, hnamed]
      · simp [hmoved, hask, Settled]
  · simp [hsplit, hcount, Settled]

/-- **What becomes of a reply**: exactly one thing is done, and nothing panics, exactly if the reply
    can be handled for the request. -/
theorem handleResp_settled_iff (z : Snappy) (req : SimpleRequest) (v : RespValue) :
    Settled v (handleResp z req v) ↔ Answerable req v := by
  unfold Answerable
  cases hact : respAction v with
  | onRedirection =>
    obtain ⟨kind, rest, hv, -, -⟩ := exists_words_of_onRedirection hact
    have hfirst : hasFirst v = true := by rw [hv]; rfl
    rw [settled_redirection_iff z req hact]
    simp [hfirst]
  | onClusterDown | setResponse =>
    rw [handleResp, hact]
    simpa using settled_setResponse_iff z req v

/-- A `SCAN` request on its way. -/
def sampleScan : SimpleRequest :=
  scanConvert (.array (some [.bulkString (some (bytesOf "scan")),
    .bulkString (some (bytesOf "0"))])) 0 0

/-- A codec that compresses nothing. -/
def plainSnappy : Snappy := ⟨fun _ => none, fun _ => none⟩

/-- A redirection of two fields and an empty array for a `SCAN` panic, and a redirection with the
    long s is lost. -/
theorem handleResp_unsettled :
    ¬Settled (.error (bytesOf "MOVED 3999"))
      (handleResp plainSnappy ⟨.array none, [.bindRaw]⟩ (.error (bytesOf "MOVED 3999"))) ∧
    ¬Settled (.array (some [])) (handleResp plainSnappy sampleScan (.array (some []))) ∧
    ¬Settled (.error ([97, 0xC5, 0xBF, 107] ++ bytesOf " 3999 10.0.0.2:6379"))
      (handleResp plainSnappy ⟨.array none, [.bindRaw]⟩
        (.error ([97, 0xC5, 0xBF, 107] ++ bytesOf " 3999 10.0.0.2:6379"))) := by
  have hlost : handleResp plainSnappy ⟨.array none, [.bindRaw]⟩
      (.error ([97, 0xC5, 0xBF, 107] ++ bytesOf " 3999 10.0.0.2:6379")) = some [] := rfl
  refine ⟨id, id, ?_⟩
  rw [hlost]
  rintro (⟨resp, hresp⟩ | ⟨addr, -, haddr | haddr⟩)
  · cases hresp
  · cases haddr
  · cases haddr

end Samaritan.Redis
