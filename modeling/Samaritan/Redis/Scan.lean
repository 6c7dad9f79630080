import Samaritan.Redis.Transparency

/-!
# Scanning All Nodes

`SCAN` iterates over the keys of one node; the proxy iterates over the nodes as well. It keeps no
state between the calls: the cursor it gives to the client has the index of the node in its
highest 16 bits and the cursor of the node in the others (`proc/redis/request.go`). It goes
through decimal text, a signed parse and the split into two parts on the way back, and when a
node is through, the index is increased.

The module follows a whole iteration: a client that starts at cursor 0 and feeds back each cursor
it gets, and nodes that answer a cursor only if it is the one they have given last. The
iteration takes the replies of the nodes one after the other, each chain of replies complete and
in order, and ends behind the last node.
-/

namespace Samaritan.Redis

open Samaritan.Lib

/-! ## Cursors -/

/-- A number below `2 ^ 63` survives its decimal text. -/
theorem btoi64_formatNat {m : Nat} (hm : m < 2 ^ 63) :
    btoi64 (formatNat m) = .ok (Int64.ofNat m) := by
  have hitoa : itoa (Int64.ofNat m) = formatNat m := by
    rw [itoa_eq_formatInt, Int64.toInt_ofNat_of_lt hm]
    simp [formatInt]
  rw [← hitoa, btoi64_itoa]

/-- `parseCursor` takes a cursor apart. -/
theorem parseCursor_eq {i e : Nat} (hi : i < 2 ^ 15) (he : e < 2 ^ 48) :
    parseCursor (Int64.ofNat (i * 2 ^ 48 + e)).toUInt64 = (UInt16.ofNat i, UInt64.ofNat e) := by
  have hval : (Int64.ofNat (i * 2 ^ 48 + e)).toUInt64.toNat = i * 2 ^ 48 + e := by
    have hof : (Int64.ofNat (i * 2 ^ 48 + e)).toUInt64 = UInt64.ofNat (i * 2 ^ 48 + e) := rfl
    rw [hof, UInt64.toNat_ofNat']
    omega
  rw [parseCursor, Prod.mk.injEq]
  constructor
  · apply UInt16.toNat_inj.mp
    have h48 : (48 : UInt64).toNat % 64 = 48 := rfl
    rw [UInt64.toNat_toUInt16, UInt64.toNat_shiftRight, hval, h48, Nat.shiftRight_eq_div_pow,
      UInt16.toNat_ofNat']
    omega
  · apply UInt64.toNat_inj.mp
    have hmask : (0xffffffffffff : UInt64).toNat = 2 ^ 48 - 1 := rfl
    rw [UInt64.toNat_and, hval, hmask, Nat.and_two_pow_sub_one_eq_mod, UInt64.toNat_ofNat']
    omega

/-- `genCursor` puts a cursor together. -/
theorem genCursor_toNat {i e : Nat} (hi : i < 2 ^ 16) (he : e < 2 ^ 48) :
    (genCursor (UInt16.ofNat i) (UInt64.ofNat e)).toNat = i * 2 ^ 48 + e := by
  have h48 : (48 : UInt64).toNat % 64 = 48 := rfl
  have hidx : (UInt16.ofNat i).toUInt64.toNat = i := by
    rw [UInt16.toNat_toUInt64, UInt16.toNat_ofNat']
    omega
  have he' : (UInt64.ofNat e).toNat = e := by
    rw [UInt64.toNat_ofNat']
    omega
  rw [genCursor, UInt64.toNat_or, UInt64.toNat_shiftLeft, hidx, h48, he', Nat.shiftLeft_eq,
    Nat.mod_eq_of_lt (by omega), Nat.mul_comm, ← Nat.two_pow_add_eq_or_of_lt he]

/-! ## The nodes -/

/-- A reply of a node: the next cursor and the rest of the reply. -/
structure ScanReply where
  next : Nat
  rest : List RespValue

/-- The value the node sends. -/
def ScanReply.value (r : ScanReply) : RespValue :=
  .array (some (.bulkString (some (formatNat r.next)) :: r.rest))

/-- A finite chain of replies with cursors below `2 ^ 48`, of which the last one carries 0. -/
def ScanChain : List ScanReply → Prop
  | [] => False
  | [r] => r.next = 0
  | r :: rs => 0 < r.next ∧ r.next < 2 ^ 48 ∧ ScanChain rs

/-- A node in the middle of an iteration: the cursor it has given last, and the replies that are
    still to come. -/
structure ScanNode where
  cursor : Nat
  chain : List ScanReply

/-- A `SCAN` command, with the command word as the client spells it. -/
structure ScanCommand where
  cmd : Bytes
  /-- what stands behind the cursor -/
  args : List Bytes

def ScanCommand.words (c : ScanCommand) (cursor : Bytes) : List Bytes := c.cmd :: cursor :: c.args

def ScanCommand.body (c : ScanCommand) (cursor : Bytes) : RespValue :=
  .array (some ((c.words cursor).map fun w => .bulkString (some w)))

/-- The node answers the command of the client with the cursor it has given last, and no other
    request. -/
def ScanNode.answer (c : ScanCommand) (node : ScanNode) (body : RespValue) :
    Option (RespValue × ScanNode) :=
  if body.elems.map RespValue.text = c.words (formatNat node.cursor) then
    match node.chain with
    | r :: chain => some (r.value, ⟨r.next, chain⟩)
    | [] => none
  else none

/-! ## The iteration -/

/-- One call of the client: the proxy answers it, or the node to which the proxy sends it. -/
def scanCall (z : Snappy) (filters : List (Option Compression)) (s : Surroundings)
    (c : ScanCommand) (nodes : List ScanNode) (cursor : Bytes) :
    Option (RespValue × List ScanNode) :=
  match handleRequest s (c.body cursor) with
  | .respond v => some (v, nodes)
  | .split .single [(.host addr, req)] =>
    match passFilters z filters req with
    | .stopped req' v => (req'.setResponse z v).map fun w => (w, nodes)
    | .passed req' =>
      let i := s.hosts.idxOf addr
      (nodes[i]?).bind fun node => (node.answer c req'.body).bind fun (v, node') =>
        (req'.setResponse z v).map fun w => (w, nodes.set i node')
  | _ => none

/-- The cursor a response carries. -/
def responseCursor (v : RespValue) : Bytes := (v.elems.headD (.array none)).text

/-- The client: it goes on with the cursor of the response until that is 0. -/
def scanLoop (z : Snappy) (filters : List (Option Compression)) (s : Surroundings)
    (c : ScanCommand) : Nat → List ScanNode → Bytes → Option (List RespValue)
  | 0, _, _ => none
  | fuel + 1, nodes, cursor =>
    (scanCall z filters s c nodes cursor).bind fun (v, nodes') =>
      if responseCursor v = bytesOf "0" then some [v]
      else (scanLoop z filters s c fuel nodes' (responseCursor v)).map (v :: ·)

/-- The cursor the proxy gives to the client for a reply of the `i`-th node. -/
def clientCursor (i : Nat) (r : ScanReply) : Nat :=
  if r.next = 0 then (i + 1) * 2 ^ 48 else i * 2 ^ 48 + r.next

/-- What the client receives for a reply of the `i`-th node, when it is decompressed `m` times. -/
def received (z : Snappy) (m i : Nat) (r : ScanReply) : RespValue :=
  .array (some (.bulkString (some (formatNat (clientCursor i r))) ::
    r.rest.map (decompress z)^[m]))

/-- What the client receives from the `i`-th node on. -/
def receivedFrom (z : Snappy) (m : Nat) : Nat → List (List ScanReply) → List RespValue
  | _, [] => []
  | i, chain :: chains => chain.map (received z m i) ++ receivedFrom z m (i + 1) chains

/-! ## One call -/

section Call

variable {z : Snappy} {filters : List (Option Compression)} {s : Surroundings} {c : ScanCommand}

/-- Filters that neither ban nor compress a command only register their hooks. -/
theorem passFilters_of_untouched {req : SimpleRequest}
    (hban : bannedCmdsInCps.any (lowersTo req.cmd) = false)
    (hoffset : compressOffset req.cmd = none) :
    passFilters z filters req = .passed ⟨req.body,
      req.hooks ++ List.replicate (decompressions req.cmd filters) .decompress⟩ := by
  induction filters generalizing req with
  | nil => simp [passFilters, decompressions]
  | cons cfg filters ih =>
    have hbody : filterBody z cfg req.cmd req.body = req.body := by
      cases cfg with
      | none => rfl
      | some cfg => simp [filterBody, compress, hoffset]
    rw [passFilters, compressFilterDo_of_not_banned z cfg req (by simp [bannedBy, hban]), hbody,
      decompressions_cons req.cmd cfg filters, ← List.replicate_append_replicate,
      ← List.append_assoc]
    -- the next filter sees the same command word
    exact @ih ⟨req.body, _⟩ hban hoffset

/-- The names in the tables are in lower case, so the command word of a `SCAN` is none of those the
    filter treats specially. -/
theorem untouched_of_scan {cmd : Bytes} (h : findHandler cmd = some .scan) :
    bannedCmdsInCps.any (lowersTo cmd) = false ∧ compressOffset cmd = none := by
  have hlower : lowersTo cmd (bytesOf "scan") = true := by
    obtain ⟨e, he, hhdlr⟩ := Option.map_eq_some_iff.mp h
    have hscan : ∀ e ∈ cmdHdlrs, e.2 = .scan → e.1 = bytesOf "scan" := by decide +kernel
    rw [← hscan e (List.mem_of_find?_eq_some he) hhdlr]
    simpa using List.find?_some he
  have hname : IsLower (bytesOf "scan") := by decide +kernel
  have hother : ∀ names : List String,
      (∀ n ∈ names, IsLower (bytesOf n) ∧ bytesOf n ≠ bytesOf "scan") →
      (names.any fun n => lowersTo cmd (bytesOf n)) = false :=
    fun names hnames => not_any_of_lowersTo hlower hname hnames
  constructor
  · have hbanned := hother ["append", "eval", "setbit", "getbit", "setrange", "getrange"]
      (by decide +kernel)
    rw [bannedCmdsInCps, List.any_map]
    exact hbanned
  · rw [compressOffset, hother _ (by decide +kernel), hother _ (by decide +kernel)]
    rfl

theorem handleRequest_scan (hcmd : findHandler c.cmd = some .scan) (cursor : Bytes) :
    handleRequest s (c.body cursor) = handleScan s (c.body cursor) := by
  have hvalid : isValid (c.body cursor) = true := by
    simp [ScanCommand.body, ScanCommand.words, isValid, RespValue.isBulkString]
  have hword : word (c.body cursor) 0 = c.cmd := rfl
  rw [handleRequest, hvalid, hword, hcmd]
  rfl

/-- `handleScan` on a cursor that can be parsed. -/
theorem handleScan_of_btoi64 {t : Bytes} {n : Int64} (ht : btoi64 t = .ok n) {idx : UInt16}
    {e : UInt64} (hparse : parseCursor n.toUInt64 = (idx, e)) :
    handleScan s (c.body t) =
      if UInt16.ofNat s.hosts.length ≤ idx then .respond respScanTerm
      else .split .single [(.host (s.hosts.getD idx.toNat []),
        ⟨c.body (formatUint e), [.bindRaw, .nextCursor idx]⟩)] := by
  have hlen : ¬ (c.body t).elems.length < 2 := by
    simp [ScanCommand.body, ScanCommand.words, RespValue.elems]
  have hword : word (c.body t) 1 = t := rfl
  rw [handleScan, if_neg hlen, hword, ht]
  dsimp only
  rw [hparse]
  rfl

/-- The proxy takes the cursor of the client apart and sends the command to the node, with the
    cursor of the node. -/
theorem handleScan_cursor {i e : Nat} (hi : i < s.hosts.length) (hn : s.hosts.length < 2 ^ 15)
    (he : e < 2 ^ 48) :
    handleScan s (c.body (formatNat (i * 2 ^ 48 + e))) = .split .single
      [(.host (s.hosts.getD i []),
        ⟨c.body (formatNat e), [.bindRaw, .nextCursor (UInt16.ofNat i)]⟩)] := by
  have hidx : (UInt16.ofNat i).toNat = i := by
    rw [UInt16.toNat_ofNat']
    omega
  have hnot : ¬ UInt16.ofNat s.hosts.length ≤ UInt16.ofNat i := by
    rw [UInt16.le_iff_toNat_le, hidx, UInt16.toNat_ofNat']
    omega
  have hcursor : formatUint (UInt64.ofNat e) = formatNat e := by
    rw [formatUint, UInt64.toNat_ofNat', Nat.mod_eq_of_lt (by omega)]
  rw [handleScan_of_btoi64 (btoi64_formatNat (by omega)) (parseCursor_eq (by omega) he),
    if_neg hnot, hidx, hcursor]

/-- Behind the last node the iteration ends. -/
theorem handleScan_end (hn : s.hosts.length < 2 ^ 15) :
    handleScan s (c.body (formatNat (s.hosts.length * 2 ^ 48 + 0))) = .respond respScanTerm := by
  rw [handleScan_of_btoi64 (btoi64_formatNat (by omega)) (parseCursor_eq hn (by omega)),
    if_pos (UInt16.le_refl _)]

theorem iterate_decompress_formatNat (z : Snappy) (m k : Nat) :
    (decompress z)^[m] (.bulkString (some (formatNat k))) = .bulkString (some (formatNat k)) := by
  refine Function.iterate_fixed ?_ m
  have hmagic : ¬ cpsMagicNumber <+: formatNat k := by
    intro hmagic
    have hmem : (40 : UInt8) ∈ formatNat k := hmagic.subset (by decide)
    exact absurd (isDigit_of_mem_formatNat hmem) (by decide)
  rw [decompress, decompressed_of_not_magic z hmagic]

/-- The hooks turn a reply of the `i`-th node into what the client receives. -/
theorem setResponse_scan {body : RespValue} {m i : Nat} (hi : i + 1 < 2 ^ 16) {r : ScanReply}
    (hr : r.next < 2 ^ 48) :
    (⟨body, [.bindRaw, .nextCursor (UInt16.ofNat i)] ++
      List.replicate m .decompress⟩ : SimpleRequest).setResponse z r.value =
      some (received z m i r) := by
  have hnext : Int64.ofNat r.next = 0 ↔ r.next = 0 := by
    constructor
    · intro h
      have hint := congrArg Int64.toInt h
      rw [Int64.toInt_ofNat_of_lt (by omega)] at hint
      simpa using hint
    · intro h
      rw [h]
      rfl
  have hcursor : formatUint (genCursor
      (if Int64.ofNat r.next = 0 then UInt16.ofNat i + 1 else UInt16.ofNat i)
      (Int64.ofNat r.next).toUInt64) = formatNat (clientCursor i r) := by
    have hof : (Int64.ofNat r.next).toUInt64 = UInt64.ofNat r.next := rfl
    have hsucc : UInt16.ofNat i + 1 = UInt16.ofNat (i + 1) := (UInt16.ofNat_add i 1).symm
    rw [formatUint, hof, hsucc, clientCursor]
    by_cases hzero : r.next = 0
    · rw [if_pos (hnext.mpr hzero), if_pos hzero, genCursor_toNat hi hr, hzero, Nat.add_zero]
    · rw [if_neg (fun h => hzero (hnext.mp h)), if_neg hzero, genCursor_toNat (by omega) hr]
  rw [setResponse_of_hooks z rfl, ScanReply.value, iterate_decompress_array, List.map_cons,
    iterate_decompress_formatNat]
  have hnum : btoi64 (RespValue.bulkString (some (formatNat r.next))).text =
      .ok (Int64.ofNat r.next) := btoi64_formatNat (by omega)
  simp only [SimpleRequest.setResponse, List.foldr_cons, List.foldr_nil, Option.bind_some, Hook.run,
    nextCursorHook, hnum, hcursor]
  rfl

/-- **One call**: the node gets the cursor it has given last and the client gets its next reply,
    with the cursor of the proxy. -/
theorem scanCall_reply (hcmd : findHandler c.cmd = some .scan) (hhosts : s.hosts.Nodup)
    (hn : s.hosts.length < 2 ^ 15) {done rest : List ScanNode} {e : Nat} {r : ScanReply}
    {chain : List ScanReply} (hlen : done.length < s.hosts.length) (he : e < 2 ^ 48)
    (hr : r.next < 2 ^ 48) :
    scanCall z filters s c (done ++ ⟨e, r :: chain⟩ :: rest)
        (formatNat (done.length * 2 ^ 48 + e)) =
      some (received z (decompressions c.cmd filters) done.length r,
        done ++ ⟨r.next, chain⟩ :: rest) := by
  have hsplit := handleScan_cursor (c := c) hlen hn he
  obtain ⟨hban, hoffset⟩ := untouched_of_scan hcmd
  have hpass : ∀ hooks, passFilters z filters ⟨c.body (formatNat e), hooks⟩ = .passed
      ⟨c.body (formatNat e), hooks ++ List.replicate (decompressions c.cmd filters) .decompress⟩ :=
    fun hooks => passFilters_of_untouched hban hoffset
  have hidx : s.hosts.idxOf (s.hosts.getD done.length []) = done.length := by
    have hget : s.hosts.getD done.length [] = s.hosts[done.length] := by
      simp [List.getD_eq_getElem?_getD, hlen]
    rw [hget]
    exact hhosts.idxOf_getElem _ hlen
  have hnode : (done ++ ⟨e, r :: chain⟩ :: rest)[done.length]? = some ⟨e, r :: chain⟩ := by simp
  have hanswer : (⟨e, r :: chain⟩ : ScanNode).answer c (c.body (formatNat e)) =
      some (r.value, ⟨r.next, chain⟩) := by
    rw [ScanNode.answer, if_pos]
    simp [ScanCommand.body, ScanCommand.words, RespValue.elems, Function.comp_def, RespValue.text]
  rw [scanCall, handleRequest_scan hcmd, hsplit]
  dsimp only
  rw [hpass]
  dsimp only
  rw [hidx, hnode, Option.bind_some, hanswer, Option.bind_some, setResponse_scan (by omega) hr]
  simp

/-- The call behind the last node. -/
theorem scanCall_end (hcmd : findHandler c.cmd = some .scan) (hn : s.hosts.length < 2 ^ 15)
    (z : Snappy) (filters : List (Option Compression)) (nodes : List ScanNode) :
    scanCall z filters s c nodes (formatNat (s.hosts.length * 2 ^ 48 + 0)) =
      some (respScanTerm, nodes) := by
  rw [scanCall, handleRequest_scan hcmd, handleScan_end hn]

/-! ## The whole iteration -/

/-- The number of calls the nodes answer. -/
def totalReplies (chains : List (List ScanReply)) : Nat := (chains.map List.length).sum

/-- A node before the iteration. -/
def freshNode (chain : List ScanReply) : ScanNode := ⟨0, chain⟩

theorem responseCursor_received (z : Snappy) (m i : Nat) (r : ScanReply) :
    responseCursor (received z m i r) = formatNat (clientCursor i r) := rfl

/-- The proxy gives cursor 0 for no reply of a node. -/
theorem formatNat_clientCursor_ne (i : Nat) (r : ScanReply) :
    formatNat (clientCursor i r) ≠ bytesOf "0" := by
  intro h
  have hcursor := congrArg (digitsFrom 0) h
  rw [digitsFrom_formatNat, clientCursor] at hcursor
  have hzero : digitsFrom 0 (bytesOf "0") = 0 := by decide
  rw [hzero] at hcursor
  split at hcursor <;> omega

theorem ScanChain.next_lt {r : ScanReply} {chain : List ScanReply} (h : ScanChain (r :: chain)) :
    r.next < 2 ^ 48 := by
  cases chain with
  | nil =>
    have hlast : r.next = 0 := h
    omega
  | cons r' chain => exact h.2.1

/-- **From any point on**: the `i`-th node is in the middle of its chain, and the nodes behind it
    are fresh. -/
theorem scanLoop_from (hcmd : findHandler c.cmd = some .scan) (hhosts : s.hosts.Nodup)
    (hn : s.hosts.length < 2 ^ 15) {fuel : Nat} (done : List ScanNode) {e : Nat}
    {chain : List ScanReply} {chains : List (List ScanReply)}
    (hlen : done.length + 1 + chains.length = s.hosts.length) (he : e < 2 ^ 48)
    (hchain : ScanChain chain) (hchains : ∀ l ∈ chains, ScanChain l)
    (hfuel : chain.length + totalReplies chains + 1 ≤ fuel) :
    scanLoop z filters s c fuel (done ++ ⟨e, chain⟩ :: chains.map freshNode)
        (formatNat (done.length * 2 ^ 48 + e)) =
      some (chain.map (received z (decompressions c.cmd filters) done.length) ++
        receivedFrom z (decompressions c.cmd filters) (done.length + 1) chains ++
        [respScanTerm]) := by
  -- induction on the number of calls; each call uses up one reply
  induction fuel generalizing done e chain chains with
  | zero => omega
  | succ fuel ih =>
    cases chain with
    | nil => exact absurd hchain id
    | cons r chain =>
      have hr := hchain.next_lt
      rw [scanLoop, scanCall_reply hcmd hhosts hn (by omega) he hr, Option.bind_some]
      dsimp only
      rw [responseCursor_received, if_neg (formatNat_clientCursor_ne _ _)]
      simp only [List.length_cons] at hfuel
      cases chain with
      | cons r' chain =>
        -- the node goes on
        have hpos : r.next ≠ 0 := Nat.ne_of_gt hchain.1
        rw [clientCursor, if_neg hpos, ih done hlen hr hchain.2.2 hchains (by omega)]
        simp
      | nil =>
        -- the node is through
        have hzero : r.next = 0 := hchain
        rw [clientCursor, if_pos hzero]
        have hdone : (done ++ [(⟨r.next, []⟩ : ScanNode)]).length = done.length + 1 := by simp
        cases chains with
        | nil =>
          simp only [List.length_nil, Nat.add_zero] at hlen
          obtain ⟨fuel, rfl⟩ : ∃ k, fuel = k + 1 := ⟨fuel - 1, by simp at hfuel; omega⟩
          rw [← Nat.add_zero ((done.length + 1) * 2 ^ 48), hlen, scanLoop,
            scanCall_end hcmd hn z filters]
          rfl
        | cons chain chains =>
          have hrest := @ih (done ++ [⟨r.next, []⟩]) 0 chain chains (by simp at hlen ⊢; omega)
            (by omega) (hchains chain (by simp)) (fun l hl => hchains l (by simp [hl]))
            (by simp [totalReplies] at hfuel ⊢; omega)
          rw [hdone, Nat.add_zero, List.append_assoc] at hrest
          rw [List.map_cons, freshNode]
          simp only [List.cons_append, List.nil_append] at hrest
          rw [hrest]
          simp [receivedFrom]

theorem responseCursor_of_mem_receivedFrom {m i : Nat} {chains : List (List ScanReply)}
    {v : RespValue} (hv : v ∈ receivedFrom z m i chains) : responseCursor v ≠ bytesOf "0" := by
  induction chains generalizing i with
  | nil => cases hv
  | cons chain chains ih =>
    rcases List.mem_append.mp hv with hv | hv
    · obtain ⟨r, -, rfl⟩ := List.mem_map.mp hv
      exact formatNat_clientCursor_ne i r
    · exact ih hv

/-- **Complete scans**: for every fixed list of less than 32768 hosts and every chain of replies of
    each of the nodes, a client that starts at cursor 0 and feeds back the cursors receives the
    replies of the nodes, node after node, each chain complete and in order, and then the
    terminating reply. The cursor is 0 in this reply only. The nodes answer a cursor only if it
    is the one they have given last. -/
theorem scan_complete (hcmd : findHandler c.cmd = some .scan) (hhosts : s.hosts.Nodup)
    (hn : s.hosts.length < 32768) {chains : List (List ScanReply)}
    (hlen : chains.length = s.hosts.length) (hchains : ∀ chain ∈ chains, ScanChain chain)
    {fuel : Nat} (hfuel : totalReplies chains < fuel) :
    scanLoop z filters s c fuel (chains.map freshNode) (bytesOf "0") =
      some (receivedFrom z (decompressions c.cmd filters) 0 chains ++ [respScanTerm]) ∧
    (∀ v ∈ receivedFrom z (decompressions c.cmd filters) 0 chains,
      responseCursor v ≠ bytesOf "0") ∧
    responseCursor respScanTerm = bytesOf "0" := by
  refine ⟨?_, fun v hv => responseCursor_of_mem_receivedFrom hv, rfl⟩
  have hstart : bytesOf "0" = formatNat 0 := by
    rw [formatNat]
    decide
  rw [hstart]
  cases chains with
  | nil =>
    -- no hosts: the first call ends the iteration
    obtain ⟨fuel, rfl⟩ : ∃ k, fuel = k + 1 := ⟨fuel - 1, by omega⟩
    have hend := scanCall_end hcmd hn z filters []
    rw [← hlen, List.length_nil, Nat.zero_mul, Nat.add_zero] at hend
    rw [scanLoop, List.map_nil, hend]
    rfl
  | cons chain chains =>
    have hfrom := @scanLoop_from z filters s c hcmd hhosts hn fuel [] 0 chain chains
      (by simpa [Nat.add_comm] using hlen) (by omega) (hchains chain (by simp))
      (fun l hl => hchains l (by simp [hl])) (by simpa [totalReplies] using hfuel)
    simpa [receivedFrom, freshNode] using hfrom

end Call

/-- Two hosts. -/
def sampleHosts : Surroundings := { noSurroundings with hosts := [bytesOf "a", bytesOf "b"] }

/-- The first node needs two calls and the second one needs one. -/
def sampleChains : List (List ScanReply) :=
  [[⟨7, [.array (some [.bulkString (some (bytesOf "k"))])]⟩, ⟨0, [.array (some [])]⟩],
    [⟨0, [.array (some [])]⟩]]

theorem scan_complete_sampleChains :
    scanLoop noSnappy [] sampleHosts ⟨bytesOf "scan", []⟩ 4 (sampleChains.map freshNode)
        (bytesOf "0") =
      some (receivedFrom noSnappy (decompressions (bytesOf "scan") []) 0 sampleChains ++
        [respScanTerm]) ∧
    (∀ v ∈ receivedFrom noSnappy (decompressions (bytesOf "scan") []) 0 sampleChains,
      responseCursor v ≠ bytesOf "0") ∧
    responseCursor respScanTerm = bytesOf "0" :=
  scan_complete (c := ⟨bytesOf "scan", []⟩) (by decide +kernel) (by decide) (by decide) rfl
    (by
      intro chain hchain
      rcases List.mem_cons.mp hchain with rfl | hchain
      · exact ⟨by decide, by decide, rfl⟩
      · obtain rfl := List.mem_singleton.mp hchain
        rfl)
    (by decide)

end Samaritan.Redis
