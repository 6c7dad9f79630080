import Samaritan.Redis.ClientStream
import Samaritan.Redis.Filter
import Samaritan.Redis.SlotsRefresh

/-!
# A Client with a Full Backlog

`loopWrite` skips the flush while requests are pending, and blocks when `processingReqs` is full.
If the request at its front were still in the write buffer then, the backend could not answer it,
no entry of `processingReqs` would become free, and the loop would never get to its next flush.

Nothing in the code says that this cannot happen: it follows from the two sizes. Behind the oldest
request there are as many encoded bodies as the queue has entries, because `loopWrite` has encoded
the one it is about to put. A body is an array, so its encoding has at least four bytes, and four
bytes for each entry of the queue are as many as the buffer holds.
-/

namespace Samaritan.Redis

open Samaritan.Lib

/-! ## Forwarded requests -/

/-- The command that makes a replica answer queries. -/
def readOnlyBody : RespValue := .array (some [.bulkString (some (bytesOf "readonly"))])

def ASKING : Bytes := bytesOf "asking"

/-- The command in front of a request that is redirected by `ASK`. -/
def askingBody : RespValue := .array (some [.bulkString (some ASKING)])

/-- The bodies of the requests that are sent to a backend. -/
inductive Forwarded : RespValue → Prop where
  /-- a command of a session, with its arguments -/
  | command {vs : List RespValue} (hlen : 2 ≤ vs.length)
      (hbulk : ∀ v ∈ vs, ∃ t, v = .bulkString t) : Forwarded (.array (some vs))
  /-- the commands of the proxy itself -/
  | readOnly : Forwarded readOnlyBody
  | asking : Forwarded askingBody
  | clusterNodes : Forwarded clusterNodesRequest

theorem Forwarded.exists_array {body : RespValue} (h : Forwarded body) :
    ∃ vs, body = .array (some vs) := by
  cases h with
  | command | readOnly | asking | clusterNodes => exact ⟨_, rfl⟩

/-- The compression filter replaces elements of an array by others. -/
theorem exists_array_of_passed {z : Snappy} {cfg : Option Compression} {req req' : SimpleRequest}
    (h : compressFilterDo z cfg req = .passed req') {vs : List RespValue}
    (hbody : req.body = .array (some vs)) : ∃ vs', req'.body = .array (some vs') := by
  have hkept : req.withDecompress.body = req.body := by
    unfold SimpleRequest.withDecompress
    split <;> rfl
  unfold compressFilterDo at h
  split at h
  · obtain rfl := FilterStatus.passed.inj h
    exact ⟨vs, hbody⟩
  · split at h
    · obtain rfl := FilterStatus.passed.inj h
      exact ⟨vs, hkept.trans hbody⟩
    · split at h
      · cases h
      · obtain rfl := FilterStatus.passed.inj h
        simp only [compress, hbody]
        split
        · exact ⟨_, rfl⟩
        · exact ⟨vs, rfl⟩

/-- The type byte, a number of at least one digit and the delimiter. -/
theorem four_le_length_encode_array (vs : List RespValue) :
    4 ≤ (encode (.array (some vs))).length := by
  have hdigits : itoa (Int64.ofNat vs.length) ≠ [] := (denotes_itoa _).ne_nil
  have hpos := List.length_pos_of_ne_nil hdigits
  simp only [encode_array_some, List.length_cons, List.length_append, CRLF, List.length_nil]
  omega

namespace Client

variable {ρ : Type}

/-- What the filter chain lets pass was made from a forwarded body. -/
def Forwards (z : Snappy) (_ : Client ρ) : ClientStep ρ → Prop
  | .filterContinue body => ∃ cfg req req', Forwarded req.body ∧
      compressFilterDo z cfg req = .passed req' ∧ req'.body = body
  | _ => True

/-! ## The requests behind the oldest one -/

/-- While `loopWrite` goes on, every encoded request was handed a reply, is on `processingReqs` or
    is about to be put there, in this order. The read loop may have ended already. -/
def Lined (c : Client ρ) : Prop :=
  c.Writes → c.handed.map Prod.fst ++ c.processingReqs ++ c.committing = c.encoded.map Prod.fst

theorem Lined.step {c c' : Client ρ} {a : ClientStep ρ} (hs : Staged c) (hc : Lined c)
    (h : Step c a c') : Lined c' := by
  cases h with
  | take hpos | filterStop hpos | filterContinue hpos | checkLenEmpty hpos | checkLen hpos
  | flush hpos =>
    simpa [Lined, Writes, committing, hpos] using hc
  | encode hpos =>
    have hall := hc (by simp [Writes, hpos])
    simp only [committing, hpos, List.append_nil] at hall
    intro _
    simp [committing, hall]
  | enqueue hpos =>
    have hall := hc (by simp [Writes, hpos])
    simp only [committing, hpos] at hall
    intro _
    simp [committing, ← hall]
  | receive hpos hqueue =>
    intro hwrites
    have hall := hc hwrites
    simpa [committing, hqueue] using hall
  | drainProcessing hpos =>
    -- `loopWrite` has exited before the drain
    intro hwrites
    simp [Writes, hs.writeDone (by simp [hpos])] at hwrites
  | writeQuit | encodeErr | flushErr | enqueueQuit | fail | writeExit => exact fun h => h.elim
  | _ => exact hc

/-- What the argument about the backlog needs of a state. -/
structure Backlogged (c : Client ρ) : Prop where
  staged : Staged c
  streamed : Streamed c
  lined : Lined c
  size : c.enc.bw.size = 4096
  /-- no body is shorter than the share of an entry of `processingReqs` in the buffer -/
  long : ∀ e ∈ c.encoded, 4 ≤ (Redis.encode e.2).length
  inHand : ∀ req body, c.loopWrite = .encode req body → 4 ≤ (Redis.encode body).length

theorem backlogged_newClient : Backlogged (newClient ρ) where
  staged := staged_newClient
  streamed := streamed_newClient
  lined := by simp [Lined, newClient, committing]
  size := rfl
  long := by simp [newClient]
  inHand := by simp [newClient]

/-- The steps that change the buffer, the bodies or the body in hand. -/
theorem Backlogged.step {z : Snappy} {c c' : Client ρ} {a : ClientStep ρ} (hc : Backlogged c)
    (hok : c.Forwards z a) (h : Step c a c') : Backlogged c' := by
  have hrest : c'.enc.bw.size = 4096 ∧ (∀ e ∈ c'.encoded, 4 ≤ (Redis.encode e.2).length) ∧
      ∀ req body, c'.loopWrite = .encode req body → 4 ≤ (Redis.encode body).length := by
    cases h with
    -- what passes the filters is an array, and the shortest has four bytes
    | filterContinue hpos =>
      refine ⟨hc.size, hc.long, ?_⟩
      rintro req body ⟨⟩
      obtain ⟨cfg, r, r', hforwarded, hpassed, rfl⟩ := hok
      obtain ⟨vs, hvs⟩ := hforwarded.exists_array
      obtain ⟨vs', hvs'⟩ := exists_array_of_passed hpassed hvs
      rw [hvs']
      exact four_le_length_encode_array vs'
    | @encode req body hpos | @encodeErr req body _ hpos =>
      refine ⟨by simp [hc.size], ?_, by simp⟩
      intro e he
      rcases List.mem_append.mp he with he | he
      · exact hc.long e he
      · obtain rfl := List.mem_singleton.mp he
        exact hc.inHand req body hpos
    | flush | flushErr => exact ⟨by simp [hc.size], hc.long, by simp⟩
    | connFail | closeConn => exact ⟨hc.size, hc.long, hc.inHand⟩
    | take | filterStop | checkLenEmpty | checkLen | enqueue | writeQuit | enqueueQuit | fail
    | writeExit => exact ⟨hc.size, hc.long, by simp⟩
    | _ => exact ⟨hc.size, hc.long, hc.inHand⟩
  exact ⟨hc.staged.step h, hc.streamed.step h, hc.lined.step hc.staged h, hrest.1, hrest.2.1,
    hrest.2.2⟩

theorem four_mul_le_length_encodings {l : List (ρ × RespValue)}
    (h : ∀ e ∈ l, 4 ≤ (Redis.encode e.2).length) : 4 * l.length ≤ (encodings l).length := by
  induction l with
  | nil => simp
  | cons e l ih =>
    have hhead := h e (by simp)
    have htail := ih fun e' he' => h e' (by simp [he'])
    simp only [encodings, List.flatMap_cons, List.length_append, List.length_cons] at htail ⊢
    omega

/-- `loopWrite` cannot put its request on `processingReqs`, which is full. -/
def Blocked (c : Client ρ) : Prop :=
  (∃ req, c.loopWrite = .enqueue req) ∧ clientQueueSize ≤ c.processingReqs.length

/-- The request at the front of `processingReqs` is the next one to be handed a reply, and its body
    is on the connection with all the bodies before it. -/
def OldestWritten (c : Client ρ) : Prop :=
  ∃ req body rest, c.processingReqs = req :: rest ∧
    c.encoded[c.handed.length]? = some (req, body) ∧ c.arrived (c.handed.length + 1) = true

theorem Backlogged.lengths {c : Client ρ} (hc : Backlogged c) (hblocked : c.Blocked) :
    c.encoded.length = c.handed.length + c.processingReqs.length + 1 := by
  obtain ⟨req, hpos⟩ := hblocked.1
  have hall := congrArg List.length (hc.lined (by simp [Writes, hpos]))
  simp only [committing, hpos, List.length_append, List.length_map, List.length_cons,
    List.length_nil] at hall
  omega

/-- The bodies behind the oldest request alone would fill the buffer, so the buffer begins behind
    the oldest request. -/
theorem Backlogged.arrived_oldest {c : Client ρ} (hc : Backlogged c) (hblocked : c.Blocked) :
    c.arrived (c.handed.length + 1) = true := by
  obtain ⟨req, hpos⟩ := hblocked.1
  have hheld := hc.streamed.held (by simp [Writes, hpos])
  have hsplit : encodings (c.encoded.take (c.handed.length + 1)) ++
      encodings (c.encoded.drop (c.handed.length + 1)) = encodings c.encoded := by
    rw [encodings, encodings, ← List.flatMap_append, List.take_append_drop, encodings]
  have hbehind : c.enc.bw.buf.length ≤
      (encodings (c.encoded.drop (c.handed.length + 1))).length := by
    have hlong : ∀ e ∈ c.encoded.drop (c.handed.length + 1), 4 ≤ (Redis.encode e.2).length :=
      fun e he => hc.long e (List.mem_of_mem_drop he)
    have hbytes := four_mul_le_length_encodings hlong
    have hcount := hc.lengths hblocked
    have hfull : 1024 ≤ c.processingReqs.length := hblocked.2
    have hbuf := hc.size ▸ c.enc.bw.buf_le
    rw [List.length_drop] at hbytes
    omega
  -- both are the beginning of the bytes of all bodies, and the first one is not longer
  have hout : c.enc.bw.wr.out <+: encodings c.encoded := ⟨c.enc.bw.buf, hheld⟩
  have hlen := congrArg List.length (hheld.trans hsplit.symm)
  simp only [BufWriter.held, List.length_append] at hlen
  have hle : (encodings (c.encoded.take (c.handed.length + 1))).length ≤
      c.enc.bw.wr.out.length := by omega
  apply List.isPrefixOf_iff_prefix.mpr
  exact List.prefix_of_prefix_length_le ⟨_, hsplit⟩ hout hle

theorem Backlogged.oldestWritten {c : Client ρ} (hc : Backlogged c) (hblocked : c.Blocked) :
    c.OldestWritten := by
  obtain ⟨req, hpos⟩ := hblocked.1
  have hall := hc.lined (by simp [Writes, hpos])
  cases hqueue : c.processingReqs with
  | nil => simpa [hqueue, clientQueueSize] using hblocked.2
  | cons old rest =>
    -- the oldest request is the one behind those that were handed a reply
    have hget : (c.encoded.map Prod.fst)[c.handed.length]? = some old := by
      rw [← hall, hqueue]
      simp
    rw [List.getElem?_map, Option.map_eq_some_iff] at hget
    obtain ⟨⟨old', body⟩, hbody, rfl⟩ := hget
    exact ⟨old', body, rest, hqueue, hbody, hc.arrived_oldest hblocked⟩

/-- The reply to the oldest request has been given, or the backend can give it. -/
def OldestAnswerable [DecidableEq ρ] (c : Client ρ) : Prop :=
  c.handed.length < c.answers.length ∨ ∀ v, (c.step (.answer v)).isSome = true

/-- The bodies in front of an arrived one have arrived. -/
theorem arrived_mono {c : Client ρ} {m n : Nat} (hmn : m ≤ n) (h : c.arrived n = true) :
    c.arrived m = true := by
  have hn := List.isPrefixOf_iff_prefix.mp h
  apply List.isPrefixOf_iff_prefix.mpr
  refine List.IsPrefix.trans ?_ hn
  obtain ⟨l, hl⟩ := List.take_prefix_take_left (l := c.encoded) hmn
  rw [← hl, List.flatMap_append]
  exact List.prefix_append _ _

theorem OldestWritten.answerable [DecidableEq ρ] {c : Client ρ} (h : c.OldestWritten) :
    c.OldestAnswerable := by
  obtain ⟨req, body, rest, -, hbody, harrived⟩ := h
  have hlt : c.handed.length < c.encoded.length := (List.getElem?_eq_some_iff.mp hbody).1
  rcases Nat.lt_or_ge c.handed.length c.answers.length with hgiven | hopen
  · exact .inl hgiven
  · have hnext : c.arrived (c.answers.length + 1) = true :=
      arrived_mono (Nat.succ_le_succ hopen) harrived
    exact .inr fun v => by simp [Client.step, hnext, Nat.lt_of_le_of_lt hopen hlt]

/-- **The backlog does not stall**: in every run of a client that forwards requests, whenever
    `loopWrite` is blocked because `processingReqs` is full, whatever is in its buffer, the oldest
    request has been written completely, and the backend can answer it. -/
theorem oldestWritten_of_blocked [DecidableEq ρ] {z : Snappy} {as : List (ClientStep ρ)}
    {c : Client ρ} (hrun : runFrom Client.step (newClient ρ) as = some c)
    (hforward : RunMeets Client.step (Forwards z) (newClient ρ) as) (hblocked : c.Blocked) :
    c.OldestWritten ∧ c.OldestAnswerable := by
  have hstep : ∀ (c : Client ρ) a c', Backlogged c → c.Forwards z a → c.step a = some c' →
      Backlogged c' := fun c a c' hc hok h => hc.step hok (step_cases h)
  have hc := invariant_of_runMeets hstep backlogged_newClient hforward hrun
  have hwritten := hc.oldestWritten hblocked
  exact ⟨hwritten, hwritten.answerable⟩

/-! ## A run into a full backlog -/

/-- A request whose two words are empty. -/
def shortBody : RespValue := .array (some [.bulkString (some []), .bulkString (some [])])

/-- A request is sent while the one before it is encoded, so there is no flush. -/
def backlogEncode : List (ClientStep Nat) :=
  [.send 0, .put 0, .take, .filterContinue shortBody, .encode, .checkLen]

/-- `n` requests are put on `processingReqs`, and one more is encoded. -/
def backlogRun (n : Nat) : List (ClientStep Nat) :=
  [.send 0, .put 0] ++ (List.replicate n (backlogEncode ++ [.enqueue])).flatten ++ backlogEncode

/-- `n` requests wait for their replies and one is pending. -/
structure Queued (n : Nat) (c : Client Nat) : Prop where
  position : c.loopWrite = .select
  notQuit : c.quit = false
  sending : c.sending = []
  pending : c.pendingReqs = [0]
  processing : c.processingReqs.length = n
  sound : c.enc.Sound
  size : c.enc.bw.size = 4096

theorem Queued.encode {n : Nat} {c : Client Nat} (h : Queued n c) :
    ∃ c', runFrom Client.step c backlogEncode = some c' ∧ c'.loopWrite = .enqueue 0 ∧
      c'.quit = false ∧ c'.sending = [] ∧ c'.pendingReqs = [0] ∧
      c'.processingReqs = c.processingReqs ∧ c'.enc = c.enc.encode shortBody := by
  have hnone : (c.enc.encode shortBody).err = none := (h.sound.encode shortBody).noErr
  simp [backlogEncode, runFrom, Client.step, h.notQuit, h.sending, h.pending, h.position, hnone,
    clientQueueSize]

theorem Queued.round {n : Nat} {c : Client Nat} (h : Queued n c) (hn : n < clientQueueSize) :
    ∃ c', runFrom Client.step c (backlogEncode ++ [.enqueue]) = some c' ∧ Queued (n + 1) c' := by
  obtain ⟨c', hrun, hpos, hquit, hsending, hpending, hprocessing, henc⟩ := h.encode
  have hroom : c'.processingReqs.length < clientQueueSize := by rwa [hprocessing, h.processing]
  refine ⟨{ c' with processingReqs := c'.processingReqs ++ [0], loopWrite := .select }, ?_, ?_⟩
  · rw [runFrom_append, hrun]
    simp [runFrom, Client.step, hpos, hroom]
  · exact {
      position := rfl
      notQuit := hquit
      sending := hsending
      pending := hpending
      processing := by simp [hprocessing, h.processing]
      sound := henc ▸ h.sound.encode shortBody
      size := by simp [henc, h.size] }

theorem exists_queued (n : Nat) (hn : n ≤ clientQueueSize) :
    ∃ c, runFrom Client.step (newClient Nat)
      ([.send 0, .put 0] ++ (List.replicate n (backlogEncode ++ [.enqueue])).flatten) = some c ∧
      Queued n c := by
  induction n with
  | zero =>
    refine ⟨{ newClient Nat with pendingReqs := [0], sent := [0], accepted := [0] }, ?_, ?_⟩
    · simp [runFrom, Client.step, newClient, clientQueueSize]
    · exact ⟨rfl, rfl, rfl, rfl, rfl, ⟨rfl, rfl, rfl⟩, rfl⟩
  | succ n ih =>
    obtain ⟨c, hrun, hc⟩ := ih (Nat.le_of_succ_le hn)
    obtain ⟨c', hround, hc'⟩ := hc.round hn
    refine ⟨c', ?_, hc'⟩
    rw [List.replicate_succ', List.flatten_append, ← List.append_assoc, runFrom_append, hrun]
    simpa using hround

/-- The last call of `Encode` on its writer leaves the delimiter in the buffer. -/
theorem encode_shortBody_buf {e : Encoder} (he : e.Sound) (hsize : 2 ≤ e.bw.size) :
    (e.encode shortBody).bw.buf ≠ [] := by
  have hpieces : encodePieces shortBody = (encodePieces shortBody).dropLast ++ [.bytes CRLF] := rfl
  have hfirst := sound_putAll (encodePieces shortBody).dropLast he.bw
  rw [Encoder.encode, if_neg (by simp [he.noErr]), hpieces, putAll_concat hfirst.noErr]
  apply BufWriter.write_buf_ne_nil (by decide)
  · rw [putAll_size]
    exact hsize
  · exact (hfirst.write CRLF).noErr

theorem forwards_backlogEncode {z : Snappy} {c : Client Nat} {a : ClientStep Nat}
    (ha : a ∈ backlogEncode) : c.Forwards z a := by
  have hforwarded : Forwarded shortBody := .command (by decide) (by simp)
  simp only [backlogEncode, List.mem_cons, List.not_mem_nil, or_false] at ha
  rcases ha with rfl | rfl | rfl | rfl | rfl | rfl
  -- the filters are not configured and let the body pass as it is
  case inr.inr.inr.inl => exact ⟨none, ⟨shortBody, []⟩, _, hforwarded, rfl, rfl⟩
  all_goals trivial

theorem forwards_backlogRun (z : Snappy) (n : Nat) :
    RunMeets Client.step (Forwards z) (newClient Nat) (backlogRun n) := by
  apply runMeets_of_forall (p := (newClient Nat).Forwards z)
  intro a ha
  simp only [backlogRun, List.mem_append, List.mem_flatten, List.mem_replicate] at ha
  rcases ha with (ha | ⟨l, ⟨-, rfl⟩, ha⟩) | ha
  · simp only [List.mem_cons, List.not_mem_nil, or_false] at ha
    rcases ha with rfl | rfl <;> trivial
  · rcases List.mem_append.mp ha with ha | ha
    · exact forwards_backlogEncode ha
    · obtain rfl := List.mem_singleton.mp ha
      trivial
  · exact forwards_backlogEncode ha

theorem oldestWritten_of_blocked_backlogRun :
    ∃ c, runFrom Client.step (newClient Nat) (backlogRun 1024) = some c ∧ c.Blocked ∧
      c.enc.bw.buf ≠ [] ∧ c.OldestWritten ∧ c.OldestAnswerable := by
  obtain ⟨c, hrun, hc⟩ := exists_queued 1024 (Nat.le_refl _)
  obtain ⟨c', hencode, hpos, -, -, -, hprocessing, henc⟩ := hc.encode
  have hrun' : runFrom Client.step (newClient Nat) (backlogRun 1024) = some c' := by
    rw [backlogRun, runFrom_append, hrun]
    exact hencode
  have hblocked : c'.Blocked := by
    refine ⟨⟨0, hpos⟩, ?_⟩
    rw [hprocessing, hc.processing]
    exact Nat.le_refl _
  have hbuf : c'.enc.bw.buf ≠ [] := by
    rw [henc]
    exact encode_shortBody_buf hc.sound (by simp [hc.size])
  exact ⟨c', hrun', hblocked, hbuf,
    oldestWritten_of_blocked hrun' (forwards_backlogRun ⟨some, some⟩ 1024) hblocked⟩

end Client

end Samaritan.Redis
