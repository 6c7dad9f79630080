import Samaritan.Lib.Machine
import Samaritan.Redis.CodecRoundTrip

/-!
# Downstream Sessions

A session (`proc/redis/session.go`) serves one client connection with two loops that
share the bounded queue `processingReqs`: `loopRead` decodes requests, dispatches each
one and puts it on the queue; `loopWrite` takes requests off the queue, waits until they
are answered, and encodes the answers.

The machine below interleaves the statements of the two loops with the answers, which
arrive in any order, from inside `handleRequest` or later, and with the closing of the
session and of its connection at any moment. A request is identified by its position in
the order of arrival. The main result is that the replies keep this order, and that
nothing encoded is left in the write buffer when `loopWrite` waits on an empty queue.
-/

namespace Samaritan.Redis

open Samaritan.Lib

/-! ## State -/

/-- A request of the session: what was read, and its response once it is set. -/
structure RawRequest where
  body : RespValue
  resp : Option RespValue

/-- Where `loopRead` stands. -/
inductive ReadLoop where
  /-- in `Decode` -/
  | decode
  /-- in `handleRequest` -/
  | handle (req : Nat)
  /-- at the `select` that puts the request on the queue -/
  | enqueue (req : Nat)
  | returned

/-- Where `loopWrite` stands. -/
inductive WriteLoop where
  /-- at the `select` that takes a request off the queue -/
  | select
  /-- in `Wait` -/
  | wait (req : Nat)
  /-- in `Encode` -/
  | encode (req : Nat) (resp : RespValue)
  /-- at the test of the queue's length -/
  | checkLen
  /-- in `Flush` -/
  | flush
  | returned

/-- The state of a session. `requests` are all requests read so far, `encoded` the values
    whose `Encode` has succeeded. -/
structure Session where
  requests : List RawRequest
  processingReqs : List Nat
  enc : Encoder
  quit : Bool
  loopRead : ReadLoop
  loopWrite : WriteLoop
  encoded : List RespValue

/-- The capacity of `processingReqs`. -/
def sessionQueueSize : Nat := 32

/-- `newSession`, with both loops about to start. -/
def newSession : Session where
  requests := []
  processingReqs := []
  enc := newEncoder ⟨[], none⟩ 8192 (by decide)
  quit := false
  loopRead := .decode
  loopWrite := .select
  encoded := []

/-! ## Steps -/

/-- One step of a session or of its surroundings. -/
inductive SessionStep where
  /-- `Decode` returns a request -/
  | decode (v : RespValue)
  /-- `Decode` returns an error -/
  | decodeErr
  /-- `handleRequest` returns -/
  | handled
  /-- some goroutine calls `SetResponse` on a request that has no response yet -/
  | setResponse (req : Nat) (v : RespValue)
  /-- `loopRead` puts its request on the queue -/
  | enqueue
  /-- `loopRead` leaves because of `quit` -/
  | readQuit
  /-- `loopWrite` takes a request off the queue -/
  | take
  /-- `loopWrite` leaves because of `quit` -/
  | writeQuit
  /-- `Wait` returns -/
  | wait
  | encode
  | checkLen
  | flush
  /-- `quit` is closed: by `Close`, or behind one of the loops -/
  | doQuit
  /-- the connection fails or is closed, after accepting `k` more bytes -/
  | connFail (k : Nat) (e : IoErr)

namespace Session

/-- The response of a request, once it is set. -/
def response (s : Session) (req : Nat) : Option RespValue :=
  s.requests[req]?.bind RawRequest.resp

/-- The effect of one step; `none` when it is not enabled. -/
def step (s : Session) : SessionStep → Option Session
  | .decode v =>
    match s.loopRead with
    | .decode =>
      some { s with
        requests := s.requests ++ [⟨v, none⟩]
        loopRead := .handle s.requests.length }
    | _ => none
  | .decodeErr =>
    match s.loopRead with
    | .decode => some { s with loopRead := .returned }
    | _ => none
  | .handled =>
    match s.loopRead with
    | .handle req => some { s with loopRead := .enqueue req }
    | _ => none
  | .setResponse req v =>
    match s.requests[req]? with
    | some ⟨body, none⟩ => some { s with requests := s.requests.set req ⟨body, some v⟩ }
    | _ => none
  | .enqueue =>
    match s.loopRead with
    | .enqueue req =>
      if s.processingReqs.length < sessionQueueSize then
        some { s with processingReqs := s.processingReqs ++ [req], loopRead := .decode }
      else none
    | _ => none
  | .readQuit =>
    match s.loopRead with
    | .enqueue _ => if s.quit then some { s with loopRead := .returned } else none
    | _ => none
  | .take =>
    match s.loopWrite, s.processingReqs with
    | .select, req :: rest => some { s with processingReqs := rest, loopWrite := .wait req }
    | _, _ => none
  | .writeQuit =>
    match s.loopWrite with
    | .select => if s.quit then some { s with loopWrite := .returned } else none
    | _ => none
  | .wait =>
    match s.loopWrite with
    | .wait req => (s.response req).map fun v => { s with loopWrite := .encode req v }
    | _ => none
  | .encode =>
    match s.loopWrite with
    | .encode _ v =>
      if (s.enc.encode v).err = none then
        some { s with enc := s.enc.encode v, encoded := s.encoded ++ [v], loopWrite := .checkLen }
      else some { s with enc := s.enc.encode v, loopWrite := .returned }
    | _ => none
  | .checkLen =>
    match s.loopWrite with
    | .checkLen =>
      some { s with loopWrite := if s.processingReqs.length ≠ 0 then .select else .flush }
    | _ => none
  | .flush =>
    match s.loopWrite with
    | .flush =>
      some { s with
        enc := s.enc.flush
        loopWrite := if s.enc.flush.err = none then .select else .returned }
    | _ => none
  | .doQuit => some { s with quit := true }
  | .connFail k e => some { s with enc := s.enc.limit k e }

/-- What the steps do: one constructor for each branch, with its guard. -/
inductive Step (s : Session) : SessionStep → Session → Prop where
  | decode {v : RespValue} (hread : s.loopRead = .decode) :
      Step s (.decode v)
        { s with
          requests := s.requests ++ [⟨v, none⟩]
          loopRead := .handle s.requests.length }
  | decodeErr (hread : s.loopRead = .decode) : Step s .decodeErr { s with loopRead := .returned }
  | handled {req : Nat} (hread : s.loopRead = .handle req) :
      Step s .handled { s with loopRead := .enqueue req }
  | setResponse {req : Nat} {body v : RespValue} (hreq : s.requests[req]? = some ⟨body, none⟩) :
      Step s (.setResponse req v) { s with requests := s.requests.set req ⟨body, some v⟩ }
  | enqueue {req : Nat} (hread : s.loopRead = .enqueue req)
      (hroom : s.processingReqs.length < sessionQueueSize) :
      Step s .enqueue
        { s with processingReqs := s.processingReqs ++ [req], loopRead := .decode }
  | readQuit {req : Nat} (hread : s.loopRead = .enqueue req) (hquit : s.quit = true) :
      Step s .readQuit { s with loopRead := .returned }
  | take {req : Nat} {rest : List Nat} (hwrite : s.loopWrite = .select)
      (hqueue : s.processingReqs = req :: rest) :
      Step s .take { s with processingReqs := rest, loopWrite := .wait req }
  | writeQuit (hwrite : s.loopWrite = .select) (hquit : s.quit = true) :
      Step s .writeQuit { s with loopWrite := .returned }
  | wait {req : Nat} {v : RespValue} (hwrite : s.loopWrite = .wait req)
      (hv : s.response req = some v) : Step s .wait { s with loopWrite := .encode req v }
  | encode {req : Nat} {v : RespValue} (hwrite : s.loopWrite = .encode req v)
      (hok : (s.enc.encode v).err = none) :
      Step s .encode
        { s with enc := s.enc.encode v, encoded := s.encoded ++ [v], loopWrite := .checkLen }
  | encodeErr {req : Nat} {v : RespValue} (hwrite : s.loopWrite = .encode req v)
      (herr : (s.enc.encode v).err ≠ none) :
      Step s .encode { s with enc := s.enc.encode v, loopWrite := .returned }
  | checkLenMore (hwrite : s.loopWrite = .checkLen) (hqueue : s.processingReqs.length ≠ 0) :
      Step s .checkLen { s with loopWrite := .select }
  | checkLenEmpty (hwrite : s.loopWrite = .checkLen) (hqueue : s.processingReqs.length = 0) :
      Step s .checkLen { s with loopWrite := .flush }
  | flush (hwrite : s.loopWrite = .flush) (hok : s.enc.flush.err = none) :
      Step s .flush { s with enc := s.enc.flush, loopWrite := .select }
  | flushErr (hwrite : s.loopWrite = .flush) (herr : s.enc.flush.err ≠ none) :
      Step s .flush { s with enc := s.enc.flush, loopWrite := .returned }
  | doQuit : Step s .doQuit { s with quit := true }
  | connFail {k : Nat} {e : IoErr} : Step s (.connFail k e) { s with enc := s.enc.limit k e }

/-- Every step is one of the branches. -/
theorem step_cases {s s' : Session} {a : SessionStep} (h : s.step a = some s') : Step s a s' := by
  cases a with
  | decode v =>
    simp only [step] at h
    split at h <;> cases h
    exact .decode ‹_›
  | decodeErr =>
    simp only [step] at h
    split at h <;> cases h
    exact .decodeErr ‹_›
  | handled =>
    simp only [step] at h
    split at h <;> cases h
    exact .handled ‹_›
  | setResponse req v =>
    simp only [step] at h
    split at h <;> cases h
    exact .setResponse ‹_›
  | enqueue =>
    simp only [step] at h
    split at h
    · split at h <;> cases h
      exact .enqueue ‹_› ‹_›
    · cases h
  | readQuit =>
    simp only [step] at h
    split at h
    · split at h <;> cases h
      exact .readQuit ‹_› ‹_›
    · cases h
  | take =>
    simp only [step] at h
    split at h <;> cases h
    exact .take ‹_› ‹_›
  | writeQuit =>
    simp only [step] at h
    split at h
    · split at h <;> cases h
      exact .writeQuit ‹_› ‹_›
    · cases h
  | wait =>
    simp only [step] at h
    split at h
    · obtain ⟨v, hv, rfl⟩ := Option.map_eq_some_iff.mp h
      exact .wait ‹_› hv
    · cases h
  | encode =>
    simp only [step] at h
    split at h
    · split at h <;> cases h
      · exact .encode ‹_› ‹_›
      · exact .encodeErr ‹_› ‹_›
    · cases h
  | checkLen =>
    simp only [step] at h
    split at h <;> cases h
    split
    · exact .checkLenMore ‹_› ‹_›
    · exact .checkLenEmpty ‹_› (not_not.mp ‹_›)
  | flush =>
    simp only [step] at h
    split at h <;> cases h
    split
    · exact .flush ‹_› ‹_›
    · exact .flushErr ‹_› ‹_›
  | doQuit =>
    cases h
    exact .doQuit
  | connFail k e =>
    cases h
    exact .connFail

/-! ## Invariant -/

/-- The request `loopWrite` has taken but not encoded. -/
def writing (s : Session) : List Nat :=
  match s.loopWrite with
  | .wait req => [req]
  | .encode req _ => [req]
  | _ => []

/-- The request `loopRead` has read but not put on the queue. -/
def reading (s : Session) : List Nat :=
  match s.loopRead with
  | .handle req => [req]
  | .enqueue req => [req]
  | _ => []

/-- The requests still to be encoded, first the one whose turn it is. -/
def upcoming (s : Session) : List Nat := s.writing ++ s.processingReqs ++ s.reading

/-- What holds in every state of a session. -/
structure Inv (s : Session) : Prop where
  /-- the `i`-th value encoded is the response of the `i`-th request -/
  replies : ∀ i v, s.encoded[i]? = some v → s.response i = some v
  /-- the value in `Encode` is the response of the request in hand -/
  inHand : ∀ req v, s.loopWrite = .encode req v → s.response req = some v
  /-- the requests still to be encoded are in order of arrival, behind the encoded ones -/
  order : s.loopWrite ≠ .returned → s.upcoming = List.range' s.encoded.length s.upcoming.length
  /-- and, while `loopRead` runs, they are all the others -/
  total : s.loopWrite ≠ .returned → s.loopRead ≠ .returned →
    s.encoded.length + s.upcoming.length = s.requests.length
  /-- the writer holds the encodings of the encoded values -/
  written : s.loopWrite ≠ .returned → s.enc.bw.held = s.encoded.flatMap encode
  /-- nothing is buffered while `loopWrite` waits on an empty queue -/
  flushed : s.loopWrite = .select → s.processingReqs = [] → s.enc.bw.buf = []

theorem inv_newSession : Inv newSession where
  replies := by simp [newSession]
  inHand := by simp [newSession]
  order := by simp [newSession, upcoming, writing, reading]
  total := by simp [newSession, upcoming, writing, reading]
  written := by simp [newSession, newEncoder, BufWriter.held]
  flushed := by simp [newSession, newEncoder]

/-- Requests that arrive later do not change responses. -/
theorem response_append {s : Session} {r : RawRequest} {i : Nat} {v : RespValue}
    (h : s.response i = some v) :
    ({ s with requests := s.requests ++ [r] } : Session).response i = some v := by
  simp only [response, Option.bind_eq_some_iff] at h ⊢
  obtain ⟨q, hq, hv⟩ := h
  refine ⟨q, ?_, hv⟩
  rw [List.getElem?_append_left (List.getElem?_eq_some_iff.mp hq).1, hq]

/-- A response that is set for the first time does not change the others. -/
theorem response_set {s : Session} {req i : Nat} {body v w : RespValue}
    (hreq : s.requests[req]? = some ⟨body, none⟩) (h : s.response i = some v) :
    ({ s with requests := s.requests.set req ⟨body, some w⟩ } : Session).response i = some v := by
  have hne : req ≠ i := by
    rintro rfl
    simp [response, hreq] at h
  simp only [response] at h ⊢
  rwa [List.getElem?_set_ne hne]

/-- A request that is read goes to the end of those still to be encoded. -/
theorem Inv.decode {s : Session} (hs : Inv s) (hread : s.loopRead = .decode) (r : RawRequest) :
    Inv { s with requests := s.requests ++ [r], loopRead := .handle s.requests.length } := by
  have hup : s.upcoming = s.writing ++ s.processingReqs := by simp [upcoming, reading, hread]
  exact { hs with
    replies := fun i w hi => response_append (hs.replies i w hi)
    inHand := fun r w hw => response_append (hs.inHand r w hw)
    order := by
      intro hrun
      have htotal := hs.total hrun (by simp [hread])
      change s.writing ++ s.processingReqs ++ [s.requests.length] =
        List.range' s.encoded.length (s.writing ++ s.processingReqs ++ [_]).length
      rw [← hup, List.length_append, List.length_singleton, List.range'_1_concat, htotal,
        ← hs.order hrun]
    total := by
      intro hrun _
      have htotal := hs.total hrun (by simp [hread])
      change s.encoded.length + (s.writing ++ s.processingReqs ++ [_]).length =
        (s.requests ++ [_]).length
      rw [← hup, List.length_append, List.length_append, List.length_singleton,
        List.length_singleton]
      omega }

/-- The value that is encoded is the response of the request whose turn it is. -/
theorem Inv.encode {s : Session} (hs : Inv s) {req : Nat} {v : RespValue}
    (hwrite : s.loopWrite = .encode req v) (hok : (s.enc.encode v).err = none) :
    Inv { s with
      enc := s.enc.encode v, encoded := s.encoded ++ [v], loopWrite := .checkLen } := by
  have hrun : s.loopWrite ≠ .returned := by simp [hwrite]
  have hup : s.upcoming = req :: (s.processingReqs ++ s.reading) := by
    simp [upcoming, writing, hwrite]
  -- the request in hand is the next one behind the encoded ones
  have horder := hs.order hrun
  rw [hup, List.length_cons, List.range'_succ, List.cons.injEq] at horder
  obtain ⟨rfl, hrest⟩ := horder
  have hv := hs.inHand _ v hwrite
  exact { hs with
    replies := by
      intro i w hi
      rcases Nat.lt_or_ge i s.encoded.length with hlt | hge
      · rw [List.getElem?_append_left hlt] at hi
        exact hs.replies i w hi
      · rw [List.getElem?_append_right hge, List.getElem?_singleton] at hi
        split at hi <;> cases hi
        obtain rfl : i = s.encoded.length := by omega
        exact hv
    inHand := by simp
    order := by
      intro _
      simpa [upcoming, writing, reading] using hrest
    total := by
      intro _ hread
      have htotal := hs.total hrun hread
      rw [hup] at htotal
      simp only [upcoming, writing, List.nil_append, List.length_append, List.length_cons,
        List.length_nil, reading] at htotal ⊢
      omega
    written := by
      intro _
      rw [Encoder.encode_held hok, hs.written hrun]
      simp
    flushed := by simp }

/-- Once `loopWrite` has returned, only the values it has encoded matter. -/
theorem Inv.writeReturned {s : Session} (hs : Inv s) (enc : Encoder) :
    Inv { s with enc := enc, loopWrite := .returned } :=
  { hs with
    inHand := by simp
    order := by simp
    total := by simp
    written := by simp
    flushed := by simp }

/-- `loopWrite` moves on with no request in hand. -/
theorem Inv.moveWrite {s : Session} (hs : Inv s) (hrun : s.loopWrite ≠ .returned)
    (hnone : s.writing = []) {enc : Encoder} (hheld : enc.bw.held = s.enc.bw.held) {l : WriteLoop}
    (hl : l = .select ∨ l = .flush)
    (hflushed : l = .select → s.processingReqs = [] → enc.bw.buf = []) :
    Inv { s with enc := enc, loopWrite := l } := by
  have hup : ({ s with enc := enc, loopWrite := l } : Session).upcoming = s.upcoming := by
    rcases hl with rfl | rfl <;> simp [upcoming, hnone] <;> rfl
  exact { hs with
    inHand := by rcases hl with rfl | rfl <;> simp
    order := by
      intro _
      rw [hup]
      exact hs.order hrun
    total := by
      intro _ hread
      rw [hup]
      exact hs.total hrun hread
    written := fun _ => hheld.trans (hs.written hrun)
    flushed := hflushed }

/-- Every step keeps the invariant. -/
theorem inv_step {s s' : Session} {a : SessionStep} (hs : Inv s) (h : Step s a s') : Inv s' := by
  cases h with
  | decode hread => exact hs.decode hread _
  | decodeErr hread =>
    exact { hs with
      order := by simpa [upcoming, writing, reading, hread] using hs.order
      total := by simp }
  | handled hread =>
    exact { hs with
      order := by simpa [upcoming, writing, reading, hread] using hs.order
      total := by simpa [upcoming, writing, reading, hread] using hs.total }
  | setResponse hreq =>
    exact { hs with
      replies := fun i w hi => response_set hreq (hs.replies i w hi)
      inHand := fun r w hw => response_set hreq (hs.inHand r w hw)
      total := by simpa [upcoming, writing, reading] using hs.total }
  | enqueue hread _ =>
    exact { hs with
      order := by simpa [upcoming, writing, reading, hread] using hs.order
      total := by simpa [upcoming, writing, reading, hread] using hs.total
      flushed := by simp }
  | readQuit hread _ =>
    exact { hs with
      order := by
        intro hrun
        -- the request in hand was the last one, so that the others keep their order
        have horder := hs.order hrun
        simp only [upcoming, reading, hread, List.length_append, List.length_singleton,
          List.range'_1_concat] at horder
        simpa [upcoming, reading, writing] using (List.append_inj' horder rfl).1
      total := by simp }
  | take hwrite hqueue =>
    exact { hs with
      inHand := by simp
      order := by simpa [upcoming, writing, reading, hwrite, hqueue] using hs.order
      total := by simpa [upcoming, writing, reading, hwrite, hqueue] using hs.total
      written := by simpa [hwrite] using hs.written
      flushed := by simp }
  | wait hwrite hv =>
    exact { hs with
      inHand := by
        intro r w hw
        cases hw
        exact hv
      order := by simpa [upcoming, writing, reading, hwrite] using hs.order
      total := by simpa [upcoming, writing, reading, hwrite] using hs.total
      written := by simpa [hwrite] using hs.written
      flushed := by simp }
  | encode hwrite hok => exact hs.encode hwrite hok
  | checkLenMore hwrite hqueue =>
    -- nothing need be flushed: the queue is not empty
    refine hs.moveWrite (by simp [hwrite]) (by simp [writing, hwrite]) rfl (.inl rfl) ?_
    intro _ hempty
    simp [hempty] at hqueue
  | checkLenEmpty hwrite _ =>
    exact hs.moveWrite (by simp [hwrite]) (by simp [writing, hwrite]) rfl (.inr rfl) (by simp)
  | flush hwrite hok =>
    exact hs.moveWrite (by simp [hwrite]) (by simp [writing, hwrite]) (Encoder.flush_held _)
      (.inl rfl) fun _ _ => Encoder.flush_buf hok
  | writeQuit _ _ => exact hs.writeReturned s.enc
  | encodeErr _ _ | flushErr _ _ => exact hs.writeReturned _
  | doQuit | connFail => exact { hs with }

theorem inv_of_reachable {s : Session} (h : Reachable step newSession s) : Inv s :=
  invariant_of_reachable (fun _ _ _ hs hstep => inv_step hs (step_cases hstep)) inv_newSession h

/-- **Replies in order**: in every reachable state the values encoded so far are the responses
    of the first requests, in order of arrival; and while `loopWrite` waits on an empty queue,
    the connection has been given the encodings of all of them. -/
theorem replies_in_order {s : Session} (h : Reachable step newSession s) :
    s.encoded.map some <+: s.requests.map RawRequest.resp ∧
      (s.loopWrite = .select → s.processingReqs = [] →
        s.enc.bw.wr.out = s.encoded.flatMap encode) := by
  have hs := inv_of_reachable h
  constructor
  · rw [List.prefix_iff_getElem?]
    intro i hi
    have hlt : i < s.encoded.length := by simpa using hi
    have hresp := hs.replies i s.encoded[i] (List.getElem?_eq_getElem hlt)
    obtain ⟨r, hr, hv⟩ := Option.bind_eq_some_iff.mp hresp
    simp [hr, hv]
  · intro hsel hempty
    have hbuf := hs.flushed hsel hempty
    have hheld := hs.written (by simp [hsel])
    simpa [BufWriter.held, hbuf] using hheld

/-- Two pipelined requests, the second one answered first and from inside `handleRequest`. -/
def sampleRun : List SessionStep :=
  [.decode (.array (some [])), .handled, .enqueue, .decode (.array none),
    .setResponse 1 (.simpleString (bytesOf "PONG")), .handled, .enqueue, .take,
    .setResponse 0 (.error (bytesOf "ERR")), .wait, .encode, .checkLen, .take, .wait, .encode,
    .checkLen, .flush]

theorem sampleRun_isSome : (runFrom step newSession sampleRun).isSome := by decide +kernel

theorem replies_in_order_sampleRun :
    ((runFrom step newSession sampleRun).get sampleRun_isSome).encoded.length = 2 ∧
      ((runFrom step newSession sampleRun).get sampleRun_isSome).encoded.map some <+:
        ((runFrom step newSession sampleRun).get sampleRun_isSome).requests.map RawRequest.resp :=
  ⟨by decide +kernel, (replies_in_order (reachable_get sampleRun_isSome)).1⟩

end Session

end Samaritan.Redis
