import Samaritan.Lib.CaseFold
import Samaritan.Lib.Machine
import Samaritan.Redis.CodecRoundTrip

/-!
# Backend Clients

A client (`proc/redis/upstream.go`) owns the one connection to a backend node that all
sessions share. `Send` puts a request on `pendingReqs`; `loopWrite` takes it off, runs the
filters, encodes its body and puts it on `processingReqs`; `loopRead` decodes replies and
hands each one to the request at the front of `processingReqs`. `Start` runs both loops
and, when they have ended, drains the two queues.

The machine interleaves the statements of any number of `Send` calls, of `loopWrite`, of the
goroutine of `Start` (which is `loopRead` and then the shutdown) and of `Stop` with the
backend's replies and with failures of the connection. Requests are values of an arbitrary
type `ρ`: what the loops do never depends on them.

Besides the state of the code the machine keeps histories: what was taken, encoded, handed
over and settled, in order.
-/

namespace Samaritan.Redis

open Samaritan.Lib

/-! ## Classification of replies -/

def MOVED : Bytes := bytesOf "moved"

def ASK : Bytes := bytesOf "ask"

def CLUSTERDOWN : Bytes := bytesOf "clusterdown"

/-- The first word of an error text, if a space ends it. -/
def errPrefix (text : Bytes) : Bytes :=
  if (32 : UInt8) ∈ text then text.take (text.idxOf 32) else []

/-- What `handleResp` does with a reply. -/
inductive RespAction where
  | setResponse
  | onRedirection
  | onClusterDown
  deriving DecidableEq

/-- The branch `handleResp` takes for a reply. -/
def respAction : RespValue → RespAction
  | .error text =>
    if equalFold (errPrefix text) MOVED || equalFold (errPrefix text) ASK then .onRedirection
    else if equalFold (errPrefix text) CLUSTERDOWN then .onClusterDown
    else .setResponse
  | _ => .setResponse

/-- What `handleRedirection` does with the request it is given. -/
inductive Redirection where
  /-- dispatches it to the host -/
  | moved (hostAddr : Bytes)
  /-- dispatches `ASKING` and then the request to the host -/
  | ask (hostAddr : Bytes)
  /-- neither case of the `switch` applies: the request is not dispatched again -/
  | ignored
  /-- the text has less than three words: the index is out of range -/
  | panics
  deriving DecidableEq

/-- The branch `handleRedirection` takes for the text of a reply. -/
def handleRedirection (text : Bytes) : Redirection :=
  match text.splitOn 32 with
  | kind :: _ :: hostAddr :: _ =>
    if lowersTo kind MOVED then .moved hostAddr
    else if lowersTo kind ASK then .ask hostAddr
    else .ignored
  | _ => .panics

/-! ## State -/

/-- Where `loopWrite` stands, with the request it holds. -/
inductive ClientWrite (ρ : Type) where
  /-- at the `select` that takes a request off `pendingReqs` -/
  | select
  /-- in the filter chain -/
  | filter (req : ρ)
  /-- in `Encode` -/
  | encode (req : ρ) (body : RespValue)
  /-- at the test of the length of `pendingReqs` -/
  | checkLen (req : ρ)
  /-- in `Flush` -/
  | flush (req : ρ)
  /-- at the `select` that puts the request on `processingReqs` -/
  | enqueue (req : ρ)
  /-- behind the label `FAIL` -/
  | fail (req : ρ) (e : IoErr)
  /-- the loop has returned, the connection is not closed yet -/
  | returned
  /-- `writeDone` is closed -/
  | exited

/-- Where the goroutine of `Start` stands. -/
inductive ClientStart (ρ : Type) where
  /-- `loopRead` is in `Decode` -/
  | decode
  /-- `loopRead` receives from `processingReqs` for a reply -/
  | receive (v : RespValue)
  /-- `loopRead` is about to run `handleResp` -/
  | handle (req : ρ) (v : RespValue)
  /-- `loopRead` is in the redirection callback -/
  | redirect
  /-- the redirection callback has panicked -/
  | panicked (req : ρ)
  /-- `loopRead` has returned, the connection is not closed yet -/
  | returned
  /-- about to close `quit` -/
  | quitting
  /-- waiting for `writeDone` -/
  | waitWrite
  /-- in `drainRequests` -/
  | drain
  /-- `drainRequests` has returned -/
  | drained
  /-- `done` is closed -/
  | done

/-- How a request left the client. -/
inductive Outcome where
  /-- answered by `Send`, which found `quit` closed -/
  | refused
  /-- answered by a filter -/
  | filtered
  /-- answered with the error of a write -/
  | failed (e : IoErr)
  /-- answered with a reply of the backend -/
  | replied (v : RespValue)
  /-- handed to the redirection callback, to be dispatched again -/
  | redirected (v : RespValue)
  /-- answered by `drainRequests`, from `pendingReqs` -/
  | drainedPending
  /-- answered by `drainRequests`, from `processingReqs` -/
  | drainedProcessing

/-- The state of a client and of its connection. -/
structure Client (ρ : Type) where
  pendingReqs : List ρ
  processingReqs : List ρ
  /-- the `Send` calls that have found `quit` open and have not put their request yet -/
  sending : List ρ
  enc : Encoder
  quit : Bool
  loopWrite : ClientWrite ρ
  start : ClientStart ρ
  /-- the requests passed to `Send` -/
  sent : List ρ
  /-- the requests put on `pendingReqs` -/
  accepted : List ρ
  /-- the requests `loopWrite` took off `pendingReqs` -/
  taken : List ρ
  /-- the bodies given to `Encode`, with their requests -/
  encoded : List (ρ × RespValue)
  /-- the replies of the backend -/
  answers : List RespValue
  /-- the replies `loopRead` handed over, with the requests it handed them to -/
  handed : List (ρ × RespValue)
  settled : List (ρ × Outcome)
  /-- the requests that left the client in no such way: `loopWrite` held them when it returned
      because of `quit`, or the redirection callback ignored them -/
  dropped : List ρ

/-- The capacity of `pendingReqs` and of `processingReqs`. -/
def clientQueueSize : Nat := 1024

/-- A new client, with both loops about to start. -/
def newClient (ρ : Type) : Client ρ where
  pendingReqs := []
  processingReqs := []
  sending := []
  enc := newEncoder ⟨[], none⟩ 4096 (by decide)
  quit := false
  loopWrite := .select
  start := .decode
  sent := []
  accepted := []
  taken := []
  encoded := []
  answers := []
  handed := []
  settled := []
  dropped := []

/-! ## Steps -/

/-- One step of a client or of its surroundings. -/
inductive ClientStep (ρ : Type) where
  /-- the `select` of a `Send` call -/
  | send (req : ρ)
  /-- a `Send` call puts its request on `pendingReqs` -/
  | put (req : ρ)
  /-- `Stop` closes `quit` -/
  | stop
  /-- the connection fails or is closed, after accepting `k` more bytes -/
  | connFail (k : Nat) (e : IoErr)
  /-- `loopWrite` takes the `quit` case of its first `select` -/
  | writeQuit
  /-- `loopWrite` takes a request off `pendingReqs` -/
  | take
  /-- the filter chain has answered the request -/
  | filterStop
  /-- the filter chain lets the request pass, leaving it with this body -/
  | filterContinue (body : RespValue)
  | encode
  | checkLen
  | flush
  /-- `loopWrite` puts its request on `processingReqs` -/
  | enqueue
  /-- `loopWrite` takes the `quit` case of its second `select` -/
  | enqueueQuit
  /-- the request is answered with the error of the write -/
  | fail
  /-- the connection is closed behind `loopWrite` -/
  | writeExit
  /-- the backend answers the next request it has received completely -/
  | answer (v : RespValue)
  /-- `Decode` returns the next reply -/
  | decode
  /-- `Decode` returns an error -/
  | decodeErr
  | receive
  /-- `handleResp` -/
  | handle
  /-- the redirection callback returns -/
  | redirected
  /-- the connection is closed behind `loopRead` -/
  | closeConn
  | closeQuit
  | waitWrite
  | drainPending
  | drainProcessing
  /-- `drainRequests` finds both queues empty -/
  | drainReturn
  | closeDone

namespace Client

variable {ρ : Type}

/-- The error of writing to a connection that was closed on this side. -/
def connClosed : IoErr := .net (bytesOf "use of closed network connection")

/-- The bytes of the first `n` bodies have reached the backend. -/
def arrived (c : Client ρ) (n : Nat) : Bool :=
  ((c.encoded.take n).flatMap fun e => Redis.encode e.2).isPrefixOf c.enc.bw.wr.out

/-- The replies `Decode` has returned. -/
def decoded (c : Client ρ) : List RespValue :=
  c.handed.map Prod.snd ++
    match c.start with
    | .receive v => [v]
    | _ => []

/-- The effect of one step; `none` when it is not enabled. -/
def step [DecidableEq ρ] (c : Client ρ) : ClientStep ρ → Option (Client ρ)
  | .send req =>
    if c.quit then
      some { c with sent := c.sent ++ [req], settled := c.settled ++ [(req, .refused)] }
    -- the request is put in a later step: `quit` may be closed in between
    else some { c with sent := c.sent ++ [req], sending := c.sending ++ [req] }
  | .put req =>
    -- a full queue blocks the call
    if req ∈ c.sending ∧ c.pendingReqs.length < clientQueueSize then
      some { c with
        sending := c.sending.erase req
        pendingReqs := c.pendingReqs ++ [req]
        accepted := c.accepted ++ [req] }
    else none
  | .stop => some { c with quit := true }
  | .connFail k e => some { c with enc := c.enc.limit k e }
  | .writeQuit =>
    match c.loopWrite with
    | .select => if c.quit then some { c with loopWrite := .returned } else none
    | _ => none
  | .take =>
    match c.loopWrite, c.pendingReqs with
    | .select, req :: rest =>
      some { c with pendingReqs := rest, taken := c.taken ++ [req], loopWrite := .filter req }
    | _, _ => none
  | .filterStop =>
    match c.loopWrite with
    | .filter req =>
      some { c with settled := c.settled ++ [(req, .filtered)], loopWrite := .select }
    | _ => none
  | .filterContinue body =>
    match c.loopWrite with
    | .filter req => some { c with loopWrite := .encode req body }
    | _ => none
  | .encode =>
    match c.loopWrite with
    | .encode req body =>
      some { c with
        enc := c.enc.encode body
        encoded := c.encoded ++ [(req, body)]
        loopWrite :=
          match (c.enc.encode body).err with
          | none => .checkLen req
          | some e => .fail req e }
    | _ => none
  | .checkLen =>
    match c.loopWrite with
    | .checkLen req =>
      some { c with loopWrite := if c.pendingReqs.length = 0 then .flush req else .enqueue req }
    | _ => none
  | .flush =>
    match c.loopWrite with
    | .flush req =>
      some { c with
        enc := c.enc.flush
        loopWrite :=
          match c.enc.flush.err with
          | none => .enqueue req
          | some e => .fail req e }
    | _ => none
  | .enqueue =>
    match c.loopWrite with
    | .enqueue req =>
      if c.processingReqs.length < clientQueueSize then
        some { c with processingReqs := c.processingReqs ++ [req], loopWrite := .select }
      else none
    | _ => none
  | .enqueueQuit =>
    match c.loopWrite with
    | .enqueue req =>
      -- the request is on neither queue and has no response
      if c.quit then some { c with dropped := c.dropped ++ [req], loopWrite := .returned } else none
    | _ => none
  | .fail =>
    match c.loopWrite with
    | .fail req e =>
      some { c with settled := c.settled ++ [(req, .failed e)], loopWrite := .returned }
    | _ => none
  | .writeExit =>
    match c.loopWrite with
    | .returned => some { c with enc := c.enc.limit 0 connClosed, loopWrite := .exited }
    | _ => none
  | .answer v =>
    -- the next body must have arrived completely
    if c.answers.length < c.encoded.length ∧ c.arrived (c.answers.length + 1) then
      some { c with answers := c.answers ++ [v] }
    else none
  | .decode =>
    match c.start, c.answers[c.decoded.length]? with
    | .decode, some v => some { c with start := .receive v }
    | _, _ => none
  | .decodeErr =>
    match c.start with
    | .decode => some { c with start := .returned }
    | _ => none
  | .receive =>
    match c.start, c.processingReqs with
    | .receive v, req :: rest =>
      some { c with
        processingReqs := rest
        handed := c.handed ++ [(req, v)]
        start := .handle req v }
    | _, _ => none
  | .handle =>
    match c.start with
    | .handle req v =>
      match respAction v with
      | .onRedirection =>
        -- the callback splits the text again, and compares it in another way
        match handleRedirection v.text with
        | .panics => some { c with start := .panicked req }
        | .ignored => some { c with dropped := c.dropped ++ [req], start := .redirect }
        | _ => some { c with settled := c.settled ++ [(req, .redirected v)], start := .redirect }
      | _ => some { c with settled := c.settled ++ [(req, .replied v)], start := .decode }
    | _ => none
  | .redirected =>
    match c.start with
    | .redirect => some { c with start := .decode }
    | _ => none
  | .closeConn =>
    match c.start with
    | .returned => some { c with enc := c.enc.limit 0 connClosed, start := .quitting }
    | _ => none
  | .closeQuit =>
    match c.start with
    | .quitting => some { c with quit := true, start := .waitWrite }
    | _ => none
  | .waitWrite =>
    match c.start, c.loopWrite with
    | .waitWrite, .exited => some { c with start := .drain }
    | _, _ => none
  | .drainPending =>
    match c.start, c.pendingReqs with
    | .drain, req :: rest =>
      some { c with pendingReqs := rest, settled := c.settled ++ [(req, .drainedPending)] }
    | _, _ => none
  | .drainProcessing =>
    match c.start, c.processingReqs with
    | .drain, req :: rest =>
      some { c with processingReqs := rest, settled := c.settled ++ [(req, .drainedProcessing)] }
    | _, _ => none
  | .drainReturn =>
    -- the `default` case of the `select`: a `Send` call may still put a request afterwards
    match c.start, c.pendingReqs, c.processingReqs with
    | .drain, [], [] => some { c with start := .drained }
    | _, _, _ => none
  | .closeDone =>
    match c.start with
    | .drained => some { c with start := .done }
    | _ => none

/-! ## What a step can do

The transitions one by one, with their guards. Every invariant is proved by cases on this
relation. -/

/-- A transition of a client. -/
inductive Step (c : Client ρ) : ClientStep ρ → Client ρ → Prop where
  | sendRefused {req : ρ} (hquit : c.quit = true) :
      Step c (.send req) { c with
        sent := c.sent ++ [req], settled := c.settled ++ [(req, .refused)] }
  | send {req : ρ} (hquit : c.quit = false) :
      Step c (.send req) { c with sent := c.sent ++ [req], sending := c.sending ++ [req] }
  | put {l₁ l₂ : List ρ} {req : ρ} (hsend : c.sending = l₁ ++ req :: l₂)
      (hroom : c.pendingReqs.length < clientQueueSize) :
      Step c (.put req) { c with
        sending := l₁ ++ l₂
        pendingReqs := c.pendingReqs ++ [req]
        accepted := c.accepted ++ [req] }
  | stop : Step c .stop { c with quit := true }
  | connFail {k : Nat} {e : IoErr} : Step c (.connFail k e) { c with enc := c.enc.limit k e }
  | writeQuit (hpos : c.loopWrite = .select) (hquit : c.quit = true) :
      Step c .writeQuit { c with loopWrite := .returned }
  | take {req : ρ} {rest : List ρ} (hpos : c.loopWrite = .select)
      (hqueue : c.pendingReqs = req :: rest) :
      Step c .take { c with
        pendingReqs := rest, taken := c.taken ++ [req], loopWrite := .filter req }
  | filterStop {req : ρ} (hpos : c.loopWrite = .filter req) :
      Step c .filterStop { c with
        settled := c.settled ++ [(req, .filtered)], loopWrite := .select }
  | filterContinue {req : ρ} {body : RespValue} (hpos : c.loopWrite = .filter req) :
      Step c (.filterContinue body) { c with loopWrite := .encode req body }
  | encode {req : ρ} {body : RespValue} (hpos : c.loopWrite = .encode req body)
      (hok : (c.enc.encode body).err = none) :
      Step c .encode { c with
        enc := c.enc.encode body
        encoded := c.encoded ++ [(req, body)]
        loopWrite := .checkLen req }
  | encodeErr {req : ρ} {body : RespValue} {e : IoErr} (hpos : c.loopWrite = .encode req body)
      (herr : (c.enc.encode body).err = some e) :
      Step c .encode { c with
        enc := c.enc.encode body
        encoded := c.encoded ++ [(req, body)]
        loopWrite := .fail req e }
  | checkLenEmpty {req : ρ} (hpos : c.loopWrite = .checkLen req) (hqueue : c.pendingReqs = []) :
      Step c .checkLen { c with loopWrite := .flush req }
  | checkLen {req : ρ} (hpos : c.loopWrite = .checkLen req) (hqueue : c.pendingReqs ≠ []) :
      Step c .checkLen { c with loopWrite := .enqueue req }
  | flush {req : ρ} (hpos : c.loopWrite = .flush req) (hok : c.enc.flush.err = none) :
      Step c .flush { c with enc := c.enc.flush, loopWrite := .enqueue req }
  | flushErr {req : ρ} {e : IoErr} (hpos : c.loopWrite = .flush req)
      (herr : c.enc.flush.err = some e) :
      Step c .flush { c with enc := c.enc.flush, loopWrite := .fail req e }
  | enqueue {req : ρ} (hpos : c.loopWrite = .enqueue req)
      (hroom : c.processingReqs.length < clientQueueSize) :
      Step c .enqueue { c with
        processingReqs := c.processingReqs ++ [req], loopWrite := .select }
  | enqueueQuit {req : ρ} (hpos : c.loopWrite = .enqueue req) (hquit : c.quit = true) :
      Step c .enqueueQuit { c with dropped := c.dropped ++ [req], loopWrite := .returned }
  | fail {req : ρ} {e : IoErr} (hpos : c.loopWrite = .fail req e) :
      Step c .fail { c with
        settled := c.settled ++ [(req, .failed e)], loopWrite := .returned }
  | writeExit (hpos : c.loopWrite = .returned) :
      Step c .writeExit { c with enc := c.enc.limit 0 connClosed, loopWrite := .exited }
  | answer {v : RespValue} (hlen : c.answers.length < c.encoded.length)
      (harrived : c.arrived (c.answers.length + 1) = true) :
      Step c (.answer v) { c with answers := c.answers ++ [v] }
  | decode {v : RespValue} (hpos : c.start = .decode)
      (hnext : c.answers[c.decoded.length]? = some v) :
      Step c .decode { c with start := .receive v }
  | decodeErr (hpos : c.start = .decode) : Step c .decodeErr { c with start := .returned }
  | receive {req : ρ} {rest : List ρ} {v : RespValue} (hpos : c.start = .receive v)
      (hqueue : c.processingReqs = req :: rest) :
      Step c .receive { c with
        processingReqs := rest, handed := c.handed ++ [(req, v)], start := .handle req v }
  | handlePanic {req : ρ} {v : RespValue} (hpos : c.start = .handle req v)
      (hact : respAction v = .onRedirection) (hredir : handleRedirection v.text = .panics) :
      Step c .handle { c with start := .panicked req }
  | handleIgnored {req : ρ} {v : RespValue} (hpos : c.start = .handle req v)
      (hact : respAction v = .onRedirection) (hredir : handleRedirection v.text = .ignored) :
      Step c .handle { c with dropped := c.dropped ++ [req], start := .redirect }
  | handleRedirect {req : ρ} {v : RespValue} (hpos : c.start = .handle req v)
      (hact : respAction v = .onRedirection) (hpanics : handleRedirection v.text ≠ .panics)
      (hignored : handleRedirection v.text ≠ .ignored) :
      Step c .handle { c with
        settled := c.settled ++ [(req, .redirected v)], start := .redirect }
  | handle {req : ρ} {v : RespValue} (hpos : c.start = .handle req v)
      (hact : respAction v ≠ .onRedirection) :
      Step c .handle { c with
        settled := c.settled ++ [(req, .replied v)], start := .decode }
  | redirected (hpos : c.start = .redirect) : Step c .redirected { c with start := .decode }
  | closeConn (hpos : c.start = .returned) :
      Step c .closeConn { c with enc := c.enc.limit 0 connClosed, start := .quitting }
  | closeQuit (hpos : c.start = .quitting) :
      Step c .closeQuit { c with quit := true, start := .waitWrite }
  | waitWrite (hpos : c.start = .waitWrite) (hwrite : c.loopWrite = .exited) :
      Step c .waitWrite { c with start := .drain }
  | drainPending {req : ρ} {rest : List ρ} (hpos : c.start = .drain)
      (hqueue : c.pendingReqs = req :: rest) :
      Step c .drainPending { c with
        pendingReqs := rest, settled := c.settled ++ [(req, .drainedPending)] }
  | drainProcessing {req : ρ} {rest : List ρ} (hpos : c.start = .drain)
      (hqueue : c.processingReqs = req :: rest) :
      Step c .drainProcessing { c with
        processingReqs := rest, settled := c.settled ++ [(req, .drainedProcessing)] }
  | drainReturn (hpos : c.start = .drain) (hpending : c.pendingReqs = [])
      (hprocessing : c.processingReqs = []) :
      Step c .drainReturn { c with start := .drained }
  | closeDone (hpos : c.start = .drained) : Step c .closeDone { c with start := .done }

/-- The step function only makes these transitions. -/
theorem step_cases [DecidableEq ρ] {c c' : Client ρ} {a : ClientStep ρ}
    (h : c.step a = some c') : Step c a c' := by
  cases a with
  | send req =>
    simp only [step] at h
    split at h
    · rename_i hquit
      cases h
      exact .sendRefused hquit
    · rename_i hquit
      cases h
      exact .send (by simpa using hquit)
  | put req =>
    simp only [step] at h
    split at h <;> cases h
    rename_i hput
    -- the call that puts is one of those that are sending
    obtain ⟨l₁, l₂, -, hsend, herase⟩ := List.exists_erase_eq hput.1
    rw [herase]
    exact .put hsend hput.2
  | encode =>
    simp only [step] at h
    split at h <;> cases h
    rename_i req body hpos
    cases herr : (c.enc.encode body).err with
    | none => exact .encode hpos herr
    | some e => exact .encodeErr hpos herr
  | checkLen =>
    simp only [step] at h
    split at h <;> cases h
    rename_i req hpos
    split
    · rename_i hlen
      exact .checkLenEmpty hpos (List.length_eq_zero_iff.mp hlen)
    · rename_i hlen
      exact .checkLen hpos (fun hnil => hlen (by simp [hnil]))
  | flush =>
    simp only [step] at h
    split at h <;> cases h
    rename_i req hpos
    cases herr : c.enc.flush.err with
    | none => exact .flush hpos herr
    | some e => exact .flushErr hpos herr
  | answer v =>
    simp only [step] at h
    split at h <;> cases h
    rename_i hans
    exact .answer hans.1 hans.2
  | handle =>
    simp only [step] at h
    split at h
    · rename_i req v hpos
      split at h
      · rename_i hact
        split at h
        · cases h
          exact .handlePanic hpos hact ‹_›
        · cases h
          exact .handleIgnored hpos hact ‹_›
        · rename_i hpanics hignored
          cases h
          exact .handleRedirect hpos hact (by simpa using hpanics) (by simpa using hignored)
      · rename_i hact
        cases h
        exact .handle hpos (by simpa using hact)
    · cases h
  | stop =>
    cases h
    exact .stop
  | connFail k e =>
    cases h
    exact .connFail
  | writeQuit =>
    simp only [step] at h
    split at h
    · split at h <;> cases h
      exact .writeQuit ‹_› ‹_›
    · cases h
  | take =>
    simp only [step] at h
    split at h <;> cases h
    exact .take ‹_› ‹_›
  | filterStop =>
    simp only [step] at h
    split at h <;> cases h
    exact .filterStop ‹_›
  | filterContinue body =>
    simp only [step] at h
    split at h <;> cases h
    exact .filterContinue ‹_›
  | enqueue =>
    simp only [step] at h
    split at h
    · split at h <;> cases h
      exact .enqueue ‹_› ‹_›
    · cases h
  | enqueueQuit =>
    simp only [step] at h
    split at h
    · split at h <;> cases h
      exact .enqueueQuit ‹_› ‹_›
    · cases h
  | fail =>
    simp only [step] at h
    split at h <;> cases h
    exact .fail ‹_›
  | writeExit =>
    simp only [step] at h
    split at h <;> cases h
    exact .writeExit ‹_›
  | decode =>
    simp only [step] at h
    split at h <;> cases h
    exact .decode ‹_› ‹_›
  | decodeErr =>
    simp only [step] at h
    split at h <;> cases h
    exact .decodeErr ‹_›
  | receive =>
    simp only [step] at h
    split at h <;> cases h
    exact .receive ‹_› ‹_›
  | redirected =>
    simp only [step] at h
    split at h <;> cases h
    exact .redirected ‹_›
  | closeConn =>
    simp only [step] at h
    split at h <;> cases h
    exact .closeConn ‹_›
  | closeQuit =>
    simp only [step] at h
    split at h <;> cases h
    exact .closeQuit ‹_›
  | waitWrite =>
    simp only [step] at h
    split at h <;> cases h
    exact .waitWrite ‹_› ‹_›
  | drainPending =>
    simp only [step] at h
    split at h <;> cases h
    exact .drainPending ‹_› ‹_›
  | drainProcessing =>
    simp only [step] at h
    split at h <;> cases h
    exact .drainProcessing ‹_› ‹_›
  | drainReturn =>
    simp only [step] at h
    split at h <;> cases h
    exact .drainReturn ‹_› ‹_› ‹_›
  | closeDone =>
    simp only [step] at h
    split at h <;> cases h
    exact .closeDone ‹_›

/-- At most one request leaves the client in a step, and one that is handed to the redirection
    callback is dispatched again. -/
theorem Step.settled_cases {c c' : Client ρ} {a : ClientStep ρ} (h : Step c a c') :
    c'.settled = c.settled ∨ ∃ req o, c'.settled = c.settled ++ [(req, o)] ∧
      ∀ v, o = .redirected v →
        ∃ addr, handleRedirection v.text = .moved addr ∨ handleRedirection v.text = .ask addr := by
  cases h with
  | sendRefused | filterStop | fail | handle | drainPending | drainProcessing =>
    exact .inr ⟨_, _, rfl, by simp⟩
  | @handleRedirect req v hpos hact hpanics hignored =>
    refine .inr ⟨_, _, rfl, fun w hw => ?_⟩
    obtain rfl := Outcome.redirected.inj hw
    cases hredir : handleRedirection v.text with
    | moved addr => exact ⟨addr, .inl rfl⟩
    | ask addr => exact ⟨addr, .inr rfl⟩
    | ignored => exact absurd hredir hignored
    | panics => exact absurd hredir hpanics
  | _ => exact .inl rfl

end Client

end Samaritan.Redis
