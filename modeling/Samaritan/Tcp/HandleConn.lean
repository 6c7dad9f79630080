import Mathlib.Data.UInt
import Samaritan.Lib.Machine
import Samaritan.Lib.Tally
import Samaritan.Tcp.Balancer

/-!
# Proxying a TCP Connection

`HandleConn` of the TCP processor (`proc/tcp/proc.go`) picks a host for a client connection, dials
it, and copies bytes both ways until both directions have ended. Three goroutines work on a
connection: the one of `HandleConn` copies from the host to the client, a second one copies from the
client to the host and closes `done` behind that, and a third one waits for the removal of the host,
upon which it closes both connections, or for `done`.

The machine interleaves these goroutines for any number of connections with each other, with the
peers, with changes of the host set and with `Stop` of the listener. A handler plans the updates of
the counters that are called for by what it has done, and makes them one by one before it goes on.
-/

namespace Samaritan.Tcp

open Samaritan.Lib
open Samaritan.Hosts (Host HostSet SetOp)

/-! ## Connections -/

/-- The client's connection `cconn` and the host's connection `sconn`. -/
inductive Side where
  | client
  | server
  deriving DecidableEq, Repr

def Side.other : Side → Side
  | .client => .server
  | .server => .client

@[simp] theorem Side.other_ne (side : Side) : side.other ≠ side := by
  cases side <;> simp [Side.other]

@[simp] theorem Side.ne_other (side : Side) : side ≠ side.other := side.other_ne.symm

@[simp] theorem Side.other_other (side : Side) : side.other.other = side := by
  cases side <;> rfl

/-- The error of a read call. -/
inductive ReadErr where
  | eof
  | net
  deriving DecidableEq, Repr

/-- The error of `copyBuffer`; the end of the stream is none. -/
inductive CopyErr where
  | read
  | write
  | shortWrite
  deriving DecidableEq, Repr

/-- A connection (`Conn` of `proc/internal/net/conn.go`) and its peer. -/
structure Socket where
  /-- the bytes that have been read -/
  taken : Bytes
  /-- the bytes that the peer has sent and that have not been read -/
  incoming : Bytes
  /-- the peer has ended its stream -/
  fin : Bool
  /-- the bytes that the connection has accepted for the peer -/
  written : Bytes
  closed : Bool
  readShut : Bool
  /-- the end of the stream has been sent to the peer -/
  writeShut : Bool
  /-- the number of bytes of the read calls that returned no error -/
  takenClean : Nat
  /-- the number of bytes of the write calls that returned no error -/
  writtenClean : Nat
  deriving DecidableEq

namespace Socket

/-- All that the peer has sent. -/
def sent (s : Socket) : Bytes := s.taken ++ s.incoming

/-- The size of the buffers of `copyBuffer`. -/
def bufSize : Nat := 16 * 1024

/-- What a read call may return: a closed connection returns an error and nothing else, and the end
    of the stream comes behind its last byte. -/
def MayRead (s : Socket) (n : Nat) (err : Option ReadErr) : Prop :=
  (s.closed = true → n = 0 ∧ err = some .net) ∧
    n ≤ s.incoming.length ∧ n ≤ bufSize ∧
    (err = some .eof → s.fin = true ∧ n = s.incoming.length)

instance (s : Socket) (n : Nat) (err : Option ReadErr) : Decidable (s.MayRead n err) :=
  inferInstanceAs (Decidable (_ ∧ _))

/-- What a write call of `len` bytes may return. -/
def MayWrite (s : Socket) (len n : Nat) (err : Bool) : Prop :=
  (s.closed = true → n = 0 ∧ err = true) ∧ n ≤ len

instance (s : Socket) (len n : Nat) (err : Bool) : Decidable (s.MayWrite len n err) :=
  inferInstanceAs (Decidable (_ ∧ _))

/-- A connection that is closed cannot be shut down any more. -/
def MayShut (s : Socket) (ok : Bool) : Prop := s.closed = true → ok = false

instance (s : Socket) (ok : Bool) : Decidable (s.MayShut ok) := inferInstanceAs (Decidable (_ → _))

def read (s : Socket) (n : Nat) (err : Option ReadErr) : Socket :=
  { s with
    taken := s.taken ++ s.incoming.take n
    incoming := s.incoming.drop n
    takenClean := if err = none then s.takenClean + n else s.takenClean }

/-- The first `n` bytes are accepted. -/
def write (s : Socket) (bytes : Bytes) (n : Nat) (err : Bool) : Socket :=
  { s with
    written := s.written ++ bytes.take n
    writtenClean := if err then s.writtenClean else s.writtenClean + n }

/-- `Close`; only the first call closes the connection. -/
def close (s : Socket) : Socket := { s with closed := true }

/-- `CloseWrite`. -/
def closeWrite (s : Socket) (ok : Bool) : Socket := if ok then { s with writeShut := true } else s

/-- `CloseRead`. -/
def closeRead (s : Socket) (ok : Bool) : Socket := if ok then { s with readShut := true } else s

def send (s : Socket) (bytes : Bytes) : Socket := { s with incoming := s.incoming ++ bytes }

def finish (s : Socket) : Socket := { s with fin := true }

end Socket

def newSocket : Socket where
  taken := []
  incoming := []
  fin := false
  written := []
  closed := false
  readShut := false
  writeShut := false
  takenClean := 0
  writtenClean := 0

/-! ## Counters -/

/-- The counters: `Stats` of a host, `UpstreamStats`, and the bytes of `DownstreamStats`. -/
inductive Counter where
  | connTotal (h : Host)
  | connActive (h : Host)
  | connDestroy (h : Host)
  | connBytesIn (h : Host)
  | connBytesOut (h : Host)
  | cxTotal
  | cxActive
  | cxDestroyTotal
  | cxConnectTimeout
  | cxConnectFail
  /-- of the downstream for the client's connection, of the upstream for the host's -/
  | cxRxBytesTotal (side : Side)
  | cxTxBytesTotal (side : Side)
  deriving DecidableEq

/-- An amount that is added to a counter; `Dec` adds the greatest 64-bit number. -/
abbrev Update := Counter × UInt64

/-- `IncConnCount` and the counters of the upstream. -/
def openUpdates (h : Host) : List Update :=
  [(.connTotal h, 1), (.connActive h, 1), (.cxTotal, 1), (.cxActive, 1)]

/-- `DecConnCount` and the counters of the upstream. -/
def closeUpdates (h : Host) : List Update :=
  [(.connDestroy h, 1), (.connActive h, -1), (.cxDestroyTotal, 1), (.cxActive, -1)]

/-- A timeout is what any error with a method `Timeout` counts as. -/
def dialUpdates (timeout : Bool) : List Update :=
  (if timeout then [(.cxConnectTimeout, 1)] else []) ++ [(.cxConnectFail, 1)]

/-- The counter of a host is set on the connection to the host only, and nothing is added to it
    for an empty call. -/
def hostUpdate (counter : Host → Counter) (host : Option Host) (side : Side) (n : Nat) :
    List Update :=
  match side, host with
  | .server, some h => if n = 0 then [] else [(counter h, UInt64.ofNat n)]
  | _, _ => []

/-- The counters of `Read`. -/
def readUpdates (host : Option Host) (side : Side) (n : Nat) (err : Option ReadErr) :
    List Update :=
  (if err = none then [(.cxRxBytesTotal side, UInt64.ofNat n)] else []) ++
    hostUpdate .connBytesIn host side n

/-- The counters of `Write`. -/
def writeUpdates (host : Option Host) (side : Side) (n : Nat) (err : Bool) : List Update :=
  (if err then [] else [(.cxTxBytesTotal side, UInt64.ofNat n)]) ++
    hostUpdate .connBytesOut host side n

/-! ## Handlers -/

/-- Where `pipeConn` is; it copies from `src` to `dst`. -/
inductive PipePc where
  /-- not called yet -/
  | idle
  /-- in `copyBuffer`, reading from `src` -/
  | reading
  /-- in `copyBuffer`, writing to `dst` what has been read -/
  | writing (chunk : Bytes) (er : Option ReadErr)
  /-- before `closeWrite(dst)` -/
  | copied (err : Option CopyErr)
  /-- before `dst.Close()`, which follows a `closeWrite` that failed -/
  | closeDst (err : Option CopyErr)
  /-- before `closeRead(src)` -/
  | closeRead (err : Option CopyErr)
  /-- before `src.Close()`, which follows a `closeRead` that failed -/
  | closeSrc (err : Option CopyErr)
  | ended (err : Option CopyErr)
  deriving DecidableEq

/-- Where `HandleConn` is. -/
inductive MainPc where
  | start
  /-- in `PickHost` -/
  | picking (healthyHosts : List Host)
  /-- in `PickHost`, with the connection count of the first host loaded -/
  | comparing (host1 host2 : Host) (count1 : UInt64)
  | dialing (h : Host)
  /-- the counters of a new connection are updated -/
  | opening
  /-- in the `pipeConn` that copies to the client -/
  | piping
  /-- at `<-done` -/
  | joining
  /-- in the deferred update of the counters, with `sconn.Close` to follow -/
  | leaving
  | returned
  /-- returned without a healthy host -/
  | noHost
  /-- returned without a connection to the host -/
  | dialFailed (timeout : Bool)
  deriving DecidableEq

/-- Where the goroutine is that waits for the removal of the host. -/
inductive WatchPc where
  | idle
  | waiting
  | closingServer
  | closingClient
  | ended
  deriving DecidableEq

/-- A call of `HandleConn`. A pipe is named by the side it reads from: that of the server runs in
    the goroutine of `HandleConn` itself, that of the client in a goroutine of its own. -/
structure Handler where
  main : MainPc
  /-- the host that has been dialed -/
  host : Option Host
  conn : Side → Socket
  pipe : Side → PipePc
  watch : WatchPc
  done : Bool
  /-- the updates of the counters that the goroutine of a pipe has still to make -/
  todo : Side → List Update

def newHandler : Handler where
  main := .start
  host := none
  conn := fun _ => newSocket
  pipe := fun _ => .idle
  watch := .idle
  done := false
  todo := fun _ => []

/-- What a handler looks at outside of its connections. -/
structure Surroundings where
  healthy : List Host
  removed : Host → Bool
  connCount : Host → UInt64

/-- The steps of a handler and of its peers. -/
inductive HandlerStep where
  /-- `Healthy` -/
  | load
  /-- the connection count of the second host is loaded -/
  | compare
  | dialOk
  | dialErr (timeout : Bool)
  /-- the goroutines are started -/
  | spawn
  | read (side : Side) (n : Nat) (err : Option ReadErr)
  | write (side : Side) (n : Nat) (err : Bool)
  | closeWrite (side : Side) (ok : Bool)
  | closeDst (side : Side)
  | closeRead (side : Side) (ok : Bool)
  | closeSrc (side : Side)
  /-- `close(done)` -/
  | signal
  /-- the pipe to the client has returned -/
  | join
  /-- `<-done` -/
  | finish
  /-- the deferred `sconn.Close` -/
  | leave
  | watchRemoved
  | watchCloseServer
  | watchCloseClient
  | watchDone
  /-- the peer sends bytes -/
  | peerSend (side : Side) (bytes : Bytes)
  /-- the peer ends its stream -/
  | peerFin (side : Side)
  /-- `Stop` of the listener closes the client's connection -/
  | stopClose
  deriving DecidableEq

namespace Handler

def setConn (x : Handler) (side : Side) (s : Socket) : Handler :=
  { x with conn := Function.update x.conn side s }

def setPipe (x : Handler) (side : Side) (pc : PipePc) : Handler :=
  { x with pipe := Function.update x.pipe side pc }

def plan (x : Handler) (side : Side) (todo : List Update) : Handler :=
  { x with todo := Function.update x.todo side todo }

/-- Where the loop of `io.CopyBuffer` goes when a chunk has been written, or when there was
    nothing to write. -/
def afterChunk : Option ReadErr → PipePc
  | none => .reading
  | some .eof => .copied none
  | some .net => .copied (some .read)

/-- Where it goes when a chunk has been read. -/
def afterRead (chunk : Bytes) (er : Option ReadErr) : PipePc :=
  if chunk.length = 0 then afterChunk er else .writing chunk er

/-- Where it goes when `n` bytes of a chunk have been written. -/
def afterWrite (chunk : Bytes) (er : Option ReadErr) (n : Nat) (ew : Bool) : PipePc :=
  if ew then .copied (some .write)
  else if n ≠ chunk.length then .copied (some .shortWrite)
  else afterChunk er

/-- The pipe from a side reads. -/
def doRead (x : Handler) (side : Side) (n : Nat) (err : Option ReadErr) : Handler :=
  ((x.setConn side ((x.conn side).read n err)).setPipe side
      (afterRead ((x.conn side).incoming.take n) err)).plan side (readUpdates x.host side n err)

/-- The pipe from a side writes to the other one. -/
def doWrite (x : Handler) (side : Side) (chunk : Bytes) (er : Option ReadErr) (n : Nat)
    (err : Bool) : Handler :=
  ((x.setConn side.other ((x.conn side.other).write chunk n err)).setPipe side
      (afterWrite chunk er n err)).plan side (writeUpdates x.host side.other n err)

def step (env : Surroundings) (x : Handler) : HandlerStep → Option Handler
  | .load =>
    match x.main with
    | .start =>
      some { x with
        main := if env.healthy.length = 0 then .noHost else .picking env.healthy }
    | _ => none
  | .compare =>
    match x.main with
    | .comparing host1 host2 count1 =>
      some { x with main := .dialing (if count1 < env.connCount host2 then host1 else host2) }
    | _ => none
  | .dialOk =>
    match x.main with
    | .dialing h =>
      if x.todo .server = [] then
        some ({ x with main := .opening, host := some h }.plan .server (openUpdates h))
      else none
    | _ => none
  | .dialErr timeout =>
    match x.main with
    | .dialing _ =>
      if x.todo .server = [] then
        some ({ x with main := .dialFailed timeout }.plan .server (dialUpdates timeout))
      else none
    | _ => none
  | .spawn =>
    if x.main = .opening ∧ x.todo .server = [] then
      some { x with main := .piping, pipe := fun _ => .reading, watch := .waiting }
    else none
  | .read side n err =>
    if x.pipe side = .reading ∧ x.todo side = [] ∧ (x.conn side).MayRead n err then
      some (x.doRead side n err)
    else none
  | .write side n err =>
    match x.pipe side with
    | .writing chunk er =>
      if x.todo side = [] ∧ (x.conn side.other).MayWrite chunk.length n err then
        some (x.doWrite side chunk er n err)
      else none
    | _ => none
  | .closeWrite side ok =>
    match x.pipe side with
    | .copied err =>
      if x.todo side = [] ∧ (x.conn side.other).MayShut ok then
        some ((x.setConn side.other ((x.conn side.other).closeWrite ok)).setPipe side
          (if ok then .closeRead err else .closeDst err))
      else none
    | _ => none
  | .closeDst side =>
    match x.pipe side with
    | .closeDst err =>
      some ((x.setConn side.other (x.conn side.other).close).setPipe side (.closeRead err))
    | _ => none
  | .closeRead side ok =>
    match x.pipe side with
    | .closeRead err =>
      if (x.conn side).MayShut ok then
        some ((x.setConn side ((x.conn side).closeRead ok)).setPipe side
          (if ok then .ended err else .closeSrc err))
      else none
    | _ => none
  | .closeSrc side =>
    match x.pipe side with
    | .closeSrc err => some ((x.setConn side (x.conn side).close).setPipe side (.ended err))
    | _ => none
  | .signal =>
    match x.pipe .client with
    | .ended _ => if x.done = false then some { x with done := true } else none
    | _ => none
  | .join =>
    match x.main, x.pipe .server with
    | .piping, .ended _ => some { x with main := .joining }
    | _, _ => none
  | .finish =>
    match x.main, x.host with
    | .joining, some h =>
      -- the deferred functions run once `done` is closed
      if x.done = true ∧ x.todo .server = [] then
        some ({ x with main := .leaving }.plan .server (closeUpdates h))
      else none
    | _, _ => none
  | .leave =>
    if x.main = .leaving ∧ x.todo .server = [] then
      some ({ x with main := .returned }.setConn .server (x.conn .server).close)
    else none
  | .watchRemoved =>
    match x.watch, x.host with
    | .waiting, some h =>
      if env.removed h = true then some { x with watch := .closingServer } else none
    | _, _ => none
  | .watchCloseServer =>
    if x.watch = .closingServer then
      some ({ x with watch := .closingClient }.setConn .server (x.conn .server).close)
    else none
  | .watchCloseClient =>
    if x.watch = .closingClient then
      some ({ x with watch := .ended }.setConn .client (x.conn .client).close)
    else none
  | .watchDone =>
    if x.watch = .waiting ∧ x.done = true then some { x with watch := .ended } else none
  | .peerSend side bytes =>
    -- there is no peer on the server's side before the host has been dialed
    if (x.conn side).fin = false ∧ (side = .server → x.host ≠ none) then
      some (x.setConn side ((x.conn side).send bytes))
    else none
  | .peerFin side =>
    if side = .server → x.host ≠ none then some (x.setConn side (x.conn side).finish) else none
  | .stopClose => some (x.setConn .client (x.conn .client).close)

/-- What the steps do: one constructor for each branch, with its guard. -/
inductive Step (env : Surroundings) (x : Handler) : HandlerStep → Handler → Prop where
  | noHost (hmain : x.main = .start) (hempty : env.healthy.length = 0) :
      Step env x .load { x with main := .noHost }
  | load (hmain : x.main = .start) (hne : env.healthy.length ≠ 0) :
      Step env x .load { x with main := .picking env.healthy }
  | compare {host1 host2 : Host} {count1 : UInt64}
      (hmain : x.main = .comparing host1 host2 count1) :
      Step env x .compare
        { x with main := .dialing (if count1 < env.connCount host2 then host1 else host2) }
  | dialOk {h : Host} (hmain : x.main = .dialing h) (htodo : x.todo .server = []) :
      Step env x .dialOk
        ({ x with main := .opening, host := some h }.plan .server (openUpdates h))
  | dialErr {h : Host} {timeout : Bool} (hmain : x.main = .dialing h)
      (htodo : x.todo .server = []) :
      Step env x (.dialErr timeout)
        ({ x with main := .dialFailed timeout }.plan .server (dialUpdates timeout))
  | spawn (hmain : x.main = .opening) (htodo : x.todo .server = []) :
      Step env x .spawn { x with main := .piping, pipe := fun _ => .reading, watch := .waiting }
  | read {side : Side} {n : Nat} {err : Option ReadErr} (hpipe : x.pipe side = .reading)
      (htodo : x.todo side = []) (hmay : (x.conn side).MayRead n err) :
      Step env x (.read side n err) (x.doRead side n err)
  | write {side : Side} {n : Nat} {err : Bool} {chunk : Bytes} {er : Option ReadErr}
      (hpipe : x.pipe side = .writing chunk er) (htodo : x.todo side = [])
      (hmay : (x.conn side.other).MayWrite chunk.length n err) :
      Step env x (.write side n err) (x.doWrite side chunk er n err)
  | closeWrite {side : Side} {ok : Bool} {err : Option CopyErr} (hpipe : x.pipe side = .copied err)
      (htodo : x.todo side = []) (hmay : (x.conn side.other).MayShut ok) :
      Step env x (.closeWrite side ok)
        ((x.setConn side.other ((x.conn side.other).closeWrite ok)).setPipe side
          (if ok then .closeRead err else .closeDst err))
  | closeDst {side : Side} {err : Option CopyErr} (hpipe : x.pipe side = .closeDst err) :
      Step env x (.closeDst side)
        ((x.setConn side.other (x.conn side.other).close).setPipe side (.closeRead err))
  | closeRead {side : Side} {ok : Bool} {err : Option CopyErr}
      (hpipe : x.pipe side = .closeRead err) (hmay : (x.conn side).MayShut ok) :
      Step env x (.closeRead side ok)
        ((x.setConn side ((x.conn side).closeRead ok)).setPipe side
          (if ok then .ended err else .closeSrc err))
  | closeSrc {side : Side} {err : Option CopyErr} (hpipe : x.pipe side = .closeSrc err) :
      Step env x (.closeSrc side)
        ((x.setConn side (x.conn side).close).setPipe side (.ended err))
  | signal {err : Option CopyErr} (hpipe : x.pipe .client = .ended err) (hdone : x.done = false) :
      Step env x .signal { x with done := true }
  | join {err : Option CopyErr} (hmain : x.main = .piping) (hpipe : x.pipe .server = .ended err) :
      Step env x .join { x with main := .joining }
  | finish {h : Host} (hmain : x.main = .joining) (hhost : x.host = some h) (hdone : x.done = true)
      (htodo : x.todo .server = []) :
      Step env x .finish ({ x with main := .leaving }.plan .server (closeUpdates h))
  | leave (hmain : x.main = .leaving) (htodo : x.todo .server = []) :
      Step env x .leave ({ x with main := .returned }.setConn .server (x.conn .server).close)
  | watchRemoved {h : Host} (hwatch : x.watch = .waiting) (hhost : x.host = some h)
      (hremoved : env.removed h = true) :
      Step env x .watchRemoved { x with watch := .closingServer }
  | watchCloseServer (hwatch : x.watch = .closingServer) :
      Step env x .watchCloseServer
        ({ x with watch := .closingClient }.setConn .server (x.conn .server).close)
  | watchCloseClient (hwatch : x.watch = .closingClient) :
      Step env x .watchCloseClient
        ({ x with watch := .ended }.setConn .client (x.conn .client).close)
  | watchDone (hwatch : x.watch = .waiting) (hdone : x.done = true) :
      Step env x .watchDone { x with watch := .ended }
  | peerSend {side : Side} {bytes : Bytes} (hfin : (x.conn side).fin = false)
      (hhost : side = .server → x.host ≠ none) :
      Step env x (.peerSend side bytes) (x.setConn side ((x.conn side).send bytes))
  | peerFin {side : Side} (hhost : side = .server → x.host ≠ none) :
      Step env x (.peerFin side) (x.setConn side (x.conn side).finish)
  | stopClose : Step env x .stopClose (x.setConn .client (x.conn .client).close)

/-- Every step is one of the branches. -/
theorem step_cases {env : Surroundings} {x x' : Handler} {a : HandlerStep}
    (h : x.step env a = some x') : Step env x a x' := by
  cases a with
  | load =>
    simp only [step] at h
    split at h <;> cases h
    split
    · exact .noHost ‹_› ‹_›
    · exact .load ‹_› ‹_›
  | compare =>
    simp only [step] at h
    split at h <;> cases h
    exact .compare ‹_›
  | dialOk =>
    simp only [step] at h
    split at h
    · split at h <;> cases h
      exact .dialOk ‹_› ‹_›
    · cases h
  | dialErr timeout =>
    simp only [step] at h
    split at h
    · split at h <;> cases h
      exact .dialErr ‹_› ‹_›
    · cases h
  | spawn =>
    simp only [step] at h
    split at h <;> cases h
    rename_i hspawn
    exact .spawn hspawn.1 hspawn.2
  | read side n err =>
    simp only [step] at h
    split at h <;> cases h
    rename_i hread
    exact .read hread.1 hread.2.1 hread.2.2
  | write side n err =>
    simp only [step] at h
    split at h
    · split at h <;> cases h
      rename_i hwrite
      exact .write ‹_› hwrite.1 hwrite.2
    · cases h
  | closeWrite side ok =>
    simp only [step] at h
    split at h
    · split at h <;> cases h
      rename_i hclose
      exact .closeWrite ‹_› hclose.1 hclose.2
    · cases h
  | closeDst side =>
    simp only [step] at h
    split at h <;> cases h
    exact .closeDst ‹_›
  | closeRead side ok =>
    simp only [step] at h
    split at h
    · split at h <;> cases h
      exact .closeRead ‹_› ‹_›
    · cases h
  | closeSrc side =>
    simp only [step] at h
    split at h <;> cases h
    exact .closeSrc ‹_›
  | signal =>
    simp only [step] at h
    split at h
    · split at h <;> cases h
      exact .signal ‹_› ‹_›
    · cases h
  | join =>
    simp only [step] at h
    split at h <;> cases h
    exact .join ‹_› ‹_›
  | finish =>
    simp only [step] at h
    split at h
    · split at h <;> cases h
      rename_i hfinish
      exact .finish ‹_› ‹_› hfinish.1 hfinish.2
    · cases h
  | leave =>
    simp only [step] at h
    split at h <;> cases h
    rename_i hleave
    exact .leave hleave.1 hleave.2
  | watchRemoved =>
    simp only [step] at h
    split at h
    · split at h <;> cases h
      exact .watchRemoved ‹_› ‹_› ‹_›
    · cases h
  | watchCloseServer =>
    simp only [step] at h
    split at h <;> cases h
    exact .watchCloseServer ‹_›
  | watchCloseClient =>
    simp only [step] at h
    split at h <;> cases h
    exact .watchCloseClient ‹_›
  | watchDone =>
    simp only [step] at h
    split at h <;> cases h
    rename_i hwatch
    exact .watchDone hwatch.1 hwatch.2
  | peerSend side bytes =>
    simp only [step] at h
    split at h <;> cases h
    rename_i hsend
    exact .peerSend hsend.1 hsend.2
  | peerFin side =>
    simp only [step] at h
    split at h <;> cases h
    exact .peerFin ‹_›
  | stopClose =>
    cases h
    exact .stopClose

end Handler

/-! ## The processor -/

/-- The TCP processor with its handlers. -/
structure TcpProc where
  hostSet : HostSet
  lb : Balancer
  counters : Counter → UInt64
  handlers : List Handler
  /-- the hosts that have been picked by turns or at random, in the order of the picks -/
  picked : List Host

def newTcpProc (hosts : List Host) (policy : LoadBalancePolicy) : TcpProc where
  hostSet := Hosts.newSet hosts
  lb := newBalancer policy
  counters := 0
  handlers := []
  picked := []

inductive ProcStep where
  /-- a connection is handed to `HandleConn` -/
  | accept
  /-- an operation on the host set -/
  | hosts (op : SetOp)
  /-- a new policy in `OnSvcConfigUpdate` -/
  | policy (p : LoadBalancePolicy)
  /-- a handler picks a host, with the numbers that are drawn -/
  | pick (k rand1 rand2 : Nat)
  /-- a goroutine of a handler updates a counter -/
  | count (k : Nat) (side : Side)
  | handler (k : Nat) (a : HandlerStep)

namespace TcpProc

def surroundings (p : TcpProc) : Surroundings where
  healthy := p.hostSet.healthyCache
  removed := p.hostSet.removed
  connCount := fun h => p.counters (.connActive h)

def setHandler (p : TcpProc) (k : Nat) (x : Handler) : TcpProc :=
  { p with handlers := p.handlers.set k x }

/-- A handler has found its host, or loads the connection count of the first of two. -/
def afterPick (p : TcpProc) (k : Nat) (x : Handler) : Pick → TcpProc
  | .host h => { p with picked := p.picked ++ [h] }.setHandler k { x with main := .dialing h }
  | .between host1 host2 =>
    p.setHandler k
      { x with main := .comparing host1 host2 (p.counters (.connActive host1)) }

def step (p : TcpProc) : ProcStep → Option TcpProc
  | .accept => some { p with handlers := p.handlers ++ [newHandler] }
  | .hosts op => some { p with hostSet := p.hostSet.apply op }
  | .policy policy => some { p with lb := newBalancer policy }
  | .pick k rand1 rand2 =>
    match p.handlers[k]? with
    | some x =>
      match x.main with
      | .picking hosts =>
        (p.lb.pickHost hosts rand1 rand2).1.map
          ({ p with lb := (p.lb.pickHost hosts rand1 rand2).2 }.afterPick k x)
      | _ => none
    | none => none
  | .count k side =>
    match p.handlers[k]? with
    | some x =>
      match x.todo side with
      | u :: todo =>
        some ({ p with counters := addTo p.counters u }.setHandler k (x.plan side todo))
      | [] => none
    | none => none
  | .handler k a =>
    match p.handlers[k]? with
    | some x => (x.step p.surroundings a).map (p.setHandler k)
    | none => none

/-- What the steps of the processor do. -/
inductive Step (p : TcpProc) : ProcStep → TcpProc → Prop where
  | accept : Step p .accept { p with handlers := p.handlers ++ [newHandler] }
  | hosts {op : SetOp} : Step p (.hosts op) { p with hostSet := p.hostSet.apply op }
  | policy {policy : LoadBalancePolicy} :
      Step p (.policy policy) { p with lb := newBalancer policy }
  | pick {k rand1 rand2 : Nat} {x : Handler} {hosts : List Host} {pick : Pick}
      (hx : p.handlers[k]? = some x) (hmain : x.main = .picking hosts)
      (hpick : (p.lb.pickHost hosts rand1 rand2).1 = some pick) :
      Step p (.pick k rand1 rand2)
        ({ p with lb := (p.lb.pickHost hosts rand1 rand2).2 }.afterPick k x pick)
  | count {k : Nat} {side : Side} {x : Handler} {u : Update} {todo : List Update}
      (hx : p.handlers[k]? = some x) (htodo : x.todo side = u :: todo) :
      Step p (.count k side)
        ({ p with counters := addTo p.counters u }.setHandler k (x.plan side todo))
  | handler {k : Nat} {a : HandlerStep} {x x' : Handler} (hx : p.handlers[k]? = some x)
      (hstep : x.Step p.surroundings a x') : Step p (.handler k a) (p.setHandler k x')

theorem step_cases {p p' : TcpProc} {a : ProcStep} (h : p.step a = some p') : Step p a p' := by
  cases a with
  | accept =>
    cases h
    exact .accept
  | hosts op =>
    cases h
    exact .hosts
  | policy policy =>
    cases h
    exact .policy
  | pick k rand1 rand2 =>
    simp only [step] at h
    split at h
    · split at h
      · obtain ⟨pick, hpick, rfl⟩ := Option.map_eq_some_iff.mp h
        exact .pick ‹_› ‹_› hpick
      · cases h
    · cases h
  | count k side =>
    simp only [step] at h
    split at h
    · split at h <;> cases h
      exact .count ‹_› ‹_›
    · cases h
  | handler k a =>
    simp only [step] at h
    split at h
    · obtain ⟨x', hx', rfl⟩ := Option.map_eq_some_iff.mp h
      exact .handler ‹_› (Handler.step_cases hx')
    · cases h

/-! ## Invariants of handlers -/

/-- **Step rule for handlers**: what a new handler has, and what picking, planning the rest of its
    updates and every step of its own keep, all handlers have. -/
theorem forall_handlers_of_run {Inv : Handler → Prop} (hnew : Inv newHandler)
    (hpick : ∀ x hosts, x.main = .picking hosts → Inv x →
      (∀ h, Inv { x with main := .dialing h }) ∧
        ∀ host1 host2 count1, Inv { x with main := .comparing host1 host2 count1 })
    (hcount : ∀ x side u todo, x.todo side = u :: todo → Inv x → Inv (x.plan side todo))
    (hstep : ∀ env x a x', Inv x → x.Step env a x' → Inv x')
    {hosts : List Host} {policy : LoadBalancePolicy} {as : List ProcStep} {p : TcpProc}
    (hrun : runFrom step (newTcpProc hosts policy) as = some p) : ∀ x ∈ p.handlers, Inv x := by
  have hkept : ∀ p a p', (∀ x ∈ p.handlers, Inv x) → step p a = some p' →
      ∀ x ∈ p'.handlers, Inv x := ?_
  · exact invariant_of_run hkept (by simp [newTcpProc]) hrun
  intro p a p' hp h
  -- a handler is replaced by one with the invariant
  have hset : ∀ (k : Nat) (x' : Handler), Inv x' → ∀ x ∈ p.handlers.set k x', Inv x :=
    fun k x' hx' x hx => (List.mem_or_eq_of_mem_set hx).elim (hp x) fun heq => heq ▸ hx'
  cases step_cases h with
  | accept =>
    intro x hx
    rcases List.mem_append.mp hx with hx | hx
    · exact hp x hx
    · rwa [List.mem_singleton.mp hx]
  | hosts | policy => exact hp
  | @pick k _ _ x _ pick hx hmain _ =>
    have hx' := hpick x _ hmain (hp x (List.mem_of_getElem? hx))
    cases pick with
    | host g => exact hset k _ (hx'.1 g)
    | between host1 host2 => exact hset k _ (hx'.2 host1 host2 _)
  | @count k side x u todo hx htodo =>
    exact hset k _ (hcount x side u todo htodo (hp x (List.mem_of_getElem? hx)))
  | @handler k a x x' hx hx' => exact hset k _ (hstep _ x a x' (hp x (List.mem_of_getElem? hx)) hx')

/-! ## Sample runs -/

/-- The host of the sample runs. -/
def sampleHost : Host := ⟨1, [49], .main⟩

/-- A connection is opened. -/
def opening : List ProcStep :=
  [.accept, .handler 0 .load, .pick 0 0 0, .handler 0 .dialOk, .count 0 .server,
    .count 0 .server, .count 0 .server, .count 0 .server, .handler 0 .spawn]

/-- The client sends three bytes and ends its stream, which comes with the last byte. -/
def halfClosed : List ProcStep :=
  opening ++
    [.handler 0 (.peerSend .client [1, 2, 3]), .handler 0 (.read .client 2 none),
      .count 0 .client, .handler 0 (.write .client 2 false), .count 0 .client, .count 0 .client,
      .handler 0 (.peerFin .client), .handler 0 (.read .client 1 (some .eof)),
      .handler 0 (.write .client 1 false), .count 0 .client, .count 0 .client,
      .handler 0 (.closeWrite .client true)]

end TcpProc

end Samaritan.Tcp
