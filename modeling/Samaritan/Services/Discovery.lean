import Mathlib.Data.Finset.Dedup
import Samaritan.Lib.Decimal
import Samaritan.Lib.Machine

/-!
# Subscriptions on a Discovery Stream

The discovery client of the configs and of the endpoints (`svcDiscoveryClient`,
`config/discovery.go`) keeps the set of subscribed services. `Subscribe` and `Unsubscribe` change
the set and put the name into one of two channels, all under the lock; `loopSend` takes names
from both channels and sends them in batches. A new stream starts with a snapshot of the set.

The machine interleaves the calls with the goroutine of `Run` and with failures of the stream.
Three questions are settled: when the server ends up with the subscribed set, what one call for
each name since the snapshot guarantees, and when the client deadlocks.
-/

namespace Samaritan.Services

open Samaritan.Lib

/-! ## The client -/

/-- The two calls; each has a channel of its own, `subCh` and `unsubCh`. -/
inductive Op where
  | sub
  | unsub
  deriving DecidableEq, Repr

/-- Which list of a message the server applies first. -/
inductive ServerOrder where
  | subsFirst
  | unsubsFirst
  deriving DecidableEq, Repr

/-- The names of a message, or of a batch that is being collected. -/
abbrev Lists := Op → List Bytes

/-- Where the goroutine of `Run` is. -/
inductive Pc where
  /-- before `run`, for the first time or after a failure -/
  | waiting
  /-- in `resubscribe`, at the lock -/
  | locking
  /-- in `resubscribe`, sending the names of the snapshot -/
  | resending (svcNames : Finset Bytes)
  /-- in `loopSend`, at the first select -/
  | select
  /-- in `loopSend`, at the select that fills the batch -/
  | batch (lists : Lists)
  /-- in `loopSend`, sending the batch -/
  | sending (lists : Lists)
  /-- behind `loopSend`, waiting for `loopRecv` to end -/
  | leaving
  /-- `Run` has returned -/
  | stopped

namespace Pc

/-- The names that `loopSend` has taken from the channels and not yet sent. -/
def lists : Pc → Lists
  | batch lists | sending lists => lists
  | _ => fun _ => []

@[simp] theorem lists_batch (ls : Lists) : (batch ls).lists = ls := rfl
@[simp] theorem lists_sending (ls : Lists) : (sending ls).lists = ls := rfl
@[simp] theorem lists_select (op : Op) : select.lists op = [] := rfl
@[simp] theorem lists_resending (svcNames : Finset Bytes) (op : Op) :
    (resending svcNames).lists op = [] := rfl

instance (pc : Pc) : Decidable (pc = select) :=
  match pc with
  | select => isTrue rfl
  | waiting | locking | resending _ | batch _ | sending _ | leaving | stopped => isFalse nofun

instance (pc : Pc) : Decidable (pc = locking) :=
  match pc with
  | locking => isTrue rfl
  | waiting | resending _ | select | batch _ | sending _ | leaving | stopped => isFalse nofun

/-- The batch so far, at the two selects of `loopSend`. -/
def collecting : Pc → Option Lists
  | select => some fun _ => []
  | batch lists => some lists
  | _ => none

/-- `loopRecv` has been started for the current stream. -/
def receiving : Pc → Bool
  | select | batch _ | sending _ | leaving => true
  | _ => false

/-- The snapshot has been taken and the stream has not been given up. -/
def live : Pc → Bool
  | resending _ | select | batch _ | sending _ => true
  | _ => false

end Pc

/-- `svcDiscoveryClient`, with the goroutine that runs it and the server's side of the stream. -/
structure SvcDiscoveryClient where
  subscribed : Finset Bytes
  ch : Op → List Bytes
  /-- the call that holds the lock, at its send to the channel -/
  call : Option (Op × Bytes)
  pc : Pc
  /-- `loopRecv` has ended -/
  recvDone : Bool
  /-- the services the server holds for the current stream -/
  server : Finset Bytes
  /-- the names of the calls that changed the set since the snapshot -/
  since : List Bytes

/-- The capacity of the channels. -/
def chCap : Nat := 16

def newSvcDiscoveryClient : SvcDiscoveryClient where
  subscribed := ∅
  ch := fun _ => []
  call := none
  pc := .waiting
  recvDone := false
  server := ∅
  since := []

/-- The server applies a message. -/
def applyMessage (order : ServerOrder) (server : Finset Bytes) (lists : Lists) : Finset Bytes :=
  match order with
  | .subsFirst => (server ∪ (lists .sub).toFinset) \ (lists .unsub).toFinset
  | .unsubsFirst => (server \ (lists .unsub).toFinset) ∪ (lists .sub).toFinset

namespace SvcDiscoveryClient

variable {c c' : SvcDiscoveryClient} {order : ServerOrder}

/-- A call that has changed the set keeps the lock up to its send. -/
def changed (c : SvcDiscoveryClient) (op : Op) (svcName : Bytes) (subscribed : Finset Bytes) :
    SvcDiscoveryClient :=
  { c with subscribed := subscribed, call := some (op, svcName), since := c.since ++ [svcName] }

def subscribe (c : SvcDiscoveryClient) (svcName : Bytes) : SvcDiscoveryClient :=
  if svcName ∈ c.subscribed then c
  else c.changed .sub svcName (insert svcName c.subscribed)

def unsubscribe (c : SvcDiscoveryClient) (svcName : Bytes) : SvcDiscoveryClient :=
  if svcName ∉ c.subscribed then c
  else c.changed .unsub svcName (c.subscribed.erase svcName)

/-- `resubscribe` under the read lock: the snapshot is loaded and the channels are cleaned. -/
def resubscribe (c : SvcDiscoveryClient) : SvcDiscoveryClient :=
  { c with
    ch := fun _ => []
    since := []
    pc := if c.subscribed = ∅ then .select else .resending c.subscribed }

/-! ## The machine -/

/-- The steps; `ok` says whether the stream worked. -/
inductive Act where
  /-- a call of `Subscribe` or `Unsubscribe`, up to its send -/
  | call (op : Op) (svcName : Bytes)
  /-- the send of the call, and the end of the call -/
  | callSend
  | newStream (ok : Bool)
  | resubscribe
  | resend (ok : Bool)
  | recvFail
  | take (op : Op)
  | stop
  | batchDone
  | send (ok : Bool)
  | runReturn
  | quit

def step (order : ServerOrder) (c : SvcDiscoveryClient) : Act → Option SvcDiscoveryClient
  | .call op svcName =>
    -- a call that waits for the lock has not begun
    if c.call = none then
      match op with
      | .sub => some (c.subscribe svcName)
      | .unsub => some (c.unsubscribe svcName)
    else none
  | .callSend =>
    match c.call with
    | some (op, svcName) =>
      -- a send to a full channel blocks, with the lock held
      if (c.ch op).length < chCap then
        some { c with ch := Function.update c.ch op (c.ch op ++ [svcName]), call := none }
      else none
    | none => none
  | .newStream ok =>
    match c.pc with
    | .waiting =>
      -- a new stream starts with nothing held by the server
      if ok then some { c with pc := .locking, server := ∅, recvDone := false } else some c
    | _ => none
  | .resubscribe =>
    match c.pc, c.call with
    -- the read lock is taken once no call holds the lock
    | .locking, none => some c.resubscribe
    | _, _ => none
  | .resend ok =>
    match c.pc with
    | .resending svcNames =>
      if ok then some { c with server := c.server ∪ svcNames, pc := .select }
      else some { c with pc := .waiting }
    | _ => none
  | .recvFail =>
    -- `loopRecv` returns on the first error and closes `recvDone`
    if c.pc.receiving ∧ ¬c.recvDone then some { c with recvDone := true } else none
  | .take op =>
    -- either select takes a name from either channel
    match c.pc.collecting, c.ch op with
    | some lists, svcName :: rest =>
      some { c with
        ch := Function.update c.ch op rest
        pc := .batch (Function.update lists op (lists op ++ [svcName])) }
    | _, _ => none
  | .stop =>
    -- the names of a batch are dropped here
    if c.pc.collecting.isSome ∧ c.recvDone then some { c with pc := .leaving } else none
  | .batchDone =>
    match c.pc with
    | .batch lists =>
      -- the default of the select: nothing else can go on
      if c.ch .sub = [] ∧ c.ch .unsub = [] ∧ ¬c.recvDone then some { c with pc := .sending lists }
      else none
    | _ => none
  | .send ok =>
    match c.pc with
    | .sending lists =>
      -- behind a failed send the stream is given up
      if ok then some { c with server := applyMessage order c.server lists, pc := .select }
      else some { c with pc := .leaving }
    | _ => none
  | .runReturn =>
    match c.pc with
    -- the deferred receive from `recvDone`
    | .leaving => if c.recvDone then some { c with pc := .waiting } else none
    | _ => none
  | .quit =>
    -- the context is done
    match c.pc with
    | .waiting => some { c with pc := .stopped }
    | _ => none

/-- What a step can do. -/
inductive Step (order : ServerOrder) (c : SvcDiscoveryClient) :
    Act → SvcDiscoveryClient → Prop
  | unchanged (op : Op) (svcName : Bytes) (h : c.call = none)
      (hset : op = .sub ↔ svcName ∈ c.subscribed) : Step order c (.call op svcName) c
  | subscribe (svcName : Bytes) (h : c.call = none) (hset : svcName ∉ c.subscribed) :
      Step order c (.call .sub svcName) (c.changed .sub svcName (insert svcName c.subscribed))
  | unsubscribe (svcName : Bytes) (h : c.call = none) (hset : svcName ∈ c.subscribed) :
      Step order c (.call .unsub svcName)
        (c.changed .unsub svcName (c.subscribed.erase svcName))
  | callSend (op : Op) (svcName : Bytes) (h : c.call = some (op, svcName))
      (hroom : (c.ch op).length < chCap) :
      Step order c .callSend
        { c with ch := Function.update c.ch op (c.ch op ++ [svcName]), call := none }
  | newStream (h : c.pc = .waiting) :
      Step order c (.newStream true) { c with pc := .locking, server := ∅, recvDone := false }
  | newStreamFail (h : c.pc = .waiting) : Step order c (.newStream false) c
  | resubscribe (h : c.pc = .locking) (hcall : c.call = none) :
      Step order c .resubscribe c.resubscribe
  | resend (svcNames : Finset Bytes) (h : c.pc = .resending svcNames) :
      Step order c (.resend true) { c with server := c.server ∪ svcNames, pc := .select }
  | resendFail (svcNames : Finset Bytes) (h : c.pc = .resending svcNames) :
      Step order c (.resend false) { c with pc := .waiting }
  | recvFail (h : c.pc.receiving) (hdone : c.recvDone = false) :
      Step order c .recvFail { c with recvDone := true }
  | take (op : Op) (lists : Lists) (svcName : Bytes) (rest : List Bytes)
      (h : c.pc.collecting = some lists) (hch : c.ch op = svcName :: rest) :
      Step order c (.take op)
        { c with
          ch := Function.update c.ch op rest
          pc := .batch (Function.update lists op (lists op ++ [svcName])) }
  | stop (h : c.pc.collecting.isSome) (hdone : c.recvDone) :
      Step order c .stop { c with pc := .leaving }
  | batchDone (lists : Lists) (h : c.pc = .batch lists) (hch : ∀ op, c.ch op = [])
      (hdone : c.recvDone = false) : Step order c .batchDone { c with pc := .sending lists }
  | send (lists : Lists) (h : c.pc = .sending lists) :
      Step order c (.send true)
        { c with server := applyMessage order c.server lists, pc := .select }
  | sendFail (lists : Lists) (h : c.pc = .sending lists) :
      Step order c (.send false) { c with pc := .leaving }
  | runReturn (h : c.pc = .leaving) (hdone : c.recvDone) :
      Step order c .runReturn { c with pc := .waiting }
  | quit (h : c.pc = .waiting) : Step order c .quit { c with pc := .stopped }

theorem step_cases {a : Act} (h : step order c a = some c') : Step order c a c' := by
  cases a with
  | call op svcName =>
    simp only [step, Option.ite_none_right_eq_some] at h
    obtain ⟨hcall, h⟩ := h
    by_cases hset : svcName ∈ c.subscribed <;> cases op <;>
      simp only [subscribe, unsubscribe, hset, not_true_eq_false, not_false_eq_true, if_true,
        if_false, Option.some.injEq] at h <;> subst h
    · exact .unchanged .sub svcName hcall (by simp [hset])
    · exact .unsubscribe svcName hcall hset
    · exact .subscribe svcName hcall hset
    · exact .unchanged .unsub svcName hcall (by simp [hset])
  | callSend =>
    simp only [step] at h
    split at h
    next op svcName hcall =>
      obtain ⟨hroom, h⟩ := Option.ite_none_right_eq_some.mp h
      cases h
      exact .callSend op svcName hcall hroom
    next => cases h
  | newStream ok =>
    simp only [step] at h
    split at h
    next hpc =>
      cases ok <;> cases h
      · exact .newStreamFail hpc
      · exact .newStream hpc
    next => cases h
  | resubscribe =>
    simp only [step] at h
    split at h
    next hpc hcall =>
      cases h
      exact .resubscribe hpc hcall
    next => cases h
  | resend ok =>
    simp only [step] at h
    split at h
    next svcNames hpc =>
      cases ok <;> cases h
      · exact .resendFail svcNames hpc
      · exact .resend svcNames hpc
    next => cases h
  | recvFail =>
    simp only [step, Option.ite_none_right_eq_some, Bool.not_eq_true] at h
    obtain ⟨⟨hpc, hdone⟩, h⟩ := h
    cases h
    exact .recvFail hpc hdone
  | take op =>
    simp only [step] at h
    split at h
    next lists svcName rest hpc hch =>
      cases h
      exact .take op lists svcName rest hpc hch
    next => cases h
  | stop =>
    simp only [step, Option.ite_none_right_eq_some] at h
    obtain ⟨⟨hpc, hdone⟩, h⟩ := h
    cases h
    exact .stop hpc hdone
  | batchDone =>
    simp only [step] at h
    split at h
    next lists hpc =>
      simp only [Option.ite_none_right_eq_some, Bool.not_eq_true] at h
      obtain ⟨⟨hsub, hunsub, hdone⟩, h⟩ := h
      cases h
      exact .batchDone lists hpc (fun op => by cases op <;> assumption) hdone
    next => cases h
  | send ok =>
    simp only [step] at h
    split at h
    next lists hpc =>
      cases ok <;> cases h
      · exact .sendFail lists hpc
      · exact .send lists hpc
    next => cases h
  | runReturn =>
    simp only [step] at h
    split at h
    next hpc =>
      obtain ⟨hdone, h⟩ := Option.ite_none_right_eq_some.mp h
      cases h
      exact .runReturn hpc hdone
    next => cases h
  | quit =>
    simp only [step] at h
    split at h
    next hpc =>
      cases h
      exact .quit hpc
    next => cases h

/-! ## Names on their way to the server -/

/-- One for a member of the set, nothing for another name. -/
def bit (names : Finset Bytes) (n : Bytes) : Nat := if n ∈ names then 1 else 0

/-- How often a name is on its way: in the channel, in the batch or in the hands of a call. -/
def pending (c : SvcDiscoveryClient) (op : Op) (n : Bytes) : Nat :=
  (c.ch op).count n + (c.pc.lists op).count n + if c.call = some (op, n) then 1 else 0

/-- What the server holds once it has got the snapshot. -/
def held (c : SvcDiscoveryClient) : Finset Bytes :=
  match c.pc with
  | .resending svcNames => svcNames
  | _ => c.server

/-- Nothing is on its way: the goroutine waits at the first select, both channels are empty, and
    no call is at its send. -/
def Quiet (c : SvcDiscoveryClient) : Prop :=
  c.pc = .select ∧ c.ch .sub = [] ∧ c.ch .unsub = [] ∧ c.call = none

instance (c : SvcDiscoveryClient) : Decidable c.Quiet := inferInstanceAs (Decidable (_ ∧ _))

theorem bit_le_one (names : Finset Bytes) (n : Bytes) : bit names n ≤ 1 := by
  unfold bit
  split <;> simp

theorem bit_of_mem {names : Finset Bytes} {n : Bytes} (h : n ∈ names) : bit names n = 1 :=
  if_pos h

theorem bit_of_notMem {names : Finset Bytes} {n : Bytes} (h : n ∉ names) : bit names n = 0 :=
  if_neg h

theorem bit_insert_of_ne {names : Finset Bytes} {n m : Bytes} (h : n ≠ m) :
    bit (insert m names) n = bit names n := by simp [bit, h]

theorem bit_erase_of_ne {names : Finset Bytes} {n m : Bytes} (h : n ≠ m) :
    bit (names.erase m) n = bit names n := by simp [bit, h]

theorem eq_of_bit_eq {s t : Finset Bytes} (h : ∀ n, bit s n = bit t n) : s = t := by
  ext n
  have hn := h n
  unfold bit at hn
  split at hn <;> split at hn <;> simp_all

/-- While a batch is collected, the snapshot is with the server. -/
theorem lists_of_collecting {lists : Lists} (h : c.pc.collecting = some lists) :
    c.pc.lists = lists ∧ c.held = c.server ∧ c.pc.live = true := by
  cases hpc : c.pc <;> simp_all [Pc.collecting, Pc.lists, Pc.live, held]

/-- A call that changes the set adds its name to what is on its way. -/
theorem pending_changed (h : c.call = none) (op op' : Op) (n m : Bytes)
    (subscribed : Finset Bytes) :
    (c.changed op m subscribed).pending op' n =
      c.pending op' n + if op = op' ∧ m = n then 1 else 0 := by
  simp [pending, changed, h]

/-- A name that a call puts on its channel stays pending. -/
theorem pending_callSend {op : Op} {m : Bytes} (h : c.call = some (op, m)) (op' : Op)
    (n : Bytes) :
    pending { c with ch := Function.update c.ch op (c.ch op ++ [m]), call := none } op' n =
      c.pending op' n := by
  by_cases hop : op' = op
  · subst hop
    by_cases hn : m = n
    · simp only [pending, h, hn, Function.update_self, List.count_append,
        List.count_singleton_self, reduceCtorEq, if_false, if_true]
      omega
    · simp [pending, h, hn]
  · simp [pending, h, hop, Ne.symm hop]

/-- A name that moves from the channel to the batch stays pending. -/
theorem pending_take {op : Op} {lists : Lists} {m : Bytes} {rest : List Bytes}
    (h : c.pc.collecting = some lists) (hch : c.ch op = m :: rest) (op' : Op) (n : Bytes) :
    pending { c with
        ch := Function.update c.ch op rest
        pc := .batch (Function.update lists op (lists op ++ [m])) } op' n =
      c.pending op' n := by
  obtain ⟨rfl, -, -⟩ := lists_of_collecting h
  by_cases hop : op' = op
  · subst hop
    simp only [pending, hch, Pc.lists_batch, Function.update_self, List.count_append,
      List.count_cons, List.count_nil]
    omega
  · simp [pending, hop]

/-- A new stream starts with a snapshot, and nothing is pending then. -/
theorem pending_resubscribe (hcall : c.call = none) (op : Op) (n : Bytes) :
    c.resubscribe.pending op n = 0 := by
  unfold pending resubscribe
  split <;> simp [hcall]

/-! ## The shape of reachable states -/

/-- What holds in every state: a call at its send has changed the set its way, the server holds
    nothing before it gets the snapshot, and what is on its way was called for since then. -/
structure Shape (c : SvcDiscoveryClient) : Prop where
  call : ∀ op n, c.call = some (op, n) → (op = .sub ↔ n ∈ c.subscribed)
  fresh : c.pc = .locking ∨ (∃ svcNames, c.pc = .resending svcNames) → c.server = ∅
  once : c.pc.live → ∀ n, c.pending .sub n + c.pending .unsub n ≤ c.since.count n

theorem shape_newSvcDiscoveryClient : newSvcDiscoveryClient.Shape where
  call := by simp [newSvcDiscoveryClient]
  fresh := fun _ => rfl
  once := by simp [newSvcDiscoveryClient, Pc.live]

/-- A step that takes no new name on its way keeps the shape. -/
theorem Shape.of_pending_le (hs : c.Shape) (hcall : c'.call = c.call ∨ c'.call = none)
    (hsub : c'.subscribed = c.subscribed)
    (hfresh : c'.pc = .locking ∨ (∃ svcNames, c'.pc = .resending svcNames) → c'.server = ∅)
    (hsince : c'.since = c.since)
    (hlive : c'.pc.live → c.pc.live ∧ ∀ op n, c'.pending op n ≤ c.pending op n) : c'.Shape where
  call := by
    intro op n h
    obtain hcall | hcall := hcall
    · rw [hsub]
      exact hs.call op n (hcall ▸ h)
    · rw [hcall] at h
      cases h
  fresh := hfresh
  once := by
    intro h n
    obtain ⟨hc, hle⟩ := hlive h
    rw [hsince]
    exact (Nat.add_le_add (hle .sub n) (hle .unsub n)).trans (hs.once hc n)

/-- The stream is given up, or the goroutine ends. -/
theorem Shape.leave (hs : c.Shape) {pc : Pc} (hlive : pc.live = false) (hpc : pc ≠ .locking) :
    Shape { c with pc := pc } := by
  refine hs.of_pending_le (.inl rfl) rfl ?_ rfl (by simp [hlive])
  rintro (h | ⟨svcNames, rfl⟩)
  · exact absurd h hpc
  · cases hlive

theorem Shape.changed (hs : c.Shape) (hcall : c.call = none) {op : Op} {m : Bytes}
    {subscribed : Finset Bytes} (hset : op = .sub ↔ m ∈ subscribed) :
    (c.changed op m subscribed).Shape where
  call := by
    intro op' n h
    obtain ⟨rfl, rfl⟩ : op = op' ∧ m = n := by simpa [SvcDiscoveryClient.changed] using h
    exact hset
  fresh := hs.fresh
  once := by
    intro h n
    -- one more call since the snapshot, one more name on its way
    have hn := hs.once h n
    rw [pending_changed hcall, pending_changed hcall]
    simp only [SvcDiscoveryClient.changed, List.count_append, List.count_singleton]
    cases op <;> by_cases hm : m = n <;> simp [hm] <;> omega

theorem Shape.step {a : Act} (hs : c.Shape) (h : Step order c a c') : c'.Shape := by
  cases h with
  | unchanged | newStreamFail => exact hs
  | subscribe n hcall hset | unsubscribe n hcall hset => exact hs.changed hcall (by simp)
  | callSend op n hcall hroom =>
    exact hs.of_pending_le (.inr rfl) rfl hs.fresh rfl
      fun hl => ⟨hl, fun op' n' => (pending_callSend hcall op' n').le⟩
  | newStream hpc => exact hs.of_pending_le (.inl rfl) rfl (fun _ => rfl) rfl (by simp [Pc.live])
  | resubscribe hpc hcall =>
    -- the channels are clean and no call is at its send
    refine ⟨hs.call, fun _ => hs.fresh (.inl hpc), fun _ n => ?_⟩
    simp [pending_resubscribe hcall]
  | resend svcNames hpc | batchDone lists hpc | send lists hpc =>
    exact hs.of_pending_le (.inl rfl) rfl (by simp) rfl
      fun _ => ⟨by simp [hpc, Pc.live], fun op n => by simp [pending, hpc]⟩
  | resendFail | stop | sendFail | runReturn | quit => exact hs.leave rfl nofun
  | recvFail => exact hs.of_pending_le (.inl rfl) rfl hs.fresh rfl fun hl => ⟨hl, fun _ _ => le_rfl⟩
  | take op lists n rest hpc hch =>
    exact hs.of_pending_le (.inl rfl) rfl (by simp) rfl
      fun _ => ⟨(lists_of_collecting hpc).2.2, fun op' n' => (pending_take hpc hch op' n').le⟩

/-! ## Balanced states -/

/-- What the server holds and what is on its way add up to the subscribed set; a message that is
    being sent leads to a set again. -/
structure Balanced (c : SvcDiscoveryClient) : Prop where
  accounts : c.pc.live → ∀ n,
    bit c.held n + c.pending .sub n = bit c.subscribed n + c.pending .unsub n
  drained : ∀ lists, c.pc = .sending lists → ∀ n,
    (lists .unsub).count n ≤ bit c.server n + (lists .sub).count n ∧
      bit c.server n + (lists .sub).count n ≤ (lists .unsub).count n + 1

/-- The condition on a message that the stream takes: for a name in both of its lists, the list
    that the server applies last is the one of the last call. The calls for one name alternate, so
    the last one is told by the number of calls of each kind and by what the server holds. -/
def OrderKept (order : ServerOrder) (c : SvcDiscoveryClient) : Act → Prop
  | .send true => ∀ n ∈ c.pc.lists .sub, n ∈ c.pc.lists .unsub →
      bit c.server n + (c.pc.lists .sub).count n =
        (c.pc.lists .unsub).count n + if order = .unsubsFirst then 1 else 0
  | _ => True

instance (order : ServerOrder) (c : SvcDiscoveryClient) (a : Act) :
    Decidable (c.OrderKept order a) :=
  match a with
  | .send true => inferInstanceAs (Decidable (∀ n ∈ _, n ∈ _ → _))
  | .send false | .call _ _ | .callSend | .newStream _ | .resubscribe | .resend _ | .recvFail
  | .take _ | .stop | .batchDone | .runReturn | .quit => isTrue trivial

/-- With nothing pending the server has what the client has. -/
theorem Balanced.eq_of_quiet (hb : c.Balanced) (hq : c.Quiet) : c.server = c.subscribed := by
  obtain ⟨hpc, hsub, hunsub, hcall⟩ := hq
  have hpending : ∀ op n, c.pending op n = 0 := by
    intro op n
    cases op <;> simp [pending, hpc, hsub, hunsub, hcall]
  have hheld : c.held = c.server := by simp [held, hpc]
  refine eq_of_bit_eq fun n => ?_
  have hn := hb.accounts (by simp [hpc, Pc.live]) n
  rwa [hpending, hpending, hheld] at hn

theorem balanced_of_not_live (h : c.pc.live = false) : c.Balanced where
  accounts := by simp [h]
  drained := by
    intro lists hpc
    rw [hpc] at h
    cases h

/-- A step that moves names on their way keeps the accounts. -/
theorem Balanced.accounts_of_pending_eq (hb : c.Balanced) (hlive : c.pc.live = true)
    (hheld : c'.held = c.held) (hsub : c'.subscribed = c.subscribed)
    (hpending : ∀ op n, c'.pending op n = c.pending op n) (n : Bytes) :
    bit c'.held n + c'.pending .sub n = bit c'.subscribed n + c'.pending .unsub n := by
  rw [hheld, hsub, hpending, hpending]
  exact hb.accounts hlive n

/-- Only a name in both lists depends on the order of the server. -/
theorem mem_applyMessage {server : Finset Bytes} {lists : Lists} {n : Bytes} :
    n ∈ applyMessage order server lists ↔
      (n ∈ server ∧ n ∉ lists .unsub) ∨
        (n ∈ lists .sub ∧ (n ∈ lists .unsub → order = .unsubsFirst)) := by
  cases order with
  | subsFirst =>
    simp only [applyMessage, Finset.mem_sdiff, Finset.mem_union, List.mem_toFinset, reduceCtorEq]
    tauto
  | unsubsFirst => simp [applyMessage]

/-- The server applies a message as if its names had come one by one. -/
theorem bit_applyMessage {server : Finset Bytes} {lists : Lists} {n : Bytes}
    (hlow : (lists .unsub).count n ≤ bit server n + (lists .sub).count n)
    (hhigh : bit server n + (lists .sub).count n ≤ (lists .unsub).count n + 1)
    (hboth : n ∈ lists .sub → n ∈ lists .unsub → bit server n + (lists .sub).count n =
      (lists .unsub).count n + if order = .unsubsFirst then 1 else 0) :
    bit (applyMessage order server lists) n + (lists .unsub).count n =
      bit server n + (lists .sub).count n := by
  have hone := bit_le_one server n
  by_cases hsub : n ∈ lists .sub <;> by_cases hunsub : n ∈ lists .unsub
  · -- the list applied last decides, and it is the one of the last call
    rw [hboth hsub hunsub, add_comm]
    congr 1
    simp [bit, mem_applyMessage, hsub, hunsub]
  · -- a new name, called for once
    have hcount := List.count_pos_iff.mpr hsub
    have hzero := List.count_eq_zero.mpr hunsub
    rw [bit_of_mem (mem_applyMessage.mpr (.inr ⟨hsub, fun h => absurd h hunsub⟩))]
    omega
  · -- a name the server holds, and loses
    have hcount := List.count_pos_iff.mpr hunsub
    have hzero := List.count_eq_zero.mpr hsub
    rw [bit_of_notMem (by simp [mem_applyMessage, hsub, hunsub])]
    omega
  · simp [bit, mem_applyMessage, hsub, hunsub, List.count_eq_zero.mpr]

/-- When the channels are empty, the batch leads the server to a set. -/
theorem Balanced.batchDone (hs : c.Shape) (hb : c.Balanced) {lists : Lists}
    (hpc : c.pc = .batch lists) (hch : ∀ op, c.ch op = []) (n : Bytes) :
    (lists .unsub).count n ≤ bit c.server n + (lists .sub).count n ∧
      bit c.server n + (lists .sub).count n ≤ (lists .unsub).count n + 1 := by
  have hn := hb.accounts (by simp [hpc, Pc.live]) n
  simp only [pending, held, hpc, hch, Pc.lists_batch, List.count_nil, Nat.zero_add] at hn
  -- only a call at its send is left out of the batch, and it has changed the set its way
  by_cases hmem : n ∈ c.subscribed
  · have hcall : c.call ≠ some (.unsub, n) := fun h => by simpa using (hs.call _ _ h).mpr hmem
    rw [bit_of_mem hmem, if_neg hcall] at hn
    split at hn <;> omega
  · have hcall : c.call ≠ some (.sub, n) := fun h => hmem ((hs.call _ _ h).mp rfl)
    rw [bit_of_notMem hmem, if_neg hcall] at hn
    split at hn <;> omega

/-- A call that changes the set makes a name pending. -/
theorem Balanced.changed (hb : c.Balanced) (hcall : c.call = none) {op : Op} {m : Bytes}
    {subscribed : Finset Bytes} (hother : ∀ n, n ≠ m → bit subscribed n = bit c.subscribed n)
    (hset : bit subscribed m + (if op = .unsub then 1 else 0) =
      bit c.subscribed m + if op = .sub then 1 else 0) :
    (c.changed op m subscribed).Balanced where
  accounts := by
    intro h n
    have hn : bit c.held n + c.pending .sub n = bit c.subscribed n + c.pending .unsub n :=
      hb.accounts h n
    rw [pending_changed hcall, pending_changed hcall]
    show bit c.held n + _ = bit subscribed n + _
    by_cases hm : m = n
    · subst hm
      cases op <;> simp at hset ⊢ <;> omega
    · simp [hm, hother n (Ne.symm hm), hn]
  drained := hb.drained

/-- **Step lemma**: a step that keeps the order of the calls keeps the balance. -/
theorem Balanced.step {a : Act} (hs : c.Shape) (hb : c.Balanced) (hok : c.OrderKept order a)
    (h : Step order c a c') : c'.Balanced := by
  cases h with
  | unchanged | newStreamFail => exact hb
  | subscribe m hcall hset =>
    refine hb.changed hcall (fun n hn => bit_insert_of_ne hn) ?_
    simp [bit, hset]
  | unsubscribe m hcall hset =>
    refine hb.changed hcall (fun n hn => bit_erase_of_ne hn) ?_
    simp [bit, hset]
  | callSend op m hcall hroom =>
    exact ⟨fun hl => hb.accounts_of_pending_eq hl rfl rfl (pending_callSend hcall), hb.drained⟩
  | newStream | resendFail | stop | sendFail | runReturn | quit => exact balanced_of_not_live rfl
  | resubscribe hpc hcall =>
    -- the snapshot is the subscribed set, and nothing is on its way
    have hheld : c.resubscribe.held = c.subscribed := by
      have hempty := hs.fresh (.inl hpc)
      by_cases hset : c.subscribed = ∅ <;> simp [SvcDiscoveryClient.resubscribe, held, hset, hempty]
    refine ⟨fun _ n => ?_, fun lists h => ?_⟩
    · rw [pending_resubscribe hcall, pending_resubscribe hcall, hheld]
      rfl
    · simp only [SvcDiscoveryClient.resubscribe] at h
      split at h <;> cases h
  | resend svcNames hpc =>
    have hempty := hs.fresh (.inr ⟨svcNames, hpc⟩)
    refine ⟨fun _ => hb.accounts_of_pending_eq (by simp [hpc, Pc.live]) ?_ rfl ?_, nofun⟩
    · simp [held, hpc, hempty]
    · simp [pending, hpc]
  | recvFail => exact ⟨fun hl => hb.accounts_of_pending_eq hl rfl rfl fun _ _ => rfl, hb.drained⟩
  | take op lists m rest hpc hch =>
    obtain ⟨-, hheld, hlive⟩ := lists_of_collecting hpc
    exact ⟨fun _ => hb.accounts_of_pending_eq hlive hheld.symm rfl (pending_take hpc hch), nofun⟩
  | batchDone lists hpc hch =>
    refine ⟨fun _ => hb.accounts_of_pending_eq (by simp [hpc, Pc.live]) ?_ rfl ?_, ?_⟩
    · simp [held, hpc]
    · simp [pending, hpc]
    · rintro _ ⟨⟩
      exact hb.batchDone hs hpc hch
  | send lists hpc =>
    refine ⟨fun _ n => ?_, nofun⟩
    have hn := hb.accounts (by simp [hpc, Pc.live]) n
    obtain ⟨hlow, hhigh⟩ := hb.drained lists hpc n
    -- what the message does to the server is what it takes off the way
    have hmessage := bit_applyMessage hlow hhigh fun hsub hunsub => by
      simpa [hpc] using hok n (by simpa [hpc] using hsub) (by simpa [hpc] using hunsub)
    simp only [pending, held, hpc, Pc.lists_sending, Pc.lists_select, List.count_nil] at hn ⊢
    omega

/-! ## What the server ends up with -/

/-- Once nothing is on its way, the server holds the subscribed services, in every run whose
    messages keep the order of the calls. -/
theorem server_eq_of_orderKept {as : List Act}
    (hrun : runFrom (step order) newSvcDiscoveryClient as = some c)
    (hok : RunMeets (step order) (OrderKept order) newSvcDiscoveryClient as) (hq : c.Quiet) :
    c.server = c.subscribed := by
  have hstep : ∀ c a c', c.Shape ∧ c.Balanced → OrderKept order c a →
      step order c a = some c' → c'.Shape ∧ c'.Balanced := by
    rintro c a c' ⟨hs, hb⟩ hkept hstep
    exact ⟨hs.step (step_cases hstep), hb.step hs hkept (step_cases hstep)⟩
  have hinv := invariant_of_runMeets hstep
    ⟨shape_newSvcDiscoveryClient, balanced_of_not_live rfl⟩ hok hrun
  exact hinv.2.eq_of_quiet hq

/-- A service is subscribed and unsubscribed, and one message tells both. -/
def subUnsub (svcName : Bytes) : List Act :=
  [.newStream true, .resubscribe, .call .sub svcName, .callSend, .call .unsub svcName, .callSend,
    .take .sub, .take .unsub, .batchDone, .send true]

/-- A service that the server holds is unsubscribed and subscribed, and one message tells both. -/
def unsubSub (svcName : Bytes) : List Act :=
  [.newStream true, .resubscribe, .call .sub svcName, .callSend, .take .sub, .batchDone,
    .send true, .call .unsub svcName, .callSend, .call .sub svcName, .callSend, .take .unsub,
    .take .sub, .batchDone, .send true]

theorem run_unsubSub :
    ((runFrom (step .subsFirst) newSvcDiscoveryClient (unsubSub [97])).any fun c =>
      c.Quiet ∧ c.server ≠ c.subscribed) = true := by decide +kernel

theorem run_subUnsub :
    ((runFrom (step .unsubsFirst) newSvcDiscoveryClient (subUnsub [97])).any fun c =>
      c.Quiet ∧ c.server ≠ c.subscribed) = true := by decide +kernel

/-- With either order of the server, a message with a service in both lists can leave the server
    with another set than the subscribed one. -/
theorem not_server_eq_sameMessage :
    (∃ c, runFrom (step .subsFirst) newSvcDiscoveryClient (unsubSub [97]) = some c ∧ c.Quiet ∧
        c.server ≠ c.subscribed) ∧
      ∃ c, runFrom (step .unsubsFirst) newSvcDiscoveryClient (subUnsub [97]) = some c ∧ c.Quiet ∧
        c.server ≠ c.subscribed :=
  ⟨exists_of_any run_unsubSub, exists_of_any run_subUnsub⟩

theorem runMeets_subUnsub :
    RunMeets (step .subsFirst) (OrderKept .subsFirst) newSvcDiscoveryClient (subUnsub [97]) := by
  decide +kernel

theorem server_eq_of_orderKept_subUnsub :
    ∃ c, runFrom (step .subsFirst) newSvcDiscoveryClient (subUnsub [97]) = some c ∧ c.Quiet ∧
      c.server = c.subscribed := by
  have hany : ((runFrom (step .subsFirst) newSvcDiscoveryClient (subUnsub [97])).any fun c =>
      c.Quiet) = true := by decide +kernel
  obtain ⟨c, hrun, hq⟩ := exists_of_any hany
  exact ⟨c, hrun, hq, server_eq_of_orderKept hrun runMeets_subUnsub hq⟩

/-- With one call for each name since the snapshot, no message has a name in both lists. -/
theorem Shape.orderKept (hs : c.Shape) (hsince : c.pc = .locking ∨ c.since.Nodup) {a : Act}
    (h : Step order c a c') : c.OrderKept order a := by
  cases h with
  | send lists hpc =>
    intro n hsub hunsub
    replace hsince : c.since.Nodup := hsince.resolve_left (by simp [hpc])
    have honce := hs.once (by simp [hpc, Pc.live]) n
    have hcount := List.nodup_iff_count_le_one.mp hsince n
    have hsubpos := List.count_pos_iff.mpr hsub
    have hunsubpos := List.count_pos_iff.mpr hunsub
    unfold pending at honce
    omega
  | _ => trivial

/-- Outside of the snapshot, the calls since then only grow. -/
theorem nodup_since_of_step {a : Act} (h : Step order c a c') (hsince : c'.since.Nodup) :
    c.pc = .locking ∨ c.since.Nodup := by
  cases h with
  | subscribe | unsubscribe => exact .inr (List.Nodup.of_append_left hsince)
  | resubscribe hpc => exact .inl hpc
  | _ => exact .inr hsince

/-- Once nothing is on its way, the server holds the subscribed services, if each name was
    subscribed or unsubscribed at most once since the snapshot for the current stream, whatever
    calls and failures came before. -/
theorem server_eq_of_nodup_since {as : List Act}
    (hrun : runFrom (step order) newSvcDiscoveryClient as = some c) (hsince : c.since.Nodup)
    (hq : c.Quiet) : c.server = c.subscribed := by
  have hstep : ∀ c a c', c.Shape ∧ (c.since.Nodup → c.Balanced) →
      step order c a = some c' → c'.Shape ∧ (c'.since.Nodup → c'.Balanced) := by
    rintro c a c' ⟨hs, hb⟩ hstep
    have h := step_cases hstep
    refine ⟨hs.step h, fun hsince' => ?_⟩
    have hsince := nodup_since_of_step h hsince'
    -- the snapshot balances the client, whatever was lost before it
    have hbal : c.Balanced := hsince.elim (fun hpc => balanced_of_not_live (by rw [hpc]; rfl)) hb
    exact hbal.step hs (hs.orderKept hsince h) h
  have hinv := invariant_of_run hstep
    ⟨shape_newSvcDiscoveryClient, fun _ => balanced_of_not_live rfl⟩ hrun
  exact (hinv.2 hsince).eq_of_quiet hq

/-- A batch is abandoned, a name is queued across the snapshot, and two calls follow it. -/
def reconnected : List Act :=
  [.newStream true, .resubscribe, .call .sub [97], .callSend, .take .sub, .recvFail, .stop,
    .runReturn, .newStream true, .call .sub [98], .callSend, .resubscribe, .resend true,
    .call .sub [99], .callSend, .call .unsub [97], .callSend, .take .unsub, .take .sub,
    .batchDone, .send true]

theorem run_reconnected :
    ((runFrom (step .subsFirst) newSvcDiscoveryClient reconnected).any fun c =>
      c.since.Nodup ∧ c.Quiet ∧ c.subscribed = {[98], [99]}) = true := by decide +kernel

theorem server_eq_of_nodup_since_reconnected :
    ∃ c, runFrom (step .subsFirst) newSvcDiscoveryClient reconnected = some c ∧
      c.server = {[98], [99]} := by
  obtain ⟨c, hrun, hsince, hq, hset⟩ := exists_of_any run_reconnected
  exact ⟨c, hrun, (server_eq_of_nodup_since hrun hsince hq).trans hset⟩

/-! ## The lock and the full channel -/

/-- A call waits for room in its channel, with the lock in its hands. -/
def Blocked (c : SvcDiscoveryClient) : Prop :=
  ∃ x ∈ c.call, chCap ≤ (c.ch x.1).length

instance (c : SvcDiscoveryClient) : Decidable c.Blocked :=
  inferInstanceAs (Decidable (∃ x ∈ c.call, _))

/-- The goroutine that would make room waits for the lock. -/
def Stuck (c : SvcDiscoveryClient) : Prop := c.Blocked ∧ c.pc = .locking

instance (c : SvcDiscoveryClient) : Decidable c.Stuck := inferInstanceAs (Decidable (_ ∧ _))

/-- The condition on a step: a stream is not created while a call waits for room, and no call
    changes the set without room in its channel while the goroutine is at the lock. -/
def RoomKept (c : SvcDiscoveryClient) : Act → Prop
  | .newStream true => ¬c.Blocked
  | .call op svcName =>
    c.pc = .locking → (op = .sub ↔ svcName ∉ c.subscribed) → (c.ch op).length < chCap
  | _ => True

instance (c : SvcDiscoveryClient) (a : Act) : Decidable (c.RoomKept a) :=
  match a with
  | .newStream true => inferInstanceAs (Decidable (¬_))
  | .call _ _ => inferInstanceAs (Decidable (_ → _ → _))
  | .newStream false | .callSend | .resubscribe | .resend _ | .recvFail | .take _ | .stop
  | .batchDone | .send _ | .runReturn | .quit => isTrue trivial

/-- The deadlock: nothing can go on in a stuck state. -/
theorem Stuck.step_eq_none (hstuck : c.Stuck) (a : Act) : step order c a = none := by
  obtain ⟨⟨⟨op, svcName⟩, hcall, hfull⟩, hpc⟩ := hstuck
  have hcall : c.call = some (op, svcName) := hcall
  refine Option.eq_none_iff_forall_ne_some.mpr fun c' h => ?_
  cases step_cases h <;> simp_all [Pc.receiving, Pc.collecting]
  omega

/-- A call blocks with the lock when its channel is full and `resubscribe` waits for the lock. -/
theorem stuck_changed {op : Op} {svcName : Bytes} {subscribed : Finset Bytes} :
    (c.changed op svcName subscribed).Stuck ↔ chCap ≤ (c.ch op).length ∧ c.pc = .locking := by
  simp [Stuck, Blocked, changed]

/-- A step leads to a stuck state exactly if it breaks the condition. -/
theorem not_stuck_iff_roomKept_of_step {a : Act} (h : Step order c a c') (hc : ¬c.Stuck) :
    ¬c'.Stuck ↔ c.RoomKept a := by
  cases h with
  | unchanged op svcName hcall hset =>
    refine iff_of_true hc fun _ heff => ?_
    by_cases hmem : svcName ∈ c.subscribed <;> simp_all
  | subscribe svcName hcall hset | unsubscribe svcName hcall hset =>
    rw [stuck_changed, not_and', not_le]
    simp [RoomKept, hset]
  | callSend | newStream => simp [Stuck, Blocked, RoomKept]
  | newStreamFail | recvFail => exact iff_of_true hc trivial
  | resubscribe hpc hcall => simp [Stuck, Blocked, RoomKept, SvcDiscoveryClient.resubscribe, hcall]
  | _ => simp [Stuck, RoomKept]

/-- A run has no stuck state exactly if its steps keep the condition. -/
theorem not_stuck_iff_roomKept {as : List Act}
    (hrun : runFrom (step order) newSvcDiscoveryClient as = some c) :
    (∀ bs t, bs <+: as → runFrom (step order) newSvcDiscoveryClient bs = some t → ¬t.Stuck) ↔
      RunMeets (step order) RoomKept newSvcDiscoveryClient as := by
  refine good_iff_runMeets (fun _ t => ¬t.Stuck) (fun h => nomatch h.2) ?_ hrun
  intro bs s a t _ _ hs hstep
  exact not_stuck_iff_roomKept_of_step (step_cases hstep) hs

theorem runMeets_reconnected :
    RunMeets (step .subsFirst) RoomKept newSvcDiscoveryClient reconnected := by decide +kernel

theorem not_stuck_iff_roomKept_reconnected :
    ∃ c, runFrom (step .subsFirst) newSvcDiscoveryClient reconnected = some c ∧ ¬c.Stuck := by
  obtain ⟨c, hrun, -⟩ := exists_of_any run_reconnected
  exact ⟨c, hrun, (not_stuck_iff_roomKept hrun).mpr runMeets_reconnected _ c List.prefix_rfl hrun⟩

/-- The services are subscribed one by one. -/
def subscribeAll (svcNames : List Bytes) : List Act :=
  svcNames.flatMap fun svcName => [.call .sub svcName, .callSend]

/-- Without a stream, sixteen services fill the channel; the call for the next one keeps the lock
    when the stream is created. -/
def manyServices : List Act :=
  subscribeAll ((List.range 16).map fun i => [UInt8.ofNat i]) ++
    [.call .sub [97], .newStream true]

theorem run_manyServices :
    ((runFrom (step .subsFirst) newSvcDiscoveryClient manyServices).any fun c =>
      c.Stuck) = true := by decide +kernel

theorem stuck_manyServices :
    ∃ c, runFrom (step .subsFirst) newSvcDiscoveryClient manyServices = some c ∧ c.Stuck :=
  exists_of_any run_manyServices

end SvcDiscoveryClient

end Samaritan.Services
