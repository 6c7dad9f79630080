import Samaritan.Redis.SystemResponses

/-!
# Joining the Responses of Children

`MGET`, `MSET`, `DEL`, `EXISTS`, `TOUCH` and `UNLINK` are split into one simple request per key.
The children complete on different connections, in any order: each one gets its response, then
its hook takes one off `childWait`, and the hook that takes it to zero reads the responses of all
children and answers the raw request (`proc/redis/request.go`).

The machine of this module interleaves these statements for the children of one request.
`childWait` has 32 bits, so it may reach zero before the last child is done; and the sum of the
summing commands has 64 bits. The module finds exactly which requests and replies are answered
once, when the last child is done, with the responses in the order of the keys.
-/

namespace Samaritan.Redis

open Samaritan.Lib

/-! ## The machine -/

/-- The loop of `setResponse` over the responses of the children; `none` is the dereference of a
    response that is not there. -/
def readAll : List (Option RespValue) → Option (List RespValue)
  | [] => some []
  | none :: _ => none
  | some v :: resps => (readAll resps).map (v :: ·)

/-- What the hook that finds no child left answers; `MSET` does not look at the responses. -/
def Join.merge : Join → List (Option RespValue) → Option RespValue
  | .mset, _ => some respOK
  | join, resps => (readAll resps).map join.response

/-- A request that was split, and its children. -/
structure Fanout where
  join : Join
  /-- the responses of the children, in the order of `Split` -/
  resps : List (Option RespValue)
  childWait : Int32
  /-- the children whose hooks have taken one off `childWait` -/
  counted : List Nat
  /-- the hooks that have found `childWait` zero and not answered yet -/
  merging : Nat
  /-- the responses given to the raw request -/
  answers : List RespValue
  panicked : Bool

/-- The request when `Split` has returned with `n` children. -/
def newFanout (join : Join) (n : Nat) : Fanout where
  join := join
  resps := List.replicate n none
  childWait := Int32.ofNat n
  counted := []
  merging := 0
  answers := []
  panicked := false

inductive FanoutStep where
  /-- the response of a child is set -/
  | respond (i : Nat) (v : RespValue)
  /-- the hook of a child takes one off `childWait` -/
  | childDone (i : Nat)
  /-- a hook that has found `childWait` zero reads the responses and answers the raw request -/
  | merge

namespace Fanout

/-- The effect of one step; `none` when it is not enabled. -/
def step (f : Fanout) : FanoutStep → Option Fanout
  | .respond i v =>
    match f.resps[i]? with
    | some none => some { f with resps := f.resps.set i (some v) }
    | _ => none
  | .childDone i =>
    match f.resps[i]? with
    | some (some _) =>
      if i ∈ f.counted then none
      else
        some { f with
          childWait := f.childWait - 1
          counted := f.counted ++ [i]
          merging := f.merging + if f.childWait - 1 = 0 then 1 else 0 }
    | _ => none
  | .merge =>
    match f.merging with
    | 0 => none
    | k + 1 =>
      match f.join.merge f.resps with
      | some v => some { f with merging := k, answers := f.answers ++ [v] }
      | none => some { f with merging := k, panicked := true }

/-- A transition. -/
inductive Step (f : Fanout) : FanoutStep → Fanout → Prop where
  | respond {i : Nat} {v : RespValue} (hopen : f.resps[i]? = some none) :
      Step f (.respond i v) { f with resps := f.resps.set i (some v) }
  | childDone {i : Nat} {v : RespValue} (hresp : f.resps[i]? = some (some v))
      (hnot : i ∉ f.counted) :
      Step f (.childDone i) { f with
        childWait := f.childWait - 1
        counted := f.counted ++ [i]
        merging := f.merging + if f.childWait - 1 = 0 then 1 else 0 }
  | merge {k : Nat} {v : RespValue} (hmerging : f.merging = k + 1)
      (hmerge : f.join.merge f.resps = some v) :
      Step f .merge { f with merging := k, answers := f.answers ++ [v] }
  | panic {k : Nat} (hmerging : f.merging = k + 1) (hmerge : f.join.merge f.resps = none) :
      Step f .merge { f with merging := k, panicked := true }

theorem step_cases {f f' : Fanout} {a : FanoutStep} (h : f.step a = some f') : Step f a f' := by
  cases a with
  | respond i v =>
    simp only [step] at h
    split at h <;> cases h
    exact .respond ‹_›
  | childDone i =>
    simp only [step] at h
    split at h
    · split at h <;> cases h
      exact .childDone ‹_› ‹_›
    · cases h
  | merge =>
    simp only [step] at h
    split at h
    · cases h
    · split at h
      · cases h
        exact .merge ‹_› ‹_›
      · cases h
        exact .panic ‹_› ‹_›

end Fanout

/-! ## Joined responses -/

/-- The number a response stands for. -/
def RespValue.int : RespValue → Option Int64
  | .integer i => some i
  | _ => none

/-- The number of responses that are no integers. -/
def errCount (vs : List RespValue) : Nat := vs.countP fun v => v.int.isNone

/-- The sum of the integers among the responses. -/
def intSum (vs : List RespValue) : Int := (vs.map fun v => (v.int.map Int64.toInt).getD 0).sum

/-- What the responses of the children are to be joined to: those of `MGET` to the array of them,
    those of the summing commands to their sum, or to an error with the number of those that are
    no integers. -/
def Joined (join : Join) (vs : List RespValue) (v : RespValue) : Prop :=
  match join with
  | .mget => v = .array (some vs)
  | .sumResult =>
    if errCount vs = 0 then ∃ i : Int64, v = .integer i ∧ i.toInt = intSum vs
    else v = .error (bytesOf "finished with " ++ formatNat (errCount vs) ++ bytesOf " error(s)")
  | .mset => v = respOK
  | .single => vs = [v]

/-- The sum of the responses of a summing command is an `int64`. -/
def SumFits (join : Join) (vs : List RespValue) : Prop :=
  join = .sumResult → errCount vs = 0 → -2 ^ 63 ≤ intSum vs ∧ intSum vs < 2 ^ 63

theorem sumResults_snd (vs : List RespValue) : (sumResults vs).2 = errCount vs := by
  induction vs with
  | nil => rfl
  | cons v vs ih => cases v <;> simp [sumResults, errCount, RespValue.int] <;> exact ih

/-- The loop of `setResponse` adds up in `int64` arithmetic. -/
theorem sumResults_fst (vs : List RespValue) : (sumResults vs).1 = Int64.ofInt (intSum vs) := by
  induction vs with
  | nil => rfl
  | cons v vs ih =>
    cases v with
    | integer i =>
      simp only [sumResults, ih, intSum, List.map_cons, List.sum_cons, RespValue.int,
        Option.map_some, Option.getD_some, Int64.ofInt_add, Int64.ofInt_toInt]
      exact Int64.add_comm _ _
    | _ => simpa [sumResults, intSum, RespValue.int] using ih

theorem toInt_ofInt_iff (n : Int) : (Int64.ofInt n).toInt = n ↔ -2 ^ 63 ≤ n ∧ n < 2 ^ 63 := by
  constructor
  · intro h
    have hle := Int64.le_toInt (Int64.ofInt n)
    have hlt := Int64.toInt_lt (Int64.ofInt n)
    omega
  · rintro ⟨hle, hlt⟩
    exact Int64.toInt_ofInt_of_le hle hlt

/-- The responses are joined as they should be unless the sum is too large. -/
theorem joined_response_iff {join : Join} (hjoin : join = .mget ∨ join = .sumResult)
    (vs : List RespValue) : Joined join vs (join.response vs) ↔ SumFits join vs := by
  rcases hjoin with rfl | rfl
  · simp [Joined, SumFits, Join.response]
  · simp only [Joined, SumFits, Join.response, sumResults_snd, sumResults_fst, true_implies]
    by_cases herr : errCount vs = 0
    · simpa [herr] using toInt_ofInt_iff (intSum vs)
    · simp [herr]

/-! ## Requests whose counter reaches zero once -/

namespace Fanout

variable {join : Join} {n : Nat} {reply : Nat → RespValue}

/-- The responses of `n` children. -/
def replies (reply : Nat → RespValue) (n : Nat) : List RespValue := (List.range n).map reply

/-- The step gives a child no other response than its own. -/
def Replies (reply : Nat → RespValue) : FanoutStep → Prop
  | .respond i v => v = reply i
  | _ => True

/-- What holds of the children of a request with at most `2 ^ 32` of them, in every state. -/
structure Inv (join : Join) (n : Nat) (reply : Nat → RespValue) (f : Fanout) : Prop where
  sameJoin : f.join = join
  length : f.resps.length = n
  resps : ∀ i v, f.resps[i]? = some (some v) → v = reply i
  nodup : f.counted.Nodup
  /-- a child is counted after it got its response -/
  counted : ∀ i ∈ f.counted, f.resps[i]? = some (some (reply i))
  wait : f.childWait = Int32.ofNat (n - f.counted.length)
  noPanic : f.panicked = false
  /-- nothing is answered before the last child is counted -/
  early : f.counted.length < n → f.merging = 0 ∧ f.answers = []
  /-- then the request is answered by the hook of this child -/
  last : f.counted.length = n → f.merging = 1 ∧ f.answers = [] ∨
    f.merging = 0 ∧ ∃ v, join.merge ((replies reply n).map some) = some v ∧ f.answers = [v]

theorem inv_newFanout (join : Join) (hpos : 0 < n) : Inv join n reply (newFanout join n) where
  sameJoin := rfl
  length := by simp [newFanout]
  resps := by
    intro i v h
    have hmem := List.mem_of_getElem? h
    simp [newFanout] at hmem
  nodup := by simp [newFanout]
  counted := by simp [newFanout]
  wait := by simp [newFanout]
  noPanic := rfl
  early := fun _ => ⟨rfl, rfl⟩
  last := by
    intro h
    simp only [newFanout, List.length_nil] at h
    omega

/-- A counted child is one of the children. -/
theorem Inv.subset {f : Fanout} (hf : Inv join n reply f) : f.counted ⊆ List.range n := by
  intro i hi
  have hlt := (List.getElem?_eq_some_iff.mp (hf.counted i hi)).1
  rw [hf.length] at hlt
  exact List.mem_range.mpr hlt

theorem Inv.length_le {f : Fanout} (hf : Inv join n reply f) : f.counted.length ≤ n := by
  simpa using (hf.nodup.subperm hf.subset).length_le

/-- When all children are counted, all responses are there. -/
theorem Inv.all {f : Fanout} (hf : Inv join n reply f) (hall : f.counted.length = n) :
    f.resps = (replies reply n).map some := by
  have hperm : f.counted.Perm (List.range n) :=
    (hf.nodup.subperm hf.subset).perm_of_length_le (by simp [hall])
  refine List.ext_getElem? fun i => ?_
  by_cases hi : i < n
  · have hmem : i ∈ f.counted := hperm.mem_iff.mpr (List.mem_range.mpr hi)
    rw [hf.counted i hmem]
    simp [replies, hi]
  · rw [List.getElem?_eq_none (by rw [hf.length]; omega)]
    simp [replies, hi]

/-- Reading the responses when they are all there. -/
theorem readAll_map_some (vs : List RespValue) : readAll (vs.map some) = some vs := by
  induction vs with
  | nil => rfl
  | cons v vs ih => simp [readAll, ih]

theorem merge_map_some (join : Join) (vs : List RespValue) :
    ∃ v, join.merge (vs.map some) = some v := by
  cases join with
  | mset => exact ⟨_, rfl⟩
  | _ => exact ⟨_, by rw [Join.merge, readAll_map_some, Option.map_some]; simp⟩

/-- A child that is not counted is to be counted. -/
theorem Inv.lt {f : Fanout} (hf : Inv join n reply f) {i : Nat} {v : RespValue}
    (hresp : f.resps[i]? = some (some v)) (hnot : i ∉ f.counted) : f.counted.length < n := by
  have hlt := (List.getElem?_eq_some_iff.mp hresp).1
  rw [hf.length] at hlt
  have hnodup : (f.counted ++ [i]).Nodup := by
    simpa [List.nodup_append] using ⟨hf.nodup, fun j hj hji => hnot (hji ▸ hj)⟩
  have hsub : f.counted ++ [i] ⊆ List.range n := by
    simpa using ⟨hf.subset, hlt⟩
  simpa using (hnodup.subperm hsub).length_le

/-- A hook is about to answer: all children are counted, and it is the only one. -/
theorem Inv.of_merging {f : Fanout} (hf : Inv join n reply f) {k : Nat} (h : f.merging = k + 1) :
    f.counted.length = n ∧ k = 0 ∧ f.answers = [] := by
  rcases Nat.lt_or_ge f.counted.length n with hlt | hge
  · have := (hf.early hlt).1
    omega
  · have hall : f.counted.length = n := le_antisymm hf.length_le hge
    rcases hf.last hall with ⟨hone, hanswers⟩ | ⟨hzero, -⟩
    · exact ⟨hall, by omega, hanswers⟩
    · omega

/-- The response of a child that had none. -/
theorem Inv.respond {f : Fanout} (hf : Inv join n reply f) {i : Nat}
    (hopen : f.resps[i]? = some none) :
    Inv join n reply { f with resps := f.resps.set i (some (reply i)) } where
  __ := hf
  length := by simpa using hf.length
  resps := by
    intro j w hj
    rw [List.getElem?_set] at hj
    split at hj
    · rename_i hij
      split at hj
      · rw [← hij]
        exact (Option.some.inj (Option.some.inj hj)).symm
      · cases hj
    · exact hf.resps j w hj
  counted := by
    intro j hj
    have hold := hf.counted j hj
    rw [List.getElem?_set_ne, hold]
    rintro rfl
    simp [hopen] at hold

/-- The counter is zero behind the last child only. -/
theorem Inv.childWait_sub_one {f : Fanout} (hn : n ≤ 2 ^ 32) (hf : Inv join n reply f)
    (hlt : f.counted.length < n) :
    f.childWait - 1 = Int32.ofNat (n - (f.counted.length + 1)) ∧
      (f.childWait - 1 = 0 ↔ f.counted.length + 1 = n) := by
  obtain ⟨m, hm⟩ : ∃ m, n = f.counted.length + 1 + m := Nat.exists_eq_add_of_le hlt
  have hwait : f.childWait - 1 = Int32.ofNat m := by
    have hleft : n - f.counted.length = m + 1 := by omega
    rw [hf.wait, hleft, System.ofNat_succ_sub_one]
  refine ⟨by rw [hwait, hm, Nat.add_sub_cancel_left], ?_⟩
  rw [hwait, System.ofNat_eq_zero_iff (by omega)]
  omega

/-- Every step keeps the invariant. -/
theorem Inv.step {f f' : Fanout} {a : FanoutStep} (hn : n ≤ 2 ^ 32) (hf : Inv join n reply f)
    (ha : Replies reply a) (h : Step f a f') : Inv join n reply f' := by
  cases h with
  | @respond i v hopen =>
    obtain rfl : v = reply i := ha
    exact hf.respond hopen
  -- the counter of 32 bits is zero exactly behind the last child
  | @childDone i v hresp hnot =>
    have hlt := hf.lt hresp hnot
    obtain rfl := hf.resps i v hresp
    obtain ⟨hwait, hzero⟩ := hf.childWait_sub_one hn hlt
    obtain ⟨hmerging, hanswers⟩ := hf.early hlt
    exact { hf with
      nodup := by simpa [List.nodup_append] using ⟨hf.nodup, fun j hj hji => hnot (hji ▸ hj)⟩
      counted := by
        intro j hj
        rcases List.mem_append.mp hj with hj | hj
        · exact hf.counted j hj
        · obtain rfl := List.mem_singleton.mp hj
          exact hresp
      wait := by rw [hwait, List.length_append, List.length_singleton]
      early := by
        intro h
        simp only [List.length_append, List.length_singleton] at h
        have hne : ¬ (f.childWait - 1 = 0) := by
          rw [hzero]
          omega
        simp [hmerging, hanswers, hne]
      last := by
        intro h
        simp only [List.length_append, List.length_singleton] at h
        have heq : f.childWait - 1 = 0 := hzero.mpr h
        exact .inl (by simp [hmerging, hanswers, heq]) }
  | @merge k v hmerging hmerge =>
    obtain ⟨hall, hk, hanswers⟩ := hf.of_merging hmerging
    rw [hf.sameJoin, hf.all hall] at hmerge
    exact { hf with
      early := fun hlt => absurd hall (ne_of_lt hlt)
      last := fun _ => .inr ⟨hk, v, hmerge, by simp [hanswers]⟩ }
  -- all responses are there, and they can be joined
  | panic hmerging hmerge =>
    obtain ⟨hall, -, -⟩ := hf.of_merging hmerging
    rw [hf.sameJoin, hf.all hall] at hmerge
    obtain ⟨v, hv⟩ := merge_map_some join (replies reply n)
    rw [hv] at hmerge
    cases hmerge

/-- The raw request is answered once, when the last child is done, with the joined responses of the
    children. -/
structure Right (join : Join) (n : Nat) (reply : Nat → RespValue) (f : Fanout) : Prop where
  noPanic : f.panicked = false
  once : f.answers.length ≤ 1
  early : f.counted.length < n → f.answers = []
  last : f.counted.length = n → f.merging = 0 →
    ∃ v, f.answers = [v] ∧ Joined join (replies reply n) v

theorem merge_replies (hjoin : join = .mget ∨ join = .sumResult) (vs : List RespValue) :
    join.merge (vs.map some) = some (join.response vs) := by
  rcases hjoin with rfl | rfl <;> rw [Join.merge, readAll_map_some, Option.map_some] <;> simp

theorem Inv.right {f : Fanout} (hf : Inv join n reply f)
    (hjoin : join = .mget ∨ join = .sumResult) (hfits : SumFits join (replies reply n)) :
    Right join n reply f where
  noPanic := hf.noPanic
  once := by
    rcases lt_or_eq_of_le hf.length_le with hlt | hall
    · simp [(hf.early hlt).2]
    · rcases hf.last hall with ⟨-, hanswers⟩ | ⟨-, v, -, hanswers⟩ <;> simp [hanswers]
  early := fun hlt => (hf.early hlt).2
  last := by
    intro hall hmerging
    rcases hf.last hall with ⟨hone, -⟩ | ⟨-, v, hmerge, hanswers⟩
    · omega
    · rw [merge_replies hjoin] at hmerge
      cases hmerge
      exact ⟨_, hanswers, (joined_response_iff hjoin _).mpr hfits⟩

theorem inv_of_run (hpos : 0 < n) (hn : n ≤ 2 ^ 32) {as : List FanoutStep} {f : Fanout}
    (has : ∀ a ∈ as, Replies reply a) (hrun : runFrom step (newFanout join n) as = some f) :
    Inv join n reply f := by
  have hstep : ∀ (f : Fanout) a f', Inv join n reply f → Replies reply a → f.step a = some f' →
      Inv join n reply f' := fun f a f' hf ha h => hf.step hn ha (step_cases h)
  exact invariant_of_runMeets hstep (inv_newFanout join hpos) (runMeets_of_forall has _) hrun

/-! ## Requests that go wrong -/

/-- The request behind its first `m` children, when no hook has answered yet. -/
def firstDone (join : Join) (reply : Nat → RespValue) (n m : Nat) : Fanout where
  join := join
  resps := (replies reply m).map some ++ List.replicate (n - m) none
  childWait := Int32.ofNat (n - m)
  counted := List.range m
  merging := System.zeros n m
  answers := []
  panicked := false

theorem set_replies (reply : Nat → RespValue) (m k : Nat) :
    ((replies reply m).map some ++ List.replicate (k + 1) none).set m (some (reply m)) =
      (replies reply (m + 1)).map some ++ List.replicate k none := by
  rw [List.set_append_right _ _ (by simp [replies])]
  simp [replies, List.range_succ, List.replicate_succ]

/-- The next child is done. -/
theorem run_firstDone {m : Nat} (hm : m < n) :
    runFrom step (firstDone join reply n m) [.respond m (reply m), .childDone m] =
      some (firstDone join reply n (m + 1)) := by
  obtain ⟨k, hk⟩ : ∃ k, n - m = k + 1 := ⟨n - m - 1, by omega⟩
  have hk' : n - (m + 1) = k := by omega
  have hlen : (replies reply m).length = m := by simp [replies]
  have hopen : (firstDone join reply n m).resps[m]? = some none := by
    simp [firstDone, hk, hlen]
  have hdone : ((replies reply (m + 1)).map some ++ List.replicate k none)[m]? =
      some (some (reply m)) := by
    rw [List.getElem?_append_left (by simp [replies])]
    simp [replies]
  refine runFrom_cons_eq_some.mpr ⟨{ firstDone join reply n m with
    resps := (replies reply (m + 1)).map some ++ List.replicate k none }, ?_,
    runFrom_cons_eq_some.mpr ⟨_, ?_, rfl⟩⟩
  · simp only [step, hopen]
    simp [firstDone, hk, set_replies]
  · simp only [step, hdone]
    simp [firstDone, hk, hk', System.zeros, List.range_succ]

/-- The first `m` children can be done before the others. -/
theorem exists_run_firstDone (join : Join) (reply : Nat → RespValue) {m : Nat} (hm : m ≤ n) :
    ∃ as, (∀ a ∈ as, Replies reply a) ∧
      runFrom step (newFanout join n) as = some (firstDone join reply n m) := by
  induction m with
  | zero => exact ⟨[], by simp, by simp [runFrom, newFanout, firstDone, replies, System.zeros]⟩
  | succ m ih =>
    obtain ⟨as, has, hrun⟩ := ih (by omega)
    refine ⟨as ++ [.respond m (reply m), .childDone m], fun a ha => ?_, ?_⟩
    · rcases List.mem_append.mp ha with ha | ha
      · exact has a ha
      · rcases List.mem_cons.mp ha with rfl | ha
        · rfl
        · obtain rfl := List.mem_singleton.mp ha
          trivial
    · rw [runFrom_append, hrun, Option.bind_some, run_firstDone hm]

theorem readAll_append_none (vs : List RespValue) (resps : List (Option RespValue)) :
    readAll (vs.map some ++ none :: resps) = none := by
  induction vs with
  | nil => rfl
  | cons v vs ih => simp [readAll, ih]

/-- With more than `2 ^ 32` children the counter is zero before the last child is done. -/
theorem exists_run_early (join : Join) (reply : Nat → RespValue) (hn : 2 ^ 32 < n) :
    ∃ as m k, m < n ∧ (∀ a ∈ as, Replies reply a) ∧
      runFrom step (newFanout join n) as = some (firstDone join reply n m) ∧
      (firstDone join reply n m).merging = k + 1 := by
  obtain ⟨m, hm⟩ : ∃ m, n = m + 1 + 2 ^ 32 := ⟨n - 2 ^ 32 - 1, by omega⟩
  have hzero : Int32.ofNat (n - (m + 1)) = 0 := by
    have hsub : n - (m + 1) = 2 ^ 32 := by omega
    rw [hsub]
    rfl
  obtain ⟨as, has, hrun⟩ := exists_run_firstDone join reply (show m + 1 ≤ n by omega)
  refine ⟨as, m + 1, System.zeros n m, by omega, has, hrun, ?_⟩
  rw [firstDone, System.zeros, if_pos hzero]

/-- Some child has no response behind the first `m < n` children. -/
theorem firstDone_resps {m : Nat} (hm : m < n) :
    ∃ k, (firstDone join reply n m).resps =
      (replies reply m).map some ++ none :: List.replicate k none := by
  obtain ⟨k, hk⟩ : ∃ k, n - m = k + 1 := ⟨n - m - 1, by omega⟩
  exact ⟨k, by rw [firstDone, hk, List.replicate_succ]⟩

/-- A hook that has found the counter zero goes on. -/
theorem exists_run_merge {as : List FanoutStep} {f f' : Fanout} (has : ∀ a ∈ as, Replies reply a)
    (hrun : runFrom step (newFanout join n) as = some f) (hstep : f.step .merge = some f') :
    ∃ as', (∀ a ∈ as', Replies reply a) ∧ runFrom step (newFanout join n) as' = some f' := by
  refine ⟨as ++ [.merge], fun a ha => ?_, ?_⟩
  · rcases List.mem_append.mp ha with ha | ha
    · exact has a ha
    · obtain rfl := List.mem_singleton.mp ha
      trivial
  · rw [runFrom_append, hrun, Option.bind_some]
    exact runFrom_cons_eq_some.mpr ⟨f', hstep, rfl⟩

/-- The hook that finds the counter zero too early reads a response that is not there. -/
theorem exists_run_panicked (hjoin : join = .mget ∨ join = .sumResult)
    (reply : Nat → RespValue) (hn : 2 ^ 32 < n) :
    ∃ as f, (∀ a ∈ as, Replies reply a) ∧ runFrom step (newFanout join n) as = some f ∧
      f.panicked = true ∧ f.counted.length < n := by
  obtain ⟨as, m, k, hm, has, hrun, hmerging⟩ := exists_run_early join reply hn
  have hread : (firstDone join reply n m).join.merge (firstDone join reply n m).resps = none := by
    obtain ⟨l, hl⟩ := firstDone_resps hm
    rw [hl]
    rcases hjoin with rfl | rfl <;>
      rw [firstDone, Join.merge, readAll_append_none, Option.map_none] <;> simp
  have hstep : (firstDone join reply n m).step .merge =
      some { firstDone join reply n m with merging := k, panicked := true } := by
    simp only [step, hmerging, hread]
  obtain ⟨as', has', hrun'⟩ := exists_run_merge has hrun hstep
  exact ⟨as', _, has', hrun', rfl, by simpa [firstDone] using hm⟩

/-- With at most `2 ^ 32` children some run ends with the answer. -/
theorem exists_run_answered {v : RespValue} (reply : Nat → RespValue) (hpos : 0 < n)
    (hn : n ≤ 2 ^ 32) (hmerge : join.merge ((replies reply n).map some) = some v) :
    ∃ as f, (∀ a ∈ as, Replies reply a) ∧ runFrom step (newFanout join n) as = some f ∧
      f.counted.length = n ∧ f.merging = 0 ∧ f.answers = [v] := by
  obtain ⟨as, has, hrun⟩ := exists_run_firstDone join reply (le_refl n)
  have hinv := inv_of_run hpos hn has hrun
  have hall : (firstDone join reply n n).counted.length = n := by simp [firstDone]
  have hmerging : (firstDone join reply n n).merging = 0 + 1 := by
    rcases hinv.last hall with ⟨hone, -⟩ | ⟨-, v, -, hanswers⟩
    · exact hone
    · simp [firstDone] at hanswers
  have hmerge' : (firstDone join reply n n).join.merge (firstDone join reply n n).resps =
      some v := by
    rw [hinv.all hall]
    exact hmerge
  have hstep : (firstDone join reply n n).step .merge =
      some { firstDone join reply n n with merging := 0, answers := [v] } := by
    simp only [step, hmerging, hmerge']
    rfl
  obtain ⟨as', has', hrun'⟩ := exists_run_merge has hrun hstep
  exact ⟨as', _, has', hrun', hall, rfl, rfl⟩

end Fanout

/-! ## Requests -/

/-- The children of `MGET` and of the summing commands: one for each key, in order. -/
theorem children_keys {env : Surroundings} {body : RespValue} {join : Join}
    {children : List (Route × SimpleRequest)} (h : handleRequest env body = .split join children)
    (hjoin : join = .mget ∨ join = .sumResult) :
    0 < children.length ∧
      ∀ i : Nat, (children[i]?).bind (fun c => c.2.body.elems[1]?) = body.elems[i + 1]? := by
  obtain ⟨hdlr, hhandle⟩ := exists_handle_of_split h
  -- the child of a key has it as its second element
  have hchildren : ∀ {cmd : RespValue} {keys : List RespValue} (i : Nat),
      ((keys.map fun key => child cmd key [])[i]?).bind (fun c => c.2.body.elems[1]?) =
        keys[i]? := by
    intro cmd keys i
    rw [List.getElem?_map]
    cases keys[i]? <;> rfl
  cases hdlr with
  | mget | sumResultCommand =>
    simp only [Handler.handle] at hhandle
    split at hhandle
    · rename_i first key keys hbody
      obtain ⟨rfl, rfl⟩ := Handling.split.inj hhandle
      exact ⟨by simp, fun i => by rw [hchildren, hbody, List.getElem?_cons_succ]⟩
    · cases hhandle
  | mset | simpleCommand | eval =>
    rw [Handler.handle] at hhandle
    split at hhandle <;> cases hhandle
    rcases hjoin with hjoin | hjoin <;> cases hjoin
  | scan =>
    rw [Handler.handle, handleScan] at hhandle
    split at hhandle
    · cases hhandle
    · split at hhandle
      · cases hhandle
      · dsimp only at hhandle
        split at hhandle <;> cases hhandle
        rcases hjoin with hjoin | hjoin <;> cases hjoin
  | _ => cases hhandle

/-- **Answers of split requests**: the children of an `MGET` or of a summing command stand in the
    order of the keys; and for every assignment of responses to them, the request is answered
    once, when the last child is done, with the joined responses, in every order in which the
    children complete, exactly when there are at most `2 ^ 32` children and the sum of a summing
    command is an `int64`. -/
theorem fanout_right_iff {env : Surroundings} {body : RespValue} {join : Join}
    {children : List (Route × SimpleRequest)} (h : handleRequest env body = .split join children)
    (hjoin : join = .mget ∨ join = .sumResult) (reply : Nat → RespValue) :
    (∀ i : Nat, (children[i]?).bind (fun c => c.2.body.elems[1]?) = body.elems[i + 1]?) ∧
    ((∀ as f, (∀ a ∈ as, Fanout.Replies reply a) →
      runFrom Fanout.step (newFanout join children.length) as = some f →
      Fanout.Right join children.length reply f) ↔
      children.length ≤ 2 ^ 32 ∧ SumFits join (Fanout.replies reply children.length)) := by
  obtain ⟨hpos, hkeys⟩ := children_keys h hjoin
  refine ⟨hkeys, fun hall => ?_, fun ⟨hn, hfits⟩ as f has hrun => ?_⟩
  · have hn : children.length ≤ 2 ^ 32 := by
      by_contra hlarge
      obtain ⟨as, f, has, hrun, hpanicked, -⟩ :=
        Fanout.exists_run_panicked hjoin reply (Nat.lt_of_not_le hlarge)
      simpa [hpanicked] using (hall as f has hrun).noPanic
    refine ⟨hn, ?_⟩
    obtain ⟨as, f, has, hrun, hcounted, hmerging, hanswers⟩ :=
      Fanout.exists_run_answered reply hpos hn (Fanout.merge_replies hjoin _)
    obtain ⟨v, hv, hjoined⟩ := (hall as f has hrun).last hcounted hmerging
    rw [hanswers] at hv
    obtain rfl := (List.cons.inj hv).1
    exact (joined_response_iff hjoin _).mp hjoined
  · exact (Fanout.inv_of_run hpos hn has hrun).right hjoin hfits

/-- A `DEL` of two keys. -/
def sampleDel : RespValue :=
  .array (some ([bytesOf "del", bytesOf "a", bytesOf "b"].map fun w => .bulkString (some w)))

theorem handleRequest_sampleDel (env : Surroundings) :
    ∃ children, handleRequest env sampleDel = .split .sumResult children ∧
      children.length = 2 := by
  have hfind : findHandler (word sampleDel 0) = some .sumResultCommand := by decide +kernel
  have hvalid : isValid sampleDel = true := by decide
  exact ⟨_, by rw [handleRequest, hvalid, hfind]; rfl, rfl⟩

/-- An inline `MGET` with `n` keys. -/
def wideMget (n : Nat) : RespValue :=
  .array (some ((bytesOf "mget" :: List.replicate n (bytesOf "k")).map
    fun w => .bulkString (some w)))

theorem exists_decoder_wideMget (n : Nat) :
    ∃ d d' : Decoder, d.decode = (.ok (wideMget n), d') := by
  have hmget : bytesOf "mget" = 109 :: bytesOf "get" := by decide
  rw [wideMget, hmget]
  exact System.exists_decoder_words (by decide) (by decide) (fun _ => rfl) n

theorem handleRequest_wideMget (env : Surroundings) (n : Nat) :
    ∃ children, handleRequest env (wideMget (n + 1)) = .split .mget children ∧
      children.length = n + 1 := by
  have hfind : findHandler (bytesOf "mget") = some .mget := by decide +kernel
  have hvalid : isValid (wideMget (n + 1)) = true := by
    simp [wideMget, isValid, RespValue.isBulkString]
  have hword : word (wideMget (n + 1)) 0 = bytesOf "mget" := rfl
  refine ⟨_, by rw [handleRequest, hvalid, hword, hfind]; rfl, ?_⟩
  simp

/-- The reply of the first child is the largest integer and that of the second one is 1. -/
def largeReply : Nat → RespValue
  | 0 => .integer (Int64.ofInt (2 ^ 63 - 1))
  | _ => .integer 1

/-- An `MGET` with `2 ^ 32 + 1` keys, which a session can read, makes a hook read a response that
    is not there while children are still to complete; and a `DEL` of two keys whose replies have
    a sum beyond `int64` is answered with another number. -/
theorem not_right_wideMget_sampleDel :
    ((∃ d d' : Decoder, d.decode = (.ok (wideMget (2 ^ 32 + 1)), d')) ∧
      ∃ children as f, handleRequest noSurroundings (wideMget (2 ^ 32 + 1)) =
          .split .mget children ∧
        runFrom Fanout.step (newFanout .mget children.length) as = some f ∧
        f.panicked = true ∧ f.counted.length < children.length) ∧
    ∃ children as f, handleRequest noSurroundings sampleDel = .split .sumResult children ∧
      (∀ a ∈ as, Fanout.Replies largeReply a) ∧
      runFrom Fanout.step (newFanout .sumResult children.length) as = some f ∧
      f.answers = [.integer (Int64.ofInt (-2 ^ 63))] ∧
      intSum (Fanout.replies largeReply children.length) = 2 ^ 63 := by
  constructor
  · obtain ⟨children, hsplit, hlen⟩ := handleRequest_wideMget noSurroundings (2 ^ 32)
    obtain ⟨as, f, -, hrun, hpanicked, hcounted⟩ :=
      Fanout.exists_run_panicked (.inl rfl : Join.mget = .mget ∨ Join.mget = .sumResult)
        (fun _ => .integer 0) (show 2 ^ 32 < children.length by omega)
    exact ⟨exists_decoder_wideMget _, children, as, f, hsplit, hrun, hpanicked, hcounted⟩
  · obtain ⟨children, hsplit, hlen⟩ := handleRequest_sampleDel noSurroundings
    obtain ⟨as, f, has, hrun, -, -, hanswers⟩ :=
      Fanout.exists_run_answered largeReply (show 0 < 2 by decide) (by decide)
        (Fanout.merge_replies (.inr rfl : Join.sumResult = .mget ∨ Join.sumResult = .sumResult) _)
    refine ⟨children, as, f, hsplit, has, ?_⟩
    rw [hlen]
    exact ⟨hrun, hanswers.trans rfl, rfl⟩

theorem fanout_right_iff_sampleDel :
    ∃ children, handleRequest noSurroundings sampleDel = .split .sumResult children ∧
      (∀ i : Nat, (children[i]?).bind (fun c => c.2.body.elems[1]?) = sampleDel.elems[i + 1]?) ∧
      ((∀ as f, (∀ a ∈ as, Fanout.Replies largeReply a) →
        runFrom Fanout.step (newFanout .sumResult children.length) as = some f →
        Fanout.Right .sumResult children.length largeReply f) ↔
        children.length ≤ 2 ^ 32 ∧
          SumFits .sumResult (Fanout.replies largeReply children.length)) := by
  obtain ⟨children, hsplit, -⟩ := handleRequest_sampleDel noSurroundings
  exact ⟨children, hsplit, fanout_right_iff hsplit (.inr rfl) largeReply⟩

/-! ## Acknowledged writes -/

def RespValue.isError : RespValue → Bool
  | .error _ => true
  | _ => false

namespace Fanout

variable {n : Nat} {reply : Nat → RespValue}

/-- An `MSET` with `n` pairs is answered with `OK` only when every child is answered without an
    error, and with an error when a child has failed. -/
structure Acknowledged (n : Nat) (f : Fanout) : Prop where
  ok : respOK ∈ f.answers → ∀ i < n, ∃ v, f.resps[i]? = some (some v) ∧ v.isError = false
  failed : ∀ (i : Nat) (v : RespValue), f.resps[i]? = some (some v) → v.isError = true →
    ∀ w ∈ f.answers, w.isError = true

/-- When no child fails, the answer comes behind the last one. -/
theorem Inv.acknowledged {f : Fanout} (hf : Inv .mset n reply f)
    (hreply : ∀ i < n, (reply i).isError = false) : Acknowledged n f where
  ok := by
    intro hok i hi
    rcases lt_or_eq_of_le hf.length_le with hlt | hall
    · rw [(hf.early hlt).2] at hok
      cases hok
    · refine ⟨reply i, ?_, hreply i hi⟩
      rw [hf.all hall]
      simp [replies, hi]
  failed := by
    intro i v hv herr
    have hi : i < n := hf.length ▸ (List.getElem?_eq_some_iff.mp hv).1
    rw [hf.resps i v hv, hreply i hi] at herr
    cases herr

/-- An `MSET` with too many pairs can be answered while a child has no response. -/
theorem exists_not_acknowledged_of_large (reply : Nat → RespValue) (hn : 2 ^ 32 < n) :
    ∃ as f, (∀ a ∈ as, Replies reply a) ∧ runFrom step (newFanout .mset n) as = some f ∧
      ¬ Acknowledged n f := by
  obtain ⟨as, m, k, hm, has, hrun, hmerging⟩ := exists_run_early .mset reply hn
  have hstep : (firstDone .mset reply n m).step .merge =
      some { firstDone .mset reply n m with merging := k, answers := [respOK] } := by
    simp only [step, hmerging]
    rfl
  obtain ⟨as', has', hrun'⟩ := exists_run_merge has hrun hstep
  refine ⟨as', _, has', hrun', fun hack => ?_⟩
  obtain ⟨v, hv, -⟩ := hack.ok (by simp) m hm
  obtain ⟨l, hl⟩ := firstDone_resps hm
  have hnone : (firstDone .mset reply n m).resps[m]? = some none := by
    have hlen : ((replies reply m).map some).length = m := by simp [replies]
    rw [hl, List.getElem?_append_right hlen.le, hlen, Nat.sub_self]
    rfl
  have hsome := hnone.symm.trans hv
  cases hsome

/-- An `MSET` is answered with `OK` when a child has failed. -/
theorem exists_not_acknowledged_of_failed (hpos : 0 < n) (hn : n ≤ 2 ^ 32) {i : Nat} (hi : i < n)
    (herr : (reply i).isError = true) :
    ∃ as f, (∀ a ∈ as, Replies reply a) ∧ runFrom step (newFanout .mset n) as = some f ∧
      f.answers = [respOK] ∧ ¬ Acknowledged n f := by
  have hmerge : Join.mset.merge ((replies reply n).map some) = some respOK := rfl
  obtain ⟨as, f, has, hrun, hall, -, hanswers⟩ := exists_run_answered reply hpos hn hmerge
  refine ⟨as, f, has, hrun, hanswers, fun hack => ?_⟩
  have hf := inv_of_run hpos hn has hrun
  have hresp : f.resps[i]? = some (some (reply i)) := by
    rw [hf.all hall]
    simp [replies, hi]
  have hok := hack.failed i (reply i) hresp herr respOK (by simp [hanswers])
  cases hok

end Fanout

/-- The children of `MSET`: a `SET` for each pair of key and value, in order. -/
theorem msetChildren_getElem? (vs : List RespValue) (i : Nat) {c : Route × SimpleRequest}
    (h : (msetChildren vs)[i]? = some c) :
    ∃ key value, vs[2 * i]? = some key ∧ vs[2 * i + 1]? = some value ∧
      c.2.body.elems = [.bulkString (some (bytesOf "set")), key, value] := by
  induction vs using msetChildren.induct generalizing i with
  | case1 key value rest ih =>
    cases i with
    | zero =>
      cases h
      exact ⟨key, value, rfl, rfl, rfl⟩
    | succ i => exact ih i h
  | case2 vs hvs =>
    unfold msetChildren at h
    split at h
    · exact absurd rfl (hvs _ _ _)
    · cases h

theorem length_msetChildren (vs : List RespValue) : (msetChildren vs).length = vs.length / 2 := by
  induction vs using msetChildren.induct with
  | case1 key value rest ih =>
    simp only [msetChildren, List.length_cons, ih]
    omega
  | case2 vs hvs =>
    -- an odd value at the end has no partner and is dropped
    obtain - | ⟨key, - | ⟨value, rest⟩⟩ := vs
    · rfl
    · simp [msetChildren]
    · exact absurd rfl (hvs key value rest)

/-- A request that is split as an `MSET` has a command and the pairs of its children. -/
theorem mset_children {env : Surroundings} {body : RespValue}
    {children : List (Route × SimpleRequest)} (h : handleRequest env body = .split .mset children) :
    0 < children.length ∧ body.elems.length = 2 * children.length + 1 ∧
      children = msetChildren body.elems.tail := by
  obtain ⟨hdlr, hhandle⟩ := exists_handle_of_split h
  cases hdlr with
  | mset =>
    rw [Handler.handle] at hhandle
    split at hhandle
    · cases hhandle
    · rename_i hodd
      obtain ⟨-, rfl⟩ := Handling.split.inj hhandle
      rw [length_msetChildren, List.length_tail]
      exact ⟨by omega, by omega, rfl⟩
  -- the other handlers join in another way, or do not split
  | mget | sumResultCommand =>
    simp only [Handler.handle] at hhandle
    split at hhandle <;> cases hhandle
  | simpleCommand | eval =>
    rw [Handler.handle] at hhandle
    split at hhandle <;> cases hhandle
  | scan =>
    rw [Handler.handle, handleScan] at hhandle
    split at hhandle
    · cases hhandle
    · split at hhandle
      · cases hhandle
      · dsimp only at hhandle
        split at hhandle <;> cases hhandle
  | _ => cases hhandle

/-- **Acknowledged writes**: the children of an `MSET` are the `SET`s of its pairs; and for every
    assignment of replies to them, an answer `OK` means that every child was answered without an
    error, and a failed child that the answer is an error, in every order in which the children
    complete, exactly when no child fails and there are at most `2 ^ 32` of them. -/
theorem mset_acknowledged_iff {env : Surroundings} {body : RespValue}
    {children : List (Route × SimpleRequest)} (h : handleRequest env body = .split .mset children)
    (reply : Nat → RespValue) :
    (body.elems.length = 2 * children.length + 1 ∧
      ∀ i c, children[i]? = some c → ∃ key value, body.elems[2 * i + 1]? = some key ∧
        body.elems[2 * i + 2]? = some value ∧
        c.2.body.elems = [.bulkString (some (bytesOf "set")), key, value]) ∧
    ((∀ as f, (∀ a ∈ as, Fanout.Replies reply a) →
      runFrom Fanout.step (newFanout .mset children.length) as = some f →
      Fanout.Acknowledged children.length f) ↔
      children.length ≤ 2 ^ 32 ∧ ∀ i < children.length, (reply i).isError = false) := by
  obtain ⟨hpos, hlen, hchildren⟩ := mset_children h
  refine ⟨⟨hlen, fun i c hc => ?_⟩, fun hall => ?_, fun ⟨hn, hreply⟩ as f has hrun => ?_⟩
  · rw [hchildren] at hc
    obtain ⟨key, value, hkey, hvalue, hbody⟩ := msetChildren_getElem? _ i hc
    rw [List.getElem?_tail] at hkey hvalue
    exact ⟨key, value, hkey, hvalue, hbody⟩
  -- with more children the counter wraps and the answer comes too early
  · have hn : children.length ≤ 2 ^ 32 := by
      by_contra hlarge
      obtain ⟨as, f, has, hrun, hnot⟩ :=
        Fanout.exists_not_acknowledged_of_large reply (Nat.lt_of_not_le hlarge)
      exact hnot (hall as f has hrun)
    refine ⟨hn, fun i hi => ?_⟩
    by_contra herr
    obtain ⟨as, f, has, hrun, -, hnot⟩ :=
      Fanout.exists_not_acknowledged_of_failed hpos hn hi (Bool.eq_true_of_not_eq_false herr)
    exact hnot (hall as f has hrun)
  · exact (Fanout.inv_of_run hpos hn has hrun).acknowledged hreply

/-- An `MSET` of two pairs. -/
def sampleMset : RespValue :=
  .array (some (["mset", "a", "1", "b", "2"].map fun w => .bulkString (some (bytesOf w))))

theorem handleRequest_sampleMset (env : Surroundings) :
    ∃ children, handleRequest env sampleMset = .split .mset children ∧ children.length = 2 := by
  have hfind : findHandler (word sampleMset 0) = some .mset := by decide +kernel
  have hvalid : isValid sampleMset = true := by decide
  exact ⟨_, by rw [handleRequest, hvalid, hfind]; rfl, rfl⟩

/-- The node of the second key cannot be reached. -/
def failedReply : Nat → RespValue
  | 1 => Answer.backendExited.value
  | _ => respOK

/-- The `SET` of the second pair fails and the `MSET` is answered with `OK`. -/
theorem not_acknowledged_sampleMset :
    ∃ children as f, handleRequest noSurroundings sampleMset = .split .mset children ∧
      (∀ a ∈ as, Fanout.Replies failedReply a) ∧
      runFrom Fanout.step (newFanout .mset children.length) as = some f ∧
      f.answers = [respOK] ∧ (failedReply 1).isError = true ∧
      ¬ Fanout.Acknowledged children.length f := by
  obtain ⟨children, hsplit, hlen⟩ := handleRequest_sampleMset noSurroundings
  obtain ⟨as, f, has, hrun, hanswers, hnot⟩ :=
    Fanout.exists_not_acknowledged_of_failed (show 0 < children.length by omega) (by omega)
      (show 1 < children.length by omega) (show (failedReply 1).isError = true from rfl)
  exact ⟨children, as, f, hsplit, has, hrun, hanswers, rfl, hnot⟩

theorem mset_acknowledged_iff_sampleMset :
    ∃ children, handleRequest noSurroundings sampleMset = .split .mset children ∧
      ((∀ as f, (∀ a ∈ as, Fanout.Replies (fun _ => respOK) a) →
        runFrom Fanout.step (newFanout .mset children.length) as = some f →
        Fanout.Acknowledged children.length f) ↔
        children.length ≤ 2 ^ 32 ∧ ∀ i < children.length, respOK.isError = false) := by
  obtain ⟨children, hsplit, -⟩ := handleRequest_sampleMset noSurroundings
  exact ⟨children, hsplit, (mset_acknowledged_iff hsplit fun _ => respOK).2⟩

end Samaritan.Redis
