import Samaritan.Redis.SystemOwnership

/-!
# Responses Are Set Once

`SetResponse` closes the channel `done` of its request, so that a second call crashes the proxy.
A simple request is answered once because it is at one place at a time.

A raw request is answered by its handler, by the hook of the simple request that is bound to it,
or by the child that takes `childWait` to zero. This counter has 32 bits. It reaches zero once
when the request was split into at most `2 ^ 32` children, and more than once when it was split
into more: an inline command can be that long.
-/

namespace Samaritan.Redis

open Samaritan.Lib

namespace System

/-! ## Calls of hooks -/

/-- The calls that the hooks of the simple requests without a response are going to make; the
    first of the requests is numbered `i`. -/
def toCome (answered : List Nat) : Nat → List (List HookCall) → List HookCall
  | _, [] => []
  | i, calls :: rest => (if i ∈ answered then [] else calls) ++ toCome answered (i + 1) rest

/-- The calls of hooks that are under way or to come. -/
def future (s : System) : List HookCall := toCome s.simpleSet 0 s.simples ++ s.calls

theorem toCome_append (answered : List Nat) (i : Nat) (l m : List (List HookCall)) :
    toCome answered i (l ++ m) = toCome answered i l ++ toCome answered (i + l.length) m := by
  induction l generalizing i with
  | nil => rfl
  | cons calls rest ih =>
    have hi : i + 1 + rest.length = i + (rest.length + 1) := by omega
    simp [toCome, ih, hi]

/-- The response of none of the requests is set. -/
theorem toCome_of_below {answered : List Nat} {i : Nat} (h : ∀ x ∈ answered, x < i)
    (l : List (List HookCall)) : toCome answered i l = l.flatten := by
  induction l generalizing i with
  | nil => rfl
  | cons calls rest ih =>
    have hi : i ∉ answered := fun hmem => lt_irrefl i (h i hmem)
    have hrest : ∀ x ∈ answered, x < i + 1 := fun x hx => Nat.lt_succ_of_lt (h x hx)
    simp [toCome, hi, ih hrest]

/-- The response of an earlier request is set. -/
theorem toCome_of_lt {answered : List Nat} {i req : Nat} (h : req < i)
    (l : List (List HookCall)) : toCome (answered ++ [req]) i l = toCome answered i l := by
  induction l generalizing i with
  | nil => rfl
  | cons calls rest ih =>
    have hi : i ≠ req := by omega
    simp [toCome, hi, ih (Nat.lt_succ_of_lt h)]

/-- When the response of a request is set, its calls are no longer to come. -/
theorem toCome_perm {answered : List Nat} {i req : Nat} (hnot : req ∉ answered) (hle : i ≤ req)
    {l : List (List HookCall)} (hlt : req < i + l.length) :
    (toCome (answered ++ [req]) i l ++ l.getD (req - i) []).Perm (toCome answered i l) := by
  induction l generalizing i with
  | nil =>
    simp only [List.length_nil] at hlt
    omega
  | cons calls rest ih =>
    by_cases hi : i = req
    -- it is the turn of the request: its calls move from here to those under way
    · subst hi
      simp only [toCome, toCome_of_lt (Nat.lt_succ_self i), hnot, List.mem_append,
        List.mem_singleton, or_true, if_true, if_false, Nat.sub_self, List.getD_cons_zero,
        List.nil_append]
      exact List.perm_append_comm
    · have hget : (calls :: rest).getD (req - i) [] = rest.getD (req - (i + 1)) [] := by
        have hsub : req - i = req - (i + 1) + 1 := by omega
        rw [hsub, List.getD_cons_succ]
      have hmem : i ∈ answered ++ [req] ↔ i ∈ answered := by simp [hi]
      simp only [toCome, hmem, hget, List.append_assoc]
      simp only [List.length_cons] at hlt
      exact (ih (by omega) (by omega)).append_left _

theorem count_future_setResponse {s : System} {req : Nat}
    (hopen : req < s.simples.length ∧ req ∉ s.simpleSet) (x : HookCall) :
    (s.setResponse req).future.count x = s.future.count x := by
  have hperm := toCome_perm hopen.2 (Nat.zero_le req) (by simpa using hopen.1)
  have hcount := hperm.count_eq x
  simp only [Nat.sub_zero, List.count_append] at hcount
  simp only [future, setResponse_simpleSet, setResponse_simples, setResponse_calls,
    List.count_append]
  omega

/-- New simple requests are made. -/
theorem count_future_append {s s' : System} (h : OnePlace s) {new : List (List HookCall)}
    (hsimples : s'.simples = s.simples ++ new) (hset : s'.simpleSet = s.simpleSet)
    (hcalls : s'.calls = s.calls) (x : HookCall) :
    s'.future.count x = s.future.count x + new.flatten.count x := by
  have hbelow : ∀ y ∈ s.simpleSet, y < 0 + s.simples.length := by
    intro y hy
    rw [Nat.zero_add]
    exact h.below .answered y hy
  simp only [future, hsimples, hset, hcalls, toCome_append, toCome_of_below hbelow,
    List.count_append]
  omega

/-! ## Raw requests -/

/-- What holds of the raw requests. -/
structure RawOk (s : System) : Prop where
  /-- the response is set, or one call is going to set it, or children are counted -/
  once : ∀ rid, s.rawSet.count rid + s.future.count (.setRaw rid) +
    min 1 (s.future.count (.childDone rid)) ≤ 1
  /-- nothing happens to a request that is not made -/
  fresh : ∀ rid, s.raws.length ≤ rid → s.rawSet.count rid = 0 ∧
    s.future.count (.setRaw rid) = 0 ∧ s.future.count (.childDone rid) = 0
  /-- the counter tells how many children are still to be counted -/
  wait : ∀ rid wait, s.raws[rid]? = some (some wait) →
    wait = Int32.ofNat (s.future.count (.childDone rid)) ∧
      s.future.count (.childDone rid) ≤ 2 ^ 32

theorem rawOk_newSystem : RawOk newSystem := by
  constructor <;> simp [newSystem, future, toCome]

/-- A step that changes neither the raw requests nor what happens to them. -/
theorem RawOk.congr {s s' : System} (hs : RawOk s) (hraws : s'.raws = s.raws)
    (hset : s'.rawSet = s.rawSet) (hfuture : ∀ x, s'.future.count x = s.future.count x) :
    RawOk s' := by
  constructor
  · simpa only [hset, hfuture] using hs.once
  · simpa only [hraws, hset, hfuture] using hs.fresh
  · simpa only [hraws, hfuture] using hs.wait

/-- A simple request without hooks is made. -/
theorem RawOk.makeSimple {s s' : System} (hs : RawOk s) (hone : OnePlace s)
    (hsimples : s'.simples = s.simples ++ [[]]) (hanswered : s'.simpleSet = s.simpleSet)
    (hcalls : s'.calls = s.calls) (hraws : s'.raws = s.raws) (hset : s'.rawSet = s.rawSet) :
    RawOk s' :=
  hs.congr hraws hset fun x => count_future_append hone hsimples hanswered hcalls x

theorem ofNat_succ_sub_one (k : Nat) : Int32.ofNat (k + 1) - 1 = Int32.ofNat k := by
  rw [Int32.ofNat_add]
  exact Int32.add_sub_cancel _ _

theorem ofNat_eq_zero_iff {k : Nat} (hk : k < 2 ^ 32) : Int32.ofNat k = 0 ↔ k = 0 := by
  rw [← Int32.toBitVec_inj]
  simp [BitVec.toNat_eq]
  omega

/-- A new raw request, with the calls that are to come for it. -/
theorem RawOk.newRaw {s s' : System} (hs : RawOk s) {wait : Option Int32} (new : List HookCall)
    (hraws : s'.raws = s.raws ++ [wait]) (hset : s'.rawSet = s.rawSet)
    (hfuture : ∀ x, s'.future.count x = s.future.count x + new.count x)
    (hothers : ∀ rid, rid ≠ s.raws.length →
      new.count (.setRaw rid) = 0 ∧ new.count (.childDone rid) = 0)
    (honce : new.count (.setRaw s.raws.length) +
      min 1 (new.count (.childDone s.raws.length)) ≤ 1)
    (hwait : ∀ w, wait = some w → w = Int32.ofNat (new.count (.childDone s.raws.length)) ∧
      new.count (.childDone s.raws.length) ≤ 2 ^ 32) : RawOk s' := by
  -- nothing has happened to the request that gets the next number
  obtain ⟨hset₀, hraw₀, hchild₀⟩ := hs.fresh s.raws.length le_rfl
  refine ⟨fun rid => ?_, fun rid hrid => ?_, fun rid w hw => ?_⟩
  · rw [hset, hfuture, hfuture]
    by_cases hr : rid = s.raws.length
    · subst hr
      omega
    · have := hs.once rid
      have := hothers rid hr
      omega
  · rw [hraws, List.length_append, List.length_singleton] at hrid
    rw [hset, hfuture, hfuture]
    have := hs.fresh rid (by omega)
    have := hothers rid (by omega)
    omega
  · rw [hraws] at hw
    rw [hfuture]
    by_cases hr : rid < s.raws.length
    · rw [List.getElem?_append_left hr] at hw
      rw [(hothers rid (by omega)).2]
      exact hs.wait rid w hw
    · rw [List.getElem?_append_right (by omega), List.getElem?_singleton] at hw
      split at hw
      · obtain rfl : rid = s.raws.length := by omega
        rw [hchild₀, Nat.zero_add]
        exact hwait w (Option.some.inj hw)
      · cases hw

/-- A hook makes its call, and more calls are under way. -/
theorem count_future_call {s s' : System} {call : HookCall} {more : List HookCall}
    (hcall : call ∈ s.calls) (hsimples : s'.simples = s.simples)
    (hset : s'.simpleSet = s.simpleSet) (hcalls : s'.calls = s.calls.erase call ++ more)
    (x : HookCall) :
    s'.future.count x + (if x = call then 1 else 0) = s.future.count x + more.count x := by
  have hperm := (List.perm_cons_erase hcall).count_eq x
  rw [List.count_cons] at hperm
  simp only [beq_iff_eq, eq_comm (a := call)] at hperm
  simp only [future, hsimples, hset, hcalls, List.count_append]
  omega

/-- The hook of a request sets the response of the raw request. -/
theorem RawOk.setRaw {s s' : System} (hs : RawOk s) {rid : Nat} (hcall : .setRaw rid ∈ s.calls)
    (hraws : s'.raws = s.raws) (hset : s'.rawSet = s.rawSet ++ [rid])
    (hsimples : s'.simples = s.simples) (hanswered : s'.simpleSet = s.simpleSet)
    (hcalls : s'.calls = s.calls.erase (.setRaw rid)) : RawOk s' := by
  -- the call moves from those to come to those made
  have hcount : ∀ x, s'.future.count x + (if x = .setRaw rid then 1 else 0) =
      s.future.count x + List.count x [] :=
    count_future_call hcall hsimples hanswered (by simpa using hcalls)
  have hset' : ∀ r, s'.rawSet.count r = s.rawSet.count r + if r = rid then 1 else 0 := by
    intro r
    rw [hset, List.count_append, List.count_singleton]
    simp [eq_comm (a := r)]
  have hraw : ∀ r, s'.future.count (.setRaw r) + (if r = rid then 1 else 0) =
      s.future.count (.setRaw r) := by
    simpa using fun r => hcount (.setRaw r)
  have hchild : ∀ r, s'.future.count (.childDone r) = s.future.count (.childDone r) := by
    simpa using fun r => hcount (.childDone r)
  refine ⟨fun r => ?_, fun r hr => ?_, fun r w hw => ?_⟩
  · have honce := hs.once r
    have := hraw r
    rw [hset', hchild]
    omega
  · rw [hraws] at hr
    have hfresh := hs.fresh r hr
    have := hraw r
    rw [hset', hchild]
    omega
  · rw [hraws] at hw
    rw [hchild]
    exact hs.wait r w hw

/-- A child is counted, and the last one sets the response of the raw request. -/
theorem RawOk.childDone {s s' : System} (hs : RawOk s) {rid : Nat} {wait : Int32}
    (hcall : .childDone rid ∈ s.calls) (hwait : s.raws[rid]? = some (some wait))
    (hraws : s'.raws = s.raws.set rid (some (wait - 1))) (hset : s'.rawSet = s.rawSet)
    (hsimples : s'.simples = s.simples) (hanswered : s'.simpleSet = s.simpleSet)
    (hcalls : s'.calls = s.calls.erase (.childDone rid) ++
      if wait - 1 = 0 then [.setRaw rid] else []) : RawOk s' := by
  have hcount := count_future_call hcall hsimples hanswered hcalls
  have hraw : ∀ r, s'.future.count (.setRaw r) = s.future.count (.setRaw r) +
      if r = rid ∧ wait - 1 = 0 then 1 else 0 := by
    intro r
    have hr := hcount (.setRaw r)
    by_cases hzero : wait - 1 = 0
    · simpa [hzero, List.count_singleton, eq_comm (a := r)] using hr
    · simpa [hzero] using hr
  have hchild : ∀ r, s'.future.count (.childDone r) + (if r = rid then 1 else 0) =
      s.future.count (.childDone r) := by
    intro r
    have hr := hcount (.childDone r)
    by_cases hzero : wait - 1 = 0 <;> simpa [hzero] using hr
  -- the counter reaches zero with the last child
  obtain ⟨hk, hle⟩ := hs.wait rid wait hwait
  have hself := hchild rid
  rw [if_pos rfl] at hself
  have hwait' : wait - 1 = Int32.ofNat (s'.future.count (.childDone rid)) := by
    rw [hk, ← hself, ofNat_succ_sub_one]
  have hzero : wait - 1 = 0 ↔ s'.future.count (.childDone rid) = 0 := by
    rw [hwait']
    exact ofNat_eq_zero_iff (by omega)
  have hlt : rid < s.raws.length := (List.getElem?_eq_some_iff.mp hwait).1
  refine ⟨fun r => ?_, fun r hr => ?_, fun r w hw => ?_⟩
  · have honce := hs.once r
    have hr := hchild r
    rw [hset, hraw]
    by_cases hrr : r = rid
    -- the last child goes, and the call that sets the response comes
    · subst hrr
      simp only [hzero, true_and]
      split <;> omega
    · simp only [hrr, false_and, if_false] at hr ⊢
      omega
  · rw [hraws, List.length_set] at hr
    have hne : r ≠ rid := by omega
    have hfresh := hs.fresh r hr
    have hr' := hchild r
    rw [hset, hraw]
    simp only [hne, false_and, if_false] at hr' ⊢
    omega
  · rw [hraws] at hw
    by_cases hrr : r = rid
    · subst hrr
      rw [List.getElem?_set_self hlt] at hw
      obtain rfl := Option.some.inj (Option.some.inj hw)
      exact ⟨hwait', by omega⟩
    · rw [List.getElem?_set_ne (Ne.symm hrr)] at hw
      have hr := hchild r
      simp only [hrr, if_false, Nat.add_zero] at hr
      rw [hr]
      exact hs.wait r w hw

/-- The calls that the simple requests of a split request are going to make. -/
theorem flatten_calls {env : Surroundings} {body : RespValue} {join : Join}
    {children : List (Route × SimpleRequest)} (h : handleRequest env body = .split join children)
    (rid : Nat) :
    (join = .single ∧ (children.map fun c => c.2.calls rid).flatten = [.setRaw rid]) ∨
      (join ≠ .single ∧ (children.map fun c => c.2.calls rid).flatten =
        List.replicate children.length (.childDone rid)) := by
  obtain ⟨hdlr, hhandle⟩ := exists_handle_of_split h
  rcases hdlr.handle_cases env body with ⟨v, hv⟩ | ⟨c, hc, hhooks⟩ |
    ⟨join', children', hsplit, hjoin, hhooks⟩
  · rw [hhandle] at hv
    cases hv
  · rw [hhandle] at hc
    cases hc
    refine .inl ⟨rfl, ?_⟩
    rcases hhooks with hhooks | ⟨nodeIdx, hhooks⟩ <;>
      simp [SimpleRequest.calls, hhooks, Hook.call]
  · rw [hhandle] at hsplit
    cases hsplit
    refine .inr ⟨hjoin, ?_⟩
    have hcalls : ∀ c ∈ children, c.2.calls rid = [.childDone rid] := by
      intro c hc
      simp [SimpleRequest.calls, hhooks c hc, Hook.call]
    rw [List.map_congr_left hcalls]
    simp

/-- The step splits no request into more than `2 ^ 32` children. -/
def SplitsFit (_ : System) : SystemStep → Prop
  | .request _ env body => ∀ join children,
      handleRequest env body = .split join children → children.length ≤ 2 ^ 32
  | _ => True

/-- A request is split into at most `2 ^ 32` children. -/
theorem RawOk.split {s : System} (hs : RawOk s) (hone : OnePlace s) {n : Nat}
    {env : Surroundings} {body : RespValue} {join : Join}
    {children : List (Route × SimpleRequest)}
    (hbody : handleRequest env body = .split join children) (hfits : children.length ≤ 2 ^ 32) :
    RawOk (s.split n join children) := by
  have hfuture : ∀ x, (s.split n join children).future.count x = s.future.count x + _ :=
    count_future_append hone rfl rfl rfl
  rcases flatten_calls hbody s.raws.length with ⟨rfl, hcalls⟩ | ⟨hjoin, hcalls⟩
  · rw [hcalls] at hfuture
    refine hs.newRaw _ rfl rfl hfuture (fun rid hrid => ?_) (by simp) (by simp)
    simp [Ne.symm hrid]
  · rw [hcalls] at hfuture
    refine hs.newRaw _ rfl rfl hfuture (fun rid hrid => ?_) ?_ fun w hw => ?_
    · simp [List.count_replicate, Ne.symm hrid]
    · simp [List.count_replicate]
    · cases join with
      | single => exact absurd rfl hjoin
      | _ =>
        cases hw
        simpa [List.count_replicate] using hfits

theorem RawOk.step {s s' : System} {a : SystemStep} (hs : RawOk s) (hone : OnePlace s)
    (hacc : Accounts s) (hfits : SplitsFit s a) (h : Step s a s') : RawOk s' := by
  cases h with
  | respond hidle hbody =>
    refine hs.newRaw [.setRaw s.raws.length] rfl rfl (fun x => ?_) (fun rid hrid => ?_) (by simp)
      (by simp)
    · simp only [future, List.count_append, Nat.add_assoc]
    · simp [Ne.symm hrid]
  | split hidle hbody => exact hs.split hone hbody (hfits _ _ hbody)
  | noHost hk | checkQuit hk | gotErr hk | sendRefused hk hcl hstep hquit =>
    exact hs.congr rfl rfl (count_future_setResponse (hone.open_of_job hk (by simp)))
  | answer ha hcl hstep hsettled =>
    exact hs.congr rfl rfl
      (count_future_setResponse (hone.open_of_client hacc ha hcl hstep hsettled))
  | refresh | ask | dialOk =>
    exact hs.makeSimple hone rfl rfl rfl rfl rfl
  | setRaw hcall => exact hs.setRaw hcall rfl rfl rfl rfl rfl
  | childDone hcall hwait => exact hs.childDone hcall hwait rfl rfl rfl rfl rfl
  | _ => exact hs.congr rfl rfl fun _ => rfl

/-! ## Runs -/

theorem onePlace_of_run {as : List SystemStep} {s : System}
    (hrun : runFrom step newSystem as = some s) : Accounts s ∧ OnePlace s := by
  have hstep : ∀ (s : System) a s', Accounts s ∧ OnePlace s → step s a = some s' →
      Accounts s' ∧ OnePlace s' := by
    rintro s a s' ⟨hacc, hone⟩ h
    exact ⟨hacc.step (step_cases h), hone.step hacc (step_cases h)⟩
  exact invariant_of_run hstep ⟨accounts_newSystem, onePlace_newSystem⟩ hrun

theorem rawOk_of_run {as : List SystemStep} {s : System}
    (hrun : runFrom step newSystem as = some s)
    (hmeets : RunMeets step SplitsFit newSystem as) : RawOk s := by
  have hstep : ∀ (s : System) a s', (Accounts s ∧ OnePlace s) ∧ RawOk s → SplitsFit s a →
      step s a = some s' → (Accounts s' ∧ OnePlace s') ∧ RawOk s' := by
    rintro s a s' ⟨⟨hacc, hone⟩, hraw⟩ hfits h
    exact ⟨⟨hacc.step (step_cases h), hone.step hacc (step_cases h)⟩,
      hraw.step hone hacc hfits (step_cases h)⟩
  exact (invariant_of_runMeets hstep ⟨⟨accounts_newSystem, onePlace_newSystem⟩, rawOk_newSystem⟩
    hmeets hrun).2

/-- **Responses are set once**: in every run `SetResponse` is called at most once on every simple
    request; and when every request of the run is split into at most `2 ^ 32` children, it is
    called at most once on every raw request. -/
theorem setResponse_once {as : List SystemStep} {s : System}
    (hrun : runFrom step newSystem as = some s) :
    s.simpleSet.Nodup ∧ (RunMeets step SplitsFit newSystem as → s.rawSet.Nodup) := by
  refine ⟨(onePlace_of_run hrun).2.nodup .answered, fun hmeets => ?_⟩
  rw [List.nodup_iff_count_le_one]
  intro rid
  have honce := (rawOk_of_run hrun hmeets).once rid
  omega

/-! ## A request with too many children -/

/-- An inline `MSET` with `n` pairs. -/
def wideMset (n : Nat) : RespValue :=
  .array (some ((bytesOf "mset" :: List.replicate (2 * n) (bytesOf "k")).map
    fun w => .bulkString (some w)))

/-- The children of `wideMset`. -/
def wideChild : Route × SimpleRequest :=
  child (.bulkString (some (bytesOf "set"))) (.bulkString (some (bytesOf "k")))
    [.bulkString (some (bytesOf "k"))]

theorem inlineWords_replicate {w : Bytes} (hw : w ≠ []) (m : Nat) :
    inlineWords w (List.replicate m (bytesOf " k")).flatten =
      w :: List.replicate m (bytesOf "k") := by
  have hspace : bytesOf " k" = [32, 107] := by decide
  have hk : bytesOf "k" = [107] := by decide
  rw [hspace, hk]
  induction m generalizing w with
  | zero => simp [inlineWords, hw]
  | succ m ih =>
    have hstep : inlineWords w (32 :: 107 :: (List.replicate m [32, 107]).flatten) =
        w :: inlineWords [107] (List.replicate m [32, 107]).flatten := by
      simp [inlineWords, hw]
    rw [List.replicate_succ, List.flatten_cons, List.cons_append, List.cons_append,
      List.nil_append, hstep, ih (by simp), List.replicate_succ]

/-- A session can read an inline command with any number of words. -/
theorem exists_decoder_words {c : UInt8} {w : Bytes} (hc : RespType.ofByte c = none)
    (hLF : LF ∉ c :: w)
    (hword : ∀ rest, inlineWords [] (c :: (w ++ rest)) = inlineWords (c :: w) rest) (m : Nat) :
    ∃ d d' : Decoder, d.decode = (.ok (.array (some (((c :: w) ::
      List.replicate m (bytesOf "k")).map fun w => .bulkString (some w)))), d') := by
  have hLF' : LF ∉ c :: (w ++ (List.replicate m (bytesOf " k")).flatten) := by
    have hk : LF ∉ bytesOf " k" := by decide
    rw [← List.cons_append, List.mem_append, not_or]
    refine ⟨hLF, fun hmem => ?_⟩
    obtain ⟨v, hv, hLF⟩ := List.mem_flatten.mp hmem
    rw [List.eq_of_mem_replicate hv] at hLF
    exact hk hLF
  have hwords : inlineWords [] (c :: (w ++ (List.replicate m (bytesOf " k")).flatten)) =
      (c :: w) :: List.replicate m (bytesOf "k") := by
    rw [hword, inlineWords_replicate (by simp)]
  obtain ⟨d, d', hd⟩ := exists_decoder_inline hc hLF' (by simp [hwords])
  rw [hwords] at hd
  exact ⟨d, d', hd⟩

theorem exists_decoder_wideMset (n : Nat) :
    ∃ d d' : Decoder, d.decode = (.ok (wideMset n), d') := by
  have hmset : bytesOf "mset" = 109 :: bytesOf "set" := by decide
  rw [wideMset, hmset]
  exact exists_decoder_words (by decide) (by decide) (fun _ => rfl) (2 * n)

theorem msetChildren_replicate (n : Nat) :
    msetChildren (List.replicate (2 * n) (.bulkString (some (bytesOf "k")))) =
      List.replicate n wideChild := by
  induction n with
  | zero => rfl
  | succ n ih =>
    rw [Nat.mul_succ, List.replicate_succ, List.replicate_succ, msetChildren, ih,
      List.replicate_succ]
    rfl

theorem handleRequest_wideMset (env : Surroundings) {n : Nat} (hn : 0 < n) :
    handleRequest env (wideMset n) = .split .mset (List.replicate n wideChild) := by
  have hfind : findHandler (bytesOf "mset") = some .mset := by decide +kernel
  have hvalid : isValid (wideMset n) = true := by
    simp [wideMset, isValid, RespValue.isBulkString]
  have hword : word (wideMset n) 0 = bytesOf "mset" := rfl
  have hlen : (wideMset n).elems.length = 2 * n + 1 := by simp [wideMset, RespValue.elems]
  have htail : (wideMset n).elems.tail =
      List.replicate (2 * n) (.bulkString (some (bytesOf "k"))) := by
    simp [wideMset, RespValue.elems]
  have hodd : ¬((wideMset n).elems.length = 1 ∨ (wideMset n).elems.length % 2 ≠ 1) := by
    rw [hlen]
    omega
  rw [handleRequest, hvalid, hword, hfind]
  simp only [Bool.not_true, Bool.false_eq_true, if_false]
  rw [Handler.handle, if_neg hodd, htail, msetChildren_replicate]

/-- How often the counter of a request with `n` children is zero behind the first `j` of them. -/
def zeros (n : Nat) : Nat → Nat
  | 0 => 0
  | j + 1 => zeros n j + if Int32.ofNat (n - (j + 1)) = 0 then 1 else 0

theorem zeros_le (n : Nat) {i j : Nat} (hij : i ≤ j) : zeros n i ≤ zeros n j := by
  induction hij with
  | refl => exact le_rfl
  | step _ ih => exact ih.trans (Nat.le_add_right _ _)

/-- `2 ^ 32 + 1` children take the counter to zero twice. -/
theorem two_le_zeros : 2 ≤ zeros (2 ^ 32 + 1) (2 ^ 32 + 1) := by
  have hfirst : 1 ≤ zeros (2 ^ 32 + 1) (2 ^ 32) := by
    refine le_trans ?_ (zeros_le (2 ^ 32 + 1) (i := 1) (by simp))
    simp [zeros]
  have hlast : Int32.ofNat (2 ^ 32 + 1 - (2 ^ 32 + 1)) = 0 := by simp
  rw [zeros, if_pos hlast]
  omega

/-- The proxy behind the first `j` children of `wideMset`, none of which finds a host. -/
def wideState (n j : Nat) : System :=
  { newSystem.setJobs (.session 0) (jobs j (List.replicate (n - j) wideChild)) with
    simples := List.replicate n [.childDone 0]
    raws := [some (Int32.ofNat (n - j))]
    calls := List.replicate (zeros n j) (.setRaw 0)
    simpleSet := List.range j }

theorem step_wideMset (env : Surroundings) {n : Nat} (hn : 0 < n) :
    newSystem.step (.request 0 env (wideMset n)) = some (wideState n 0) := by
  have hidle : newSystem.callers (.session 0) = [] := rfl
  have hcalls : wideChild.2.calls 0 = [.childDone 0] := rfl
  simp only [step, hidle, handleRequest_wideMset env hn]
  simp [System.split, wideState, newSystem, hcalls, zeros, System.setJobs]

/-- The next child of `wideMset` finds no host, and its hook counts it. -/
theorem run_wideState {n j : Nat} (hj : j < n) :
    runFrom step (wideState n j) [.choose (.session 0) none, .hook (.childDone 0)] =
      some (wideState n (j + 1)) := by
  obtain ⟨m, hm⟩ : ∃ m, n - j = m + 1 := ⟨n - j - 1, by omega⟩
  have hm' : n - (j + 1) = m := by omega
  have hjobs : (wideState n j).callers (.session 0) =
      ⟨⟨j, .plain⟩, .choose (bytesOf "k")⟩ :: jobs (j + 1) (List.replicate m wideChild) := by
    simp only [wideState, hm, List.replicate_succ, jobs, setJobs_callers, Function.update_self]
    rfl
  have hcalls : (wideState n j).calls ++ (wideState n j).simples.getD j [] =
      List.replicate (zeros n j) (.setRaw 0) ++ [.childDone 0] := by
    simp [wideState, hj]
  have herase : (List.replicate (zeros n j) (HookCall.setRaw 0) ++ [HookCall.childDone 0]).erase
      (.childDone 0) = List.replicate (zeros n j) (.setRaw 0) := by
    rw [List.erase_append_right _ (by simp [List.mem_replicate])]
    simp
  -- no host: the response is set at once, which runs the hook
  have hchoose : (wideState n j).step (.choose (.session 0) none) =
      some (((wideState n j).setJobs (.session 0)
        (jobs (j + 1) (List.replicate m wideChild))).setResponse j) := by
    simp only [step, hjobs]
  refine runFrom_cons_eq_some.mpr ⟨_, hchoose, runFrom_cons_eq_some.mpr ⟨_, ?_, rfl⟩⟩
  simp only [step, setResponse_calls, setJobs_calls, setJobs_simples, hcalls]
  rw [if_pos (by simp), herase]
  simp only [runHook, setResponse_raws, setJobs_raws]
  simp [wideState, hm, hm', zeros, List.range_succ, setJobs, setResponse]
  split
  · rw [List.replicate_succ']
  · simp

theorem reachable_wideState {n j : Nat} (hj : j ≤ n) :
    Reachable step (wideState n 0) (wideState n j) := by
  induction j with
  | zero => exact ⟨[], rfl⟩
  | succ j ih => exact (ih (by omega)).runFrom (run_wideState hj)

/-- Two hooks set the response of the same raw request. -/
theorem run_setRaw_twice {s : System} {k rid : Nat}
    (hcalls : s.calls = List.replicate (k + 2) (.setRaw rid)) :
    runFrom step s [.hook (.setRaw rid), .hook (.setRaw rid)] =
      some { s with
        calls := List.replicate k (.setRaw rid), rawSet := s.rawSet ++ [rid] ++ [rid] } := by
  simp [runFrom, step, runHook, hcalls, List.replicate_succ]

/-- When the counter is zero twice, the raw request is answered twice. -/
theorem not_nodup_of_zeros {n : Nat} (hn : 2 ≤ zeros n n) :
    ∃ t, Reachable step (wideState n 0) t ∧ ¬ t.rawSet.Nodup := by
  obtain ⟨k, hk⟩ := Nat.exists_eq_add_of_le' hn
  have hcalls : (wideState n n).calls = List.replicate (k + 2) (.setRaw 0) := by
    rw [← hk]
    rfl
  refine ⟨_, (reachable_wideState le_rfl).runFrom (run_setRaw_twice hcalls), ?_⟩
  simp [wideState, newSystem]

/-- A request with `2 ^ 32 + 1` children, which a session can read, is answered twice. -/
theorem not_nodup_rawSet_wideMset :
    (∃ d d' : Decoder, d.decode = (.ok (wideMset (2 ^ 32 + 1)), d')) ∧
      ∃ s t, newSystem.step (.request 0 noSurroundings (wideMset (2 ^ 32 + 1))) = some s ∧
        Reachable step s t ∧ ¬ t.rawSet.Nodup := by
  obtain ⟨t, hreach, htwice⟩ := not_nodup_of_zeros two_le_zeros
  exact ⟨exists_decoder_wideMset _, _, t, step_wideMset _ (by omega), hreach, htwice⟩

/-- A request with two children, none of which finds a host. -/
def pairRun : List SystemStep :=
  [.request 0 noSurroundings (wideMset 2), .choose (.session 0) none, .choose (.session 0) none,
    .hook (.childDone 0), .hook (.childDone 0), .hook (.setRaw 0)]

theorem pairRun_isSome : (runFrom step newSystem pairRun).isSome := by
  decide +kernel

theorem pairRun_splitsFit : RunMeets step SplitsFit newSystem pairRun := by
  refine ⟨fun join children h => ?_, fun _ _ => ⟨trivial, fun _ _ => ⟨trivial, fun _ _ =>
    ⟨trivial, fun _ _ => ⟨trivial, fun _ _ => ⟨trivial, fun _ _ => trivial⟩⟩⟩⟩⟩⟩
  rw [handleRequest_wideMset _ (by omega)] at h
  cases h
  simp

/-- `setResponse_once` at `pairRun`. -/
theorem setResponse_once_pairRun :
    ((runFrom step newSystem pairRun).get pairRun_isSome).simpleSet.Nodup ∧
      ((runFrom step newSystem pairRun).get pairRun_isSome).rawSet.Nodup :=
  (setResponse_once (Option.some_get pairRun_isSome).symm).imp_right
    fun honce => honce pairRun_splitsFit

end System

end Samaritan.Redis
