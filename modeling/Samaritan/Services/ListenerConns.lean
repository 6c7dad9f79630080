import Samaritan.Services.Listener

/-!
# Accounting of Connections

`addConn` and `removeConn` keep the counters of a listener: `CxTotal` and `CxActive` go up when a
connection is admitted, `CxDestroyTotal` goes up and `CxActive` down when its handler is finished.
Both look at `conns` first, which `Stop` replaces by nil while handlers are still running. The
sum of the counters is right all the same, but an active connection whose handler finishes after
that stays active for good.
-/

namespace Samaritan.Services

open Samaritan.Lib

/-- The number of elements with a property after one element is replaced. -/
theorem countP_set_add {α : Type*} {p : α → Bool} {xs : List α} {k : Nat} {x : α}
    (h : xs[k]? = some x) (y : α) :
    (xs.set k y).countP p + (if p x then 1 else 0) = xs.countP p + if p y then 1 else 0 := by
  obtain ⟨hk, rfl⟩ := List.getElem?_eq_some_iff.mp h
  rw [List.countP_set hk]
  have hpos : p xs[k] = true → 0 < xs.countP p := fun hp =>
    List.countP_pos_iff.mpr ⟨xs[k], List.getElem_mem hk, hp⟩
  split
  · rename_i hp
    have := hpos hp
    omega
  · omega

namespace Listener

/-- The number of admitted connections whose handler is not finished. -/
def live (l : Listener) : Nat := l.handlers.countP fun pc => pc = .admitted

/-- The counters say what they are for. -/
structure Balanced (l : Listener) : Prop where
  total : (l.cxTotal : Int) = l.cxActive + l.cxDestroyTotal
  active : l.cxActive = l.live
  returned : l.pc = .returned → l.cxActive = 0
  limit : 0 < l.limit → l.cxActive ≤ l.limit.toNat

/-- A handler that is finished finds the connections where `addConn` put them. -/
def RemovesRegistered (l : Listener) : ListenerStep → Prop
  | .removeConn _ => l.conns ≠ none
  | _ => True

instance (l : Listener) (a : ListenerStep) : Decidable (RemovesRegistered l a) :=
  match a with
  | .removeConn _ => inferInstanceAs (Decidable (_ ≠ _))
  | .select | .listenOk | .listenErr | .retryTimer | .retryClosed | .publish | .accept
  | .acceptTemporary | .acceptErr | .delayTimer | .delayQuit | .serveDone | .addConn _
  | .connDone _ | .drain | .drainTest | .stop | .stopTake | .stopTest | .stopClose
  | .stopDone => isTrue trivial

/-! ## The registered connections -/

/-- The registered connections are the admitted ones whose handler is not finished. -/
structure Registers (handlers : List HandlerPc) (conns : List Nat) : Prop where
  nodup : conns.Nodup
  mem_iff : ∀ k, k ∈ conns ↔ handlers[k]? = some .admitted
  length : conns.length = handlers.countP fun pc => pc = .admitted

/-- What holds in every run. -/
structure Counted (l : Listener) : Prop where
  total : (l.cxTotal : Int) = l.cxActive + l.cxDestroyTotal
  connsWg : l.connsWg = l.handlers.countP fun pc => pc ≠ .finished
  /-- nothing is accepted before the socket is published -/
  unbound : l.Binds → l.handlers = []
  returned : l.pc = .returned → l.connsWg = 0
  limit : 0 < l.limit → l.live ≤ l.limit.toNat
  conns : ∀ conns, l.conns = some conns → Registers l.handlers conns

variable {l l' : Listener} {a : ListenerStep} {k : Nat} {p q : HandlerPc}

theorem counted_newListener (limit : UInt32) : Counted (newListener limit) where
  total := rfl
  connsWg := rfl
  unbound := fun _ => rfl
  returned := fun _ => rfl
  limit := fun _ => Nat.zero_le _
  conns := by
    intro conns h
    cases h
    exact ⟨List.nodup_nil, fun k => by simp [newListener], rfl⟩

theorem live_setHandler (h : l.handlers[k]? = some p) :
    (l.setHandler k q).live + (if p = .admitted then 1 else 0) =
      l.live + if q = .admitted then 1 else 0 := by
  have hcount := countP_set_add (p := fun pc => decide (pc = HandlerPc.admitted)) h q
  simp only [decide_eq_true_eq] at hcount
  exact hcount

theorem unfinished_setHandler (h : l.handlers[k]? = some p) :
    ((l.setHandler k q).handlers.countP fun pc => pc ≠ .finished) +
        (if p ≠ .finished then 1 else 0) =
      (l.handlers.countP fun pc => pc ≠ .finished) + if q ≠ .finished then 1 else 0 := by
  have hcount := countP_set_add (p := fun pc => decide (pc ≠ HandlerPc.finished)) h q
  simp only [decide_eq_true_eq] at hcount
  exact hcount

/-- When all goroutines are finished, no connection is live. -/
theorem Counted.live_eq_zero (hl : Counted l) (hpc : l.pc = .returned) : l.live = 0 := by
  have hzero := hl.connsWg.symm.trans (hl.returned hpc)
  rw [List.countP_eq_zero] at hzero
  unfold live
  rw [List.countP_eq_zero]
  intro pc hmem hadmitted
  have hfinished := hzero pc hmem
  simp only [decide_eq_true_eq] at hadmitted hfinished
  exact hfinished (by rw [hadmitted]; decide)

/-- The counters are right as soon as `CxActive` is. -/
theorem Counted.balanced_iff (hl : Counted l) : Balanced l ↔ l.cxActive = l.live := by
  constructor
  · exact fun h => h.active
  · intro hactive
    refine ⟨hl.total, hactive, fun hpc => ?_, fun hlimit => ?_⟩
    · rw [hactive, hl.live_eq_zero hpc]
      rfl
    · rw [hactive]
      exact Int.ofNat_le.mpr (hl.limit hlimit)

/-! ## One step -/

/-- Which goroutines are admitted when one has moved on. -/
theorem admitted_setHandler_iff (h : l.handlers[k]? = some p) {j : Nat} :
    (l.setHandler k q).handlers[j]? = some .admitted ↔
      if j = k then q = .admitted else l.handlers[j]? = some .admitted := by
  obtain ⟨hk, -⟩ := List.getElem?_eq_some_iff.mp h
  simp only [Listener.setHandler, List.getElem?_set, hk, if_true]
  by_cases hkj : k = j
  · subst hkj
    simp
  · rw [if_neg hkj, if_neg (Ne.symm hkj)]

/-- A goroutine moves on outside of the admitted part. -/
theorem Registers.setHandler {conns : List Nat} (hconns : Registers l.handlers conns)
    (h : l.handlers[k]? = some p) (hp : p ≠ .admitted) (hq : q ≠ .admitted) :
    Registers (l.setHandler k q).handlers conns where
  nodup := hconns.nodup
  mem_iff := by
    intro j
    rw [hconns.mem_iff, admitted_setHandler_iff h]
    split
    · rename_i hj
      rw [hj, h]
      simp [hp, hq]
    · rfl
  length := by
    have hlive := live_setHandler (q := q) h
    rw [if_neg hp, if_neg hq] at hlive
    rw [hconns.length]
    show l.live = (l.setHandler k q).live
    omega

theorem Registers.cons {conns : List Nat} (hconns : Registers l.handlers conns)
    (h : l.handlers[k]? = some .accepted) :
    Registers (l.setHandler k .admitted).handlers (k :: conns) where
  nodup := by
    refine List.nodup_cons.mpr ⟨fun hmem => ?_, hconns.nodup⟩
    have hadmitted := (hconns.mem_iff k).mp hmem
    rw [h] at hadmitted
    cases hadmitted
  mem_iff := by
    intro j
    rw [List.mem_cons, hconns.mem_iff, admitted_setHandler_iff h]
    split
    · rename_i hj
      simp [hj]
    · rename_i hj
      simp [hj]
  length := by
    have hlive := live_setHandler (q := .admitted) h
    rw [if_neg (by decide), if_pos rfl] at hlive
    rw [List.length_cons, hconns.length]
    show l.live + 1 = (l.setHandler k .admitted).live
    omega

theorem Registers.erase {conns : List Nat} (hconns : Registers l.handlers conns)
    (h : l.handlers[k]? = some .admitted) :
    Registers (l.setHandler k .leaving).handlers (conns.erase k) where
  nodup := hconns.nodup.erase k
  mem_iff := by
    intro j
    rw [hconns.nodup.mem_erase_iff, hconns.mem_iff, admitted_setHandler_iff h]
    split
    · rename_i hj
      simp [hj]
    · rename_i hj
      simp [hj]
  length := by
    have hlive := live_setHandler (q := .leaving) h
    rw [if_pos rfl, if_neg (by decide)] at hlive
    rw [List.length_erase_of_mem ((hconns.mem_iff k).mpr h), hconns.length]
    show l.live - 1 = (l.setHandler k .leaving).live
    omega

/-- A connection is admitted below the limit only. -/
theorem Counted.lt_limit (hl : Counted l) {conns : List Nat} (hconns : Registers l.handlers conns)
    (hlimit : l.connsLimit conns.length = false) (hpos : 0 < l.limit) :
    l.live < l.limit.toNat := by
  unfold connsLimit at hlimit
  split at hlimit
  · rename_i hcase
    rcases hcase with hzero | hlt
    · rw [hzero] at hpos
      exact absurd hpos (by decide)
    · rw [UInt32.lt_iff_toNat_lt, UInt32.toNat_ofNat', hconns.length] at hlt
      have hle : l.live ≤ l.limit.toNat := hl.limit hpos
      change l.live % 2 ^ 32 < l.limit.toNat at hlt
      have hsize := l.limit.toNat_lt
      rwa [Nat.mod_eq_of_lt (by omega)] at hlt
  · cases hlimit

theorem Counted.not_binds (hl : Counted l) (h : l.handlers[k]? = some p) : ¬ l.Binds := by
  intro hbinds
  rw [hl.unbound hbinds] at h
  cases h

/-- A goroutine that goes on is still waited for. -/
theorem Counted.connsWg_setHandler (hl : Counted l) (h : l.handlers[k]? = some p)
    (hp : p ≠ .finished) (hq : q ≠ .finished) :
    l.connsWg = (l.setHandler k q).handlers.countP fun pc => pc ≠ .finished := by
  have hcount := unfinished_setHandler (q := q) h
  rw [if_pos hp, if_pos hq] at hcount
  have := hl.connsWg
  omega

theorem Counted.addConn (hl : Counted l) (h : l.handlers[k]? = some .accepted) :
    Counted (l.addConn k) := by
  have hleave := live_setHandler (q := .leaving) h
  rw [if_neg (by decide), if_neg (by decide)] at hleave
  have hadmit := live_setHandler (q := .admitted) h
  rw [if_neg (by decide), if_pos rfl] at hadmit
  have hwg := fun q => hl.connsWg_setHandler (q := q) h (by decide)
  have hnot := hl.not_binds h
  unfold Listener.addConn
  split
  -- `Stop` has taken the map
  · rename_i hnil
    refine ⟨hl.total, hwg _ (by decide), fun hb => absurd hb hnot, hl.returned, fun hpos => ?_, ?_⟩
    · have := hl.limit hpos
      show (l.setHandler k .leaving).live ≤ l.limit.toNat
      omega
    · intro conns hconns
      rw [show l.conns = some conns from hconns] at hnil
      cases hnil
  · rename_i conns hconns
    have hreg := hl.conns conns hconns
    split
    · refine ⟨hl.total, hwg _ (by decide), fun hb => absurd hb hnot, hl.returned,
        fun hpos => ?_, fun cs hcs => ?_⟩
      · have := hl.limit hpos
        show (l.setHandler k .leaving).live ≤ l.limit.toNat
        omega
      · obtain rfl : conns = cs := Option.some.inj (hconns.symm.trans hcs)
        exact hreg.setHandler h (by decide) (by decide)
    -- below the limit, so the new connection still fits
    · rename_i hlimit
      refine ⟨?_, hwg _ (by decide), fun hb => absurd hb hnot, hl.returned,
        fun hpos => ?_, fun cs hcs => ?_⟩
      · have := hl.total
        show ((l.cxTotal + 1 : Nat) : Int) = l.cxActive + 1 + l.cxDestroyTotal
        omega
      · have := hl.lt_limit hreg (Bool.not_eq_true _ ▸ hlimit) hpos
        show (l.setHandler k .admitted).live ≤ l.limit.toNat
        omega
      · cases hcs
        exact hreg.cons h

theorem Counted.removeConn (hl : Counted l) (h : l.handlers[k]? = some .admitted) :
    Counted (l.removeConn k) := by
  have hlive := live_setHandler (q := .leaving) h
  -- a handler removes the connection it has added
  rw [if_pos rfl, if_neg (by decide)] at hlive
  have hwg := hl.connsWg_setHandler (q := .leaving) h (by decide) (by decide)
  have hnot := hl.not_binds h
  have hlimit : 0 < l.limit → (l.setHandler k .leaving).live ≤ l.limit.toNat := by
    intro hpos
    have := hl.limit hpos
    omega
  unfold Listener.removeConn
  split
  · rename_i hnil
    refine ⟨hl.total, hwg, fun hb => absurd hb hnot, hl.returned, hlimit, fun conns hconns => ?_⟩
    rw [show l.conns = some conns from hconns] at hnil
    cases hnil
  · rename_i conns hconns
    have hreg := hl.conns conns hconns
    rw [if_pos ((hreg.mem_iff k).mpr h)]
    refine ⟨?_, hwg, fun hb => absurd hb hnot, hl.returned, hlimit, fun cs hcs => ?_⟩
    · have := hl.total
      show (l.cxTotal : Int) = l.cxActive - 1 + ((l.cxDestroyTotal + 1 : Nat) : Int)
      omega
    · cases hcs
      exact hreg.erase h

theorem Counted.connDone (hl : Counted l) (h : l.handlers[k]? = some .leaving) :
    Counted { l.setHandler k .finished with connsWg := l.connsWg - 1 } := by
  have hlive := live_setHandler (q := .finished) h
  rw [if_neg (by decide), if_neg (by decide)] at hlive
  have hcount := unfinished_setHandler (q := .finished) h
  rw [if_pos (by decide), if_neg (by decide)] at hcount
  have hwg := hl.connsWg
  refine ⟨hl.total, ?_, fun hb => absurd hb (hl.not_binds h), fun hpc => ?_, fun hpos => ?_,
    fun conns hconns => ?_⟩
  · show l.connsWg - 1 = (l.setHandler k .finished).handlers.countP fun pc => pc ≠ .finished
    omega
  · show l.connsWg - 1 = 0
    -- `Serve` returns only when no handler is left
    rw [hl.returned hpc]
  · have := hl.limit hpos
    show (l.setHandler k .finished).live ≤ l.limit.toNat
    omega
  · exact (hl.conns conns hconns).setHandler h (by decide) (by decide)

theorem Counted.accept (hl : Counted l) (hpc : l.pc = .accepting) :
    Counted { l with handlers := l.handlers ++ [.accepted], connsWg := l.connsWg + 1 } := by
  have hwg := hl.connsWg
  have hlive : (l.handlers ++ [HandlerPc.accepted]).countP (fun pc => pc = .admitted) = l.live := by
    simp [live, List.countP_append]
  refine ⟨hl.total, ?_, ?_, ?_, fun hpos => ?_, fun conns hconns => ?_⟩
  · show l.connsWg + 1 = (l.handlers ++ [HandlerPc.accepted]).countP fun pc => pc ≠ .finished
    rw [List.countP_append, hwg]
    rfl
  · rintro (h | h | h | h) <;> cases hpc.symm.trans h
  · intro h
    cases hpc.symm.trans h
  · show (l.handlers ++ [HandlerPc.accepted]).countP (fun pc => pc = .admitted) ≤ l.limit.toNat
    rw [hlive]
    exact hl.limit hpos
  · have hreg := hl.conns conns hconns
    refine ⟨hreg.nodup, fun j => ?_, hreg.length.trans hlive.symm⟩
    -- the new handler is not registered yet
    rw [hreg.mem_iff]
    show _ ↔ (l.handlers ++ [HandlerPc.accepted])[j]? = some .admitted
    rw [List.getElem?_append]
    split
    · rfl
    · rename_i hj
      have hnone : l.handlers[j]? = none := List.getElem?_eq_none (Nat.le_of_not_lt hj)
      rw [hnone]
      cases j - l.handlers.length <;> simp

/-- Before the socket is published, no goroutine is waited for. -/
theorem Counted.connsWg_of_binds (hl : Counted l) (h : l.Binds) : l.connsWg = 0 := by
  rw [hl.connsWg, hl.unbound h]
  rfl

theorem Counted.step (hl : Counted l) (h : Step l a l') : Counted l' := by
  cases h with
  | addConn k hk => exact hl.addConn hk
  | removeConn k hk => exact hl.removeConn hk
  | connDone k hk => exact hl.connDone hk
  | accept hpc => exact hl.accept hpc
  | drain | drainTest | stop | stopTest | stopClose | stopDone =>
    exact ⟨hl.total, hl.connsWg, hl.unbound, hl.returned, hl.limit, hl.conns⟩
  | stopTake =>
    refine ⟨hl.total, hl.connsWg, hl.unbound, hl.returned, hl.limit, fun conns h => ?_⟩
    cases h
  | selectClosed hpc | retryClosed hpc =>
    have hwg := hl.connsWg_of_binds (by simp [Binds, hpc])
    refine ⟨hl.total, hl.connsWg, ?_, fun _ => hwg, hl.limit, hl.conns⟩
    rintro (h | h | h | h) <;> cases h
  | serveDone hpc hwg =>
    refine ⟨hl.total, hl.connsWg, ?_, fun _ => hwg, hl.limit, hl.conns⟩
    rintro (h | h | h | h) <;> cases h
  | select hpc | listenOk hpc | listenErr hpc | retryTimer hpc =>
    have hnone := hl.unbound (by simp [Binds, hpc])
    refine ⟨hl.total, hl.connsWg, fun _ => hnone, ?_, hl.limit, hl.conns⟩
    intro h
    cases h
  | publish | acceptTemporary | acceptErr | delayTimer | delayQuit =>
    refine ⟨hl.total, hl.connsWg, ?_, ?_, hl.limit, hl.conns⟩
    · rintro (h | h | h | h) <;> cases h
    · intro h
      cases h

/-- `CxActive` follows the number of live connections exactly through the steps that find their
    connection registered. -/
theorem Counted.active_iff (hl : Counted l) (hactive : l.cxActive = l.live) (h : Step l a l') :
    l'.cxActive = l'.live ↔ RemovesRegistered l a := by
  cases h with
  | addConn k hk =>
    refine iff_of_true ?_ trivial
    have hleave := live_setHandler (q := .leaving) hk
    rw [if_neg (by decide), if_neg (by decide)] at hleave
    have hadmit := live_setHandler (q := .admitted) hk
    rw [if_neg (by decide), if_pos rfl] at hadmit
    unfold Listener.addConn
    split
    · show l.cxActive = (l.setHandler k .leaving).live
      omega
    · split
      · show l.cxActive = (l.setHandler k .leaving).live
        omega
      · show l.cxActive + 1 = (l.setHandler k .admitted).live
        omega
  | removeConn k hk =>
    have hlive := live_setHandler (q := .leaving) hk
    rw [if_pos rfl, if_neg (by decide)] at hlive
    unfold Listener.removeConn RemovesRegistered
    split
    -- the map is gone: the connection ends, the gauge stays
    · rename_i hnil
      refine iff_of_false (fun h => ?_) (fun h => h hnil)
      have hsame : l.cxActive = (l.setHandler k .leaving).live := h
      omega
    · rename_i conns hconns
      rw [if_pos (((hl.conns conns hconns).mem_iff k).mpr hk)]
      refine iff_of_true ?_ (by simp [hconns])
      show l.cxActive - 1 = (l.setHandler k .leaving).live
      omega
  | connDone k hk =>
    refine iff_of_true ?_ trivial
    have hlive := live_setHandler (q := .finished) hk
    rw [if_neg (by decide), if_neg (by decide)] at hlive
    show l.cxActive = (l.setHandler k .finished).live
    omega
  | accept =>
    refine iff_of_true ?_ trivial
    rw [show l.cxActive = l.live from hactive]
    simp [live, List.countP_append]
  | _ => exact iff_of_true hactive trivial

theorem counted_of_run {limit : UInt32} {as : List ListenerStep}
    (hrun : runFrom Listener.step (newListener limit) as = some l) : Counted l :=
  invariant_of_run (fun _ _ _ hs h => hs.step (step_cases h)) (counted_newListener limit) hrun

/-- **Balanced counters**: in every state of a run the counters are right, exactly when no handler
    is finished after `Stop` has taken the connections. -/
theorem balanced_iff_removesRegistered {limit : UInt32} {as : List ListenerStep}
    (hrun : runFrom Listener.step (newListener limit) as = some l) :
    (∀ bs t, bs <+: as → runFrom Listener.step (newListener limit) bs = some t → Balanced t) ↔
      RunMeets Listener.step RemovesRegistered (newListener limit) as := by
  refine good_iff_runMeets (fun _ t => Balanced t) ?_ ?_ hrun
  · exact (counted_newListener limit).balanced_iff.mpr rfl
  · intro bs s a t _ hbs hgood hstep
    have hs := counted_of_run hbs
    have h := step_cases hstep
    rw [(hs.step h).balanced_iff]
    exact hs.active_iff hgood.active h

/-- Of two connections one is over the limit; both are finished when the listener is drained. -/
def drainAfterConns : List ListenerStep :=
  [.select, .listenOk, .publish, .accept, .accept, .addConn 0, .addConn 1, .connDone 1,
    .removeConn 0, .connDone 0, .drain, .drainTest, .acceptErr, .serveDone]

theorem balanced_drainAfterConns :
    ∃ l, runFrom Listener.step (newListener 1) drainAfterConns = some l ∧
      RunMeets Listener.step RemovesRegistered (newListener 1) drainAfterConns ∧
      ∀ bs t, bs <+: drainAfterConns → runFrom Listener.step (newListener 1) bs = some t →
        Balanced t := by
  have hsome : (runFrom Listener.step (newListener 1) drainAfterConns).isSome := by decide +kernel
  obtain ⟨l, hrun⟩ := Option.isSome_iff_exists.mp hsome
  have hmeets : RunMeets Listener.step RemovesRegistered (newListener 1) drainAfterConns := by
    decide +kernel
  exact ⟨l, hrun, hmeets, (balanced_iff_removesRegistered hrun).mpr hmeets⟩

/-- The handler of a connection is finished behind `Stop`: everything has returned, and one
    connection is active. -/
theorem not_balanced_stopAfterConn :
    ∃ l, runFrom Listener.step (newListener 1) stopAfterConn = some l ∧
      (l.pc = .returned ∧ l.stopsWaiting = 0 ∧ l.live = 0 ∧ l.cxActive = 1) ∧ ¬ Balanced l := by
  have hrun : ∃ l, runFrom Listener.step (newListener 1) stopAfterConn = some l ∧
      (l.pc = .returned ∧ l.stopsWaiting = 0 ∧ l.live = 0 ∧ l.cxActive = 1) :=
    exists_of_any (by decide +kernel)
  obtain ⟨l, hl, hpc, hwaiting, hlive, hactive⟩ := hrun
  refine ⟨l, hl, ⟨hpc, hwaiting, hlive, hactive⟩, fun hbalanced => ?_⟩
  have hzero := hbalanced.returned hpc
  rw [hactive] at hzero
  cases hzero

end Listener

end Samaritan.Services
