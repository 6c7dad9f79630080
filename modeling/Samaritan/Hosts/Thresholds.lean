import Samaritan.Hosts.HealthCheck
import Samaritan.Lib.Hysteresis

/-!
# Thresholds of the Health Checks

`checkHostAndUpdateStatus` (`proc/internal/hc/monitor.go`) counts the checks of a host that failed
or succeeded in a row, and marks the host when the counter has passed a threshold. The configuration
documents a switch: the host is dead after `fall_threshold` failed checks in a row, and operational
after `rise_threshold` successful ones.

The flag of a host is such a switch, but since the counter has to pass the threshold it asks for one
check more. In any interleaving of the workers with the controller, the stats of a host are those
that its own checks leave.
-/

namespace Samaritan.Hosts

open Samaritan.Lib

/-! ## The checks of one host -/

/-- `checkHostAndUpdateStatus` on the stats of the host, for the result of the check. -/
def checkHostAndUpdateStatus (riseThreshold fallThreshold : UInt32) (stats : Stats) (ok : Bool) :
    Stats :=
  if ok then
    let (counter, stats) := stats.incSuccessfulCount
    -- `setHealthy`
    if riseThreshold.toUInt64 < counter then ⟨true, 0, 0⟩ else stats
  else
    let (counter, stats) := stats.incFailedCount
    -- `setUnhealthy`
    if fallThreshold.toUInt64 < counter then ⟨false, 0, 0⟩ else stats

/-- The stats behind the checks of a history, the latest of which comes first. -/
def checks (riseThreshold fallThreshold : UInt32) (stats : Stats) : List Bool → Stats
  | [] => stats
  | ok :: past =>
    checkHostAndUpdateStatus riseThreshold fallThreshold
      (checks riseThreshold fallThreshold stats past) ok

/-- The documented number of checks in a row for each result. -/
def documented (riseThreshold fallThreshold : UInt32) (ok : Bool) : Nat :=
  if ok then riseThreshold.toNat else fallThreshold.toNat

/-- The counter of the checks that speak against the flag. -/
def Stats.against (stats : Stats) : UInt64 :=
  if stats.isHealthy then stats.failedCount else stats.successfulCount

section Checks

variable {riseThreshold fallThreshold : UInt32} {stats : Stats} {init : Bool} {past : List Bool}

/-- The stats of a host and the history of its checks. -/
structure Counts (riseThreshold fallThreshold : UInt32) (init : Bool) (past : List Bool)
    (stats : Stats) : Prop where
  flag : stats.isHealthy =
    switched (fun ok => documented riseThreshold fallThreshold ok + 1) init past
  against : stats.against.toNat = runLength (!stats.isHealthy) past
  /-- the counter has not passed the threshold -/
  below : stats.against.toNat ≤ documented riseThreshold fallThreshold (!stats.isHealthy)

/-- A check that agrees with the flag clears the counter of the others. -/
theorem checkHostAndUpdateStatus_same (stats : Stats) :
    (checkHostAndUpdateStatus riseThreshold fallThreshold stats stats.isHealthy).isHealthy =
        stats.isHealthy ∧
      (checkHostAndUpdateStatus riseThreshold fallThreshold stats stats.isHealthy).against = 0 := by
  obtain ⟨healthy, failed, successful⟩ := stats
  cases healthy with
  | true =>
    unfold checkHostAndUpdateStatus Stats.incSuccessfulCount
    simp only [if_true]
    split <;> exact ⟨rfl, rfl⟩
  | false =>
    unfold checkHostAndUpdateStatus Stats.incFailedCount
    simp only [Bool.false_eq_true, if_false]
    split <;> exact ⟨rfl, rfl⟩

/-- A counter that has not passed the threshold does not wrap around, and passes it next when it is
    equal to it. -/
theorem threshold_lt_add_one {threshold : UInt32} {counter : UInt64}
    (h : counter.toNat ≤ threshold.toNat) :
    (counter + 1).toNat = counter.toNat + 1 ∧
      (threshold.toUInt64 < counter + 1 ↔ counter.toNat = threshold.toNat) := by
  have hlt := threshold.toNat_lt
  have hadd : (counter + 1).toNat = counter.toNat + 1 := by
    rw [UInt64.toNat_add]
    exact Nat.mod_eq_of_lt (by simp; omega)
  refine ⟨hadd, ?_⟩
  rw [UInt64.lt_iff_toNat_lt, hadd, UInt32.toNat_toUInt64]
  omega

/-- A check that speaks against the flag counts, and turns the flag over when the counter has passed
    the threshold. -/
theorem checkHostAndUpdateStatus_against (stats : Stats)
    (hbelow : stats.against.toNat ≤ documented riseThreshold fallThreshold (!stats.isHealthy)) :
    let next := checkHostAndUpdateStatus riseThreshold fallThreshold stats (!stats.isHealthy)
    (stats.against.toNat = documented riseThreshold fallThreshold (!stats.isHealthy) ∧
        next = ⟨!stats.isHealthy, 0, 0⟩) ∨
      (stats.against.toNat < documented riseThreshold fallThreshold (!stats.isHealthy) ∧
        next.isHealthy = stats.isHealthy ∧ next.against.toNat = stats.against.toNat + 1) := by
  obtain ⟨healthy, failed, successful⟩ := stats
  cases healthy with
  | true =>
    have hle : failed.toNat ≤ fallThreshold.toNat := hbelow
    obtain ⟨hadd, hpasses⟩ := threshold_lt_add_one hle
    -- the counter passes the threshold exactly when it has reached it
    by_cases heq : failed.toNat = fallThreshold.toNat
    · exact .inl ⟨heq, if_pos (hpasses.mpr heq)⟩
    · have hnext : checkHostAndUpdateStatus riseThreshold fallThreshold
          ⟨true, failed, successful⟩ false = ⟨true, failed + 1, 0⟩ :=
        if_neg fun h => heq (hpasses.mp h)
      refine .inr ⟨lt_of_le_of_ne hle heq, ?_⟩
      show Stats.isHealthy (checkHostAndUpdateStatus _ _ _ false) = _ ∧ _
      rw [Bool.not_true, hnext]
      exact ⟨rfl, hadd⟩
  | false =>
    have hle : successful.toNat ≤ riseThreshold.toNat := hbelow
    obtain ⟨hadd, hpasses⟩ := threshold_lt_add_one hle
    by_cases heq : successful.toNat = riseThreshold.toNat
    · exact .inl ⟨heq, if_pos (hpasses.mpr heq)⟩
    · have hnext : checkHostAndUpdateStatus riseThreshold fallThreshold
          ⟨false, failed, successful⟩ true = ⟨false, 0, successful + 1⟩ :=
        if_neg fun h => heq (hpasses.mp h)
      refine .inr ⟨lt_of_le_of_ne hle heq, ?_⟩
      show Stats.isHealthy (checkHostAndUpdateStatus _ _ _ true) = _ ∧ _
      rw [Bool.not_false, hnext]
      exact ⟨rfl, hadd⟩

theorem Counts.check (h : Counts riseThreshold fallThreshold init past stats) (ok : Bool) :
    Counts riseThreshold fallThreshold init (ok :: past)
      (checkHostAndUpdateStatus riseThreshold fallThreshold stats ok) := by
  by_cases hok : ok = stats.isHealthy
  · subst hok
    obtain ⟨hflag, hagainst⟩ :=
      @checkHostAndUpdateStatus_same riseThreshold fallThreshold stats
    refine ⟨?_, ?_, ?_⟩
    · rw [hflag, switched, ← h.flag, if_neg (by simp)]
    · rw [hflag, hagainst, runLength_cons_of_ne (by simp)]
      rfl
    · rw [hagainst]
      exact Nat.zero_le _
  · obtain rfl : ok = !stats.isHealthy := Bool.eq_not.mpr hok
    have hrun : runLength (!stats.isHealthy) ((!stats.isHealthy) :: past) =
        stats.against.toNat + 1 := by rw [runLength_cons_self, h.against]
    rcases checkHostAndUpdateStatus_against stats h.below with ⟨heq, hnext⟩ | ⟨hlt, hflag, hnext⟩
    · -- the counter passes the threshold
      rw [hnext]
      refine ⟨?_, ?_, ?_⟩
      · rw [switched, ← h.flag, if_pos ⟨hok, by rw [hrun, heq]⟩]
      · show UInt64.toNat (Stats.against ⟨!stats.isHealthy, 0, 0⟩) = _
        rw [runLength_cons_of_ne (by simp)]
        simp [Stats.against]
      · simp [Stats.against]
    · refine ⟨?_, ?_, ?_⟩
      · rw [hflag, switched, ← h.flag, if_neg]
        rintro ⟨-, hneed⟩
        omega
      · rw [hflag, hnext, hrun]
      · rw [hflag, hnext]
        omega

theorem counts_checks (riseThreshold fallThreshold : UInt32) (init : Bool) (past : List Bool) :
    Counts riseThreshold fallThreshold init past
      (checks riseThreshold fallThreshold ⟨init, 0, 0⟩ past) := by
  induction past with
  | nil =>
    refine ⟨rfl, ?_, ?_⟩
    · cases init <;> rfl
    · cases init <;> exact Nat.zero_le _
  | cons ok past ih => exact ih.check ok

/-- The flag is a switch that asks for one check more than documented. -/
theorem checks_isHealthy (riseThreshold fallThreshold : UInt32) (init : Bool) (past : List Bool) :
    (checks riseThreshold fallThreshold ⟨init, 0, 0⟩ past).isHealthy =
      switched (fun ok => documented riseThreshold fallThreshold ok + 1) init past :=
  (counts_checks riseThreshold fallThreshold init past).flag

/-- **When a host changes its state**: at every moment of a history the flag is that of the
    documented switch exactly if the history gives it no reason to move. -/
theorem checks_documented_iff (riseThreshold fallThreshold : UInt32) (hrise : 1 ≤ riseThreshold)
    (hfall : 1 ≤ fallThreshold) (init : Bool) (history : List Bool) :
    (∀ past, past <:+ history → (checks riseThreshold fallThreshold ⟨init, 0, 0⟩ past).isHealthy =
        switched (documented riseThreshold fallThreshold) init past) ↔
      ¬List.replicate (documented riseThreshold fallThreshold (!init)) (!init) <:+: history := by
  have hneed : ∀ ok, 0 < documented riseThreshold fallThreshold ok := by
    intro ok
    cases ok with
    | true => exact UInt32.le_iff_toNat_le.mp hrise
    | false => exact UInt32.le_iff_toNat_le.mp hfall
  simp only [checks_isHealthy]
  rw [switched_agree_iff hneed (fun ok => Nat.lt_succ_self _)]
  constructor
  · intro hcalm
    exact hcalm (!init) (by simp)
  · intro h ok hok
    obtain rfl : ok = !init := Bool.eq_not.mpr hok
    exact h

/-- With thresholds of one, a healthy host stays so at its first failed check. -/
theorem checks_late : (checks 1 1 ⟨true, 0, 0⟩ [false]).isHealthy = true ∧
    switched (documented 1 1) true [false] = false ∧
    (checks 1 1 ⟨true, 0, 0⟩ [false, false]).isHealthy = false := by
  decide +kernel

theorem checks_documented_mixed :
    (1 : UInt32) ≤ 3 ∧ ∀ past, past <:+ [false, true, false, false] →
      (checks 3 3 ⟨true, 0, 0⟩ past).isHealthy = switched (documented 3 3) true past :=
  ⟨by decide, (checks_documented_iff 3 3 (by decide) (by decide) true _).mpr (by decide)⟩

end Checks

/-! ## The checks of a host among those of the others -/

namespace Monitor

open HostSet

variable {m m' : Monitor} {h : Host} {s : MonitorStep} {as : List MonitorStep}

/-- The results of the checks of a host, the latest of them first. -/
def historyOf (h : Host) (as : List MonitorStep) : List Bool :=
  (as.filterMap fun
    | .check g ok => if g = h then some ok else none
    | _ => none).reverse

/-- The stats of a host are those that its checks leave, but for a mark that is about to be set. -/
structure Follows (riseThreshold fallThreshold : UInt32) (stats : Stats) (h : Host)
    (past : List Bool) (m : Monitor) : Prop where
  tidy : Tidy m
  rise : m.riseThreshold = riseThreshold
  fall : m.fallThreshold = fallThreshold
  counted : ∀ ok, (h, .counted ok) ∈ m.workers →
    checks riseThreshold fallThreshold stats past = ⟨ok, 0, 0⟩
  settled : (∀ ok, (h, .counted ok) ∉ m.workers) →
    m.hostSet.stats h = checks riseThreshold fallThreshold stats past

section Follows

variable {riseThreshold fallThreshold : UInt32} {stats : Stats} {past : List Bool} {g : Host}
  {ok : Bool}

/-- Steps of other hosts and of the controller. -/
theorem Follows.of_same (hm : Follows riseThreshold fallThreshold stats h past m)
    (htidy : Tidy m') (hrise : m'.riseThreshold = m.riseThreshold)
    (hfall : m'.fallThreshold = m.fallThreshold)
    (hstats : m'.hostSet.stats h = m.hostSet.stats h)
    (hcounted : ∀ ok, (h, .counted ok) ∈ m'.workers ↔ (h, .counted ok) ∈ m.workers) :
    Follows riseThreshold fallThreshold stats h past m' where
  tidy := htidy
  rise := hrise.trans hm.rise
  fall := hfall.trans hm.fall
  counted := fun ok hok => hm.counted ok ((hcounted ok).mp hok)
  settled := fun hnone => hstats.trans (hm.settled fun ok hok => hnone ok ((hcounted ok).mpr hok))

theorem checkHostAndUpdateStatus_eq (hm : Follows riseThreshold fallThreshold stats h past m)
    (stats' : Stats) (ok : Bool) : checkHostAndUpdateStatus riseThreshold fallThreshold stats' ok =
      if m.threshold ok < (count stats' ok).1 then ⟨ok, 0, 0⟩ else (count stats' ok).2 := by
  rw [← hm.rise, ← hm.fall]
  cases ok <;> rfl

/-- The check of the host itself. -/
theorem Follows.check (hm : Follows riseThreshold fallThreshold stats h past m)
    (hs : m.step (.check h ok) = some m') :
    Follows riseThreshold fallThreshold stats h (ok :: past) m' := by
  have htidy := hm.tidy.step (step_cases hs)
  simp only [step] at hs
  split at hs <;> cases hs
  rename_i hworker
  -- the host is with one worker only, whose check is not yet counted
  have hnone : ∀ ok', (h, .counted ok') ∉ m.workers := by
    intro ok' hmem
    have heq := List.inj_on_of_nodup_map hm.tidy.nodup_workers hmem hworker rfl
    cases heq
  have hstats := hm.settled hnone
  have hchecks : checks riseThreshold fallThreshold stats (ok :: past) =
      if m.threshold ok < (count (m.hostSet.stats h) ok).1 then ⟨ok, 0, 0⟩
      else (count (m.hostSet.stats h) ok).2 := by
    rw [checks, ← hstats, checkHostAndUpdateStatus_eq hm]
  refine ⟨htidy, hm.rise, hm.fall, ?_, ?_⟩
  · intro ok' hmem
    simp only at hmem
    split at hmem
    · rename_i hpasses
      rw [hchecks, if_pos hpasses]
      rcases (mem_advance hm.tidy.nodup_workers hworker).mp hmem with ⟨-, hphase⟩ | ⟨-, hne⟩
      · cases hphase
        rfl
      · exact absurd rfl hne
    · exact absurd rfl ((mem_finish hm.tidy.nodup_workers hworker).mp hmem).2
  · intro hsettled
    simp only at hsettled
    split at hsettled
    · refine absurd ?_ (hsettled ok)
      exact (mem_advance hm.tidy.nodup_workers hworker).mpr (.inl ⟨rfl, rfl⟩)
    · rename_i hbelow
      rw [hchecks]
      simp [setStats, hbelow]

/-- The flag of the host is set. -/
theorem Follows.mark {workers : List (Host × Phase)}
    (hm : Follows riseThreshold fallThreshold stats h past m)
    (hworker : (h, .counted ok) ∈ m.workers) (hgone : ∀ ok', (h, .counted ok') ∉ workers)
    (htidy : Tidy { m with hostSet := setStats m.hostSet h ⟨ok, 0, 0⟩, workers := workers }) :
    Follows riseThreshold fallThreshold stats h past
      { m with hostSet := setStats m.hostSet h ⟨ok, 0, 0⟩, workers := workers } where
  tidy := htidy
  rise := hm.rise
  fall := hm.fall
  counted := fun ok' hmem => absurd hmem (hgone ok')
  settled := by
    intro _
    rw [hm.counted ok hworker]
    simp [setStats]

theorem Follows.step (hm : Follows riseThreshold fallThreshold stats h past m)
    (hreset : ∀ rise fall, s ≠ .reset rise fall) (hs : m.step s = some m') :
    Follows riseThreshold fallThreshold stats h (historyOf h [s] ++ past) m' := by
  have htidy := hm.tidy.step (step_cases hs)
  have hnodup := hm.tidy.nodup_workers
  cases step_cases hs with
  | add => exact hm.of_same htidy rfl rfl (by rw [add_stats]) fun _ => Iff.rfl
  | remove => exact hm.of_same htidy rfl rfl (by rw [remove_stats]) fun _ => Iff.rfl
  | replaceAll =>
    exact hm.of_same htidy rfl rfl (by rw [replaceAll, add_stats, removeEach_stats])
      fun _ => Iff.rfl
  | reset => exact absurd rfl (hreset _ _)
  | tick => exact hm.of_same htidy rfl rfl rfl fun _ => Iff.rfl
  | take hhostCh hfree => exact hm.of_same htidy rfl rfl rfl fun ok => by simp
  -- checks of other hosts are not in the history of this one
  | @check g ok workers hworker hworkers =>
    by_cases hg : g = h
    · subst hg
      simpa [historyOf] using hm.check hs
    · have hempty : historyOf h [.check g ok] = [] := by simp [historyOf, hg]
      rw [hempty, List.nil_append]
      refine hm.of_same htidy rfl rfl (by simp [setStats, Ne.symm hg]) fun ok' => ?_
      rcases hworkers with rfl | rfl
      · rw [mem_advance hnodup hworker]
        simp [Ne.symm hg]
      · rw [mem_finish hnodup hworker]
        simp [Ne.symm hg]
  | @swap g ok hworker hflag =>
    by_cases hg : g = h
    · subst hg
      refine hm.mark hworker (fun ok' hmem => ?_) htidy
      rcases (mem_advance hnodup hworker).mp hmem with ⟨-, hphase⟩ | ⟨-, hne⟩
      · cases hphase
      · exact hne rfl
    · refine hm.of_same htidy rfl rfl (by simp [setStats, Ne.symm hg]) fun ok' => ?_
      rw [mem_advance hnodup hworker]
      simp [Ne.symm hg]
  | @skip g ok hworker hflag =>
    by_cases hg : g = h
    · subst hg
      exact hm.mark hworker (fun ok' hmem => ((mem_finish hnodup hworker).mp hmem).2 rfl) htidy
    · refine hm.of_same htidy rfl rfl (by simp [setStats, Ne.symm hg]) fun ok' => ?_
      rw [mem_finish hnodup hworker]
      simp [Ne.symm hg]
  -- the maps change, and the flags stay
  | @update g ok hworker =>
    refine hm.of_same htidy rfl rfl (by rw [updateMaps_same.2]) fun ok' => ?_
    rw [mem_finish hnodup hworker, and_iff_left_iff_imp]
    rintro hmem rfl
    cases List.inj_on_of_nodup_map hnodup hmem hworker rfl

theorem historyOf_cons (h : Host) (s : MonitorStep) (as : List MonitorStep) :
    historyOf h (s :: as) = historyOf h as ++ historyOf h [s] := by
  unfold historyOf
  rw [← List.reverse_append, ← List.filterMap_append, List.singleton_append]

theorem Follows.run (hm : Follows riseThreshold fallThreshold stats h past m)
    (hreset : ∀ rise fall, .reset rise fall ∉ as) (hrun : runFrom Monitor.step m as = some m') :
    Follows riseThreshold fallThreshold stats h (historyOf h as ++ past) m' := by
  induction as generalizing m past with
  | nil =>
    cases hrun
    exact hm
  | cons s as ih =>
    obtain ⟨t, hs, hrest⟩ := runFrom_cons_eq_some.mp hrun
    have hfirst : ∀ rise fall, s ≠ .reset rise fall := by
      rintro rise fall rfl
      exact hreset rise fall (by simp)
    rw [historyOf_cons, List.append_assoc]
    refine ih (hm.step hfirst hs) (fun rise fall hmem => ?_) hrest
    exact hreset rise fall (List.mem_cons_of_mem s hmem)

/-- **The stats of a host in a run**: whatever the controller and the workers of other hosts do,
    they are those that the checks of the host leave, once the flag has been set. -/
theorem stats_of_run (htidy : Tidy m) (hidle : m.workers = [])
    (hreset : ∀ rise fall, .reset rise fall ∉ as) (hrun : runFrom step m as = some m') (h : Host)
    (hsettled : ∀ ok, (h, .counted ok) ∉ m'.workers) :
    m'.hostSet.stats h =
      checks m.riseThreshold m.fallThreshold (m.hostSet.stats h) (historyOf h as) := by
  have hstart : Follows m.riseThreshold m.fallThreshold (m.hostSet.stats h) h [] m :=
    ⟨htidy, rfl, rfl, by simp [hidle], fun _ => rfl⟩
  have hend := hstart.run hreset hrun
  rw [List.append_nil] at hend
  exact hend.settled hsettled

end Follows

end Monitor

end Samaritan.Hosts
