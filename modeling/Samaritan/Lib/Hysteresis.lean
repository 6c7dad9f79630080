import Mathlib.Data.List.Infix
import Mathlib.Data.List.TakeWhile
import Mathlib.Tactic

/-!
# Switching After a Number of Equal Readings

A switch follows a stream of readings, but not at once: it goes over to a reading that differs from
its position when that reading has come `need` times in a row. A history is a list of readings with
the latest one first, so that the earlier moments of a history are its suffixes.

Two switches that ask for different numbers stay together exactly as long as none of them moves.
-/

namespace Samaritan.Lib

variable {α : Type*}

/-- No reading but that of the first position has come as often in a row as is asked for. -/
def Calm (need : α → Nat) (init : α) (history : List α) : Prop :=
  ∀ x ≠ init, ¬List.replicate (need x) x <:+: history

variable {need need' : α → Nat} {init : α}

theorem Calm.suffix {past history : List α} (h : Calm need init history)
    (hpast : past <:+ history) : Calm need init past :=
  fun x hx hruns => h x hx (hruns.trans hpast.isInfix)

theorem Calm.mono {history : List α} (h : Calm need init history)
    (hle : ∀ x, need x ≤ need' x) : Calm need' init history := by
  intro x hx hruns
  have hstart : List.replicate (need x) x <+: List.replicate (need' x) x := by
    refine ⟨List.replicate (need' x - need x) x, ?_⟩
    rw [List.replicate_append_replicate, Nat.add_sub_cancel' (hle x)]
  exact h x hx (hstart.isInfix.trans hruns)

variable [DecidableEq α]

/-- How often the reading has come in a row up to now. -/
def runLength (x : α) (past : List α) : Nat := (past.takeWhile (· = x)).length

/-- The position of the switch. -/
def switched (need : α → Nat) (init : α) : List α → α
  | [] => init
  | x :: past =>
    if x ≠ switched need init past ∧ runLength x (x :: past) = need x then x
    else switched need init past

@[simp] theorem runLength_nil (x : α) : runLength x [] = 0 := rfl

@[simp] theorem runLength_cons_self (x : α) (past : List α) :
    runLength x (x :: past) = runLength x past + 1 := by
  simp [runLength]

theorem runLength_cons_of_ne {x y : α} (h : y ≠ x) (past : List α) :
    runLength x (y :: past) = 0 := by
  simp [runLength, h]

/-- The reading has come `n` times in a row if the history begins with it so many times. -/
theorem le_runLength_iff {n : Nat} {x : α} {past : List α} :
    n ≤ runLength x past ↔ List.replicate n x <+: past := by
  induction past generalizing n with
  | nil => cases n <;> simp [List.replicate_succ]
  | cons y past ih =>
    cases n with
    | zero => simp
    | succ n =>
      rw [List.replicate_succ, List.cons_prefix_cons]
      by_cases hy : y = x
      · subst hy
        rw [runLength_cons_self, ← ih]
        simp
      · rw [runLength_cons_of_ne hy]
        simp [Ne.symm hy]

/-- Nothing moves the switch in a calm history. -/
theorem Calm.switched_eq {history : List α} (h : Calm need init history) :
    switched need init history = init := by
  induction history with
  | nil => rfl
  | cons x past ih =>
    have hpast := ih (h.suffix (List.suffix_cons x past))
    rw [switched, hpast, if_neg]
    rintro ⟨hx, hrun⟩
    have hstart := le_runLength_iff.mp hrun.ge
    exact h x hx hstart.isInfix

/-- A history that is calm up to its latest reading and no longer moves the switch. -/
theorem switched_of_calm_tail {x : α} {past : List α} (hneed : ∀ x, 0 < need x)
    (hpast : Calm need init past) (h : ¬Calm need init (x :: past)) :
    x ≠ init ∧ runLength x (x :: past) = need x ∧ switched need init (x :: past) = x := by
  unfold Calm at h
  push Not at h
  obtain ⟨y, hy, hruns⟩ := h
  -- the new run is at the front of the history, and its reading is the latest one
  have hstart : List.replicate (need y) y <+: x :: past := by
    rcases List.infix_cons_iff.mp hruns with hstart | hold
    · exact hstart
    · exact absurd hold (hpast y hy)
  obtain ⟨n, hn⟩ : ∃ n, need y = n + 1 := ⟨need y - 1, by have := hneed y; omega⟩
  obtain rfl : y = x := by
    rw [hn, List.replicate_succ, List.cons_prefix_cons] at hstart
    exact hstart.1
  have hge : need y ≤ runLength y (y :: past) := le_runLength_iff.mpr hstart
  have hlt : runLength y past < need y := by
    by_contra hle
    exact hpast y hy (le_runLength_iff.mp (not_lt.mp hle)).isInfix
  have hrun : runLength y (y :: past) = need y := by
    rw [runLength_cons_self] at hge ⊢
    omega
  refine ⟨hy, hrun, ?_⟩
  rw [switched, hpast.switched_eq, if_pos ⟨hy, hrun⟩]

/-- **Two switches**, of which one asks for fewer readings, stay together exactly in the histories
    that are calm for it. -/
theorem switched_agree_iff (hneed : ∀ x, 0 < need x) (hlt : ∀ x, need x < need' x)
    (history : List α) :
    (∀ past, past <:+ history → switched need' init past = switched need init past) ↔
      Calm need init history := by
  have hle : ∀ x, need x ≤ need' x := fun x => (hlt x).le
  constructor
  · intro hagree
    induction history with
    | nil =>
      intro x _ hruns
      have hnil := List.infix_nil.mp hruns
      rw [List.replicate_eq_nil_iff] at hnil
      exact absurd hnil (hneed x).ne'
    | cons x past ih =>
      have hpast : Calm need init past :=
        ih fun p hp => hagree p (hp.trans (List.suffix_cons x past))
      by_contra hnot
      -- the latest reading moves the first switch, and the other one asks for more
      obtain ⟨hx, hrun, hmoved⟩ := switched_of_calm_tail hneed hpast hnot
      have hstays : switched need' init (x :: past) = init := by
        rw [switched, (hpast.mono hle).switched_eq, if_neg]
        rintro ⟨-, hrun'⟩
        exact absurd (hrun.symm.trans hrun') (hlt x).ne
      have hsame := hagree (x :: past) List.suffix_rfl
      rw [hmoved, hstays] at hsame
      exact hx hsame.symm
  · intro h past hpast
    have hp := h.suffix hpast
    rw [hp.switched_eq, (hp.mono hle).switched_eq]

end Samaritan.Lib
