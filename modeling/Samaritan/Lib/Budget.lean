import Mathlib
import Samaritan.Lib.Machine

/-!
# Budgets

The steps of a machine are of two kinds: those that it makes by itself, and those that come from
outside, which may bring new work. When every state has a budget that a step of the first kind uses
up, and that a step of the second kind raises by no more than its cost, then a run has no more steps
of the first kind than it was given: the machine does not go on for ever without being driven.

The budget of several parts is the sum of theirs.
-/

namespace Samaritan.Lib

variable {σ α : Type*} {step : σ → α → Option σ}

/-- **Budget rule**: what is left of the budget at the end of a run, and the steps that were paid
    for. -/
theorem countP_add_le_of_run {Inv : σ → Prop} {budget : σ → Nat} {paid : α → Bool} {cost : α → Nat}
    (hinv : ∀ s a s', Inv s → step s a = some s' → Inv s')
    (hpay : ∀ s a s', Inv s → step s a = some s' →
      (if paid a then 1 else 0) + budget s' ≤ budget s + cost a)
    {s s' : σ} {as : List α} (hs : Inv s) (hrun : runFrom step s as = some s') :
    as.countP paid + budget s' ≤ budget s + (as.map cost).sum := by
  induction as generalizing s with
  | nil =>
    obtain rfl : s = s' := Option.some.inj hrun
    simp
  | cons a as ih =>
    obtain ⟨t, ht, hrest⟩ := runFrom_cons_eq_some.mp hrun
    have hfirst := hpay s a t hs ht
    have hlater := ih (hinv s a t hs ht) hrest
    rw [List.countP_cons, List.map_cons, List.sum_cons]
    omega

section Parts

variable {w w' : σ → Nat} {parts : List σ} {t t' : σ} {k : Nat}

/-- One part of a sum is replaced. -/
theorem sum_map_set (w : σ → Nat) (hk : parts[k]? = some t) :
    ((parts.set k t').map w).sum + w t = (parts.map w).sum + w t' := by
  induction parts generalizing k with
  | nil => simp at hk
  | cons s parts ih =>
    cases k with
    | zero =>
      obtain rfl : s = t := Option.some.inj hk
      simp only [List.set_cons_zero, List.map_cons, List.sum_cons]
      omega
    | succ k =>
      have hrest := ih hk
      simp only [List.set_cons_succ, List.map_cons, List.sum_cons]
      omega

/-- Every part has less. -/
theorem sum_map_mapIdx_le {f : Nat → σ → σ} (hf : ∀ i t, w (f i t) ≤ w t) :
    ((parts.mapIdx f).map w).sum ≤ (parts.map w).sum := by
  induction parts generalizing f with
  | nil => simp
  | cons s parts ih =>
    rw [List.mapIdx_cons, List.map_cons, List.sum_cons, List.map_cons, List.sum_cons]
    exact Nat.add_le_add (hf 0 s) (ih fun i t => hf (i + 1) t)

end Parts

end Samaritan.Lib
