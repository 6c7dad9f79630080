import Mathlib.Algebra.BigOperators.Pi
import Mathlib.Tactic.Abel

/-!
# Tallies

Several threads update shared counters, each by adding to one of them at a time, so that between
two updates of a thread the counters are behind of what the threads have done. What a thread has
added so far is its credit: what its progress calls for, without the updates it has still to make.
The counters are tallied when they are the sum of the credits. A thread that moves on and plans the
updates its move calls for has the same credit as before, and one that makes an update adds it to
its credit and to the counters.

The values form a group, so counters that wrap around are counters as well.
-/

namespace Samaritan.Lib

variable {κ A σ : Type*} [DecidableEq κ] [AddCommGroup A]

/-- What a list of updates adds to the counters. -/
def planned (todo : List (κ × A)) : κ → A := (todo.map fun u => Pi.single u.1 u.2).sum

@[simp] theorem planned_nil : planned ([] : List (κ × A)) = 0 := rfl

@[simp] theorem planned_cons (u : κ × A) (todo : List (κ × A)) :
    planned (u :: todo) = Pi.single u.1 u.2 + planned todo := by
  simp [planned]

theorem planned_append (todo todo' : List (κ × A)) :
    planned (todo ++ todo') = planned todo + planned todo' := by
  simp [planned]

/-- Make one update. -/
def addTo (counters : κ → A) (u : κ × A) : κ → A :=
  Function.update counters u.1 (counters u.1 + u.2)

theorem addTo_eq (counters : κ → A) (u : κ × A) :
    addTo counters u = counters + Pi.single u.1 u.2 := by
  funext c
  by_cases hc : c = u.1
  · subst hc
    simp [addTo]
  · simp [addTo, hc]

/-- The counters are the sum of the credits of the threads. -/
def Tallied (credit : σ → κ → A) (counters : κ → A) (threads : List σ) : Prop :=
  counters = (threads.map credit).sum

variable {credit : σ → κ → A} {counters : κ → A} {threads : List σ} {t t' : σ} {k : Nat}

omit [DecidableEq κ] in
theorem tallied_nil : Tallied credit (0 : κ → A) [] := rfl

omit [DecidableEq κ] in
/-- A thread without any credit starts. -/
theorem Tallied.start (h : Tallied credit counters threads) (ht : credit t = 0) :
    Tallied credit counters (threads ++ [t]) := by
  unfold Tallied at *
  simp [ht, ← h]

omit [DecidableEq κ] in
/-- A thread and the counters get the same credit. -/
theorem Tallied.earn (h : Tallied credit counters threads) (hk : threads[k]? = some t)
    {d : κ → A} (ht : credit t' = credit t + d) :
    Tallied credit (counters + d) (threads.set k t') := by
  unfold Tallied at *
  rw [h]
  clear h
  -- the thread is found by walking down the list
  induction threads generalizing k with
  | nil => simp at hk
  | cons s threads ih =>
    cases k with
    | zero =>
      obtain rfl : s = t := Option.some.inj hk
      simp only [List.set_cons_zero, List.map_cons, List.sum_cons, ht]
      abel
    | succ k =>
      simp only [List.set_cons_succ, List.map_cons, List.sum_cons, ← ih hk]
      abel

omit [DecidableEq κ] in
/-- A thread moves on with its credit. -/
theorem Tallied.move (h : Tallied credit counters threads) (hk : threads[k]? = some t)
    (ht : credit t' = credit t) : Tallied credit counters (threads.set k t') := by
  have hearn := h.earn (d := 0) hk (by rw [ht, add_zero])
  rwa [add_zero] at hearn

/-- A thread makes an update. -/
theorem Tallied.update (h : Tallied credit counters threads) (hk : threads[k]? = some t)
    {u : κ × A} (ht : credit t' = credit t + Pi.single u.1 u.2) :
    Tallied credit (addTo counters u) (threads.set k t') := by
  rw [addTo_eq]
  exact h.earn hk ht

omit [DecidableEq κ] in
/-- The value of one counter. -/
theorem Tallied.apply (h : Tallied credit counters threads) (c : κ) :
    counters c = (threads.map fun t => credit t c).sum := by
  rw [show counters = _ from h, Pi.list_sum_apply, List.map_map]
  rfl

end Samaritan.Lib
