import Mathlib.Data.Set.Basic
import Mathlib.Logic.Relation

/-!
# Wait-For Relations

Processes wait for one another. They are deadlocked when some of them all wait for one of
themselves: none of these can go on before another of them does. A step that makes processes wait
for one process `t` leads into a deadlock exactly when one of them is waited for by `t`, directly
or through others.
-/

namespace Samaritan.Lib

variable {ι : Type*} {W W' : ι → ι → Prop} {t x : ι}

/-- Every process of the set waits for a process of the set. -/
def WaitSet (W : ι → ι → Prop) (S : Set ι) : Prop := S.Nonempty ∧ ∀ x ∈ S, ∃ y ∈ S, W x y

/-- Some processes wait for one another. -/
def Deadlock (W : ι → ι → Prop) : Prop := ∃ S, WaitSet W S

/-- A closed path of waiting processes is a deadlock. -/
theorem deadlock_of_cycle (hpath : Relation.ReflTransGen W t x) (hx : W x t) : Deadlock W := by
  refine ⟨{y | Relation.ReflTransGen W t y ∧ Relation.ReflTransGen W y x}, ⟨t, .refl, hpath⟩, ?_⟩
  rintro y ⟨hty, hyx⟩
  -- the next process on the way to `x`, or the first one again
  rcases hyx.cases_head with rfl | ⟨z, hyz, hzx⟩
  · exact ⟨t, ⟨.refl, hpath⟩, hx⟩
  · exact ⟨z, ⟨hty.tail hyz, hzx⟩, hyz⟩

/-- When all new waits are for `t`, and none of those who wait for `t` is waited for by `t`, no
    deadlock comes up. -/
theorem not_deadlock_of_target (hW : ¬ Deadlock W) (hnew : ∀ x y, W' x y → W x y ∨ y = t)
    (hfree : ∀ x, Relation.ReflTransGen W t x → ¬ W' x t) : ¬ Deadlock W' := by
  rintro ⟨S, hS, hwait⟩
  by_cases ht : t ∈ S
  · -- the processes of the set that `t` waits for are deadlocked already
    refine hW ⟨S ∩ {y | Relation.ReflTransGen W t y}, ⟨t, ht, .refl⟩, ?_⟩
    rintro x ⟨hx, htx⟩
    obtain ⟨y, hy, hxy⟩ := hwait x hx
    rcases hnew x y hxy with hold | rfl
    · exact ⟨y, ⟨hy, htx.tail hold⟩, hold⟩
    · exact absurd hxy (hfree x htx)
  · refine hW ⟨S, hS, fun x hx => ?_⟩
    obtain ⟨y, hy, hxy⟩ := hwait x hx
    rcases hnew x y hxy with hold | rfl
    · exact ⟨y, hy, hold⟩
    · exact absurd hy ht

/-- A deadlock does not come up when waits end. -/
theorem not_deadlock_of_le (hW : ¬ Deadlock W) (hle : ∀ x y, W' x y → W x y) : ¬ Deadlock W' := by
  rintro ⟨S, hS, hwait⟩
  refine hW ⟨S, hS, fun x hx => ?_⟩
  obtain ⟨y, hy, hxy⟩ := hwait x hx
  exact ⟨y, hy, hle x y hxy⟩

end Samaritan.Lib
