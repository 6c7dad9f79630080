import Mathlib.Data.List.Basic
import Mathlib.Data.List.Nodup

/-!
# Doubly Linked Lists

Nodes with a pointer back and a pointer forth form a list. What a node of the list points to is
read off the list of the nodes: a segment says this between any two ends, a linked list is the
segment between two nil pointers. The rules below say what has to be written to put a node into
the list and to take one out.
-/

namespace Samaritan.Lib

variable {α : Type*}

/-- The nodes of a list are linked both ways, behind `p` and before `n`. -/
def Seg (prev next : α → Option α) (p : Option α) : List α → Option α → Prop
  | [], _ => True
  | x :: xs, n => prev x = p ∧ next x = xs.head?.or n ∧ Seg prev next (some x) xs n

/-- The nodes of a list are linked both ways from end to end. -/
def Linked (prev next : α → Option α) (xs : List α) : Prop := Seg prev next none xs none

variable {prev next prev' next' : α → Option α} {p n p' n' : Option α} {x : α} {xs ys zs : List α}

/-! ## Reading links -/

theorem seg_append : Seg prev next p (xs ++ ys) n ↔
    Seg prev next p xs (ys.head?.or n) ∧ Seg prev next (xs.getLast?.or p) ys n := by
  induction xs generalizing p with
  | nil => simp [Seg]
  | cons x xs ih =>
    have hlast : (x :: xs).getLast?.or p = xs.getLast?.or (some x) := by
      cases hxs : xs.getLast? <;> simp [List.getLast?_cons, hxs]
    rw [List.cons_append, Seg, Seg, ih, List.head?_append, Option.or_assoc, hlast]
    simp only [and_assoc]

theorem Seg.congr (h : Seg prev next p xs n) (hprev : ∀ y ∈ xs, prev' y = prev y)
    (hnext : ∀ y ∈ xs, next' y = next y) : Seg prev' next' p xs n := by
  induction xs generalizing p with
  | nil => trivial
  | cons x xs ih =>
    obtain ⟨hx, hx', hxs⟩ := h
    refine ⟨(hprev x (by simp)).trans hx, (hnext x (by simp)).trans hx', ih hxs ?_ ?_⟩
    · exact fun y hy => hprev y (List.mem_cons_of_mem _ hy)
    · exact fun y hy => hnext y (List.mem_cons_of_mem _ hy)

theorem Linked.congr (h : Linked prev next xs) (hprev : ∀ y ∈ xs, prev' y = prev y)
    (hnext : ∀ y ∈ xs, next' y = next y) : Linked prev' next' xs := Seg.congr h hprev hnext

/-- What a node of a linked list points to. -/
theorem Linked.at (h : Linked prev next (ys ++ x :: zs)) :
    prev x = ys.getLast? ∧ next x = zs.head? := by
  obtain ⟨-, hx, hx', -⟩ := seg_append.mp h
  rw [Option.or_none] at hx hx'
  exact ⟨hx, hx'⟩

/-! ## Writing links -/

variable [DecidableEq α]

/-- The last node may be linked to something else. -/
theorem Seg.relink_last (h : Seg prev next p xs n) (hnodup : xs.Nodup)
    (hprev : ∀ y ∈ xs, prev' y = prev y)
    (hnext : ∀ y ∈ xs, next' y = if xs.getLast? = some y then n' else next y) :
    Seg prev' next' p xs n' := by
  induction xs generalizing p with
  | nil => trivial
  | cons x xs ih =>
    obtain ⟨hx, hx', hxs⟩ := h
    refine ⟨(hprev x (by simp)).trans hx, ?_, ih hxs hnodup.of_cons ?_ ?_⟩
    · rw [hnext x (by simp)]
      cases xs with
      | nil => simp
      | cons y ys =>
        rw [if_neg, hx']
        · rfl
        · -- the first node does not come again at the end
          intro hlast
          rw [List.getLast?_cons_cons] at hlast
          exact (List.nodup_cons.mp hnodup).1 (List.mem_of_getLast? hlast)
    · exact fun y hy => hprev y (List.mem_cons_of_mem _ hy)
    · intro y hy
      rw [hnext y (List.mem_cons_of_mem _ hy)]
      cases xs with
      | nil => cases hy
      | cons z zs => rw [List.getLast?_cons_cons]

/-- The first node may be linked to something else. -/
theorem Seg.relink_head (h : Seg prev next p xs n) (hnodup : xs.Nodup)
    (hprev : ∀ y ∈ xs, prev' y = if xs.head? = some y then p' else prev y)
    (hnext : ∀ y ∈ xs, next' y = next y) : Seg prev' next' p' xs n := by
  cases xs with
  | nil => trivial
  | cons x xs =>
    obtain ⟨-, hx', hxs⟩ := h
    refine ⟨?_, (hnext x (by simp)).trans hx', hxs.congr ?_ ?_⟩
    · rw [hprev x (by simp), List.head?_cons, if_pos rfl]
    · intro y hy
      rw [hprev y (List.mem_cons_of_mem _ hy), List.head?_cons, if_neg]
      intro heq
      cases heq
      exact (List.nodup_cons.mp hnodup).1 hy
    · exact fun y hy => hnext y (List.mem_cons_of_mem _ hy)

/-- Put a node into a linked list. -/
theorem Linked.insert (h : Linked prev next (ys ++ zs)) (hnodup : (ys ++ zs).Nodup)
    (hx : prev' x = ys.getLast?) (hx' : next' x = zs.head?)
    (hprev : ∀ y ∈ ys ++ zs, prev' y = if zs.head? = some y then some x else prev y)
    (hnext : ∀ y ∈ ys ++ zs, next' y = if ys.getLast? = some y then some x else next y) :
    Linked prev' next' (ys ++ x :: zs) := by
  obtain ⟨hys, hzs⟩ := seg_append.mp h
  obtain ⟨hndys, hndzs, hdisj⟩ := List.nodup_append.mp hnodup
  refine seg_append.mpr ⟨?_, ?_, ?_, ?_⟩
  · refine hys.relink_last hndys (fun y hy => ?_) fun y hy => ?_
    · rw [hprev y (List.mem_append_left _ hy), if_neg]
      exact fun heq => hdisj y hy y (List.mem_of_head? heq) rfl
    · rw [hnext y (List.mem_append_left _ hy)]
      rfl
  · rw [hx, Option.or_none]
  · rw [hx', Option.or_none]
  · refine hzs.relink_head hndzs (fun y hy => ?_) fun y hy => ?_
    · rw [hprev y (List.mem_append_right _ hy)]
    · rw [hnext y (List.mem_append_right _ hy), if_neg]
      exact fun heq => hdisj y (List.mem_of_getLast? heq) y hy rfl

/-- Take a node out of a linked list. -/
theorem Linked.remove (h : Linked prev next (ys ++ x :: zs)) (hnodup : (ys ++ zs).Nodup)
    (hprev : ∀ y ∈ ys ++ zs, prev' y = if zs.head? = some y then ys.getLast? else prev y)
    (hnext : ∀ y ∈ ys ++ zs, next' y = if ys.getLast? = some y then zs.head? else next y) :
    Linked prev' next' (ys ++ zs) := by
  obtain ⟨hys, -, -, hzs⟩ := seg_append.mp h
  obtain ⟨hndys, hndzs, hdisj⟩ := List.nodup_append.mp hnodup
  refine seg_append.mpr ⟨?_, ?_⟩
  · refine hys.relink_last hndys (fun y hy => ?_) fun y hy => ?_
    · rw [hprev y (List.mem_append_left _ hy), if_neg]
      exact fun heq => hdisj y hy y (List.mem_of_head? heq) rfl
    · rw [hnext y (List.mem_append_left _ hy), Option.or_none]
  · refine hzs.relink_head hndzs (fun y hy => ?_) fun y hy => ?_
    · rw [hprev y (List.mem_append_right _ hy), Option.or_none]
    · rw [hnext y (List.mem_append_right _ hy), if_neg]
      exact fun heq => hdisj y (List.mem_of_getLast? heq) y hy rfl

end Samaritan.Lib
