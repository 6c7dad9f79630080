import Mathlib.Tactic

/-!
# Executions

A computation returns a value, fails with an error, panics, or has not finished within the rounds
that its loops were given. What it comes to, however many rounds it is given, is its limit: enough
rounds reach it, and with fewer the computation is either there already or has not finished.
Limits pass through sequencing and through loops over a list, so that a program with one endless
loop in it can be reasoned about without counting rounds.
-/

namespace Samaritan.Lib

inductive Execution (ε α : Type*) where
  | returns (a : α)
  | fails (e : ε)
  | panics
  | unfinished
  deriving DecidableEq

namespace Execution

variable {ε α β γ : Type*}

/-- The computation comes to an end in a value or in an error. -/
def Ends : Execution ε α → Prop
  | returns _ => True
  | fails _ => True
  | panics => False
  | unfinished => False

instance (x : Execution ε α) : Decidable x.Ends :=
  match x with
  | returns _ => isTrue trivial
  | fails _ => isTrue trivial
  | panics => isFalse id
  | unfinished => isFalse id

def bind (x : Execution ε α) (k : α → Execution ε β) : Execution ε β :=
  match x with
  | returns a => k a
  | fails e => fails e
  | panics => panics
  | unfinished => unfinished

@[simp] theorem returns_bind (a : α) (k : α → Execution ε β) : (returns a).bind k = k a := rfl
@[simp] theorem fails_bind (e : ε) (k : α → Execution ε β) : (fails e).bind k = fails e := rfl
@[simp] theorem panics_bind (k : α → Execution ε β) :
    (panics : Execution ε α).bind k = panics := rfl
@[simp] theorem unfinished_bind (k : α → Execution ε β) :
    (unfinished : Execution ε α).bind k = unfinished := rfl

theorem bind_eq_returns {x : Execution ε α} {k : α → Execution ε β} {b : β} :
    x.bind k = returns b ↔ ∃ a, x = returns a ∧ k a = returns b := by
  cases x <;> simp

/-- A loop over a list that ends at the first round that does not return. -/
def forEach (f : α → β → Execution ε α) (a : α) : List β → Execution ε α
  | [] => returns a
  | x :: xs => (f a x).bind fun a' => forEach f a' xs

/-! ## Slices

Reads and writes that panic out of bounds. -/

def index (xs : List α) (i : Nat) : Execution ε α :=
  match xs[i]? with
  | some x => returns x
  | none => panics

/-- The elements from `i` up to `j`. -/
def slice (xs : List α) (i j : Nat) : Execution ε (List α) :=
  if i ≤ j ∧ j ≤ xs.length then returns ((xs.take j).drop i) else panics

def assign (xs : List α) (i : Nat) (x : α) : Execution ε (List α) :=
  if i < xs.length then returns (xs.set i x) else panics

/-- As much of one list as there is room for, written over another one. -/
def copyOver (dst src : List α) : List α := src.take dst.length ++ dst.drop src.length

theorem slice_eq_returns_iff {xs ys : List α} {i j : Nat} :
    (slice xs i j : Execution ε (List α)) = returns ys ↔
      i ≤ j ∧ j ≤ xs.length ∧ (xs.take j).drop i = ys := by
  unfold slice
  split
  · rename_i h
    simp [h]
  · rename_i h
    simp only [reduceCtorEq, false_iff]
    tauto

/-! ## Limits -/

/-- `x` is what the computation comes to with more and more rounds. -/
structure Limit (run : Nat → Execution ε α) (x : Execution ε α) : Prop where
  below : ∀ n, run n = x ∨ run n = unfinished
  reached : ∃ n, ∀ m, n ≤ m → run m = x

namespace Limit

variable {run : Nat → Execution ε α} {x : Execution ε α}

theorem const (x : Execution ε α) : Limit (fun _ => x) x := ⟨fun _ => .inl rfl, 0, fun _ _ => rfl⟩

theorem bind (h : Limit run x) {k : Nat → α → Execution ε β} {k' : α → Execution ε β}
    (hk : ∀ a, Limit (fun n => k n a) (k' a)) :
    Limit (fun n => (run n).bind (k n)) (x.bind k') := by
  constructor
  · intro n
    rcases h.below n with hn | hn
    · cases x with
      | returns a =>
        rw [hn]
        exact (hk a).below n
      | fails | panics | unfinished =>
        rw [hn]
        exact .inl rfl
    · rw [hn]
      exact .inr rfl
  · obtain ⟨n, hn⟩ := h.reached
    cases x with
    | returns a =>
      obtain ⟨n', hn'⟩ := (hk a).reached
      refine ⟨max n n', fun m hm => ?_⟩
      show (run m).bind (k m) = k' a
      rw [hn m (le_of_max_le_left hm)]
      exact hn' m (le_of_max_le_right hm)
    | fails | panics | unfinished =>
      refine ⟨n, fun m hm => ?_⟩
      show (run m).bind (k m) = _
      rw [hn m hm]
      rfl

theorem forEach {f : Nat → α → β → Execution ε α} {f' : α → β → Execution ε α}
    (hf : ∀ a x, Limit (fun n => f n a x) (f' a x)) (xs : List β) (a : α) :
    Limit (fun n => Execution.forEach (f n) a xs) (Execution.forEach f' a xs) := by
  induction xs generalizing a with
  | nil => exact const _
  | cons x xs ih => exact (hf a x).bind fun a' => ih a'

/-- A computation ends with some number of rounds exactly if its limit is an end. -/
theorem exists_ends (h : Limit run x) : (∃ n, (run n).Ends) ↔ x.Ends := by
  constructor
  · rintro ⟨n, hn⟩
    rcases h.below n with hx | hx
    · rwa [hx] at hn
    · rw [hx] at hn
      exact hn.elim
  · intro hx
    obtain ⟨n, hn⟩ := h.reached
    exact ⟨n, by rwa [hn n le_rfl]⟩

theorem eq_of_returns (h : Limit run x) {n : Nat} {a : α} (hn : run n = returns a) :
    x = returns a := by
  rcases h.below n with hx | hx
  · rw [← hx, hn]
  · rw [hx] at hn
    cases hn

end Limit

/-! ## What decides an execution -/

/-- The first element of a list that is not good is endless. -/
def FirstEndless (Good Endless : β → Prop) (xs : List β) : Prop :=
  ∃ front x back, xs = front ++ x :: back ∧ (∀ y ∈ front, Good y) ∧ Endless x

/-- The input alone decides how a computation comes out: it returns on good inputs, does not finish
    on endless ones, and fails on all others. -/
structure Decided (f : α → β → Execution ε γ) (Good Endless : β → Prop) : Prop where
  returns : ∀ a x, Good x → ∃ c, f a x = .returns c
  unfinished : ∀ a x, Endless x → f a x = .unfinished
  fails : ∀ a x, ¬Good x → ¬Endless x → ∃ e, f a x = .fails e

theorem Decided.forEach {f : α → β → Execution ε α} {Good Endless : β → Prop}
    (h : Decided f Good Endless) :
    Decided (Execution.forEach f) (fun xs => ∀ x ∈ xs, Good x) (FirstEndless Good Endless) := by
  refine ⟨fun a xs hgood => ?_, fun a xs hxs => ?_, fun a xs hbad hfirst => ?_⟩
  · induction xs generalizing a with
    | nil => exact ⟨a, rfl⟩
    | cons x xs ih =>
      obtain ⟨c, hc⟩ := h.returns a x (hgood x List.mem_cons_self)
      obtain ⟨d, hd⟩ := ih c fun y hy => hgood y (List.mem_cons_of_mem x hy)
      refine ⟨d, ?_⟩
      rw [Execution.forEach, hc, returns_bind, hd]
  · obtain ⟨front, x, back, rfl, hfront, hx⟩ := hxs
    induction front generalizing a with
    | nil =>
      show (f a x).bind _ = _
      rw [h.unfinished a x hx]
      rfl
    | cons y front ih =>
      obtain ⟨c, hc⟩ := h.returns a y (hfront y List.mem_cons_self)
      show (f a y).bind _ = _
      rw [hc]
      exact ih c fun z hz => hfront z (List.mem_cons_of_mem y hz)
  · induction xs generalizing a with
    | nil => exact (hbad (by simp)).elim
    | cons x xs ih =>
      by_cases hx : Good x
      · -- the first round returns, and the rest decides
        obtain ⟨c, hc⟩ := h.returns a x hx
        have hbad' : ¬∀ y ∈ xs, Good y := fun hxs => hbad (List.forall_mem_cons.mpr ⟨hx, hxs⟩)
        have hfirst' : ¬FirstEndless Good Endless xs := by
          rintro ⟨front, y, back, rfl, hfront, hy⟩
          exact hfirst ⟨x :: front, y, back, rfl, List.forall_mem_cons.mpr ⟨hx, hfront⟩, hy⟩
        obtain ⟨e, he⟩ := ih c hbad' hfirst'
        refine ⟨e, ?_⟩
        rw [Execution.forEach, hc, returns_bind, he]
      · have hendless : ¬Endless x := by
          intro hx'
          exact hfirst ⟨[], x, xs, rfl, by simp, hx'⟩
        obtain ⟨e, he⟩ := h.fails a x hx hendless
        refine ⟨e, ?_⟩
        rw [Execution.forEach, he, fails_bind]

end Execution

end Samaritan.Lib
