import Mathlib.Tactic

/-!
# Programs over Operations

A program that uses a component only through its operations is a tree of calls. It runs with any
meaning of the operations on some state: with the operations as they are implemented, and with
those of a simpler component that stands for them.

If each operation does the same with two meanings, from states that are related, then so does each
program. Where the operations agree only under a condition on the call, the condition is asked of
the calls that the run makes.
-/

namespace Samaritan.Lib

/-! ## Computations that succeed -/

section Success

variable {ε σ α β : Type} {x : EStateM ε σ α} {s : σ}

theorem bind_ok {f : α → EStateM ε σ β} {s' : σ} {a : α} (h : x s = .ok a s') :
    (x >>= f) s = f a s' := by
  simp [bind, EStateM.bind, h]

theorem map_ok {f : α → β} {s' : σ} {a : α} (h : x s = .ok a s') :
    (f <$> x) s = .ok (f a) s' := by
  simp [Functor.map, EStateM.map, h]

theorem bind_eq_ok {f : α → EStateM ε σ β} {s'' : σ} {b : β} (h : (x >>= f) s = .ok b s'') :
    ∃ a s', x s = .ok a s' ∧ f a s' = .ok b s'' := by
  simp only [bind, EStateM.bind] at h
  split at h
  · rename_i a s' hx
    exact ⟨a, s', hx, h⟩
  · cases h

theorem map_eq_ok {f : α → β} {s' : σ} {b : β} (h : (f <$> x) s = .ok b s') :
    ∃ a, x s = .ok a s' ∧ f a = b := by
  simp only [Functor.map, EStateM.map] at h
  split at h
  · rename_i a s'' hx
    cases h
    exact ⟨a, hx, rfl⟩
  · cases h

end Success

/-! ## Programs -/

/-- A program that calls operations: it is done, it has failed, or it goes on with the value that
    an operation returns. -/
inductive Program (Op : Type → Type) (ε α : Type) : Type 1 where
  | done (a : α)
  | fail (e : ε)
  | call {β : Type} (op : Op β) (next : β → Program Op ε α)

/-- The meaning of the operations on a state. -/
abbrev Meaning (Op : Type → Type) (ε σ : Type) : Type 1 := {β : Type} → Op β → EStateM ε σ β

namespace Program

variable {Op : Type → Type} {ε α β σ τ : Type}

def bind : Program Op ε α → (α → Program Op ε β) → Program Op ε β
  | done a, f => f a
  | fail e, _ => fail e
  | call op next, f => call op fun b => (next b).bind f

instance : Monad (Program Op ε) where
  pure := done
  bind := bind

/-- One call. -/
def perform (op : Op β) : Program Op ε β := call op done

/-- A result that needs no call. -/
def fromExcept : Except ε α → Program Op ε α
  | .ok a => done a
  | .error e => fail e

/-- The program with a meaning of its operations. -/
def run (h : Meaning Op ε σ) : Program Op ε α → EStateM ε σ α
  | done a => pure a
  | fail e => throw e
  | call op next => h op >>= fun b => (next b).run h

variable (h : Meaning Op ε σ)

@[simp] theorem run_pure (a : α) : (pure a : Program Op ε α).run h = pure a := rfl

@[simp] theorem run_fail (e : ε) : (fail e : Program Op ε α).run h = throw e := rfl

@[simp] theorem run_perform (op : Op β) : (perform op : Program Op ε β).run h = h op := by
  show (h op >>= fun b => pure b) = h op
  rw [bind_pure]

@[simp] theorem run_bind (p : Program Op ε α) (f : α → Program Op ε β) :
    (p >>= f).run h = p.run h >>= fun a => (f a).run h := by
  show (p.bind f).run h = _
  induction p with
  | done a => exact (pure_bind a fun a => (f a).run h).symm
  | fail e => rfl
  | call op next ih =>
    simp only [bind, run, bind_assoc, ih]

@[simp] theorem run_map (p : Program Op ε α) (f : α → β) :
    (f <$> p).run h = f <$> p.run h := by
  show (p >>= fun a => pure (f a)).run h = _
  simp only [run_bind, run_pure, map_eq_pure_bind]

/-! ## Simulation -/

/-- Two results with the same value and related states, or with the same error. -/
inductive Agree (R : σ → τ → Prop) : EStateM.Result ε σ α → EStateM.Result ε τ α → Prop
  | ok {a : α} {s : σ} {t : τ} (hst : R s t) : Agree R (.ok a s) (.ok a t)
  | error {e : ε} {s : σ} {t : τ} : Agree R (.error e s) (.error e t)

/-- Every call that the run from a state makes meets the condition. -/
def Meets (ok : {β : Type} → Op β → σ → Prop) : Program Op ε α → σ → Prop
  | done _, _ => True
  | fail _, _ => True
  | call op next, s => ok op s ∧ ∀ b s', h op s = .ok b s' → (next b).Meets ok s'

/-- **Simulation**: if the operations agree from related states wherever the condition is met, then
    a program whose calls meet it does the same with both meanings. -/
theorem agree_run {h : Meaning Op ε σ} {h' : Meaning Op ε τ} {R : σ → τ → Prop}
    {ok : {β : Type} → Op β → σ → Prop}
    (hstep : ∀ {β : Type} (op : Op β) (s : σ) (t : τ), R s t → ok op s →
      Agree R (h op s) (h' op t))
    (p : Program Op ε α) {s : σ} {t : τ} (hst : R s t) (hok : p.Meets h ok s) :
    Agree R (p.run h s) (p.run h' t) := by
  induction p generalizing s t with
  | done a => exact .ok hst
  | fail e => exact .error
  | call op next ih =>
    have hcall := hstep op s t hst hok.1
    show Agree R ((h op >>= fun b => (next b).run h) s) ((h' op >>= fun b => (next b).run h') t)
    simp only [Bind.bind, EStateM.bind]
    cases hs : h op s with
    | ok b s' =>
      rw [hs] at hcall
      generalize h' op t = r at hcall
      cases hcall with
      | ok hst' => exact ih b hst' (hok.2 b s' hs)
    | error e s' =>
      rw [hs] at hcall
      generalize h' op t = r at hcall
      cases hcall with
      | error => exact .error

/-- A condition that every call meets. -/
theorem meets_of_forall {h : Meaning Op ε σ} {ok : {β : Type} → Op β → σ → Prop}
    (hok : ∀ {β : Type} (op : Op β) (s : σ), ok op s) (p : Program Op ε α) (s : σ) :
    p.Meets h ok s := by
  induction p generalizing s with
  | done a | fail e => trivial
  | call op next ih => exact ⟨hok op s, fun b s' _ => ih b s'⟩

theorem Meets.mono {h : Meaning Op ε σ} {ok ok' : {β : Type} → Op β → σ → Prop}
    (himp : ∀ {β : Type} (op : Op β) (s : σ), ok op s → ok' op s) {p : Program Op ε α} {s : σ}
    (hp : p.Meets h ok s) : p.Meets h ok' s := by
  induction p generalizing s with
  | done a | fail e => trivial
  | call op next ih => exact ⟨himp op s hp.1, fun b s' hs => ih b (hp.2 b s' hs)⟩

end Program

end Samaritan.Lib
