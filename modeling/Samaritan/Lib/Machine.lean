import Mathlib.Data.List.Basic

/-!
# Step Machines and Their Runs

A concurrent program is modelled as a partial step function
`step : σ → α → Option σ`: an action names which thread moves and resolves every
choice the scheduler or the environment makes, and `none` means that the action is
not enabled in that state. A run is a list of actions.

Besides plain reachability, runs can be restricted by a condition `ok` on the
state before a step and the action taken there; the invariant rule is proved once
for restricted runs and specialised to all runs.
-/

namespace Samaritan.Lib

variable {σ α : Type*}

/-! ## Runs -/

/-- Execute a list of actions from a state. -/
def runFrom (step : σ → α → Option σ) : σ → List α → Option σ
  | s, [] => some s
  | s, a :: as => (step s a).bind fun s' => runFrom step s' as

/-- Every step of the run from `s` along the actions meets `ok`. -/
def RunMeets (step : σ → α → Option σ) (ok : σ → α → Prop) : σ → List α → Prop
  | _, [] => True
  | s, a :: as => ok s a ∧ ∀ s', step s a = some s' → RunMeets step ok s' as

/-- `s` can be reached from `s₀`. -/
def Reachable (step : σ → α → Option σ) (s₀ s : σ) : Prop :=
  ∃ as, runFrom step s₀ as = some s

variable {step : σ → α → Option σ} {ok : σ → α → Prop}

/-- A statement about the value of an option can be decided. -/
def decidableForallSome {x : Option σ} {p : σ → Prop} (h : ∀ s, Decidable (p s)) :
    Decidable (∀ s, x = some s → p s) :=
  match x with
  | none => isTrue (by simp)
  | some t =>
    have := h t
    decidable_of_iff (p t) (by simp)

instance decidableRunMeets [h : ∀ s a, Decidable (ok s a)] :
    ∀ (s : σ) (as : List α), Decidable (RunMeets step ok s as)
  | _, [] => isTrue trivial
  | s, a :: as =>
    have := decidableForallSome (x := step s a) fun s' => decidableRunMeets s' as
    inferInstanceAs (Decidable (ok s a ∧ _))

theorem runFrom_cons_eq_some {s s' : σ} {a : α} {as : List α} :
    runFrom step s (a :: as) = some s' ↔
      ∃ t, step s a = some t ∧ runFrom step t as = some s' := by
  simp [runFrom, Option.bind_eq_some_iff]

theorem runFrom_append {s : σ} {as bs : List α} :
    runFrom step s (as ++ bs) = (runFrom step s as).bind fun t => runFrom step t bs := by
  induction as generalizing s with
  | nil => rfl
  | cons a as ih =>
    simp only [List.cons_append, runFrom, Option.bind_assoc]
    congr 1
    funext t
    exact ih

/-- A run can go on. -/
theorem Reachable.runFrom {s₀ s s' : σ} {as : List α} (h : Reachable step s₀ s)
    (hrun : runFrom step s as = some s') : Reachable step s₀ s' := by
  obtain ⟨bs, hbs⟩ := h
  exact ⟨bs ++ as, by rw [runFrom_append, hbs, Option.bind_some, hrun]⟩

/-- When every action is enabled in every state, every list of actions is a run. -/
theorem exists_runFrom (step : σ → α → Option σ) (htotal : ∀ s a, ∃ t, step s a = some t) (s : σ)
    (as : List α) : ∃ t, Lib.runFrom step s as = some t := by
  induction as generalizing s with
  | nil => exact ⟨s, rfl⟩
  | cons a as ih =>
    obtain ⟨t, ht⟩ := htotal s a
    obtain ⟨t', ht'⟩ := ih t
    exact ⟨t', runFrom_cons_eq_some.mpr ⟨t, ht, ht'⟩⟩

/-- A run that executes reaches its last state. -/
theorem reachable_get {s₀ : σ} {as : List α} (h : (runFrom step s₀ as).isSome) :
    Reachable step s₀ ((runFrom step s₀ as).get h) :=
  ⟨as, (Option.some_get h).symm⟩

/-- What is computed of the last state of a run holds of it. -/
theorem exists_of_any {p : σ → Prop} [DecidablePred p] {s₀ : σ} {as : List α}
    (h : (runFrom step s₀ as).any (fun s => p s) = true) :
    ∃ s, runFrom step s₀ as = some s ∧ p s := by
  obtain ⟨s, hrun, hs⟩ := (Option.any_eq_true _ _).mp h
  exact ⟨s, hrun, of_decide_eq_true hs⟩

/-! ## Invariants -/

/-- **Invariant rule for restricted runs**: a predicate that every step meeting `ok`
    preserves holds at the end of every run all of whose steps meet `ok`. -/
theorem invariant_of_runMeets {Inv : σ → Prop}
    (hstep : ∀ s a s', Inv s → ok s a → step s a = some s' → Inv s')
    {s s' : σ} {as : List α} (hs : Inv s) (hok : RunMeets step ok s as)
    (hrun : runFrom step s as = some s') : Inv s' := by
  induction as generalizing s with
  | nil =>
    obtain rfl : s = s' := Option.some.inj hrun
    exact hs
  | cons a as ih =>
    obtain ⟨t, ht, hrest⟩ := runFrom_cons_eq_some.mp hrun
    exact ih (hstep s a t hs hok.1 ht) (hok.2 t ht) hrest

/-- A step of the machine has one result, so a run meets the condition when its first step and
    the run after it do. -/
theorem runMeets_cons {s t : σ} {a : α} {as : List α} (hok : ok s a) (ht : step s a = some t)
    (hrest : RunMeets step ok t as) : RunMeets step ok s (a :: as) := by
  refine ⟨hok, fun t' ht' => ?_⟩
  obtain rfl : t = t' := Option.some.inj (ht.symm.trans ht')
  exact hrest

theorem runMeets_true (s : σ) (as : List α) : RunMeets step (fun _ _ => True) s as := by
  induction as generalizing s with
  | nil => trivial
  | cons a as ih => exact ⟨trivial, fun t _ => ih t⟩

theorem RunMeets.mono {ok' : σ → α → Prop} (h : ∀ s a, ok s a → ok' s a) {s : σ} {as : List α}
    (hmeets : RunMeets step ok s as) : RunMeets step ok' s as := by
  induction as generalizing s with
  | nil => trivial
  | cons a as ih => exact ⟨h s a hmeets.1, fun t ht => ih (hmeets.2 t ht)⟩

/-- A condition on the actions alone. -/
theorem runMeets_of_forall {p : α → Prop} {as : List α} (h : ∀ a ∈ as, p a) (s : σ) :
    RunMeets step (fun _ a => p a) s as := by
  induction as generalizing s with
  | nil => trivial
  | cons a as ih => exact ⟨h a (by simp), fun t _ => ih (fun b hb => h b (by simp [hb])) t⟩

/-- **Invariant rule**: a predicate preserved by every step holds in every state
    reached from a state in which it holds. -/
theorem invariant_of_run {Inv : σ → Prop}
    (hstep : ∀ s a s', Inv s → step s a = some s' → Inv s')
    {s s' : σ} {as : List α} (hs : Inv s) (hrun : runFrom step s as = some s') : Inv s' :=
  invariant_of_runMeets (fun s a s' h _ => hstep s a s' h) hs (runMeets_true s as) hrun

theorem invariant_of_reachable {Inv : σ → Prop}
    (hstep : ∀ s a s', Inv s → step s a = some s' → Inv s')
    {s₀ s : σ} (h₀ : Inv s₀) (h : Reachable step s₀ s) : Inv s := by
  obtain ⟨as, has⟩ := h
  exact invariant_of_run hstep h₀ has

/-- **Backward rule**: if no step that breaks `ok` leads to a good state, and only good states
    lead to good states, then every step of a run that ends in a good state meets `ok`. -/
theorem runMeets_of_run (Inv Good : σ → Prop)
    (hstep : ∀ s a s', Inv s → step s a = some s' → Inv s')
    (hback : ∀ s a s', Inv s → step s a = some s' → Good s' → Good s ∧ ok s a)
    {s s' : σ} {as : List α} (hs : Inv s) (hrun : runFrom step s as = some s') (hgood : Good s') :
    Good s ∧ RunMeets step ok s as := by
  induction as generalizing s with
  | nil =>
    obtain rfl : s = s' := Option.some.inj hrun
    exact ⟨hgood, trivial⟩
  | cons a as ih =>
    obtain ⟨t, ht, hrest⟩ := runFrom_cons_eq_some.mp hrun
    -- the invariant goes forward along the run, the good states come back from its end
    obtain ⟨htgood, hmeets⟩ := ih (hstep s a t hs ht) hrest
    obtain ⟨hsgood, hok⟩ := hback s a t hs ht htgood
    exact ⟨hsgood, runMeets_cons hok ht hmeets⟩

theorem runMeets_of_isPrefix {s : σ} {as bs : List α} (hmeets : RunMeets step ok s as)
    (hbs : bs <+: as) : RunMeets step ok s bs := by
  obtain ⟨cs, rfl⟩ := hbs
  induction bs generalizing s with
  | nil => trivial
  | cons b bs ih => exact ⟨hmeets.1, fun t ht => ih (hmeets.2 t ht)⟩

/-- When a step that breaks `ok` leads to a bad state, the steps of a run that goes through good
    states only all meet `ok`. Invariants of the machine may be used for this. -/
theorem runMeets_of_good_inv (Inv Good : σ → Prop)
    (hstep : ∀ s a s', Inv s → step s a = some s' → Inv s')
    (hback : ∀ s a s', Inv s → step s a = some s' → Good s' → ok s a) {s s' : σ} {as : List α}
    (hs : Inv s) (hrun : runFrom step s as = some s')
    (hgood : ∀ bs t, bs <+: as → runFrom step s bs = some t → Good t) : RunMeets step ok s as := by
  induction as generalizing s with
  | nil => trivial
  | cons a as ih =>
    obtain ⟨t, ht, hrest⟩ := runFrom_cons_eq_some.mp hrun
    have htgood : Good t := hgood [a] t (by simp) (runFrom_cons_eq_some.mpr ⟨t, ht, rfl⟩)
    refine runMeets_cons (hback s a t hs ht htgood) ht
      (ih (hstep s a t hs ht) hrest fun bs v hbs hv => ?_)
    -- the states of the rest of the run are states of the whole run
    exact hgood (a :: bs) v (by simpa using hbs) (runFrom_cons_eq_some.mpr ⟨t, ht, hv⟩)

theorem runMeets_of_good {Good : σ → Prop}
    (hback : ∀ s a s', step s a = some s' → Good s' → ok s a) {s s' : σ} {as : List α}
    (hrun : runFrom step s as = some s')
    (hgood : ∀ bs t, bs <+: as → runFrom step s bs = some t → Good t) : RunMeets step ok s as :=
  runMeets_of_good_inv (fun _ => True) Good (fun _ _ _ _ _ => trivial)
    (fun s a s' _ => hback s a s') trivial hrun hgood

/-- **Exact rule**: when a step from a good state leads to a good state exactly if it meets `ok`,
    a run goes through good states only exactly if all its steps meet `ok`. What is good may
    depend on the actions taken so far. -/
theorem good_iff_runMeets (Good : List α → σ → Prop) {s₀ s' : σ} {as : List α}
    (h₀ : Good [] s₀)
    (hstep : ∀ bs s a t, bs ++ [a] <+: as → runFrom step s₀ bs = some s → Good bs s →
      step s a = some t → (Good (bs ++ [a]) t ↔ ok s a))
    (hrun : runFrom step s₀ as = some s') :
    (∀ bs t, bs <+: as → runFrom step s₀ bs = some t → Good bs t) ↔ RunMeets step ok s₀ as := by
  -- the induction is on the rest of the run, behind the actions `cs` that led to `s`
  have hrest : ∀ (ds cs : List α) (s : σ), cs ++ ds = as → runFrom step s₀ cs = some s →
      Good cs s → runFrom step s ds = some s' →
      ((∀ bs t, bs <+: ds → runFrom step s bs = some t → Good (cs ++ bs) t) ↔
        RunMeets step ok s ds) := by
    intro ds
    induction ds with
    | nil =>
      intro cs s _ _ hcs _
      refine ⟨fun _ => trivial, fun _ bs t hbs ht => ?_⟩
      obtain rfl := List.prefix_nil.mp hbs
      cases ht
      rwa [List.append_nil]
    | cons a ds ih =>
      intro cs s has hs hcs hds
      have has' : cs ++ [a] ++ ds = as := by rw [← has, List.append_assoc, List.singleton_append]
      have hprefix : cs ++ [a] <+: as := ⟨ds, has'⟩
      obtain ⟨v, hv, hvs⟩ := runFrom_cons_eq_some.mp hds
      have hcsa : runFrom step s₀ (cs ++ [a]) = some v := by
        rw [runFrom_append, hs, Option.bind_some]
        exact runFrom_cons_eq_some.mpr ⟨v, hv, rfl⟩
      constructor
      · intro hgood
        have hva : Good (cs ++ [a]) v :=
          hgood [a] v (by simp) (runFrom_cons_eq_some.mpr ⟨v, hv, rfl⟩)
        refine runMeets_cons ((hstep cs s a v hprefix hs hcs hv).mp hva) hv
          ((ih (cs ++ [a]) v has' hcsa hva hvs).mp fun bs t hbs ht => ?_)
        rw [List.append_assoc]
        exact hgood (a :: bs) t (by simpa using hbs) (runFrom_cons_eq_some.mpr ⟨v, hv, ht⟩)
      · intro hmeets bs t hbs ht
        have hva : Good (cs ++ [a]) v := (hstep cs s a v hprefix hs hcs hv).mpr hmeets.1
        cases bs with
        | nil =>
          cases ht
          rwa [List.append_nil]
        | cons b bs =>
          obtain ⟨rfl, htail⟩ := List.cons_prefix_cons.mp hbs
          obtain ⟨w, hw, ht⟩ := runFrom_cons_eq_some.mp ht
          obtain rfl : v = w := Option.some.inj (hv.symm.trans hw)
          have hgood := (ih (cs ++ [b]) v has' hcsa hva hvs).mpr (hmeets.2 v hv) bs t htail ht
          rwa [List.append_assoc] at hgood
  exact hrest as [] s₀ rfl rfl h₀ hrun

end Samaritan.Lib
