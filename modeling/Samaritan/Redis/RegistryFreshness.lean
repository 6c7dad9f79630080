import Samaritan.Redis.Registry

/-!
# When `getClient` Returns Something Stale

A result of `getClient` is stale when it is a client that had terminated, or the error of a dial
attempt that had failed, before the call began. There are three ways to one.

- A client stays in the map from the return of its `Start` until `removeClient` gets the lock, and
  the fast path returns it without a look at it.
- An entry of `createClientCalls` is never deleted. A call that finds no client in the map but an
  entry for the address returns the result of that entry, however old it is. `Start` of the client
  of an entry may even have returned before the client came into the map.
- `createClient` returns what it finds in the map under the lock, to its own call and to those that
  have joined its entry.
-/

namespace Samaritan.Redis

open Samaritan.Lib

variable {α : Type} {calls : Nat → Option CreateClientCall} {g : GetClient α} {t k : Nat}
  {call : Option Nat} {res : ClientRes}

/-- The result is not older than the call. -/
def GetClient.Fresh (g : GetClient α) : ClientRes → Prop
  | .client c => c ∉ g.terminatedBefore
  | .exited => True
  | .dialErr attempt => attempt ∉ g.failedBefore

/-- A call that runs `createClient` for an entry of `createClientCalls` owns the entry. -/
def GetClient.Owns (g : GetClient α) (calls : Nat → Option CreateClientCall) (t : Nat) : Prop :=
  match g.pc with
  | .lock (some k) => calls k = some ⟨t, none, false⟩
  | .dial (some k) => calls k = some ⟨t, none, false⟩
  | .register (some k) c => calls k = some ⟨t, some (.client c), false⟩
  | .finish (some k) res => calls k = some ⟨t, some res, false⟩
  | _ => True

/-- The call has not returned a stale result, is not about to return one and does not wait for an
    entry that has one. -/
def GetClient.UpToDate (g : GetClient α) (calls : Nat → Option CreateClientCall) : Prop :=
  match g.pc with
  | .wait k => ∀ creator res done, calls k = some ⟨creator, some res, done⟩ → g.Fresh res
  | .register _ c => g.Fresh (.client c)
  | .finish _ res => g.Fresh res
  | .returned res => g.Fresh res
  | _ => True

/-- A change of an entry leaves the calls that do not own it alone. -/
theorem GetClient.Owns.update {entry : CreateClientCall} (hg : g.Owns calls t)
    (hk : ∀ e, calls k = some e → e.creator ≠ t) :
    g.Owns (Function.update calls k (some entry)) t := by
  have hkeep : ∀ k' e, calls k' = some e → e.creator = t →
      Function.update calls k (some entry) k' = some e := by
    intro k' e he hcreator
    have hne : k' ≠ k := by
      rintro rfl
      exact hk e he hcreator
    rw [Function.update_of_ne hne, he]
  simp only [GetClient.Owns] at hg ⊢
  split at hg
  · exact hkeep _ _ hg rfl
  · exact hkeep _ _ hg rfl
  · exact hkeep _ _ hg rfl
  · exact hkeep _ _ hg rfl
  · trivial

/-- A call owns the entry it has just given its result. -/
theorem GetClient.owns_setCall (hpc : g.pc = .finish call res) :
    g.Owns (Registry.setCall calls call ⟨t, some res, false⟩) t := by
  cases call with
  | none => simp [GetClient.Owns, hpc]
  | some k => simp [GetClient.Owns, hpc, Registry.setCall]

theorem GetClient.Owns.setCall {t' : Nat} {entry : CreateClientCall} {old : Option ClientRes}
    (hg : g.Owns calls t') (ht : t' ≠ t)
    (hcall : ∀ k, call = some k → calls k = some ⟨t, old, false⟩) :
    g.Owns (Registry.setCall calls call entry) t' := by
  cases call with
  | none => exact hg
  | some k =>
    refine hg.update fun e he => ?_
    obtain rfl := Option.some.inj ((hcall k rfl).symm.trans he)
    exact ht.symm

namespace Registry

/-! ## What holds of the calls -/

variable {u v u' : Registry α} {a : RegistryStep α} {addr : α} {e f : List Nat}

/-- What holds of the `getClient` calls in every state. -/
structure CallsOk (u : Registry α) : Prop where
  history : ∀ t g, u.gets t = some g →
    g.terminatedBefore ⊆ u.terminated ∧ g.failedBefore ⊆ u.failed
  owns : ∀ t g, u.gets t = some g → g.Owns u.calls t
  started : ∀ c ∈ u.terminated, (u.infos c).isSome

theorem callsOk_newRegistry : CallsOk (newRegistry α) where
  history := by simp [newRegistry]
  owns := by simp [newRegistry]
  started := by simp [newRegistry]

theorem CallsOk.entry_of_lock (hu : CallsOk u) (hg : u.gets t = some ⟨addr, .lock call, e, f⟩)
    (k : Nat) (hk : call = some k) : u.calls k = some ⟨t, none, false⟩ := by
  subst hk
  exact hu.owns t _ hg

theorem CallsOk.entry_of_dial (hu : CallsOk u) (hg : u.gets t = some ⟨addr, .dial call, e, f⟩)
    (k : Nat) (hk : call = some k) : u.calls k = some ⟨t, none, false⟩ := by
  subst hk
  exact hu.owns t _ hg

theorem CallsOk.entry_of_finish (hu : CallsOk u)
    (hg : u.gets t = some ⟨addr, .finish call res, e, f⟩) (k : Nat) (hk : call = some k) :
    u.calls k = some ⟨t, some res, false⟩ := by
  subst hk
  exact hu.owns t _ hg

/-- A new dial error is fresh for every call. -/
theorem fresh_dialErr (hu : CallsOk u) {attempt : Nat} (hnew : attempt ∉ u.failed)
    (hg : u.gets t = some g) : g.Fresh (.dialErr attempt) :=
  fun hmem => hnew ((hu.history t g hg).2 hmem)

/-- A new client is fresh for every call: it has not been started before. -/
theorem fresh_new (hu : CallsOk u) {c : Nat} (hc : u.infos c = none) (hg : u.gets t = some g) :
    g.Fresh (.client c) := by
  intro hmem
  have hsome := hu.started c ((hu.history t g hg).1 hmem)
  simp [hc] at hsome

/-- A call that moves on is the only one that changes. -/
theorem gets_cases {gets : Nat → Option (GetClient α)} {t' : Nat} {g' : GetClient α}
    (hg' : Function.update gets t (some g) t' = some g') :
    t' = t ∧ g' = g ∨ t' ≠ t ∧ gets t' = some g' := by
  by_cases ht : t' = t
  · subst ht
    rw [Function.update_self] at hg'
    exact .inl ⟨rfl, (Option.some.inj hg').symm⟩
  · rw [Function.update_of_ne ht] at hg'
    exact .inr ⟨ht, hg'⟩

/-- One call moves on; the entries change only where the other calls own nothing. -/
theorem CallsOk.move (hu : CallsOk u) (hgets : v.gets = Function.update u.gets t (some g))
    (hterminated : u.terminated ⊆ v.terminated) (hfailed : u.failed ⊆ v.failed)
    (hstarted : ∀ c ∈ v.terminated, (v.infos c).isSome)
    (hhistory : g.terminatedBefore ⊆ u.terminated ∧ g.failedBefore ⊆ u.failed)
    (howns : g.Owns v.calls t)
    (hothers : ∀ t' (g' : GetClient α), t' ≠ t → g'.Owns u.calls t' → g'.Owns v.calls t') :
    CallsOk v := by
  refine ⟨fun t' g' hg' => ?_, fun t' g' hg' => ?_, hstarted⟩
  · have hold : g'.terminatedBefore ⊆ u.terminated ∧ g'.failedBefore ⊆ u.failed := by
      rw [hgets] at hg'
      rcases gets_cases hg' with ⟨-, rfl⟩ | ⟨-, hg'⟩
      · exact hhistory
      · exact hu.history t' g' hg'
    exact ⟨List.Subset.trans hold.1 hterminated, List.Subset.trans hold.2 hfailed⟩
  · rw [hgets] at hg'
    rcases gets_cases hg' with ⟨rfl, rfl⟩ | ⟨ht, hg'⟩
    · exact howns
    · exact hothers t' g' ht (hu.owns t' g' hg')

/-- Clients go on, the calls do not. -/
theorem CallsOk.clientMoves (hu : CallsOk u) (hgets : v.gets = u.gets) (hcalls : v.calls = u.calls)
    (hterminated : u.terminated ⊆ v.terminated) (hfailed : v.failed = u.failed)
    (hstarted : ∀ c ∈ v.terminated, (v.infos c).isSome) : CallsOk v where
  history := by
    rw [hgets, hfailed]
    intro t g hg
    obtain ⟨hold, hfailed⟩ := hu.history t g hg
    exact ⟨List.Subset.trans hold hterminated, hfailed⟩
  owns := by
    rw [hgets, hcalls]
    exact hu.owns
  started := hstarted

theorem isSome_tell {c c' : Nat} (h : (u.infos c').isSome) : ((u.tell c).infos c').isSome := by
  by_cases hc : c' = c
  · subst hc
    simpa [tell] using h
  · simpa [tell, hc] using h

theorem isSome_update {infos : Nat → Option (ClientInfo α)} {c c' : Nat} {i : ClientInfo α}
    (h : c' ≠ c → (infos c').isSome) : (Function.update infos c (some i) c').isSome := by
  by_cases hc : c' = c
  · simp [hc]
  · simpa [hc] using h hc

/-! ## Stale results -/

/-- No call has returned, or waits for, a stale result. -/
def NoStale (u : Registry α) : Prop := ∀ t g, u.gets t = some g → g.UpToDate u.calls

/-- No call has returned a stale result. -/
def AllFresh (u : Registry α) : Prop :=
  ∀ t g res, u.gets t = some g → g.pc = .returned res → g.Fresh res

theorem noStale_newRegistry : NoStale (newRegistry α) := by
  simp [NoStale, newRegistry]

theorem allFresh_of_noStale (hu : NoStale u) : AllFresh u := by
  intro t g res hg hpc
  have hgood := hu t g hg
  simp only [GetClient.UpToDate, hpc] at hgood
  exact hgood

theorem noStale_of_allFresh
    (hreturned : ∀ t g, u.gets t = some g → ∃ res, g.pc = .returned res) (hu : AllFresh u) :
    NoStale u := by
  intro t g hg
  obtain ⟨res, hpc⟩ := hreturned t g hg
  simp only [GetClient.UpToDate, hpc]
  exact hu t g res hg hpc

/-- One call moves on: nothing becomes stale exactly when its new position is up to date and
    nothing becomes stale for the others. -/
theorem noStale_of_move {P : Prop} (hgets : v.gets = Function.update u.gets t (some g))
    (hself : g.UpToDate v.calls ↔ (∀ g', u.gets t = some g' → g'.UpToDate u.calls) ∧ P)
    (hothers : ∀ t' g', t' ≠ t → u.gets t' = some g' →
      (g'.UpToDate v.calls ↔ g'.UpToDate u.calls)) : NoStale v ↔ NoStale u ∧ P := by
  constructor
  · intro hv
    obtain ⟨hold, hP⟩ := hself.mp (hv t g (by simp [hgets]))
    refine ⟨fun t' g' hg' => ?_, hP⟩
    by_cases ht : t' = t
    · subst ht
      exact hold g' hg'
    · exact (hothers t' g' ht hg').mp (hv t' g' (by simp [hgets, ht, hg']))
  · rintro ⟨hu, hP⟩ t' g' hg'
    rw [hgets] at hg'
    rcases gets_cases hg' with ⟨rfl, rfl⟩ | ⟨ht, hg'⟩
    · exact hself.mpr ⟨fun g' hg' => hu t' g' hg', hP⟩
    · exact (hothers t' g' ht hg').mpr (hu t' g' hg')

/-- A call that was not about to return a stale result moves on to a position that is up to date
    exactly when `P` holds. -/
theorem noStale_of_arrival {g₀ : GetClient α} {P : Prop}
    (hgets : v.gets = Function.update u.gets t (some g)) (hg : u.gets t = some g₀)
    (hbefore : g₀.UpToDate u.calls) (hafter : g.UpToDate v.calls ↔ P)
    (hothers : ∀ t' g', t' ≠ t → u.gets t' = some g' →
      (g'.UpToDate v.calls ↔ g'.UpToDate u.calls)) : NoStale v ↔ NoStale u ∧ P := by
  refine noStale_of_move hgets (hafter.trans (iff_and_self.mpr fun _ g' hg' => ?_)) hothers
  obtain rfl := Option.some.inj (hg.symm.trans hg')
  exact hbefore

/-- A result that is fresh for the calls that wait for it does not make a call stale, nor does a
    change of an entry that keeps its result. -/
theorem upToDate_setCall {old : Option ClientRes} {done : Bool}
    (hk : ∀ k, call = some k → calls k = some ⟨t, old, false⟩)
    (hres : old = none ∧ (∀ k, call = some k → g.pc = .wait k → g.Fresh res) ∨ old = some res) :
    g.UpToDate (setCall calls call ⟨t, some res, done⟩) ↔ g.UpToDate calls := by
  cases call with
  | none => rfl
  | some k =>
    have hk := hk k rfl
    simp only [GetClient.UpToDate, setCall]
    split
    · rename_i k' hpc
      by_cases hkk : k' = k
      · subst hkk
        rcases hres with ⟨rfl, hfresh⟩ | rfl
        · simp [hk, hfresh k' rfl hpc]
        · simp [hk]
      · rw [Function.update_of_ne hkk]
    · rfl
    · rfl
    · rfl
    · rfl

/-- A new entry, which has no result, makes nothing stale. -/
theorem upToDate_newCall (hk : calls k = none) :
    g.UpToDate (Function.update calls k (some ⟨t, none, false⟩)) ↔ g.UpToDate calls := by
  simp only [GetClient.UpToDate]
  split
  · rename_i k' hpc
    by_cases hkk : k' = k
    · subst hkk
      simp [hk]
    · rw [Function.update_of_ne hkk]
  · rfl
  · rfl
  · rfl
  · rfl

variable [DecidableEq α]

theorem CallsOk.step (hu : CallsOk u) (h : Step u a u') : CallsOk u' := by
  have hself : ∀ l : List Nat, l ⊆ l := List.Subset.refl
  have hsame : ∀ t t' (g' : GetClient α), t' ≠ t → g'.Owns u.calls t' → g'.Owns u.calls t' :=
    fun (_ _ : Nat) _ _ h => h
  cases h with
  | getClient hnew | createClient hnew =>
    exact hu.move rfl (hself _) (hself _) hu.started ⟨hself _, hself _⟩ trivial (hsame _)
  | loadFound hg hfound | loadMissing hg hmissing | storeJoin hg hcall | wait hg hcall =>
    have hold := hu.history _ _ hg
    exact hu.move rfl (hself _) (hself _) hu.started hold trivial (hsame _)
  | storeNew hg hcall hnew =>
    have hold := hu.history _ _ hg
    -- the name of the new entry was free, so nobody owned it
    exact hu.move rfl (hself _) (hself _) hu.started hold (by simp [GetClient.Owns, setGet])
      fun _ _ _ h => h.update (by simp [hnew])
  | lockExited hg hmu hquit | lockFound hg hmu hquit hfound =>
    have hold := hu.history _ _ hg
    exact hu.move rfl (hself _) (hself _) hu.started hold (GetClient.owns_setCall rfl)
      fun t' g' ht h => h.setCall ht (hu.entry_of_lock hg)
  | @lockDial t call addr e f hg hmu hquit hmissing =>
    have hold := hu.history _ _ hg
    have howns := hu.owns _ _ hg
    exact hu.move rfl (hself _) (hself _) hu.started hold (by cases call <;> exact howns) (hsame _)
  | dialFail hg hnew =>
    have hold := hu.history _ _ hg
    exact hu.move rfl (hself _) (List.subset_append_left _ _) hu.started hold
      (GetClient.owns_setCall rfl) fun t' g' ht h => h.setCall ht (hu.entry_of_dial hg)
  | dialOk hg hnew =>
    have hold := hu.history _ _ hg
    exact hu.move rfl (hself _) (hself _) (fun c hc => isSome_update fun _ => hu.started c hc) hold
      (GetClient.owns_setCall rfl) fun t' g' ht h => h.setCall ht (hu.entry_of_dial hg)
  | @startReturnEarly t c call addr e f hg hnew =>
    have hold := hu.history _ _ hg
    refine hu.move rfl (List.subset_append_left _ _) (hself _) (fun c' hc' => ?_) hold ?_
      fun t' g' ht h => h.setCall ht (hu.entry_of_dial hg)
    · exact isSome_update fun hne => hu.started c' (by simpa [setGet, setRes, hne] using hc')
    · cases call <;> simp [GetClient.Owns, setRes, setCall, setGet]
  | @register t c call addr e f hg =>
    have hold := hu.history _ _ hg
    have howns := hu.owns _ _ hg
    exact hu.move rfl (hself _) (hself _) hu.started hold (by cases call <;> exact howns) (hsame _)
  | finish hg =>
    have hold := hu.history _ _ hg
    exact hu.move rfl (hself _) (hself _) hu.started hold trivial
      fun t' g' ht h => h.setCall ht (hu.entry_of_finish hg)
  | startReturn hi =>
    refine hu.clientMoves rfl rfl (List.subset_append_left _ _) rfl fun c' hc' => ?_
    exact isSome_update fun hne => hu.started c' (by simpa [hne] using hc')
  | removeClient hi hmu =>
    exact hu.clientMoves rfl rfl (hself _) rfl fun c' hc' =>
      isSome_update fun _ => hu.started c' hc'
  | stop hj hc | serveStop hserve hc =>
    exact hu.clientMoves rfl rfl (hself _) rfl fun c' hc' => isSome_tell (hu.started c' hc')
  | _ => exact { hu with }

/-! ## How a result becomes stale -/

/-- What the step finds for a call in one of the maps is not stale for it. -/
def FindsFresh (u : Registry α) : RegistryStep α → Prop
  /- the fast path -/
  | .load t => ∀ g c, u.gets t = some g → u.clients.lookup g.addr = some c → g.Fresh (.client c)
  | .store t _ => ∀ g k creator res done, u.gets t = some g →
      u.createClientCalls.lookup g.addr = some k →
      u.calls k = some ⟨creator, some res, done⟩ → g.Fresh res
  /- `createClient`, for its own call and for those that have joined its entry -/
  | .lock t => ∀ g c, u.gets t = some g → u.quit = false → u.clients.lookup g.addr = some c →
      g.Fresh (.client c) ∧ ∀ t' g' k, g.pc = .lock (some k) → u.gets t' = some g' →
        g'.pc = .wait k → g'.Fresh (.client c)
  | _ => True

/-- What `createClient` finds under the lock is for its own call and for those that wait for its
    entry. -/
theorem noStale_lockFound {c : Nat} (hu : CallsOk u)
    (hg : u.gets t = some ⟨addr, .lock call, e, f⟩) (hquit : u.quit = false)
    (hfound : u.clients.lookup addr = some c) :
    NoStale ((u.setRes t call (.client c) false).setGet t ⟨addr, .finish call (.client c), e, f⟩) ↔
      NoStale u ∧ FindsFresh u (.lock t) := by
  have hmove : (∀ t' g', u.gets t' = some g' → ∀ k, call = some k → g'.pc = .wait k →
      g'.Fresh (.client c)) → (NoStale ((u.setRes t call (.client c) false).setGet t
        ⟨addr, .finish call (.client c), e, f⟩) ↔
      NoStale u ∧ (⟨addr, .finish call (.client c), e, f⟩ : GetClient α).Fresh (.client c)) :=
    fun hwait => noStale_of_arrival rfl hg trivial Iff.rfl fun _ _ _ hg' =>
      upToDate_setCall (hu.entry_of_lock hg) (.inl ⟨rfl, hwait _ _ hg'⟩)
  constructor
  · intro hstale
    have hwait : ∀ t' g', u.gets t' = some g' → ∀ k, call = some k → g'.pc = .wait k →
        g'.Fresh (.client c) := by
      rintro t' g' hg' k rfl hpc
      have ht : t' ≠ t := by
        rintro rfl
        obtain rfl := Option.some.inj (hg.symm.trans hg')
        cases hpc
      have hgood := hstale t' g' (by simp [setGet, setRes, ht, hg'])
      simp only [GetClient.UpToDate, hpc] at hgood
      exact hgood t _ false (by simp [setGet, setRes, setCall])
    obtain ⟨hold, hfresh⟩ := (hmove hwait).mp hstale
    refine ⟨hold, fun g c' hg' _ hc' => ?_⟩
    obtain rfl := Option.some.inj (hg.symm.trans hg')
    obtain rfl := Option.some.inj (hfound.symm.trans hc')
    exact ⟨hfresh, fun t' g' k hk hg' hpc => hwait t' g' hg' k (GetPc.lock.inj hk) hpc⟩
  · rintro ⟨hold, hfinds⟩
    obtain ⟨hfresh, hwait⟩ := hfinds _ c hg hquit hfound
    exact (hmove fun t' g' hg' k hk hpc => hwait t' g' k (by rw [hk]) hg' hpc).mpr ⟨hold, hfresh⟩

/-- **One step**: nothing is stale behind it exactly when nothing was stale before and it finds
    nothing stale in the maps. -/
theorem Step.noStale_iff (hu : CallsOk u) (h : Step u a u') :
    NoStale u' ↔ NoStale u ∧ FindsFresh u a := by
  have hsame : ∀ t t' (g' : GetClient α), t' ≠ t → u.gets t' = some g' →
      (g'.UpToDate u.calls ↔ g'.UpToDate u.calls) := fun _ _ _ _ _ => Iff.rfl
  cases h with
  | getClient hnew | createClient hnew =>
    refine noStale_of_move rfl ?_ (hsame _)
    simp [hnew, GetClient.UpToDate, newGet, FindsFresh]
  | loadFound hg hfound =>
    refine noStale_of_arrival rfl hg trivial ⟨fun hfresh g c hg' hc => ?_, fun hfinds => ?_⟩
      (hsame _)
    · obtain rfl := Option.some.inj (hg.symm.trans hg')
      obtain rfl := Option.some.inj (hfound.symm.trans hc)
      exact hfresh
    · exact (hfinds _ _ hg hfound :)
  | loadMissing hg hmissing =>
    refine noStale_of_arrival rfl hg trivial (iff_of_true trivial fun g c hg' hc => ?_) (hsame _)
    obtain rfl := Option.some.inj (hg.symm.trans hg')
    exact absurd (hmissing.symm.trans hc) (by simp)
  | storeJoin hg hcall =>
    refine noStale_of_arrival rfl hg trivial ⟨?_, ?_⟩ (hsame _)
    · intro hfresh g k creator res done hg' hk hentry
      obtain rfl := Option.some.inj (hg.symm.trans hg')
      obtain rfl := Option.some.inj (hcall.symm.trans hk)
      exact hfresh creator res done hentry
    · intro hfinds creator res done hentry
      exact (hfinds _ _ creator res done hg hcall hentry :)
  | storeNew hg hcall hnew =>
    refine noStale_of_arrival rfl hg trivial (iff_of_true trivial ?_) fun _ _ _ _ =>
      upToDate_newCall hnew
    -- there is no entry to join
    intro g k creator res done hg' hk
    obtain rfl := Option.some.inj (hg.symm.trans hg')
    exact absurd (hcall.symm.trans hk) (by simp)
  | wait hg hcall =>
    refine noStale_of_move rfl ?_ (hsame _)
    simp only [hg, FindsFresh, Option.some.injEq, and_true]
    constructor
    -- the result that is returned is the one of the entry
    · rintro hfresh _ rfl creator res done hentry
      have hsame := congrArg CreateClientCall.res (Option.some.inj (hcall.symm.trans hentry))
      cases hsame
      exact hfresh
    · intro hfresh
      exact hfresh _ rfl _ _ _ hcall
  | lockExited hg hmu hquit =>
    refine noStale_of_arrival rfl hg trivial (iff_of_true trivial ?_) fun _ _ _ _ =>
      upToDate_setCall (hu.entry_of_lock hg) (.inl ⟨rfl, fun _ _ _ => trivial⟩)
    intro g c hg' hquit'
    exact absurd (hquit.symm.trans hquit') (by simp)
  | lockFound hg hmu hquit hfound => exact noStale_lockFound hu hg hquit hfound
  | lockDial hg hmu hquit hmissing =>
    refine noStale_of_arrival rfl hg trivial (iff_of_true trivial ?_) (hsame _)
    intro g c hg' hquit' hc
    obtain rfl := Option.some.inj (hg.symm.trans hg')
    exact absurd (hmissing.symm.trans hc) (by simp)
  | dialFail hg hnew =>
    have hfresh := fresh_dialErr hu hnew hg
    exact noStale_of_arrival rfl hg trivial (iff_of_true hfresh trivial) fun _ _ _ hg' =>
      upToDate_setCall (hu.entry_of_dial hg) (.inl ⟨rfl, fun _ _ _ => fresh_dialErr hu hnew hg'⟩)
  -- the client may end before it is registered, but not before the calls began that are there
  | dialOk hg hnew | startReturnEarly hg hnew =>
    have hfresh := fresh_new hu hnew hg
    exact noStale_of_arrival rfl hg trivial (iff_of_true hfresh trivial) fun _ _ _ hg' =>
      upToDate_setCall (hu.entry_of_dial hg) (.inl ⟨rfl, fun _ _ _ => fresh_new hu hnew hg'⟩)
  | register hg =>
    refine noStale_of_move rfl ?_ (hsame _)
    simp only [hg, FindsFresh, Option.some.injEq, and_true, forall_eq']
    exact Iff.rfl
  | finish hg =>
    refine noStale_of_move rfl ?_ fun _ _ _ _ =>
      upToDate_setCall (hu.entry_of_finish hg) (.inr rfl)
    simp only [hg, FindsFresh, Option.some.injEq, and_true, forall_eq']
    exact Iff.rfl
  | _ => exact (and_iff_left trivial).symm

/-- Nothing is stale exactly when no call found something stale for it in the maps. -/
theorem noStale_iff_runMeets {as : List (RegistryStep α)}
    (hrun : runFrom step (newRegistry α) as = some u) :
    NoStale u ↔ RunMeets step FindsFresh (newRegistry α) as := by
  constructor
  · intro hstale
    exact (runMeets_of_run CallsOk NoStale (fun _ _ _ hu h => hu.step (step_cases h))
      (fun _ _ _ hu h => (Step.noStale_iff hu (step_cases h)).mp) callsOk_newRegistry hrun
      hstale).2
  · intro hmeets
    have hstep : ∀ (v : Registry α) a v', CallsOk v ∧ NoStale v → FindsFresh v a →
        step v a = some v' → CallsOk v' ∧ NoStale v' := by
      rintro v a v' ⟨hv, hstale⟩ hfinds h
      exact ⟨hv.step (step_cases h), (Step.noStale_iff hv (step_cases h)).mpr ⟨hstale, hfinds⟩⟩
    exact (invariant_of_runMeets hstep ⟨callsOk_newRegistry, noStale_newRegistry⟩ hmeets hrun).2

/-- **`getClient` results**: when no call finds, on its way, a client in the map that had
    terminated before the call began, nor an entry of `createClientCalls` with such a client or
    with the error of a dial that had failed before the call began, no call returns such a client
    or error; and when the calls of a run have all returned, this is the only way in which none of
    them does. -/
theorem getClient_fresh {as : List (RegistryStep α)}
    (hrun : runFrom step (newRegistry α) as = some u) :
    (RunMeets step FindsFresh (newRegistry α) as → AllFresh u) ∧
      ((∀ t g, u.gets t = some g → ∃ res, g.pc = .returned res) →
        (AllFresh u ↔ RunMeets step FindsFresh (newRegistry α) as)) := by
  have hiff := noStale_iff_runMeets hrun
  refine ⟨fun hmeets => allFresh_of_noStale (hiff.mpr hmeets), fun hreturned => ?_⟩
  exact ⟨fun hfresh => hiff.mp (noStale_of_allFresh hreturned hfresh),
    fun hmeets => allFresh_of_noStale (hiff.mpr hmeets)⟩

/-- A dial that fails, and a later `getClient` call for the same address: the entry of
    `createClientCalls` is never deleted, so that the call is given the old error. -/
def failedDialRun : List (RegistryStep Nat) :=
  [.getClient 0 6379, .load 0, .store 0 0, .lock 0, .dialFail 0 0, .finish 0,
    .getClient 1 6379, .load 1, .store 1 1, .wait 1]

theorem failedDialRun_isSome : (runFrom step (newRegistry Nat) failedDialRun).isSome := by
  decide +kernel

/-- The second call of `failedDialRun` returns the error of a dial that failed before it began. -/
theorem not_allFresh_failedDialRun :
    Reachable step (newRegistry Nat) ((runFrom step _ _).get failedDialRun_isSome) ∧
      ¬ AllFresh ((runFrom step _ _).get failedDialRun_isSome) := by
  refine ⟨reachable_get _, fun hfresh => ?_⟩
  have hstale := hfresh 1 ⟨6379, .returned (.dialErr 0), [], [0]⟩ (.dialErr 0) rfl rfl
  exact hstale (by decide)

/-- `getClient_fresh` at `failedDialRun`, where the calls have all returned. -/
theorem getClient_fresh_failedDialRun :
    (∀ t g, ((runFrom step _ _).get failedDialRun_isSome).gets t = some g →
        ∃ res, g.pc = .returned res) ∧
      (AllFresh ((runFrom step _ _).get failedDialRun_isSome) ↔
        RunMeets step FindsFresh (newRegistry Nat) failedDialRun) := by
  have hreturned : ∀ t g, ((runFrom step _ _).get failedDialRun_isSome).gets t = some g →
      ∃ res, g.pc = .returned res := by
    rintro (_ | _ | t) g hg
    · exact ⟨.dialErr 0, by rw [← Option.some.inj hg]⟩
    · exact ⟨.dialErr 0, by rw [← Option.some.inj hg]⟩
    · cases hg
  exact ⟨hreturned, (getClient_fresh (Option.some_get failedDialRun_isSome).symm).2 hreturned⟩

end Registry

end Samaritan.Redis
