import Samaritan.HotKeys.Counter

/-!
# Keeping the Most Frequently Used Keys

The plain rule for the least frequently used key needs no nodes: the keys stand in one list with
their counts, in the order in which they reached them. A visit moves a key to the end with one
visit more; a new key goes to the end, and when there is no room for it, the first one of the keys
with the smallest count goes.
-/

namespace Samaritan.HotKeys

open Samaritan.Lib

/-! ## The plain rule -/

/-- Keys with their counts, in the order in which the counts were reached. -/
abbrev Lfu := List (Bytes × Nat)

namespace Lfu

/-- The first one of the entries with the smallest count. -/
def least (s : Lfu) : Option (Bytes × Nat) := s.find? fun e => s.all fun e' => e.2 ≤ e'.2

def evict (s : Lfu) : Lfu :=
  match s.least with
  | some e => s.erase e
  | none => s

def makeRoom (capacity : Nat) (s : Lfu) : Lfu := if capacity ≤ s.length then s.evict else s

def incr (capacity : Nat) (s : Lfu) (key : Bytes) : Lfu :=
  match s.find? fun e => e.1 = key with
  | some e => s.erase e ++ [(key, e.2 + 1)]
  | none => s.makeRoom capacity ++ [(key, 1)]

def step (capacity : Nat) (s : Lfu) : CounterOp → Lfu
  | .incr key => s.incr capacity key
  | .latch | .free => []

/-- The entries after a sequence of calls. -/
def after (capacity : Nat) (ops : List CounterOp) : Lfu := ops.foldl (step capacity) []

/-- The keys with a count, in the order in which they reached it. -/
def keysAt (s : Lfu) (n : Nat) : List Bytes := (s.filter fun e => e.2 = n).map Prod.fst

/-! ## Entries by count -/

variable {s : Lfu} {key k : Bytes} {n m : Nat} {e : Bytes × Nat} {capacity : Nat}

theorem mem_keysAt : k ∈ s.keysAt n ↔ (k, n) ∈ s := by
  simp only [keysAt, List.mem_map, List.mem_filter, decide_eq_true_eq, Prod.exists]
  constructor
  · rintro ⟨k', n', ⟨hmem, rfl⟩, rfl⟩
    exact hmem
  · intro hmem
    exact ⟨k, n, ⟨hmem, rfl⟩, rfl⟩

theorem keysAt_append {s' : Lfu} : keysAt (s ++ s') n = s.keysAt n ++ s'.keysAt n := by
  simp [keysAt]

theorem keysAt_singleton : keysAt [(key, m)] n = if m = n then [key] else [] := by
  by_cases h : m = n <;> simp [keysAt, h]

theorem keysAt_erase : keysAt (s.erase (key, m)) n =
    if n = m then (s.keysAt n).erase key else s.keysAt n := by
  induction s with
  | nil => simp [keysAt]
  | cons e s ih =>
    have hcons : ∀ t : Lfu, keysAt (e :: t) n = (if e.2 = n then [e.1] else []) ++ keysAt t n := by
      intro t
      by_cases he : e.2 = n <;> simp [keysAt, he]
    by_cases he : e = (key, m)
    · subst he
      rw [List.erase_cons_head, hcons]
      by_cases hn : n = m
      · subst hn
        simp
      · simp [hn, Ne.symm hn]
    · rw [List.erase_cons_tail (by simpa using he), hcons, hcons, ih]
      by_cases hn : n = m
      · subst hn
        by_cases hen : e.2 = n
        · have hek : e.1 ≠ key := fun hk => he (Prod.ext hk hen)
          simp [hen, hek]
        · simp [hen]
      · simp [hn]

theorem keysAt_sublist (s : Lfu) (n : Nat) : (s.keysAt n).Sublist (s.map Prod.fst) :=
  List.filter_sublist.map Prod.fst

/-- The keys with each count after a visit of a held key. -/
theorem keysAt_visit : keysAt (s.erase (k, n) ++ [(k, n + 1)]) m =
    (if m = n then (s.keysAt m).erase k else s.keysAt m) ++ if n + 1 = m then [k] else [] := by
  rw [keysAt_append, keysAt_erase, keysAt_singleton]

/-- Keys are held once. -/
def Distinct (s : Lfu) : Prop := (s.map Prod.fst).Nodup

theorem Distinct.eq_of_key (h : s.Distinct) {e e' : Bytes × Nat} (he : e ∈ s) (he' : e' ∈ s)
    (hkey : e.1 = e'.1) : e = e' := List.inj_on_of_nodup_map h he he' hkey

theorem Distinct.nodup (h : s.Distinct) : s.Nodup := h.of_map

theorem Distinct.erase (h : s.Distinct) (e : Bytes × Nat) : Distinct (s.erase e) :=
  h.sublist (List.erase_sublist.map Prod.fst)

/-- A visit leaves the keys. -/
theorem visit_perm (he : e ∈ s) :
    ((s.erase e ++ [(e.1, m)]).map Prod.fst).Perm (s.map Prod.fst) := by
  have hperm := (List.perm_cons_erase he).map Prod.fst
  rw [List.map_append, List.map_singleton]
  exact List.perm_append_comm.trans hperm.symm

/-- The first key of those with the smallest count is the one that goes. -/
theorem least_eq {ks : List Bytes} (hmin : ∀ e ∈ s, n ≤ e.2) (hks : s.keysAt n = k :: ks) :
    s.least = some (k, n) := by
  have hmem : (k, n) ∈ s := mem_keysAt.mp (by simp [hks])
  have hfilter : (s.filter fun e => s.all fun e' => e.2 ≤ e'.2) = s.filter fun e => e.2 = n := by
    apply List.filter_congr
    intro e he
    rw [Bool.eq_iff_iff]
    simp only [List.all_eq_true, decide_eq_true_eq]
    constructor
    · intro hall
      exact Nat.le_antisymm (hall _ hmem) (hmin e he)
    · rintro rfl
      exact hmin
  have hhead : ((s.filter fun e => e.2 = n).map Prod.fst).head? = some k := by
    show (s.keysAt n).head? = some k
    rw [hks, List.head?_cons]
  rw [least, ← List.head?_filter, hfilter]
  rw [List.head?_map, Option.map_eq_some_iff] at hhead
  obtain ⟨e, he, rfl⟩ := hhead
  have hen : e.2 = n := by simpa using (List.mem_filter.mp (List.mem_of_mem_head? he)).2
  rw [he, ← hen]

theorem Distinct.find?_key (h : s.Distinct) (he : e ∈ s) :
    (s.find? fun e' => e'.1 = e.1) = some e := by
  cases hfind : s.find? fun e' => e'.1 = e.1 with
  | none => simpa using List.find?_eq_none.mp hfind e he
  | some e' =>
    have hkey : e'.1 = e.1 := by simpa using List.find?_some hfind
    rw [h.eq_of_key (List.mem_of_find?_eq_some hfind) he hkey]

theorem not_mem_of_find?_eq_none (h : (s.find? fun e => e.1 = key) = none) :
    key ∉ s.map Prod.fst := by
  intro hmem
  obtain ⟨e, he, rfl⟩ := List.mem_map.mp hmem
  simpa using List.find?_eq_none.mp h e he

theorem evict_sublist : s.evict.Sublist s := by
  unfold evict
  cases s.least with
  | none => exact List.Sublist.refl s
  | some e => exact List.erase_sublist

theorem makeRoom_sublist : (s.makeRoom capacity).Sublist s := by
  unfold makeRoom
  split
  · exact evict_sublist
  · exact List.Sublist.refl s

/-! ## Visits since a key went in -/

theorem after_append (ops ops' : List CounterOp) :
    after capacity (ops ++ ops') = ops'.foldl (step capacity) (after capacity ops) :=
  List.foldl_append

/-- The key went in at some call of `ops`, stayed from then on, and was visited `n` times. -/
def VisitedSince (capacity : Nat) (ops : List CounterOp) (key : Bytes) (n : Nat) : Prop :=
  ∃ before behind, ops = before ++ .incr key :: behind ∧
    key ∉ (after capacity before).map Prod.fst ∧
    (∀ bs, bs <+: behind → key ∈ (after capacity (before ++ .incr key :: bs)).map Prod.fst) ∧
    n = 1 + behind.count (.incr key)

theorem Distinct.add (h : s.Distinct) (hk : k ∉ s.map Prod.fst) : Distinct (s ++ [(k, n)]) := by
  have hperm : ((s ++ [(k, n)]).map Prod.fst).Perm (k :: s.map Prod.fst) := by
    rw [List.map_append, List.map_singleton]
    exact List.perm_append_comm
  exact hperm.nodup_iff.mpr (List.nodup_cons.mpr ⟨hk, h⟩)

/-- What a call does to a key that is there after it: it was there before, with one visit less if
    the call visits it, or goes in. -/
theorem Distinct.mem_step {op : CounterOp} (hs : s.Distinct) (h : (k, n) ∈ s.step capacity op) :
    (∃ m, (k, m) ∈ s ∧ n = m + if op = .incr k then 1 else 0) ∨
      (op = .incr k ∧ k ∉ s.map Prod.fst ∧ n = 1) := by
  cases op with
  | latch | free => cases h
  | incr key =>
    replace h : (k, n) ∈ s.incr capacity key := h
    unfold incr at h
    cases hfind : s.find? fun e => e.1 = key with
    | some e =>
      have hkey : e.1 = key := by simpa using List.find?_some hfind
      rw [hfind] at h
      rcases List.mem_append.mp h with h | h
      · have hmem : (k, n) ∈ s := List.mem_of_mem_erase h
        -- the visited entry is the only one with its key, and it is taken out
        have hne : key ≠ k := by
          rintro rfl
          have heq := hs.eq_of_key hmem (List.mem_of_find?_eq_some hfind) hkey.symm
          rw [heq] at h
          exact hs.nodup.not_mem_erase h
        exact Or.inl ⟨n, hmem, by simp [hne]⟩
      · obtain ⟨rfl, rfl⟩ := Prod.mk.inj (List.mem_singleton.mp h)
        refine Or.inl ⟨e.2, ?_, by simp⟩
        rw [← hkey]
        exact List.mem_of_find?_eq_some hfind
    | none =>
      have hnew := not_mem_of_find?_eq_none hfind
      rw [hfind] at h
      rcases List.mem_append.mp h with h | h
      · have hmem : (k, n) ∈ s := makeRoom_sublist.mem h
        have hne : key ≠ k := by
          rintro rfl
          exact hnew (List.mem_map_of_mem hmem)
        exact Or.inl ⟨n, hmem, by simp [hne]⟩
      · obtain ⟨rfl, rfl⟩ := Prod.mk.inj (List.mem_singleton.mp h)
        exact Or.inr ⟨rfl, hnew, rfl⟩

theorem Distinct.step (h : s.Distinct) (op : CounterOp) : Distinct (s.step capacity op) := by
  cases op with
  | latch | free => exact List.nodup_nil
  | incr key =>
    show Distinct (s.incr capacity key)
    unfold incr
    cases hfind : s.find? fun e => e.1 = key with
    | some e =>
      obtain rfl : e.1 = key := by simpa using List.find?_some hfind
      exact (visit_perm (List.mem_of_find?_eq_some hfind)).nodup_iff.mpr h
    | none =>
      have hsub : (s.makeRoom capacity).Sublist s := makeRoom_sublist
      refine Distinct.add (h.sublist (hsub.map Prod.fst)) fun hmem => ?_
      exact not_mem_of_find?_eq_none hfind ((hsub.map Prod.fst).mem hmem)

theorem after_concat (ops : List CounterOp) (op : CounterOp) :
    after capacity (ops ++ [op]) = (after capacity ops).step capacity op := by
  rw [after_append]
  rfl

theorem distinct_after (ops : List CounterOp) : (after capacity ops).Distinct := by
  induction ops using List.reverseRecOn with
  | nil => exact List.nodup_nil
  | append_singleton ops op ih =>
    rw [after_concat]
    exact ih.step op

/-- The count of an entry is the number of visits since its key went in. -/
theorem visitedSince_of_mem {ops : List CounterOp} (h : (k, n) ∈ after capacity ops) :
    VisitedSince capacity ops k n := by
  induction ops using List.reverseRecOn generalizing n with
  | nil => cases h
  | append_singleton ops op ih =>
    have hstep := h
    rw [after_concat] at hstep
    rcases (distinct_after ops).mem_step hstep with ⟨m, hm, rfl⟩ | ⟨rfl, hnew, rfl⟩
    · obtain ⟨before, behind, rfl, hnew, hheld, rfl⟩ := ih hm
      refine ⟨before, behind ++ [op], by simp, hnew, fun bs hbs => ?_, ?_⟩
      · rcases List.prefix_concat_iff.mp hbs with rfl | hbs
        · rw [← List.cons_append, ← List.append_assoc]
          exact List.mem_map_of_mem h
        · exact hheld bs hbs
      · rw [List.count_append, List.count_singleton, Nat.add_assoc]
        simp
    · refine ⟨ops, [], rfl, hnew, fun bs hbs => ?_, rfl⟩
      obtain rfl := List.prefix_nil.mp hbs
      exact List.mem_map_of_mem h

/-- The entries after visits of one key. -/
theorem after_replicate (hcap : 1 ≤ capacity) (key : Bytes) (n : Nat) :
    after capacity (List.replicate (n + 1) (.incr key)) = [(key, n + 1)] := by
  induction n with
  | zero =>
    show makeRoom capacity [] ++ [(key, 1)] = _
    rw [makeRoom, if_neg (by simp; omega)]
    rfl
  | succ n ih =>
    rw [List.replicate_succ', after_concat, ih]
    simp [step, incr]

end Lfu

end Samaritan.HotKeys
