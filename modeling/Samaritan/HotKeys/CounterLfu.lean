import Samaritan.HotKeys.CounterLists
import Samaritan.HotKeys.Lfu
import Samaritan.Lib.Machine

/-!
# Counters Keep the Most Frequently Used Keys

The lists of a counter are the list of the plain rule sorted into groups by count. The counts of a
counter are 64-bit numbers: it follows the rule as long as none of them runs over.
-/

namespace Samaritan.HotKeys

open Samaritan.Lib

namespace Counter

open Lfu

/-! ## Counters and the plain rule -/

/-- The count of a frequency node. -/
def count (c : Counter) (n : Nat) : Nat := (c.freqs n).freq.toNat

/-- The keys of the frequency nodes with a count. -/
def groupAt (c : Counter) (gs : List (Nat × List Nat)) (m : Nat) : List Bytes :=
  (gs.filter fun g => c.count g.1 = m).flatMap fun g => g.2.map fun i => (c.nodes i).key

/-- The nodes of a counter hold the entries of the plain rule. The frequency nodes that are reached
    from the head are linked both ways, none is empty, and they ascend; a key is in the map exactly
    when it is the key of an item in one of the lists, and there is one item with it. The keys of
    each node are those with its count, in the order in which they got there. -/
structure Holds (c : Counter) (gs : List (Nat × List Nat)) (s : Lfu) : Prop where
  shaped : c.Shaped gs
  head : c.freqHead = (gs.map Prod.fst).head?
  nonempty : ∀ g ∈ gs, g.2 ≠ []
  ascending : (gs.map fun g => c.count g.1).Pairwise (· < ·)
  items : ∀ k i, c.items.lookup k = some i ↔ i ∈ gs.flatMap Prod.snd ∧ (c.nodes i).key = k
  keys : ∀ m, c.groupAt gs m = s.keysAt m
  distinct : s.Distinct
  positive : ∀ e ∈ s, 0 < e.2
  room : s.length ≤ c.capacity.toNat

variable {c c' : Counter} {gs as bs : List (Nat × List Nat)} {s : Lfu} {n i m : Nat} {k : Bytes}
  {is : List Nat}

theorem groupAt_append : c.groupAt (as ++ bs) m = c.groupAt as m ++ c.groupAt bs m := by
  simp [groupAt]

theorem groupAt_cons : c.groupAt ((n, is) :: gs) m =
    (if c.count n = m then is.map fun i => (c.nodes i).key else []) ++ c.groupAt gs m := by
  by_cases h : c.count n = m <;> simp [groupAt, h]

theorem groupAt_kept : c.groupAt (kept n is) m =
    if c.count n = m then is.map fun i => (c.nodes i).key else [] := by
  cases is with
  | nil => simp [groupAt]
  | cons i is =>
    rw [kept_cons, groupAt_cons]
    simp [groupAt]

theorem groupAt_eq_nil (h : ∀ g ∈ gs, c.count g.1 ≠ m) : c.groupAt gs m = [] := by
  have hfilter : gs.filter (fun g => c.count g.1 = m) = [] := by
    rw [List.filter_eq_nil_iff]
    intro g hg
    simpa using h g hg
  rw [groupAt, hfilter, List.flatMap_nil]

theorem flatMap_kept : (kept n is).flatMap Prod.snd = is := by
  cases is <;> simp

/-- What a group says about counts when the nodes that are there keep their counts. -/
theorem groupAt_congr (h : SameKeys c c') (hgs : ∀ g ∈ gs, g.1 < c.freshFreq) :
    c'.groupAt gs m = c.groupAt gs m := by
  have hcount : ∀ g ∈ gs, c'.count g.1 = c.count g.1 := by
    intro g hg
    rw [count, count, h.freq g.1 (hgs g hg)]
  have hfilter : gs.filter (fun g => c'.count g.1 = m) = gs.filter fun g => c.count g.1 = m := by
    apply List.filter_congr
    intro g hg
    rw [hcount g hg]
  rw [groupAt, groupAt, hfilter]
  simp only [h.key]

theorem mem_groupAt : k ∈ c.groupAt gs m ↔
    ∃ g ∈ gs, c.count g.1 = m ∧ ∃ i ∈ g.2, (c.nodes i).key = k := by
  simp only [groupAt, List.mem_flatMap, List.mem_filter, List.mem_map, decide_eq_true_eq]
  constructor
  · rintro ⟨g, ⟨hg, hm⟩, i, hi, hk⟩
    exact ⟨g, hg, hm, i, hi, hk⟩
  · rintro ⟨g, hg, hm, i, hi, hk⟩
    exact ⟨g, ⟨hg, hm⟩, i, hi, hk⟩

/-- The entries are the keys of the items with the counts of their nodes. -/
theorem Holds.mem_iff (h : Holds c gs s) :
    (k, m) ∈ s ↔ ∃ g ∈ gs, c.count g.1 = m ∧ ∃ i ∈ g.2, (c.nodes i).key = k := by
  rw [← mem_keysAt, ← h.keys, mem_groupAt]

theorem SameKeys.count_eq (h : SameKeys c c') (hn : n < c.freshFreq) : c'.count n = c.count n := by
  rw [count, count, h.freq n hn]

/-- Where the counts of the other nodes stand. -/
theorem Holds.counts (h : Holds c (as ++ (n, is) :: bs) s) :
    (∀ g ∈ as, c.count g.1 < c.count n) ∧ (∀ g ∈ bs, c.count n < c.count g.1) ∧
      (bs.map fun g => c.count g.1).Pairwise (· < ·) := by
  have hasc := h.ascending
  rw [List.map_append, List.map_cons, List.pairwise_append, List.pairwise_cons] at hasc
  obtain ⟨-, ⟨hbs, hpair⟩, has⟩ := hasc
  refine ⟨fun g hg => ?_, fun g hg => ?_, hpair⟩
  · exact has _ (List.mem_map_of_mem hg) _ List.mem_cons_self
  · exact hbs _ (List.mem_map_of_mem hg)

/-- A count that does not run over. -/
theorem toNat_succ {a : UInt64} (h : a + 1 ≠ 0) : (a + 1).toNat = a.toNat + 1 := by
  have hadd : (a + 1).toNat = (a.toNat + 1) % 2 ^ 64 := UInt64.toNat_add a 1
  have hlt := a.toNat_lt
  by_cases hmax : a.toNat + 1 < 2 ^ 64
  · rw [hadd, Nat.mod_eq_of_lt hmax]
  · refine absurd (UInt64.toNat_inj.mp ?_) h
    rw [hadd, show a.toNat + 1 = 2 ^ 64 by omega, Nat.mod_self]
    rfl

/-- The node for one visit more holds the keys with this count, and the nodes behind it have
    larger counts. -/
theorem Holds.target (h : Holds c (as ++ (n, is) :: bs) s) {t : Nat} {js : List Nat}
    {bs' : List (Nat × List Nat)} (ht : Target c n bs t js bs')
    (hwrap : (c.freqs n).freq + 1 ≠ 0)
    (hfreq : t < c.freshFreq → (c.freqs t).freq = (c.freqs n).freq + 1) :
    (∀ g ∈ bs', c.count n + 1 < c.count g.1) ∧ (bs'.map fun g => c.count g.1).Pairwise (· < ·) ∧
      (∀ m, c.groupAt bs m =
        (if c.count n + 1 = m then js.map fun i => (c.nodes i).key else []) ++ c.groupAt bs' m) ∧
      bs.flatMap Prod.snd = js ++ bs'.flatMap Prod.snd ∧ ∀ g ∈ bs', g ∈ bs := by
  obtain ⟨-, hbs, hpair⟩ := h.counts
  have hsucc := toNat_succ hwrap
  cases ht with
  | next _ _ hnext =>
    subst hnext
    have hcount : c.count t = c.count n + 1 := by
      rw [count, hfreq (h.shaped.fresh (t, js) (by simp)), hsucc]
      rfl
    rw [List.map_cons, List.pairwise_cons] at hpair
    refine ⟨fun g hg => ?_, hpair.2, fun m => ?_, rfl, fun g hg => List.mem_cons_of_mem _ hg⟩
    · rw [← hcount]
      exact hpair.1 _ (List.mem_map_of_mem hg)
    · rw [groupAt_cons, hcount]
  | new hfresh hhead =>
    refine ⟨fun g hg => ?_, hpair, fun m => by simp, rfl, fun g hg => hg⟩
    cases bs with
    | nil => cases hg
    | cons g₀ bs =>
      -- the first node has a larger count, and not the next one
      have hfirst : c.count n + 1 < c.count g₀.1 := by
        have hlt := hbs g₀ (by simp)
        have hne : c.count g₀.1 ≠ c.count n + 1 := by
          intro heq
          apply hhead g₀ rfl
          rw [← UInt64.toNat_inj, hsucc]
          exact heq
        omega
      rw [List.map_cons, List.pairwise_cons] at hpair
      rcases List.mem_cons.mp hg with rfl | hg
      · exact hfirst
      · exact hfirst.trans (hpair.1 _ (List.mem_map_of_mem hg))

variable {ys zs : List Nat}

/-- The lists behind a visit hold the keys with each count. -/
theorem Holds.visit_keys (h : Holds c (as ++ (n, ys ++ i :: zs) :: bs) s) {t : Nat} {js : List Nat}
    {bs' : List (Nat × List Nat)} (hkeys : SameKeys c c') (ht : Target c n bs t js bs')
    (hwrap : (c.freqs n).freq + 1 ≠ 0) (hfreq : (c'.freqs t).freq = (c.freqs n).freq + 1)
    (m : Nat) :
    c'.groupAt (as ++ kept n (ys ++ zs) ++ (t, js ++ [i]) :: bs') m =
      keysAt (s.erase ((c.nodes i).key, c.count n) ++ [((c.nodes i).key, c.count n + 1)]) m := by
  obtain ⟨has, -, -⟩ := h.counts
  obtain ⟨hbs', -, hgroup, -, hsub⟩ :=
    h.target ht hwrap fun hlt => (hkeys.freq t hlt).symm.trans hfreq
  have hfresh := h.shaped.fresh
  have hcountn : c'.count n = c.count n := hkeys.count_eq (hfresh (n, ys ++ i :: zs) (by simp))
  have hcountt : c'.count t = c.count n + 1 := by
    rw [count, hfreq, toNat_succ hwrap]
    rfl
  have hold : s.keysAt m = c.groupAt as m ++
      ((if c.count n = m then (ys ++ i :: zs).map fun i => (c.nodes i).key else []) ++
        ((if c.count n + 1 = m then js.map fun i => (c.nodes i).key else []) ++
          c.groupAt bs' m)) := by
    rw [← h.keys, groupAt_append, groupAt_cons, hgroup]
  have hnew : c'.groupAt (as ++ kept n (ys ++ zs) ++ (t, js ++ [i]) :: bs') m = c.groupAt as m ++
      (if c.count n = m then (ys ++ zs).map fun i => (c.nodes i).key else []) ++
        ((if c.count n + 1 = m then (js ++ [i]).map fun i => (c.nodes i).key else []) ++
          c.groupAt bs' m) := by
    rw [groupAt_append, groupAt_append, groupAt_cons, groupAt_kept, hcountn, hcountt,
      groupAt_congr hkeys fun g hg => hfresh g (List.mem_append_left _ hg),
      groupAt_congr hkeys fun g hg => hfresh g (by simp [hsub g hg])]
    simp only [hkeys.key]
  rw [hnew, keysAt_visit]
  by_cases hm : m = c.count n
  · -- the keys that are left with the count
    subst hm
    have hasnil : c.groupAt as (c.count n) = [] :=
      groupAt_eq_nil fun g hg => Nat.ne_of_lt (has g hg)
    have hbsnil : c.groupAt bs' (c.count n) = [] :=
      groupAt_eq_nil fun g hg => Nat.ne_of_gt (Nat.lt_of_succ_lt (hbs' g hg))
    have hnodup : (s.keysAt (c.count n)).Nodup := h.distinct.sublist (keysAt_sublist s _)
    rw [hasnil, hbsnil] at hold ⊢
    simp only [Nat.succ_ne_self, if_true, if_false, List.nil_append, List.append_nil] at hold ⊢
    rw [hold] at hnodup ⊢
    simp only [List.map_append, List.map_cons] at hnodup ⊢
    rw [List.erase_append_right, List.erase_cons_head]
    intro hmem
    exact (List.nodup_append.1 hnodup).2.2 _ hmem _ List.mem_cons_self rfl
  · have hm₀ : ¬c.count n = m := Ne.symm hm
    rw [if_neg hm, hold]
    by_cases hm' : c.count n + 1 = m
    · -- the keys that have the next count, the visited one last
      have hbsnil : c.groupAt bs' m = [] :=
        groupAt_eq_nil fun g hg => by rw [← hm']; exact Nat.ne_of_gt (hbs' g hg)
      simp [hm₀, hm', hbsnil]
    · simp [hm₀, hm']

theorem mem_kept {g : Nat × List Nat} : g ∈ kept n is ↔ g = (n, is) ∧ is ≠ [] := by
  unfold kept
  by_cases h : is = [] <;> simp [h]

theorem Holds.visit_ascending (h : Holds c (as ++ (n, ys ++ i :: zs) :: bs) s) {t : Nat}
    {js : List Nat} {bs' : List (Nat × List Nat)} (hkeys : SameKeys c c')
    (ht : Target c n bs t js bs') (hwrap : (c.freqs n).freq + 1 ≠ 0)
    (hfreq : (c'.freqs t).freq = (c.freqs n).freq + 1) :
    ((as ++ kept n (ys ++ zs) ++ (t, js ++ [i]) :: bs').map fun g => c'.count g.1).Pairwise
      (· < ·) := by
  obtain ⟨has, -, -⟩ := h.counts
  obtain ⟨hbs', hpair, -, -, hsub⟩ :=
    h.target ht hwrap fun hlt => (hkeys.freq t hlt).symm.trans hfreq
  -- the numbers of visits of the old nodes are the same as before
  have hold : ∀ g ∈ as ++ (n, ys ++ i :: zs) :: bs, c'.count g.1 = c.count g.1 :=
    fun g hg => hkeys.count_eq (h.shaped.fresh g hg)
  have hcountt : c'.count t = c.count n + 1 := by
    rw [count, hfreq, toNat_succ hwrap]
    rfl
  have hcountn : c'.count n = c.count n := hold (n, ys ++ i :: zs) (by simp)
  have hcountas : ∀ g ∈ as, c'.count g.1 = c.count g.1 := fun g hg => hold g (by simp [hg])
  have hcountbs : ∀ g ∈ bs', c'.count g.1 = c.count g.1 := fun g hg => hold g (by simp [hsub g hg])
  have hasc : (as.map fun g => c'.count g.1).Pairwise (· < ·) := by
    rw [List.map_congr_left hcountas]
    have hall := h.ascending
    rw [List.map_append, List.pairwise_append] at hall
    exact hall.1
  have hkept : ((kept n (ys ++ zs)).map fun g => c'.count g.1).Pairwise (· < ·) := by
    unfold kept
    by_cases hnil : ys ++ zs = [] <;> simp [hnil]
  -- the target is the first node behind the old node of the item
  have hlt : ∀ a ∈ as ++ kept n (ys ++ zs), c'.count a.1 ≤ c.count n := by
    intro a ha
    rcases List.mem_append.mp ha with ha | ha
    · rw [hcountas a ha]
      exact (has a ha).le
    · obtain ⟨rfl, -⟩ := mem_kept.mp ha
      exact hcountn.le
  rw [List.map_append, List.pairwise_append, List.map_append, List.pairwise_append, List.map_cons,
    List.pairwise_cons]
  refine ⟨⟨hasc, hkept, ?_⟩, ⟨?_, ?_⟩, ?_⟩
  · intro a ha b hb
    obtain ⟨g, hg, rfl⟩ := List.mem_map.mp ha
    obtain ⟨g', hg', rfl⟩ := List.mem_map.mp hb
    obtain ⟨rfl, -⟩ := mem_kept.mp hg'
    show c'.count g.1 < c'.count n
    rw [hcountas g hg, hcountn]
    exact has g hg
  · intro b hb
    obtain ⟨g, hg, rfl⟩ := List.mem_map.mp hb
    show c'.count t < c'.count g.1
    rw [hcountt, hcountbs g hg]
    exact hbs' g hg
  · rw [List.map_congr_left hcountbs]
    exact hpair
  · intro a ha b hb
    rw [← List.map_append] at ha
    obtain ⟨g, hg, rfl⟩ := List.mem_map.mp ha
    have hle := hlt g hg
    rcases List.mem_cons.mp hb with rfl | hb
    · show c'.count g.1 < c'.count t
      omega
    · obtain ⟨g', hg', rfl⟩ := List.mem_map.mp hb
      have hlarge := hbs' g' hg'
      show c'.count g.1 < c'.count g'.1
      rw [hcountbs g' hg']
      omega

/-- A visit of a held key. -/
theorem Holds.increment (h : Holds c (as ++ (n, ys ++ i :: zs) :: bs) s)
    (hwrap : (c.freqs n).freq + 1 ≠ 0) :
    ∃ c' gs', c.increment i = some c' ∧ c'.capacity = c.capacity ∧
      Holds c' gs'
        (s.erase ((c.nodes i).key, c.count n) ++ [((c.nodes i).key, c.count n + 1)]) := by
  obtain ⟨c', t, js, bs', hc', htarget, hshaped, hhead, hkeys, hfreq⟩ := h.shaped.increment h.head
  obtain ⟨-, -, -, hflat, hsub⟩ :=
    h.target htarget hwrap fun hlt => (hkeys.freq t hlt).symm.trans hfreq
  have hmem : ((c.nodes i).key, c.count n) ∈ s := by
    rw [h.mem_iff]
    exact ⟨(n, ys ++ i :: zs), by simp, rfl, i, by simp, rfl⟩
  refine ⟨c', _, hc', hkeys.capacity, hshaped, hhead, ?_,
    h.visit_ascending hkeys htarget hwrap hfreq, ?_,
    h.visit_keys hkeys htarget hwrap hfreq, ?_, ?_, ?_⟩
  · intro g hg
    simp only [List.mem_append, List.mem_cons, mem_kept] at hg
    rcases hg with (hg | ⟨rfl, hne⟩) | rfl | hg
    · exact h.nonempty g (by simp [hg])
    · exact hne
    · exact List.append_ne_nil_of_right_ne_nil _ (List.cons_ne_nil _ _)
    · exact h.nonempty g (by simp [hsub g hg])
  · -- the same items stand in the lists
    intro k j
    rw [hkeys.items, hkeys.key, h.items]
    simp only [List.flatMap_append, List.flatMap_cons, flatMap_kept, hflat, List.mem_append,
      List.mem_cons, List.not_mem_nil, or_false]
    tauto
  · exact (visit_perm hmem).nodup_iff.mpr h.distinct
  · intro e he
    rcases List.mem_append.mp he with he | he
    · exact h.positive e (List.mem_of_mem_erase he)
    · rw [List.mem_singleton.mp he]
      exact Nat.succ_pos _
  · have hlen := (visit_perm (m := c.count n + 1) hmem).length_eq
    rw [List.length_map, List.length_map] at hlen
    rw [hlen, hkeys.capacity]
    exact h.room

/-! ## Eviction -/

theorem Holds.mem_flatMap (h : Holds c gs s) (hi : i ∈ gs.flatMap Prod.snd) :
    ∃ m, ((c.nodes i).key, m) ∈ s := by
  obtain ⟨g, hg, hig⟩ := List.mem_flatMap.mp hi
  exact ⟨c.count g.1, h.mem_iff.mpr ⟨g, hg, rfl, i, hig, rfl⟩⟩

/-- The map leads from each key to its item. -/
theorem Holds.indexes (h : Holds c gs s) :
    Indexes (fun i => (c.nodes i).key) c.items (gs.flatMap Prod.snd) := h.items

/-- The first item of the first node has the least key. -/
theorem Holds.least (h : Holds c ((n, i :: is) :: gs) s) :
    s.least = some ((c.nodes i).key, c.count n) := by
  have h₀ : Holds c ([] ++ (n, i :: is) :: gs) s := h
  obtain ⟨-, hlt, -⟩ := h₀.counts
  have hks : s.keysAt (c.count n) =
      (c.nodes i).key :: ((is.map fun i => (c.nodes i).key) ++ c.groupAt gs (c.count n)) := by
    rw [← h.keys, groupAt_cons, if_pos rfl]
    rfl
  refine least_eq ?_ hks
  rintro ⟨k, m⟩ he
  obtain ⟨g, hg, rfl, -⟩ := h.mem_iff.mp he
  rcases List.mem_cons.mp hg with rfl | hg
  · exact le_rfl
  · exact (hlt g hg).le

/-- A counter with entries has a first item. -/
theorem Holds.exists_first (h : Holds c gs s) (hs : 0 < s.length) :
    ∃ n i is gs₀, gs = (n, i :: is) :: gs₀ := by
  cases gs with
  | nil =>
    obtain ⟨⟨k, m⟩, he⟩ := List.exists_mem_of_length_pos hs
    obtain ⟨g, hg, -⟩ := h.mem_iff.mp he
    cases hg
  | cons g gs =>
    obtain ⟨i, is, hg⟩ := List.exists_cons_of_ne_nil (h.nonempty g List.mem_cons_self)
    exact ⟨g.1, i, is, gs, by rw [← hg]⟩

theorem Holds.evict (h : Holds c ((n, i :: is) :: gs) s) :
    ∃ c' gs', c.evict = some c' ∧ c'.capacity = c.capacity ∧ Holds c' gs' s.evict := by
  obtain ⟨c', hc', hshaped, hhead, hkeys⟩ := h.shaped.evict h.head
  have hfresh : ∀ g ∈ kept n is ++ gs, g.1 < c.freshFreq := by
    intro g hg
    simp only [List.mem_append, mem_kept] at hg
    rcases hg with ⟨rfl, -⟩ | hg
    · exact h.shaped.fresh (n, i :: is) (by simp)
    · exact h.shaped.fresh g (by simp [hg])
  have hcount : ∀ g ∈ kept n is ++ gs, c'.count g.1 = c.count g.1 :=
    fun g hg => hkeys.count_eq (hfresh g hg)
  have hnodup := h.shaped.nodupItems
  rw [List.flatMap_cons, List.cons_append, List.nodup_cons] at hnodup
  -- the least entry is the first item of the first node
  have hevict : s.evict = s.erase ((c.nodes i).key, c.count n) := by
    rw [Lfu.evict, h.least]
  rw [hevict]
  -- the fields of `Holds` in turn, for the list without the entry
  refine ⟨c', _, hc', hkeys.capacity, hshaped, hhead, ?_, ?_, ?_, ?_, h.distinct.erase _, ?_, ?_⟩
  · intro g hg
    simp only [List.mem_append, mem_kept] at hg
    rcases hg with ⟨rfl, hne⟩ | hg
    · exact hne
    · exact h.nonempty g (by simp [hg])
  · rw [List.map_congr_left hcount]
    refine h.ascending.sublist ?_
    show ((kept n is ++ gs).map _).Sublist (c.count n :: gs.map _)
    unfold kept
    by_cases hnil : is = [] <;> simp [hnil]
  · intro k j
    rw [hkeys.items, hkeys.key, List.flatMap_append, flatMap_kept]
    exact h.indexes.erase hnodup.1 (fun j => by simp) k j
  · intro m
    rw [groupAt_congr hkeys hfresh, keysAt_erase, ← h.keys, groupAt_cons]
    show c.groupAt (kept n is ++ gs) m = _
    rw [groupAt_append, groupAt_kept]
    by_cases hm : m = c.count n
    · simp [hm]
    · simp [hm, Ne.symm hm]
  · exact fun e he => h.positive e (List.mem_of_mem_erase he)
  · rw [hkeys.capacity]
    exact (List.erase_sublist.length_le).trans h.room

/-! ## New keys -/

theorem Holds.allocItem (h : Holds c gs s) (key : Bytes) : Holds (c.allocItem key) gs s := by
  have hnode : ∀ g ∈ gs, ∀ j ∈ g.2, ((c.allocItem key).nodes j).key = (c.nodes j).key := by
    intro g hg j hj
    have hne : j ≠ c.freshItem := Nat.ne_of_lt (h.shaped.freshItems g hg j hj)
    simp [Counter.allocItem, hne]
  refine ⟨h.shaped.allocItem key, h.head, h.nonempty, h.ascending, fun k j => ?_, fun m => ?_,
    h.distinct, h.positive, h.room⟩
  · refine (h.items k j).trans (and_congr_right fun hj => ?_)
    obtain ⟨g, hg, hj⟩ := List.mem_flatMap.mp hj
    rw [hnode g hg j hj]
  · rw [← h.keys, groupAt, groupAt]
    refine List.flatMap_congr fun g hg => List.map_congr_left fun j hj => ?_
    exact hnode g (List.mem_of_mem_filter hg) j hj

/-- The nodes stand for visits. -/
theorem Holds.count_pos (h : Holds c gs s) {g : Nat × List Nat} (hg : g ∈ gs) :
    0 < c.count g.1 := by
  obtain ⟨i, hi⟩ := List.exists_mem_of_ne_nil _ (h.nonempty g hg)
  exact h.positive _ (h.mem_iff.mpr ⟨g, hg, rfl, i, hi, rfl⟩)

/-- The nodes behind the one for a single visit stand for more. -/
theorem Holds.added (h : Holds c gs s) {gs' : List (Nat × List Nat)}
    (hadded : Added c i gs n gs') :
    ∃ is gs₀, gs' = (n, is ++ [i]) :: gs₀ ∧ (∀ g ∈ gs₀, g ∈ gs ∧ 1 < c.count g.1) ∧
      (gs₀.map fun g => c.count g.1).Pairwise (· < ·) ∧
      (∀ m, c.groupAt gs m =
        (if 1 = m then is.map fun i => (c.nodes i).key else []) ++ c.groupAt gs₀ m) ∧
      gs.flatMap Prod.snd = is ++ gs₀.flatMap Prod.snd := by
  cases hadded with
  | head _ is gs₀ hone =>
    have h₀ : Holds c ([] ++ (n, is) :: gs₀) s := h
    obtain ⟨-, hlt, hpair⟩ := h₀.counts
    have hcount : c.count n = 1 := by
      rw [count, hone]
      rfl
    refine ⟨is, gs₀, rfl, fun g hg => ⟨by simp [hg], ?_⟩, hpair, fun m => ?_, rfl⟩
    · rw [← hcount]
      exact hlt g hg
    · rw [groupAt_cons, hcount]
  | new _ _ _ hhead =>
    refine ⟨[], gs, rfl, fun g hg => ⟨hg, ?_⟩, h.ascending, fun m => by simp, rfl⟩
    cases gs with
    | nil => cases hg
    | cons g₀ gs =>
      -- the first node stands for some visits, and not for one
      have hfirst : 1 < c.count g₀.1 := by
        have hpos := h.count_pos (g := g₀) (by simp)
        have hne : c.count g₀.1 ≠ 1 := by
          intro heq
          apply hhead g₀ rfl
          rw [← UInt64.toNat_inj]
          exact heq
        omega
      have hpair := h.ascending
      rw [List.map_cons, List.pairwise_cons] at hpair
      rcases List.mem_cons.mp hg with rfl | hg
      · exact hfirst
      · exact hfirst.trans (hpair.1 _ (List.mem_map_of_mem hg))

theorem Holds.add (h : Holds c gs s) (hloose : Loose c i) (hi : i ∉ gs.flatMap Prod.snd)
    (hfresh : i < c.freshItem) (hnew : (c.nodes i).key ∉ s.map Prod.fst)
    (hroom : s.length < c.capacity.toNat) :
    ∃ c' gs', c.add i = some c' ∧ c'.capacity = c.capacity ∧
      Holds c' gs' (s ++ [((c.nodes i).key, 1)]) := by
  obtain ⟨c', n, gs', hc', hadded, hshaped, hhead, hfreq, hkeys⟩ :=
    (h.shaped.setItems (c.items.insert (c.nodes i).key i)).placeItem h.head hloose hi hfresh
  -- the map has no part in where the item goes
  have hadded' : Added c i gs n gs' := by
    cases hadded with
    | head _ is gs₀ hone => exact .head n is gs₀ hone
    | new _ _ hn hfirst => exact .new n gs hn hfirst
  obtain ⟨is, gs₀, rfl, hgs₀, hpair, hgroup, hflat⟩ := h.added hadded'
  have hcount : ∀ g ∈ gs₀, c'.count g.1 = c.count g.1 :=
    fun g hg => hkeys.count_eq (h.shaped.fresh g (hgs₀ g hg).1)
  have hcountn : c'.count n = 1 := by
    rw [count, hfreq]
    rfl
  refine ⟨c', _, hc', hkeys.capacity, hshaped, hhead, ?_, ?_, ?_, ?_, ?_, ?_, ?_⟩
  · intro g hg
    rcases List.mem_cons.mp hg with rfl | hg
    · exact List.append_ne_nil_of_right_ne_nil _ (List.cons_ne_nil _ _)
    · exact h.nonempty g (hgs₀ g hg).1
  · rw [List.map_cons, List.pairwise_cons, List.map_congr_left hcount]
    refine ⟨fun a ha => ?_, hpair⟩
    obtain ⟨g, hg, rfl⟩ := List.mem_map.mp ha
    show c'.count n < c.count g.1
    rw [hcountn]
    exact (hgs₀ g hg).2
  · intro k j
    rw [hkeys.items, hkeys.key]
    refine h.indexes.insert (fun j hj hkey => ?_) (fun j => ?_) k j
    · obtain ⟨m, hm⟩ := h.mem_flatMap hj
      exact hnew (hkey ▸ List.mem_map_of_mem hm)
    · rw [hflat, List.flatMap_cons]
      simp only [List.mem_append, List.mem_singleton]
      tauto
  · intro m
    rw [groupAt_cons, groupAt_congr hkeys fun g hg => h.shaped.fresh g (hgs₀ g hg).1, hcountn,
      keysAt_append, keysAt_singleton, ← h.keys, hgroup]
    show _ ++ c.groupAt gs₀ m = _
    simp only [hkeys.key]
    by_cases hm : 1 = m
    -- nobody else has been visited once, if the node is new
    · have hnil : c.groupAt gs₀ m = [] :=
        groupAt_eq_nil fun g hg => by rw [← hm]; exact Nat.ne_of_gt (hgs₀ g hg).2
      simp [hm, hnil]
    · simp [hm]
  · exact h.distinct.add hnew
  · intro e he
    rcases List.mem_append.mp he with he | he
    · exact h.positive e he
    · rw [List.mem_singleton.mp he]
      exact Nat.one_pos
  · rw [List.length_append, List.length_singleton, hkeys.capacity]
    exact hroom

/-- The map has as many keys as there are entries. -/
theorem Holds.keys_perm (h : Holds c gs s) : c.items.keys.Perm (s.map Prod.fst) := by
  rw [List.perm_ext_iff_of_nodup (AList.keys_nodup c.items) h.distinct]
  intro k
  rw [← AList.mem_keys, ← AList.lookup_isSome, Option.isSome_iff_exists]
  constructor
  · rintro ⟨i, hi⟩
    obtain ⟨hmem, rfl⟩ := (h.items k i).mp hi
    obtain ⟨m, hm⟩ := h.mem_flatMap hmem
    exact List.mem_map_of_mem hm
  · intro hk
    obtain ⟨⟨k, m⟩, he, rfl⟩ := List.mem_map.mp hk
    obtain ⟨g, hg, -, i, hi, hkey⟩ := h.mem_iff.mp he
    exact ⟨i, (h.items k i).mpr ⟨List.mem_flatMap.mpr ⟨g, hg, hi⟩, hkey⟩⟩

/-- The check of `Incr` for a full counter; the number of keys fits into the 8 bits. -/
theorem Holds.full_iff (h : Holds c gs s) :
    c.capacity ≤ UInt8.ofNat c.items.keys.length ↔ c.capacity.toNat ≤ s.length := by
  have hlen : c.items.keys.length = s.length := by
    rw [h.keys_perm.length_eq, List.length_map]
  have hlt : s.length < 2 ^ 8 := h.room.trans_lt c.capacity.toNat_lt
  rw [hlen, UInt8.le_iff_toNat_le, UInt8.toNat_ofNat_of_lt' hlt]

/-! ## Calls -/

/-- The visits of a key that is counted once more do not run over. -/
def NoWrap (c : Counter) : CounterOp → Prop
  | .incr key => ∀ item ∈ c.items.lookup key, ∀ v ∈ c.visits key item, v.2.toNat + 1 < 2 ^ 64
  | .latch => True
  | .free => True

/-- A held item stands in the list of the node that it names. -/
theorem Holds.owner (h : Holds c gs s) (hi : c.items.lookup k = some i) :
    ∃ as n ys zs bs, gs = as ++ (n, ys ++ i :: zs) :: bs ∧ (c.nodes i).key = k ∧
      c.visits k i = some (k, (c.freqs n).freq) := by
  obtain ⟨hmem, hkey⟩ := (h.items k i).mp hi
  obtain ⟨⟨n, is⟩, hg, hin⟩ := List.mem_flatMap.mp hmem
  obtain ⟨as, bs, rfl⟩ := List.append_of_mem hg
  obtain ⟨ys, zs, rfl⟩ := List.append_of_mem hin
  refine ⟨as, n, ys, zs, bs, rfl, hkey, ?_⟩
  rw [visits, (h.shaped.items _ hg).owner i hin]
  rfl

theorem Holds.makeRoom (h : Holds c gs s) (hcap : 1 ≤ c.capacity.toNat) :
    ∃ c' gs', c.makeRoom = some c' ∧ c'.capacity = c.capacity ∧
      Holds c' gs' (s.makeRoom c.capacity.toNat) := by
  unfold Counter.makeRoom Lfu.makeRoom
  by_cases hfull : c.capacity.toNat ≤ s.length
  · rw [if_pos (h.full_iff.mpr hfull), if_pos hfull]
    obtain ⟨n, i, is, gs, rfl⟩ := h.exists_first (by omega)
    exact h.evict
  · rw [if_neg fun hle => hfull (h.full_iff.mp hle), if_neg hfull]
    exact ⟨c, gs, rfl, rfl, h⟩

/-- There is room for one key more behind the eviction. -/
theorem Holds.room_makeRoom (h : Holds c gs s) (hcap : 1 ≤ c.capacity.toNat) :
    (s.makeRoom c.capacity.toNat).length < c.capacity.toNat := by
  have hroom := h.room
  unfold Lfu.makeRoom
  by_cases hfull : c.capacity.toNat ≤ s.length
  · obtain ⟨n, i, is, gs, rfl⟩ := h.exists_first (by omega)
    have hlen := List.length_erase_of_mem (List.mem_of_find?_eq_some h.least)
    rw [if_pos hfull, Lfu.evict, h.least]
    show (s.erase _).length < _
    omega
  · rw [if_neg hfull]
    omega

theorem Holds.incr (h : Holds c gs s) (hcap : 1 ≤ c.capacity.toNat) {key : Bytes}
    (hwrap : c.NoWrap (.incr key)) :
    ∃ c' gs', c.incr key = some c' ∧ c'.capacity = c.capacity ∧
      Holds c' gs' (s.incr c.capacity.toNat key) := by
  unfold Counter.incr Lfu.incr
  cases hlookup : c.items.lookup key with
  | some i =>
    obtain ⟨as, n, ys, zs, bs, rfl, rfl, hvisits⟩ := h.owner hlookup
    have hlt : c.count n + 1 < 2 ^ 64 := hwrap i hlookup _ hvisits
    -- a counter of 64 bits that does not wrap is not zero behind an increment
    have hne : (c.freqs n).freq + 1 ≠ 0 := by
      intro hzero
      have hmod : ((c.freqs n).freq + 1).toNat = (c.count n + 1) % 2 ^ 64 := UInt64.toNat_add _ 1
      rw [hzero, Nat.mod_eq_of_lt hlt] at hmod
      exact Nat.succ_ne_zero _ hmod.symm
    have hmem : ((c.nodes i).key, c.count n) ∈ s :=
      h.mem_iff.mpr ⟨(n, ys ++ i :: zs), by simp, rfl, i, by simp, rfl⟩
    rw [h.distinct.find?_key hmem]
    exact h.increment hne
  | none =>
    have hnew : ∀ e ∈ s, e.1 ≠ key := by
      rintro ⟨k, m⟩ he rfl
      obtain ⟨g, hg, -, i, hi, hkey⟩ := h.mem_iff.mp he
      have hsome := (h.items k i).mpr ⟨List.mem_flatMap.mpr ⟨g, hg, hi⟩, hkey⟩
      rw [hlookup] at hsome
      cases hsome
    have hfind : (s.find? fun e => e.1 = key) = none :=
      List.find?_eq_none.mpr fun e he => by simpa using hnew e he
    rw [hfind]
    -- first a place is made, then the item is allocated and added
    obtain ⟨c₁, gs₁, hc₁, hcap₁, h₁⟩ := h.makeRoom hcap
    rw [hc₁]
    simp only [Option.bind_eq_bind, Option.bind_some]
    have hkey : ((c₁.allocItem key).nodes c₁.freshItem).key = key := by
      simp [Counter.allocItem, newItemNode]
    have hadd := (h₁.allocItem key).add (i := c₁.freshItem) ?_ ?_ (Nat.lt_succ_self _) ?_ ?_
    · rw [hkey] at hadd
      obtain ⟨c', gs', hc', hcap', h'⟩ := hadd
      exact ⟨c', gs', hc', hcap'.trans hcap₁, h'⟩
    · constructor <;> simp [Counter.allocItem, newItemNode]
    · intro hmem
      obtain ⟨g, hg, hi⟩ := List.mem_flatMap.mp hmem
      exact absurd (h₁.shaped.freshItems g hg _ hi) (Nat.lt_irrefl _)
    · rw [hkey]
      intro hmem
      obtain ⟨e, he, heq⟩ := List.mem_map.mp hmem
      exact hnew e (makeRoom_sublist.mem he) heq
    · show _ < c₁.capacity.toNat
      rw [hcap₁]
      exact h.room_makeRoom hcap

theorem mapM_eq_some_map {α β : Type} {f : α → Option β} {g : α → β} {as : List α}
    (h : ∀ a ∈ as, f a = some (g a)) : as.mapM f = some (as.map g) := by
  induction as with
  | nil => rfl
  | cons a as ih =>
    rw [List.mapM_cons, h a List.mem_cons_self, ih fun b hb => h b (List.mem_cons_of_mem a hb)]
    rfl

/-- The entry of an item in the result of `Latch`. -/
def latched (c : Counter) (key : Bytes) (item : Nat) : Bytes × UInt64 :=
  ((c.visits key item).getD (key, 0))

theorem Holds.visits_eq (h : Holds c gs s) {entry : Sigma fun _ : Bytes => Nat}
    (hentry : entry ∈ c.items.entries) :
    c.visits entry.1 entry.2 = some (c.latched entry.1 entry.2) := by
  obtain ⟨as, n, ys, zs, bs, -, -, hvisits⟩ := h.owner (AList.mem_lookup_iff.mpr hentry)
  rw [latched, hvisits]
  rfl

/-- `Latch` returns the entries, in the order of the map. -/
theorem Holds.latch (h : Holds c gs s) : ∃ res, c.latch = some (res, c.reset) ∧
    (res.map fun r => (r.1, r.2.toNat)).Perm s := by
  refine ⟨c.items.entries.map fun entry => c.latched entry.1 entry.2, ?_, ?_⟩
  · unfold Counter.latch
    rw [mapM_eq_some_map fun entry hentry => h.visits_eq hentry]
    rfl
  · rw [List.map_map]
    -- no key comes twice on either side, so it is enough to compare the entries
    have hkeys : ((c.items.entries.map ((fun r : Bytes × UInt64 => (r.1, r.2.toNat)) ∘
        fun entry => c.latched entry.1 entry.2)).map Prod.fst) = c.items.keys := by
      rw [List.map_map]
      refine List.map_congr_left fun entry hentry => ?_
      obtain ⟨as, n, ys, zs, bs, -, -, hvisits⟩ := h.owner (AList.mem_lookup_iff.mpr hentry)
      simp [latched, hvisits]
    have hnodup := AList.keys_nodup c.items
    rw [← hkeys] at hnodup
    rw [List.perm_ext_iff_of_nodup hnodup.of_map h.distinct.nodup]
    rintro ⟨k, m⟩
    rw [List.mem_map]
    constructor
    · rintro ⟨⟨k', i⟩, hentry, heq⟩
      obtain ⟨as, n, ys, zs, bs, rfl, hkey, hvisits⟩ := h.owner (AList.mem_lookup_iff.mpr hentry)
      simp only [Function.comp, latched, hvisits, Option.getD_some, Prod.mk.injEq] at heq
      obtain ⟨rfl, rfl⟩ := heq
      exact h.mem_iff.mpr ⟨(n, ys ++ i :: zs), by simp, rfl, i, by simp, hkey⟩
    · intro hmem
      obtain ⟨g, hg, rfl, i, hi, rfl⟩ := h.mem_iff.mp hmem
      refine ⟨⟨(c.nodes i).key, i⟩, AList.mem_lookup_iff.mp ((h.items _ i).mpr
        ⟨List.mem_flatMap.mpr ⟨g, hg, hi⟩, rfl⟩), ?_⟩
      simp [Function.comp, latched, visits, (h.shaped.items g hg).owner i hi, count]

/-- A reset counter holds nothing. -/
theorem holds_reset : Holds c.reset [] [] := by
  refine ⟨⟨?_, by simp, by simp, by simp, by simp, by simp⟩, rfl, by simp, by simp, ?_, ?_, ?_,
    ?_, ?_⟩
  · trivial
  · intro k i
    simp [reset]
  · intro m
    rfl
  · exact List.nodup_nil
  · simp
  · simp

/-! ## Runs -/

theorem Holds.step (h : Holds c gs s) (hcap : 1 ≤ c.capacity.toNat) {op : CounterOp}
    (hok : c.NoWrap op) :
    ∃ c' gs', c.step op = some c' ∧ c'.capacity = c.capacity ∧
      Holds c' gs' (s.step c.capacity.toNat op) := by
  cases op with
  | incr key => exact h.incr hcap hok
  | latch =>
    obtain ⟨res, hres, -⟩ := h.latch
    refine ⟨c.reset, [], ?_, rfl, holds_reset⟩
    rw [Counter.step, hres]
    rfl
  | free => exact ⟨c.reset, [], rfl, rfl, holds_reset⟩

/-- Counts of nodes stay below `2 ^ 64`. -/
theorem Holds.lt (h : Holds c gs s) {e : Bytes × Nat} (he : e ∈ s) : e.2 < 2 ^ 64 := by
  obtain ⟨g, -, heq, -⟩ := h.mem_iff.mp he
  rw [← heq]
  exact UInt64.toNat_lt _

/-- A call that makes a count run over does not lead to what the rule says. -/
theorem Holds.noWrap (h : Holds c gs s) {op : CounterOp} {gs' : List (Nat × List Nat)}
    (h' : Holds c' gs' (s.step m op)) : c.NoWrap op := by
  cases op with
  | latch | free => trivial
  | incr key =>
    intro i hi v hv
    obtain ⟨as, n, ys, zs, bs, rfl, rfl, hvisits⟩ := h.owner hi
    obtain rfl := Option.some.inj (hvisits.symm.trans hv)
    have hmem : ((c.nodes i).key, c.count n) ∈ s :=
      h.mem_iff.mpr ⟨(n, ys ++ i :: zs), by simp, rfl, i, by simp, rfl⟩
    have hstep : s.step m (.incr (c.nodes i).key) =
        s.erase ((c.nodes i).key, c.count n) ++ [((c.nodes i).key, c.count n + 1)] := by
      rw [Lfu.step, Lfu.incr, h.distinct.find?_key hmem]
    rw [hstep] at h'
    exact h'.lt (e := ((c.nodes i).key, c.count n + 1)) (by simp)

/-- The counter after the calls `ops` refines the plain rule: its lists hold the entries, and
    `Latch` returns for each held key the number of visits since it went in, and empties the
    counter. -/
structure RefinesLfu (c : Counter) (capacity : UInt8) (ops : List CounterOp) : Prop where
  sameCapacity : c.capacity = capacity
  holds : ∃ gs, Holds c gs (Lfu.after capacity.toNat ops)
  latch : ∃ res, c.latch = some (res, c.reset) ∧
    (res.map fun r => (r.1, r.2.toNat)).Perm (Lfu.after capacity.toNat ops) ∧
    ∀ r ∈ res, VisitedSince capacity.toNat ops r.1 r.2.toNat

theorem Holds.refinesLfu {ops : List CounterOp} (h : Holds c gs (after c.capacity.toNat ops)) :
    c.RefinesLfu c.capacity ops := by
  obtain ⟨res, hres, hperm⟩ := h.latch
  refine ⟨rfl, ⟨gs, h⟩, res, hres, hperm, fun r hr => ?_⟩
  exact visitedSince_of_mem (hperm.mem_iff.mp (List.mem_map_of_mem hr))

theorem Holds.run (h : Holds c gs s) (hcap : 1 ≤ c.capacity.toNat) {ops : List CounterOp}
    (hmeets : RunMeets Counter.step NoWrap c ops) :
    ∃ c' gs', runFrom Counter.step c ops = some c' ∧ c'.capacity = c.capacity ∧
      Holds c' gs' (ops.foldl (Lfu.step c.capacity.toNat) s) := by
  induction ops generalizing c gs s with
  | nil => exact ⟨c, gs, rfl, rfl, h⟩
  | cons op ops ih =>
    obtain ⟨c₁, gs₁, hc₁, hcap₁, h₁⟩ := h.step hcap hmeets.1
    obtain ⟨c', gs', hrun, hcap', h'⟩ := ih h₁ (by rwa [hcap₁]) (hmeets.2 c₁ hc₁)
    refine ⟨c', gs', runFrom_cons_eq_some.mpr ⟨c₁, hc₁, hrun⟩, hcap'.trans hcap₁, ?_⟩
    rw [hcap₁] at h'
    exact h'

theorem Holds.runMeets (h : Holds c gs s) {ops : List CounterOp}
    (hrun : ∀ bs, bs <+: ops → ∃ c' gs', runFrom Counter.step c bs = some c' ∧
      Holds c' gs' (bs.foldl (Lfu.step m) s)) : RunMeets Counter.step NoWrap c ops := by
  induction ops generalizing c gs s with
  | nil => trivial
  | cons op ops ih =>
    obtain ⟨c₁, gs₁, hc₁, h₁⟩ := hrun [op] (by simp)
    have hstep : c.step op = some c₁ := by
      obtain ⟨c₂, hc₂, heq⟩ := runFrom_cons_eq_some.mp hc₁
      rw [hc₂]
      exact heq
    refine runMeets_cons (h.noWrap h₁) hstep (ih h₁ fun bs hbs => ?_)
    obtain ⟨c', gs', hc', h'⟩ := hrun (op :: bs) (by simpa using hbs)
    obtain ⟨c₂, hc₂, hrest⟩ := runFrom_cons_eq_some.mp hc'
    obtain rfl := Option.some.inj (hstep.symm.trans hc₂)
    exact ⟨c', gs', hrest, h'⟩

theorem holds_newCounter (capacity : UInt8) : Holds (newCounter capacity) [] [] :=
  holds_reset (c := newCounter capacity)

/-- **Counters follow the plain rule exactly as long as no count runs over.** -/
theorem refinesLfu_iff_noWrap {capacity : UInt8} (hcap : 1 ≤ capacity) (ops : List CounterOp) :
    (∀ bs, bs <+: ops → ∃ c, runFrom step (newCounter capacity) bs = some c ∧
      c.RefinesLfu capacity bs) ↔ RunMeets step NoWrap (newCounter capacity) ops := by
  have hcap' : 1 ≤ (newCounter capacity).capacity.toNat := UInt8.le_iff_toNat_le.mp hcap
  constructor
  · intro h
    apply (holds_newCounter capacity).runMeets
    intro bs hbs
    obtain ⟨c, hc, hrefines⟩ := h bs hbs
    obtain ⟨gs, hgs⟩ := hrefines.holds
    exact ⟨c, gs, hc, hgs⟩
  · intro hmeets bs hbs
    obtain ⟨c, gs, hc, hcapacity, hgs⟩ :=
      (holds_newCounter capacity).run hcap' (runMeets_of_isPrefix hmeets hbs)
    obtain rfl : c.capacity = capacity := hcapacity
    exact ⟨c, hc, Holds.refinesLfu hgs⟩

instance decidableNoWrap (c : Counter) : ∀ op, Decidable (c.NoWrap op)
  | .incr key => inferInstanceAs
      (Decidable (∀ item ∈ c.items.lookup key, ∀ v ∈ c.visits key item, v.2.toNat + 1 < 2 ^ 64))
  | .latch => isTrue trivial
  | .free => isTrue trivial

/-- Two keys are held; the third one takes the place of the one with a single visit. -/
def evictingCalls : List CounterOp :=
  [.incr [97], .incr [98], .incr [97], .incr [99], .incr [99], .latch, .incr [98]]

theorem refinesLfu_evictingCalls : 1 ≤ (2 : UInt8) ∧
    ∃ c, runFrom step (newCounter 2) evictingCalls = some c ∧ c.RefinesLfu 2 evictingCalls :=
  ⟨by decide, (refinesLfu_iff_noWrap (by decide) evictingCalls).mpr (by decide +kernel)
    evictingCalls (List.prefix_refl _)⟩

/-- Visits of one key, as many as can be counted. -/
theorem holds_replicate {capacity : UInt8} (hcap : 1 ≤ capacity) (key : Bytes) (n : Nat)
    (hn : n < 2 ^ 64) :
    ∃ c gs, runFrom step (newCounter capacity) (List.replicate n (.incr key)) = some c ∧
      c.capacity = capacity ∧ Holds c gs (after capacity.toNat (List.replicate n (.incr key))) := by
  have hcap' : 1 ≤ capacity.toNat := UInt8.le_iff_toNat_le.mp hcap
  induction n with
  | zero => exact ⟨newCounter capacity, [], rfl, rfl, holds_newCounter capacity⟩
  | succ n ih =>
    obtain ⟨c, gs, hc, rfl, h⟩ := ih (by omega)
    -- the only entry has as many visits as there were calls
    have hok : c.NoWrap (.incr key) := by
      intro i hi v hv
      obtain ⟨as, m, ys, zs, bs, rfl, hkey, hvisits⟩ := h.owner hi
      obtain rfl := Option.some.inj (hvisits.symm.trans hv)
      have hmem : (key, c.count m) ∈ after c.capacity.toNat (List.replicate n (.incr key)) :=
        h.mem_iff.mpr ⟨(m, ys ++ i :: zs), by simp, rfl, i, by simp, hkey⟩
      cases n with
      | zero => cases hmem
      | succ n =>
        rw [after_replicate hcap', List.mem_singleton] at hmem
        show c.count m + 1 < 2 ^ 64
        rw [(Prod.mk.inj hmem).2]
        exact hn
    obtain ⟨c', gs', hc', hcapacity, h'⟩ := h.step hcap' hok
    refine ⟨c', gs', ?_, hcapacity, ?_⟩
    · rw [List.replicate_succ', runFrom_append, hc]
      exact runFrom_cons_eq_some.mpr ⟨c', hc', rfl⟩
    · rw [List.replicate_succ', after_concat]
      exact h'

/-- One visit more than can be counted: the key is still held, with no visit. -/
theorem latch_wrapped {capacity : UInt8} (hcap : 1 ≤ capacity) (key : Bytes) {n : Nat}
    (hn : n + 1 = 2 ^ 64) :
    ∃ c, runFrom step (newCounter capacity) (List.replicate (n + 1) (.incr key)) = some c ∧
      c.latch = some ([(key, 0)], c.reset) := by
  obtain ⟨n, rfl⟩ : ∃ n', n = n' + 1 := ⟨n - 1, by omega⟩
  obtain ⟨c, gs, hc, rfl, h⟩ := holds_replicate hcap key (n + 1) (by omega)
  rw [after_replicate (UInt8.le_iff_toNat_le.mp hcap)] at h
  -- the map leads from the key to its item
  obtain ⟨g, hg, hcount, i, hi, hkey⟩ := h.mem_iff.mp (List.mem_singleton.mpr rfl)
  have hlookup : c.items.lookup key = some i :=
    (h.items key i).mpr ⟨List.mem_flatMap.mpr ⟨g, hg, hi⟩, hkey⟩
  have hentries : c.items.entries = [⟨key, i⟩] := by
    have hkeys : c.items.entries.map Sigma.fst = [key] := List.perm_singleton.mp h.keys_perm
    obtain ⟨entry, hentry, hfst⟩ := List.map_eq_singleton_iff.mp hkeys
    have hmem : Sigma.mk key i ∈ c.items.entries := AList.mem_lookup_iff.mp hlookup
    rw [hentry, List.mem_singleton] at hmem
    rw [hentry, hmem]
  obtain ⟨as, bs, rfl⟩ := List.append_of_mem hg
  obtain ⟨m, is⟩ := g
  obtain ⟨ys, zs, rfl⟩ := List.append_of_mem hi
  obtain ⟨c', t, js, bs', hc', -, hshaped, -, hkeys, hfreq⟩ := h.shaped.increment h.head
  -- the node it goes to has the count zero
  have hzero : (c'.freqs t).freq = 0 := by
    rw [hfreq, ← UInt64.toNat_inj]
    show (c.count m + 1) % 2 ^ 64 = 0
    rw [hcount, hn, Nat.mod_self]
  have howner : (c'.nodes i).freqNode = some t :=
    (hshaped.items (t, js ++ [i]) (by simp)).owner i (by simp)
  refine ⟨c', ?_, ?_⟩
  · rw [List.replicate_succ', runFrom_append, hc, Option.bind_some]
    refine runFrom_cons_eq_some.mpr ⟨c', ?_, rfl⟩
    rw [Counter.step, Counter.incr, hlookup]
    exact hc'
  · rw [Counter.latch, hkeys.items, hentries]
    simp [visits, howner, hzero]

/-- A key that is visited `2 ^ 64` times without `Latch` in between is reported with no visit. -/
theorem not_refinesLfu_overflow :
    ∃ c, runFrom step (newCounter 1) (List.replicate (2 ^ 64) (.incr [97])) = some c ∧
      c.latch = some ([([97], 0)], c.reset) ∧
      ¬c.RefinesLfu 1 (List.replicate (2 ^ 64) (.incr [97])) := by
  obtain ⟨n, hn⟩ : ∃ n, n + 1 = 2 ^ 64 := ⟨2 ^ 64 - 1, by norm_num⟩
  have hone : (1 : UInt8) ≤ 1 := by decide
  obtain ⟨c, hc, hlatch⟩ := latch_wrapped hone [97] hn
  rw [← hn]
  refine ⟨c, hc, hlatch, fun hrefines => ?_⟩
  obtain ⟨gs, h⟩ := hrefines.holds
  rw [after_replicate (by decide)] at h
  have hlt := h.lt (List.mem_singleton.mpr rfl)
  omega

end Counter

end Samaritan.HotKeys
