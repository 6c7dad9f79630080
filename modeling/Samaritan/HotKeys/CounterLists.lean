import Mathlib.Data.List.Perm.Basic
import Samaritan.HotKeys.Counter
import Samaritan.Lib.LinkedList

/-!
# The Lists of a Frequency Counter

Each operation on the nodes of a counter is one on lists of addresses: an item is taken out of the
list of its frequency node or put at its end, a frequency node is put into the list of nodes or
taken out. What an operation writes is said once; the lists follow from that by the rules for
linked lists, and the rest of the heap is left alone.
-/

namespace Samaritan.HotKeys

open Samaritan.Lib

namespace Counter

variable {c c' c'' : Counter}

@[simp] theorem setFreq_freqs (n : Nat) (f : FreqNode → FreqNode) (m : Nat) :
    (c.setFreq n f).freqs m = if m = n then f (c.freqs n) else c.freqs m := by
  simp [setFreq, Function.update_apply]

@[simp] theorem setFreq_nodes (n : Nat) (f : FreqNode → FreqNode) :
    (c.setFreq n f).nodes = c.nodes := rfl

@[simp] theorem setItem_nodes (n : Nat) (f : ItemNode → ItemNode) (m : Nat) :
    (c.setItem n f).nodes m = if m = n then f (c.nodes n) else c.nodes m := by
  simp [setItem, Function.update_apply]

@[simp] theorem setItem_freqs (n : Nat) (f : ItemNode → ItemNode) :
    (c.setItem n f).freqs = c.freqs := rfl

/-! ## The items of one frequency node -/

/-- The items of a frequency node are those of a list, linked in its order. -/
structure ItemsOk (c : Counter) (n : Nat) (is : List Nat) : Prop where
  head : (c.freqs n).itemHead = is.head?
  tail : (c.freqs n).itemTail = is.getLast?
  linked : Linked (fun i => (c.nodes i).prev) (fun i => (c.nodes i).next) is
  owner : ∀ i ∈ is, (c.nodes i).freqNode = some n

/-- What an operation on the items of one frequency node leaves alone. -/
structure Touches (c c' : Counter) (n : Nat) (is : List Nat) : Prop where
  freqs : ∀ m, m ≠ n → c'.freqs m = c.freqs m
  prev : (c'.freqs n).prev = (c.freqs n).prev
  next : (c'.freqs n).next = (c.freqs n).next
  freq : (c'.freqs n).freq = (c.freqs n).freq
  nodes : ∀ j, j ∉ is → c'.nodes j = c.nodes j
  key : ∀ j, (c'.nodes j).key = (c.nodes j).key
  capacity : c'.capacity = c.capacity
  items : c'.items = c.items
  freqHead : c'.freqHead = c.freqHead
  freshFreq : c'.freshFreq = c.freshFreq
  freshItem : c'.freshItem = c.freshItem

variable {n i : Nat} {is ys zs : List Nat}

/-- The items of another node are not touched. -/
theorem ItemsOk.touches {m : Nat} {js : List Nat} (h : ItemsOk c m js) (ht : Touches c c' n is)
    (hm : m ≠ n) (hdisj : ∀ j ∈ js, j ∉ is) : ItemsOk c' m js where
  head := by rw [ht.freqs m hm, h.head]
  tail := by rw [ht.freqs m hm, h.tail]
  linked := by
    refine h.linked.congr (fun j hj => ?_) fun j hj => ?_
    · rw [ht.nodes j (hdisj j hj)]
    · rw [ht.nodes j (hdisj j hj)]
  owner := by
    intro j hj
    rw [ht.nodes j (hdisj j hj)]
    exact h.owner j hj

theorem head?_eq_iff (hnodup : (ys ++ i :: zs).Nodup) :
    (ys ++ i :: zs).head? = some i ↔ ys = [] := by
  cases ys with
  | nil => simp
  | cons y ys =>
    refine iff_of_false (fun h => ?_) (by simp)
    obtain rfl : y = i := Option.some.inj h
    simp at hnodup

theorem getLast?_eq_iff (hnodup : (ys ++ i :: zs).Nodup) :
    (ys ++ i :: zs).getLast? = some i ↔ zs = [] := by
  cases zs with
  | nil => simp
  | cons z zs =>
    refine iff_of_false (fun h => ?_) (by simp)
    rw [List.getLast?_append_of_ne_nil _ (by simp), List.getLast?_cons_cons] at h
    exact (List.nodup_cons.mp hnodup.of_append_right).1 (List.mem_of_getLast? h)

/-- The first and the last item are the same one exactly when there are no others. -/
theorem head?_eq_getLast?_iff (hnodup : (ys ++ i :: zs).Nodup) :
    (ys ++ i :: zs).head? = (ys ++ i :: zs).getLast? ↔ ys = [] ∧ zs = [] := by
  cases ys with
  | nil =>
    have hlast := getLast?_eq_iff hnodup
    rw [List.nil_append] at hlast ⊢
    rw [List.head?_cons, eq_comm, hlast]
    simp
  | cons y ys =>
    refine iff_of_false (fun h => ?_) (by simp)
    rw [List.getLast?_append_of_ne_nil _ (by simp)] at h
    have hmem : y ∈ i :: zs := List.mem_of_getLast? h.symm
    exact (List.nodup_append.mp hnodup).2.2 y (by simp) y hmem rfl

theorem Touches.refl (c : Counter) (n : Nat) (is : List Nat) : Touches c c n is :=
  ⟨fun _ _ => rfl, rfl, rfl, rfl, fun _ _ => rfl, fun _ => rfl, rfl, rfl, rfl, rfl, rfl⟩

/-- A write to an item. -/
theorem Touches.setItem (h : Touches c c' n is) (j : Nat) (hj : j ∈ is) {f : ItemNode → ItemNode}
    (hkey : ∀ node, (f node).key = node.key) : Touches c (c'.setItem j f) n is where
  freqs := h.freqs
  prev := h.prev
  next := h.next
  freq := h.freq
  nodes := by
    intro k hk
    have hkj : k ≠ j := fun heq => hk (heq ▸ hj)
    rw [setItem_nodes, if_neg hkj]
    exact h.nodes k hk
  key := by
    intro k
    rw [setItem_nodes]
    split
    · rename_i heq
      rw [hkey, heq, h.key]
    · exact h.key k
  capacity := h.capacity
  items := h.items
  freqHead := h.freqHead
  freshFreq := h.freshFreq
  freshItem := h.freshItem

/-- A write to the item list of the frequency node. -/
theorem Touches.setFreq (h : Touches c c' n is) {f : FreqNode → FreqNode}
    (hf : ∀ node, (f node).prev = node.prev ∧ (f node).next = node.next ∧
      (f node).freq = node.freq) : Touches c (c'.setFreq n f) n is where
  freqs := by
    intro m hm
    rw [setFreq_freqs, if_neg hm]
    exact h.freqs m hm
  prev := by rw [setFreq_freqs, if_pos rfl, (hf _).1, h.prev]
  next := by rw [setFreq_freqs, if_pos rfl, (hf _).2.1, h.next]
  freq := by rw [setFreq_freqs, if_pos rfl, (hf _).2.2, h.freq]
  nodes := h.nodes
  key := h.key
  capacity := h.capacity
  items := h.items
  freqHead := h.freqHead
  freshFreq := h.freshFreq
  freshItem := h.freshItem

/-- What the four branches of `Free` of an item have in common. -/
theorem ItemsOk.unlinkItem_writes (h : ItemsOk c n (ys ++ i :: zs))
    (hnodup : (ys ++ i :: zs).Nodup) :
    ∃ c', c.unlinkItem i n = some c' ∧ Touches c c' n (ys ++ zs) ∧
      (c'.freqs n).itemHead = (ys ++ zs).head? ∧ (c'.freqs n).itemTail = (ys ++ zs).getLast? ∧
      (∀ j, (c'.nodes j).freqNode = (c.nodes j).freqNode) ∧
      (∀ j, (c'.nodes j).prev = if zs.head? = some j then ys.getLast? else (c.nodes j).prev) ∧
      ∀ j, (c'.nodes j).next = if ys.getLast? = some j then zs.head? else (c.nodes j).next := by
  obtain ⟨hprev, hnext⟩ := h.linked.at
  have hsingle := head?_eq_getLast?_iff hnodup
  have hfirst := head?_eq_iff hnodup
  have hlast := getLast?_eq_iff hnodup
  rw [← h.head] at hsingle hfirst
  rw [← h.tail] at hsingle hlast
  obtain ⟨-, hndzs, hdisj⟩ := List.nodup_append.mp hnodup
  have hrefl := Touches.refl c n (ys ++ zs)
  unfold Counter.unlinkItem
  -- the four branches: the only item, the first, the last, and one between two others
  rcases List.eq_nil_or_concat ys with rfl | ⟨ys, y, rfl⟩
  · cases zs with
    | nil =>
      rw [if_pos (hsingle.mpr ⟨rfl, rfl⟩)]
      refine ⟨_, rfl, hrefl.setFreq ?_, ?_, ?_, ?_, ?_, ?_⟩
      · exact fun _ => ⟨rfl, rfl, rfl⟩
      all_goals simp
    | cons z zs =>
      have hnext' : (c.nodes i).next = some z := hnext
      have hiz : i ≠ z := List.ne_of_not_mem_cons (List.nodup_cons.mp hndzs).1
      have htail : (c.freqs n).itemTail = (z :: zs).getLast? := by
        rw [h.tail, List.nil_append, List.getLast?_cons_cons]
      rw [if_neg (by rw [hsingle]; simp), if_pos (hfirst.mpr rfl), hnext']
      refine ⟨_, rfl, ?_, ?_, ?_, fun j => ?_, fun j => ?_, fun j => ?_⟩
      · refine (hrefl.setItem z (by simp) ?_).setFreq ?_
        · exact fun _ => rfl
        · exact fun _ => ⟨rfl, rfl, rfl⟩
      · simp [hiz, hnext']
      · simp [htail]
      all_goals
        by_cases hj : j = z
        · simp [hj]
        · simp [hj, Ne.symm hj]
  · cases zs with
    | nil =>
      have hprev' : (c.nodes i).prev = some y := by simpa using hprev
      have hiy : i ≠ y := (hdisj y (by simp) i (by simp)).symm
      have hhead : (c.freqs n).itemHead = (ys ++ [y]).head? := by
        rw [h.head]
        simp
      rw [if_neg (by rw [hsingle]; simp), if_neg (by rw [hfirst]; simp), if_pos (hlast.mpr rfl),
        hprev']
      refine ⟨_, rfl, ?_, ?_, ?_, fun j => ?_, fun j => ?_, fun j => ?_⟩
      · refine (hrefl.setItem y (by simp) ?_).setFreq ?_
        · exact fun _ => rfl
        · exact fun _ => ⟨rfl, rfl, rfl⟩
      · simp [hhead]
      · simp [hiy, hprev']
      all_goals
        by_cases hj : j = y
        · simp [hj]
        · simp [hj, Ne.symm hj]
    | cons z zs =>
      have hnext' : (c.nodes i).next = some z := hnext
      have hprev' : (c.nodes i).prev = some y := by simpa using hprev
      have hiy : i ≠ y := (hdisj y (by simp) i (by simp)).symm
      have hyz : y ≠ z := hdisj y (by simp) z (by simp)
      rw [if_neg (by rw [hsingle]; simp), if_neg (by rw [hfirst]; simp),
        if_neg (by rw [hlast]; simp), hprev']
      -- the second write reads the item, which the first one has not touched
      simp only [Option.bind_eq_bind, Option.bind_some, setItem_nodes, if_neg hiy, hnext', hprev']
      refine ⟨_, rfl, ?_, ?_, ?_, fun j => ?_, fun j => ?_, fun j => ?_⟩
      · refine (hrefl.setItem y (by simp) ?_).setItem z (by simp) ?_
        · exact fun _ => rfl
        · exact fun _ => rfl
      · simp [h.head]
      · simp [h.tail]
      all_goals
        by_cases hj : j = y
        · subst hj
          simp [hyz, hyz.symm]
        · by_cases hj' : j = z
          · subst hj'
            simp [hj, Ne.symm hj]
          · simp [hj, hj', Ne.symm hj, Ne.symm hj']

/-- The list without the item. -/
theorem ItemsOk.unlinkItem (h : ItemsOk c n (ys ++ i :: zs)) (hnodup : (ys ++ i :: zs).Nodup) :
    ∃ c', c.unlinkItem i n = some c' ∧ ItemsOk c' n (ys ++ zs) ∧ Touches c c' n (ys ++ zs) := by
  obtain ⟨c', hc', htouch, hhead, htail, howner, hprev, hnext⟩ := h.unlinkItem_writes hnodup
  have hnd : (ys ++ zs).Nodup := hnodup.sublist (by simp)
  refine ⟨c', hc', ⟨hhead, htail, ?_, fun j hj => ?_⟩, htouch⟩
  · exact h.linked.remove hnd (fun j _ => hprev j) fun j _ => hnext j
  · rw [howner]
    apply h.owner
    rcases List.mem_append.mp hj with hj | hj
    · exact List.mem_append_left _ hj
    · exact List.mem_append_right _ (List.mem_cons_of_mem _ hj)

/-- `PopItem` is the same for the first item. -/
theorem popItem_eq (h : (c.freqs n).itemHead = some i) : c.popItem n = c.unlinkItem i n := by
  unfold popItem unlinkItem
  simp only [h, if_true]

/-- `PopItem` takes out the first item. -/
theorem ItemsOk.popItem (h : ItemsOk c n (i :: is)) (hnodup : (i :: is).Nodup) :
    ∃ c', c.popItem n = some c' ∧ ItemsOk c' n is ∧ Touches c c' n is := by
  have hfirst : ItemsOk c n ([] ++ i :: is) := h
  rw [popItem_eq h.head]
  exact hfirst.unlinkItem hnodup

/-- An item without links. -/
def Loose (c : Counter) (i : Nat) : Prop := (c.nodes i).prev = none ∧ (c.nodes i).next = none

/-- `Free` of an item takes it out of the list of its frequency node. -/
theorem ItemsOk.freeItem (h : ItemsOk c n (ys ++ i :: zs)) (hnodup : (ys ++ i :: zs).Nodup) :
    ∃ c', c.freeItem i = some c' ∧ ItemsOk c' n (ys ++ zs) ∧ Loose c' i ∧
      Touches c c' n (ys ++ i :: zs) := by
  obtain ⟨c₁, hc₁, hitems, htouch⟩ := h.unlinkItem hnodup
  have hne : ∀ j ∈ ys ++ zs, j ≠ i := by
    intro j hj heq
    have hperm : (i :: (ys ++ zs)).Perm (ys ++ i :: zs) := List.perm_middle.symm
    exact (List.nodup_cons.mp (hperm.nodup_iff.mpr hnodup)).1 (heq ▸ hj)
  have hsub : ∀ j, j ∉ ys ++ i :: zs → j ∉ ys ++ zs := by
    intro j hj hmem
    simp only [List.mem_append, List.mem_cons] at hj hmem
    tauto
  have htouch' : Touches c c₁ n (ys ++ i :: zs) :=
    { htouch with nodes := fun j hj => htouch.nodes j (hsub j hj) }
  refine ⟨c₁.setItem i fun node => { node with prev := none, next := none, freqNode := none }, ?_,
    ⟨hitems.head, hitems.tail, ?_, fun j hj => ?_⟩, ?_, htouch'.setItem i (by simp) fun _ => rfl⟩
  · unfold Counter.freeItem
    rw [h.owner i (by simp)]
    simp only [Option.bind_eq_bind, Option.bind_some, hc₁]
  · refine hitems.linked.congr (fun j hj => ?_) fun j hj => ?_
    all_goals rw [setItem_nodes, if_neg (hne j hj)]
  · rw [setItem_nodes, if_neg (hne j hj)]
    exact hitems.owner j hj
  · simp [Loose]

/-- What `AppendItem` writes; an item without links needs no writes in an empty list. -/
theorem ItemsOk.appendItem_writes (h : ItemsOk c n is) (hloose : Loose c i) (hi : i ∉ is) :
    ∃ c', c.appendItem n i = some c' ∧ Touches c c' n (is ++ [i]) ∧
      (c'.freqs n).itemHead = (is ++ [i]).head? ∧ (c'.freqs n).itemTail = some i ∧
      (∀ j, (c'.nodes j).freqNode = if j = i then some n else (c.nodes j).freqNode) ∧
      (∀ j, (c'.nodes j).prev = if j = i then is.getLast? else (c.nodes j).prev) ∧
      ∀ j, (c'.nodes j).next = if is.getLast? = some j then some i else (c.nodes j).next := by
  obtain ⟨hprev, hnext⟩ := hloose
  have hfirst : Touches c (c.setItem i fun node => { node with freqNode := some n }) n
      (is ++ [i]) := (Touches.refl c n _).setItem i (by simp) fun _ => rfl
  -- an empty list has no tail to link
  rcases List.eq_nil_or_concat is with rfl | ⟨is, t, rfl⟩
  · have hhead : (c.freqs n).itemHead = none := h.head
    simp only [Counter.appendItem, setItem_freqs, hhead]
    refine ⟨_, rfl, hfirst.setFreq ?_, ?_, ?_, fun j => ?_, fun j => ?_, fun j => ?_⟩
    · exact fun _ => ⟨rfl, rfl, rfl⟩
    · simp
    · simp
    all_goals
      by_cases hj : j = i
      · simp [hj, hprev]
      · simp [hj]
  · have hti : t ≠ i := by
      rintro rfl
      simp at hi
    have htail : (c.freqs n).itemTail = some t := by simpa using h.tail
    have hhead : (c.freqs n).itemHead = some (is.head?.getD t) := by simpa using h.head
    simp only [Counter.appendItem, setItem_freqs, hhead, htail, Option.bind_eq_bind,
      Option.bind_some]
    refine ⟨_, rfl, ?_, ?_, ?_, fun j => ?_, fun j => ?_, fun j => ?_⟩
    · refine (((hfirst.setItem i (by simp) ?_).setItem i (by simp) ?_).setItem t (by simp)
        ?_).setFreq ?_
      · exact fun _ => rfl
      · exact fun _ => rfl
      · exact fun _ => rfl
      · exact fun _ => ⟨rfl, rfl, rfl⟩
    · simp [hhead]
    · simp
    all_goals
      by_cases hj : j = t
      · simp [hj, hti]
      · by_cases hj' : j = i
        · simp [hj', hti, hti.symm, hnext]
        · simp [hj, hj', Ne.symm hj]

/-- `AppendItem` puts an item without links at the end of the list of a frequency node. -/
theorem ItemsOk.appendItem (h : ItemsOk c n is) (hloose : Loose c i) (hi : i ∉ is)
    (hnodup : is.Nodup) :
    ∃ c', c.appendItem n i = some c' ∧ ItemsOk c' n (is ++ [i]) ∧ Touches c c' n (is ++ [i]) := by
  obtain ⟨c', hc', htouch, hhead, htail, howner, hprev, hnext⟩ := h.appendItem_writes hloose hi
  have hne : ∀ j ∈ is, j ≠ i := fun j hj heq => hi (heq ▸ hj)
  refine ⟨c', hc', ⟨hhead, by rw [htail, List.getLast?_concat], ?_, fun j hj => ?_⟩, htouch⟩
  · refine Linked.insert (by simpa using h.linked) (by simpa using hnodup) ?_ ?_ ?_ ?_
    · rw [hprev, if_pos rfl]
    · rw [hnext, if_neg, hloose.2]
      · rfl
      · exact fun hlast => hi (List.mem_of_getLast? hlast)
    · intro j hj
      rw [hprev, if_neg (hne j (by simpa using hj))]
      simp
    · intro j _
      rw [hnext]
  · rw [howner]
    rcases List.mem_append.mp hj with hj | hj
    · rw [if_neg (hne j hj)]
      exact h.owner j hj
    · rw [if_pos (List.mem_singleton.mp hj)]

/-! ## The frequency nodes -/

/-- The frequency nodes of a counter with their items: the nodes are linked in order, and no node
    and no item stands at two places. -/
structure Shaped (c : Counter) (gs : List (Nat × List Nat)) : Prop where
  linked : Linked (fun n => (c.freqs n).prev) (fun n => (c.freqs n).next) (gs.map Prod.fst)
  items : ∀ g ∈ gs, ItemsOk c g.1 g.2
  nodup : (gs.map Prod.fst).Nodup
  nodupItems : (gs.flatMap Prod.snd).Nodup
  fresh : ∀ g ∈ gs, g.1 < c.freshFreq
  freshItems : ∀ g ∈ gs, ∀ i ∈ g.2, i < c.freshItem

variable {gs as bs : List (Nat × List Nat)} {js : List Nat}

theorem Shaped.nodup_items (h : Shaped c gs) {g : Nat × List Nat} (hg : g ∈ gs) : g.2.Nodup := by
  have hpair := List.nodup_flatMap.mp h.nodupItems
  exact hpair.1 g hg

/-- Items of one group are in no other group. -/
theorem Shaped.disjoint (h : Shaped c (as ++ (n, is) :: bs)) {g : Nat × List Nat}
    (hg : g ∈ as ++ bs) : g.1 ≠ n ∧ ∀ j ∈ g.2, j ∉ is := by
  have hperm : ((n, is) :: (as ++ bs)).Perm (as ++ (n, is) :: bs) := List.perm_middle.symm
  constructor
  · intro heq
    have hnodup := (hperm.map Prod.fst).nodup_iff.mpr h.nodup
    rw [List.map_cons, List.nodup_cons] at hnodup
    exact hnodup.1 (List.mem_map.mpr ⟨g, hg, heq⟩)
  · intro j hj hji
    have hnodup := (hperm.flatMap_right Prod.snd).nodup_iff.mpr h.nodupItems
    rw [List.flatMap_cons, List.nodup_append] at hnodup
    exact hnodup.2.2 j hji j (List.mem_flatMap.mpr ⟨g, hg, hj⟩) rfl

theorem mem_group {g : Nat × List Nat} :
    g ∈ as ++ (n, is) :: bs ↔ g = (n, is) ∨ g ∈ as ++ bs := by
  simp only [List.mem_append, List.mem_cons]
  tauto

/-- The items of one group are replaced. -/
theorem Shaped.touches (h : Shaped c (as ++ (n, is) :: bs)) {ks : List Nat}
    (ht : Touches c c' n ks) (hitems : ItemsOk c' n js)
    (hks : ∀ g ∈ as ++ bs, ∀ j ∈ g.2, j ∉ ks)
    (hnodup : ((as ++ (n, js) :: bs).flatMap Prod.snd).Nodup)
    (hfresh : ∀ j ∈ js, j < c.freshItem) : Shaped c' (as ++ (n, js) :: bs) where
  linked := by
    have hlinked := h.linked
    rw [List.map_append, List.map_cons] at hlinked ⊢
    -- only items are written, and the links of the frequency nodes stay
    refine hlinked.congr (fun m _ => ?_) fun m _ => ?_
    · by_cases hm : m = n
      · rw [hm, ht.prev]
      · rw [ht.freqs m hm]
    · by_cases hm : m = n
      · rw [hm, ht.next]
      · rw [ht.freqs m hm]
  items := by
    intro g hg
    rcases mem_group.mp hg with rfl | hg
    · exact hitems
    · exact (h.items g (mem_group.mpr (.inr hg))).touches ht (h.disjoint hg).1 (hks g hg)
  nodup := by
    have hfst := h.nodup
    rw [List.map_append, List.map_cons] at hfst ⊢
    exact hfst
  nodupItems := hnodup
  fresh := by
    intro g hg
    rw [ht.freshFreq]
    rcases mem_group.mp hg with rfl | hg
    · exact h.fresh (n, is) (by simp)
    · exact h.fresh g (mem_group.mpr (.inr hg))
  freshItems := by
    intro g hg
    rw [ht.freshItem]
    rcases mem_group.mp hg with rfl | hg
    · exact hfresh
    · exact h.freshItems g (mem_group.mpr (.inr hg))

/-- One item apart from the others. -/
theorem perm_items (as bs : List (Nat × List Nat)) (n i : Nat) (ys zs : List Nat) :
    ((as ++ (n, ys ++ i :: zs) :: bs).flatMap Prod.snd).Perm
      (i :: (as ++ (n, ys ++ zs) :: bs).flatMap Prod.snd) := by
  simp only [List.flatMap_append, List.flatMap_cons, List.append_assoc, List.cons_append]
  rw [← List.append_assoc, ← List.append_assoc]
  exact List.perm_middle

/-- An item leaves its node, and has no links then. -/
theorem Shaped.freeItem (h : Shaped c (as ++ (n, ys ++ i :: zs) :: bs)) :
    ∃ c', c.freeItem i = some c' ∧ Shaped c' (as ++ (n, ys ++ zs) :: bs) ∧ Loose c' i ∧
      Touches c c' n (ys ++ i :: zs) := by
  have hgroup : (n, ys ++ i :: zs) ∈ as ++ (n, ys ++ i :: zs) :: bs := by simp
  obtain ⟨c', hc', hitems, hloose, htouch⟩ := (h.items _ hgroup).freeItem (h.nodup_items hgroup)
  refine ⟨c', hc', h.touches htouch hitems ?_ ?_ ?_, hloose, htouch⟩
  · exact fun g hg j hj hj' => (h.disjoint hg).2 j hj hj'
  · exact ((perm_items as bs n i ys zs).nodup_iff.mp h.nodupItems).of_cons
  · intro j hj
    apply h.freshItems _ hgroup j
    simp only [List.mem_append, List.mem_cons] at hj ⊢
    tauto

/-- A loose item goes to the end of a node. -/
theorem Shaped.appendItem (h : Shaped c (as ++ (n, is) :: bs)) (hloose : Loose c i)
    (hi : i ∉ (as ++ (n, is) :: bs).flatMap Prod.snd) (hfresh : i < c.freshItem) :
    ∃ c', c.appendItem n i = some c' ∧ Shaped c' (as ++ (n, is ++ [i]) :: bs) ∧
      Touches c c' n (is ++ [i]) := by
  have hgroup : (n, is) ∈ as ++ (n, is) :: bs := by simp
  have hnot : ∀ g ∈ as ++ (n, is) :: bs, i ∉ g.2 := fun g hg hig =>
    hi (List.mem_flatMap.mpr ⟨g, hg, hig⟩)
  obtain ⟨c', hc', hitems, htouch⟩ :=
    (h.items _ hgroup).appendItem hloose (hnot _ hgroup) (h.nodup_items hgroup)
  refine ⟨c', hc', h.touches htouch hitems ?_ ?_ ?_, htouch⟩
  · intro g hg j hj hj'
    rcases List.mem_append.mp hj' with hj' | hj'
    · exact (h.disjoint hg).2 j hj hj'
    · rw [List.mem_singleton.mp hj'] at hj
      exact hnot g (mem_group.mpr (.inr hg)) hj
  · have hperm := perm_items as bs n i is []
    rw [List.append_nil] at hperm
    exact hperm.nodup_iff.mpr (List.nodup_cons.mpr ⟨hi, h.nodupItems⟩)
  · intro j hj
    rcases List.mem_append.mp hj with hj | hj
    · exact h.freshItems _ hgroup j hj
    · rw [List.mem_singleton.mp hj]
      exact hfresh

/-- The first item of the first node goes. -/
theorem Shaped.popItem (h : Shaped c ((n, i :: is) :: bs)) :
    ∃ c', c.popItem n = some c' ∧ Shaped c' ((n, is) :: bs) ∧ Touches c c' n is := by
  have hfirst : Shaped c ([] ++ (n, i :: is) :: bs) := h
  have hgroup : (n, i :: is) ∈ (n, i :: is) :: bs := by simp
  obtain ⟨c', hc', hitems, htouch⟩ := (h.items _ hgroup).popItem (h.nodup_items hgroup)
  refine ⟨c', hc', hfirst.touches htouch hitems ?_ ?_ ?_, htouch⟩
  · intro g hg j hj hj'
    exact (hfirst.disjoint hg).2 j hj (List.mem_cons_of_mem _ hj')
  · exact h.nodupItems.sublist (List.sublist_cons_self _ _)
  · exact fun j hj => h.freshItems _ hgroup j (List.mem_cons_of_mem _ hj)

/-! ## Links between frequency nodes -/

/-- What an operation on the links between frequency nodes leaves alone. -/
structure Relinks (c c' : Counter) : Prop where
  nodes : c'.nodes = c.nodes
  freq : ∀ m, (c'.freqs m).freq = (c.freqs m).freq
  itemHead : ∀ m, (c'.freqs m).itemHead = (c.freqs m).itemHead
  itemTail : ∀ m, (c'.freqs m).itemTail = (c.freqs m).itemTail
  capacity : c'.capacity = c.capacity
  items : c'.items = c.items
  freqHead : c'.freqHead = c.freqHead
  freshFreq : c'.freshFreq = c.freshFreq
  freshItem : c'.freshItem = c.freshItem

/-- Links between nodes do not matter to the items of a node. -/
theorem ItemsOk.relinks (h : ItemsOk c n is) (hr : Relinks c c') : ItemsOk c' n is where
  head := by rw [hr.itemHead, h.head]
  tail := by rw [hr.itemTail, h.tail]
  linked := by
    rw [hr.nodes]
    exact h.linked
  owner := by
    rw [hr.nodes]
    exact h.owner

section

variable {a b : Option Nat} {m : Nat}

@[simp] theorem linkNext_next :
    ((c.linkNext a b).freqs m).next = if a = some m then b else (c.freqs m).next := by
  cases a with
  | none => rfl
  | some n =>
    by_cases h : m = n
    · simp [linkNext, h]
    · simp [linkNext, h, Ne.symm h]

@[simp] theorem linkNext_prev : ((c.linkNext a b).freqs m).prev = (c.freqs m).prev := by
  cases a with
  | none => rfl
  | some n => by_cases h : m = n <;> simp [linkNext, h]

@[simp] theorem linkPrev_prev :
    ((c.linkPrev a b).freqs m).prev = if a = some m then b else (c.freqs m).prev := by
  cases a with
  | none => rfl
  | some n =>
    by_cases h : m = n
    · simp [linkPrev, h]
    · simp [linkPrev, h, Ne.symm h]

@[simp] theorem linkPrev_next : ((c.linkPrev a b).freqs m).next = (c.freqs m).next := by
  cases a with
  | none => rfl
  | some n => by_cases h : m = n <;> simp [linkPrev, h]

theorem Relinks.refl (c : Counter) : Relinks c c :=
  ⟨rfl, fun _ => rfl, fun _ => rfl, fun _ => rfl, rfl, rfl, rfl, rfl, rfl⟩

theorem Relinks.linkNext (h : Relinks c c') : Relinks c (c'.linkNext a b) := by
  cases a with
  | none => exact h
  | some n =>
    refine ⟨h.nodes, fun m => ?_, fun m => ?_, fun m => ?_, h.capacity, h.items, h.freqHead,
      h.freshFreq, h.freshItem⟩
    · by_cases hm : m = n <;> simp [Counter.linkNext, hm, h.freq]
    · by_cases hm : m = n <;> simp [Counter.linkNext, hm, h.itemHead]
    · by_cases hm : m = n <;> simp [Counter.linkNext, hm, h.itemTail]

theorem Relinks.linkPrev (h : Relinks c c') : Relinks c (c'.linkPrev a b) := by
  cases a with
  | none => exact h
  | some n =>
    refine ⟨h.nodes, fun m => ?_, fun m => ?_, fun m => ?_, h.capacity, h.items, h.freqHead,
      h.freshFreq, h.freshItem⟩
    · by_cases hm : m = n <;> simp [Counter.linkPrev, hm, h.freq]
    · by_cases hm : m = n <;> simp [Counter.linkPrev, hm, h.itemHead]
    · by_cases hm : m = n <;> simp [Counter.linkPrev, hm, h.itemTail]

end

theorem relinks_insertAfterMe {o : Nat} : Relinks c (c.insertAfterMe n o) := by
  unfold insertAfterMe
  exact (Relinks.refl c).linkNext.linkPrev.linkNext.linkPrev

theorem relinks_insertBeforeMe {o : Nat} : Relinks c (c.insertBeforeMe n o) := by
  unfold insertBeforeMe
  exact (Relinks.refl c).linkNext.linkPrev.linkNext.linkPrev

/-- A frequency node without items has no items to lose. -/
theorem relinks_freeFreq (hitems : ItemsOk c n []) : Relinks c (c.freeFreq n) := by
  unfold freeFreq
  have hlinks := (Relinks.refl c).linkNext (a := (c.freqs n).prev) (b := (c.freqs n).next)
  have hhead : (c.freqs n).itemHead = none := hitems.head
  have htail : (c.freqs n).itemTail = none := hitems.tail
  -- the second assignment reads the links behind the first one
  generalize c.linkNext (c.freqs n).prev (c.freqs n).next = c₁ at hlinks ⊢
  have hlinks' := (hlinks.linkPrev (a := (c₁.freqs n).next) (b := (c₁.freqs n).prev)).linkPrev
    (a := some n) (b := none) |>.linkNext (a := some n) (b := none)
  refine ⟨hlinks'.nodes, fun m => ?_, fun m => ?_, fun m => ?_, hlinks'.capacity, hlinks'.items,
    hlinks'.freqHead, hlinks'.freshFreq, hlinks'.freshItem⟩
  · rw [← hlinks'.freq]
    by_cases hm : m = n <;> simp [hm]
  · by_cases hm : m = n
    · simp [hm, hhead]
    · simp only [setFreq_freqs, if_neg hm, hlinks'.itemHead]
  · by_cases hm : m = n
    · simp [hm, htail]
    · simp only [setFreq_freqs, if_neg hm, hlinks'.itemTail]

/-- A frequency node with its items is put into the list. -/
theorem Shaped.insert (h : Shaped c (as ++ bs)) (hr : Relinks c c') {o : Nat} {is : List Nat}
    (hitems : ItemsOk c o is) (ho : o < c.freshFreq) (hnew : o ∉ (as ++ bs).map Prod.fst)
    (hfresh : ∀ i ∈ is, i < c.freshItem)
    (hnodup : ((as ++ (o, is) :: bs).flatMap Prod.snd).Nodup)
    (hprev : (c'.freqs o).prev = (as.map Prod.fst).getLast?)
    (hnext : (c'.freqs o).next = (bs.map Prod.fst).head?)
    (hprev' : ∀ m, m ≠ o → (c'.freqs m).prev =
      if (bs.map Prod.fst).head? = some m then some o else (c.freqs m).prev)
    (hnext' : ∀ m, m ≠ o → (c'.freqs m).next =
      if (as.map Prod.fst).getLast? = some m then some o else (c.freqs m).next) :
    Shaped c' (as ++ (o, is) :: bs) where
  linked := by
    have hlinked := h.linked
    have hnd := h.nodup
    rw [List.map_append] at hlinked hnd hnew
    have hne : ∀ m ∈ as.map Prod.fst ++ bs.map Prod.fst, m ≠ o := fun m hm heq =>
      hnew (heq ▸ hm)
    rw [List.map_append, List.map_cons]
    -- no old node is the new one, so its links are the written ones or the old ones
    refine hlinked.insert hnd hprev hnext (fun m hm => ?_) fun m hm => ?_
    · exact hprev' m (hne m hm)
    · exact hnext' m (hne m hm)
  items := by
    intro g hg
    rcases mem_group.mp hg with rfl | hg
    · exact hitems.relinks hr
    · exact (h.items g hg).relinks hr
  nodup := by
    have hperm : ((as ++ (o, is) :: bs).map Prod.fst).Perm (o :: (as ++ bs).map Prod.fst) :=
      List.perm_middle.map Prod.fst
    exact hperm.nodup_iff.mpr (List.nodup_cons.mpr ⟨hnew, h.nodup⟩)
  nodupItems := hnodup
  fresh := by
    intro g hg
    rw [hr.freshFreq]
    rcases mem_group.mp hg with rfl | hg
    · exact ho
    · exact h.fresh g hg
  freshItems := by
    intro g hg
    rw [hr.freshItem]
    rcases mem_group.mp hg with rfl | hg
    · exact hfresh
    · exact h.freshItems g hg

theorem freeFreq_prev {m : Nat} (hm : m ≠ n) : ((c.freeFreq n).freqs m).prev =
    if (c.freqs n).next = some m then (c.freqs n).prev else (c.freqs m).prev := by
  simp [Counter.freeFreq, hm, Ne.symm hm]

theorem freeFreq_next {m : Nat} (hm : m ≠ n) : ((c.freeFreq n).freqs m).next =
    if (c.freqs n).prev = some m then (c.freqs n).next else (c.freqs m).next := by
  simp [Counter.freeFreq, hm, Ne.symm hm]

/-- A frequency node without items is taken out of the list. -/
theorem Shaped.freeFreq (h : Shaped c (as ++ (n, []) :: bs)) :
    Shaped (c.freeFreq n) (as ++ bs) := by
  have hr := relinks_freeFreq (h.items (n, []) (by simp))
  have hlinked := h.linked
  have hnodup := h.nodup
  rw [List.map_append, List.map_cons] at hlinked hnodup
  obtain ⟨hprev, hnext⟩ := hlinked.at
  have hnd : (as.map Prod.fst ++ bs.map Prod.fst).Nodup := hnodup.sublist (by simp)
  -- the node stands once in the list
  have hne : ∀ m ∈ as.map Prod.fst ++ bs.map Prod.fst, m ≠ n := by
    intro m hm heq
    have hperm : (as.map Prod.fst ++ n :: bs.map Prod.fst).Perm
        (n :: (as.map Prod.fst ++ bs.map Prod.fst)) := List.perm_middle
    exact (List.nodup_cons.mp (hperm.nodup_iff.mp hnodup)).1 (heq ▸ hm)
  refine ⟨?_, fun g hg => ?_, ?_, ?_, fun g hg => ?_, fun g hg => ?_⟩
  · rw [List.map_append]
    refine hlinked.remove hnd (fun m hm => ?_) fun m hm => ?_
    · rw [freeFreq_prev (hne m hm), hprev, hnext]
    · rw [freeFreq_next (hne m hm), hprev, hnext]
  · exact (h.items g (mem_group.mpr (.inr hg))).relinks hr
  · rw [List.map_append]
    exact hnd
  -- it has no items to take along
  · have hitems := h.nodupItems
    rw [List.flatMap_append, List.flatMap_cons, List.nil_append, ← List.flatMap_append] at hitems
    exact hitems
  · rw [hr.freshFreq]
    exact h.fresh g (mem_group.mpr (.inr hg))
  · rw [hr.freshItem]
    exact h.freshItems g (mem_group.mpr (.inr hg))

/-! ## Allocation -/

/-- A new node is in no list yet. -/
theorem Shaped.allocFreq (h : Shaped c gs) (freq : UInt64) : Shaped (c.allocFreq freq) gs := by
  have hold : ∀ m, m < c.freshFreq → (c.allocFreq freq).freqs m = c.freqs m := by
    intro m hm
    simp [Counter.allocFreq, Nat.ne_of_lt hm]
  have hmem : ∀ m ∈ gs.map Prod.fst, m < c.freshFreq := by
    intro m hm
    obtain ⟨g, hg, rfl⟩ := List.mem_map.mp hm
    exact h.fresh g hg
  -- the fresh node is in no list yet
  refine ⟨?_, fun g hg => ?_, h.nodup, h.nodupItems, fun g hg => ?_, h.freshItems⟩
  · refine h.linked.congr (fun m hm => ?_) fun m hm => ?_
    · rw [hold m (hmem m hm)]
    · rw [hold m (hmem m hm)]
  · have hitems := h.items g hg
    refine ⟨?_, ?_, hitems.linked, hitems.owner⟩
    · rw [hold _ (h.fresh g hg), hitems.head]
    · rw [hold _ (h.fresh g hg), hitems.tail]
  · exact Nat.lt_succ_of_lt (h.fresh g hg)

/-- A new item is in no list yet. -/
theorem Shaped.allocItem (h : Shaped c gs) (key : Bytes) : Shaped (c.allocItem key) gs := by
  have hold : ∀ m, m < c.freshItem → (c.allocItem key).nodes m = c.nodes m := by
    intro m hm
    simp [Counter.allocItem, Nat.ne_of_lt hm]
  refine ⟨h.linked, fun g hg => ?_, h.nodup, h.nodupItems, h.fresh, fun g hg i hi => ?_⟩
  · have hitems := h.items g hg
    refine ⟨hitems.head, hitems.tail, hitems.linked.congr (fun i hi => ?_) fun i hi => ?_, ?_⟩
    · rw [hold i (h.freshItems g hg i hi)]
    · rw [hold i (h.freshItems g hg i hi)]
    · intro i hi
      rw [hold i (h.freshItems g hg i hi)]
      exact hitems.owner i hi
  · exact Nat.lt_succ_of_lt (h.freshItems g hg i hi)

/-! ## Operations of the counter -/

/-- What the operations on nodes leave alone in the nodes that are there. -/
structure SameKeys (c c' : Counter) : Prop where
  capacity : c'.capacity = c.capacity
  items : c'.items = c.items
  key : ∀ i, (c'.nodes i).key = (c.nodes i).key
  freq : ∀ m, m < c.freshFreq → (c'.freqs m).freq = (c.freqs m).freq
  freshItem : c'.freshItem = c.freshItem
  freshFreq : c.freshFreq ≤ c'.freshFreq

theorem SameKeys.trans (h : SameKeys c c') (h' : SameKeys c' c'') : SameKeys c c'' where
  capacity := h'.capacity.trans h.capacity
  items := h'.items.trans h.items
  key := fun i => (h'.key i).trans (h.key i)
  freq := fun m hm => (h'.freq m (hm.trans_le h.freshFreq)).trans (h.freq m hm)
  freshItem := h'.freshItem.trans h.freshItem
  freshFreq := h.freshFreq.trans h'.freshFreq

theorem Touches.freq_eq (h : Touches c c' n is) (m : Nat) :
    (c'.freqs m).freq = (c.freqs m).freq := by
  by_cases hm : m = n
  · rw [hm, h.freq]
  · rw [h.freqs m hm]

theorem Touches.sameKeys (h : Touches c c' n is) : SameKeys c c' :=
  ⟨h.capacity, h.items, h.key, fun m _ => h.freq_eq m, h.freshItem, h.freshFreq.ge⟩

theorem Relinks.sameKeys (h : Relinks c c') : SameKeys c c' :=
  ⟨h.capacity, h.items, fun i => by rw [h.nodes], fun m _ => h.freq m, h.freshItem,
    h.freshFreq.ge⟩

theorem sameKeys_allocFreq (freq : UInt64) : SameKeys c (c.allocFreq freq) := by
  refine ⟨rfl, rfl, fun _ => rfl, fun m hm => ?_, rfl, Nat.le_succ _⟩
  simp [Counter.allocFreq, Nat.ne_of_lt hm]

/-- A new frequency node is put behind another one. -/
theorem Shaped.insertAfterMe (h : Shaped c (as ++ (n, is) :: bs)) (freq : UInt64) :
    Shaped ((c.allocFreq freq).insertAfterMe n c.freshFreq)
      (as ++ (n, is) :: (c.freshFreq, []) :: bs) := by
  have halloc := h.allocFreq freq
  have hn : n < c.freshFreq := h.fresh (n, is) (by simp)
  have hon : c.freshFreq ≠ n := Nat.ne_of_gt hn
  have hlinked := halloc.linked
  rw [List.map_append, List.map_cons] at hlinked
  obtain ⟨-, hnext⟩ := hlinked.at
  -- the node in front belongs to the first part of the list
  have hsplit : as ++ (n, is) :: bs = (as ++ [(n, is)]) ++ bs := by simp
  rw [hsplit] at halloc
  have hgoal : as ++ (n, is) :: (c.freshFreq, []) :: bs =
      (as ++ [(n, is)]) ++ (c.freshFreq, []) :: bs := by simp
  rw [hgoal]
  refine halloc.insert relinks_insertAfterMe ⟨?_, ?_, trivial, by simp⟩ (Nat.lt_succ_self _) ?_
    (by simp) ?_ ?_ ?_ ?_ ?_
  · simp [Counter.allocFreq, newFreqNode]
  · simp [Counter.allocFreq, newFreqNode]
  · intro hmem
    obtain ⟨g, hg, heq⟩ := List.mem_map.mp hmem
    rw [← hsplit] at hg
    exact absurd (h.fresh g hg) (by omega)
  · have hnodup := h.nodupItems
    simpa using hnodup
  · simp [Counter.insertAfterMe]
  · simp [Counter.insertAfterMe, hon.symm, hnext]
  · intro m hm
    simp only [Counter.insertAfterMe, linkPrev_prev, linkNext_prev, linkNext_next,
      Option.some.injEq, hm.symm, hon, if_false, hnext]
  · intro m hm
    simp [Counter.insertAfterMe, hm.symm]

/-- Where an item goes that is visited once more: to the next frequency node if this is the one,
    and to a new one otherwise. -/
inductive Target (c : Counter) (n : Nat) (bs : List (Nat × List Nat)) :
    Nat → List Nat → List (Nat × List Nat) → Prop where
  | next (t : Nat) (js : List Nat) (bs' : List (Nat × List Nat)) (hbs : bs = (t, js) :: bs') :
      Target c n bs t js bs'
  | new (t : Nat) (ht : c.freshFreq ≤ t)
      (hnext : ∀ g ∈ bs.head?, (c.freqs g.1).freq ≠ (c.freqs n).freq + 1) : Target c n bs t [] bs

/-- The node for the next frequency is the one behind, or a new one is put in between. -/
theorem Shaped.targetFreqNode (h : Shaped c (as ++ (n, is) :: bs)) :
    ∃ c' t js bs', c.targetFreqNode n = (c', t) ∧ Target c n bs t js bs' ∧
      Shaped c' (as ++ (n, is) :: (t, js) :: bs') ∧ SameKeys c c' ∧ c'.freqHead = c.freqHead ∧
      c'.nodes = c.nodes ∧ (c'.freqs t).freq = (c.freqs n).freq + 1 := by
  have hlinked := h.linked
  rw [List.map_append, List.map_cons] at hlinked
  have hnext : (c.freqs n).next = (bs.map Prod.fst).head? := hlinked.at.2
  have hn : n < c.freshFreq := h.fresh (n, is) (by simp)
  have hr : ∀ freq, Relinks (c.allocFreq freq) ((c.allocFreq freq).insertAfterMe n c.freshFreq) :=
    fun freq => relinks_insertAfterMe
  have hfreq : ∀ freq, (((c.allocFreq freq).insertAfterMe n c.freshFreq).freqs c.freshFreq).freq =
      freq := by
    intro freq
    rw [(hr freq).freq]
    simp [Counter.allocFreq, newFreqNode]
  unfold Counter.targetFreqNode
  -- the last node has nobody behind it; another one may have the right one
  cases bs with
  | nil =>
    have hnone : (c.freqs n).next = none := hnext
    rw [hnone]
    refine ⟨_, _, [], [], rfl, .new _ le_rfl (by simp), h.insertAfterMe _,
      (sameKeys_allocFreq _).trans (hr _).sameKeys, (hr _).freqHead, (hr _).nodes, hfreq _⟩
  | cons g bs =>
    have hsome : (c.freqs n).next = some g.1 := hnext
    rw [hsome]
    by_cases hg : (c.freqs g.1).freq = (c.freqs n).freq + 1
    · simp only [hg, ne_eq, not_true, if_false]
      exact ⟨c, g.1, g.2, bs, rfl, .next _ _ _ rfl, h,
        ⟨rfl, rfl, fun _ => rfl, fun _ _ => rfl, rfl, le_rfl⟩, rfl, rfl, hg⟩
    · simp only [ne_eq, hg, not_false_eq_true, if_true]
      refine ⟨_, _, [], g :: bs, rfl, .new _ le_rfl ?_, h.insertAfterMe _,
        (sameKeys_allocFreq _).trans (hr _).sameKeys, (hr _).freqHead, (hr _).nodes, hfreq _⟩
      intro g' hg'
      obtain rfl := Option.some.inj hg'
      exact hg

/-- A frequency node that has items left. -/
def kept (n : Nat) (is : List Nat) : List (Nat × List Nat) := if is = [] then [] else [(n, is)]

@[simp] theorem kept_nil : kept n [] = [] := rfl

@[simp] theorem kept_cons : kept n (i :: is) = [(n, i :: is)] := by simp [kept]

/-- The shape does not depend on the head of the counter, nor on the map. -/
theorem Shaped.setHead (h : Shaped c gs) (head : Option Nat) :
    Shaped { c with freqHead := head } gs :=
  ⟨h.linked, fun g hg => ⟨(h.items g hg).head, (h.items g hg).tail, (h.items g hg).linked,
    (h.items g hg).owner⟩, h.nodup, h.nodupItems, h.fresh, h.freshItems⟩

theorem Shaped.setItems (h : Shaped c gs) (items : KeyMap Bytes Nat) :
    Shaped { c with items := items } gs :=
  ⟨h.linked, fun g hg => ⟨(h.items g hg).head, (h.items g hg).tail, (h.items g hg).linked,
    (h.items g hg).owner⟩, h.nodup, h.nodupItems, h.fresh, h.freshItems⟩

/-- The node that an item has left goes when it is empty. -/
theorem Shaped.dropEmpty {t : Nat} (h : Shaped c (as ++ (n, is) :: (t, js) :: bs))
    (hhead : c.freqHead = ((as ++ (n, is) :: (t, js) :: bs).map Prod.fst).head?) :
    Shaped (c.dropEmpty n t) (as ++ kept n is ++ (t, js) :: bs) ∧
      (c.dropEmpty n t).freqHead = ((as ++ kept n is ++ (t, js) :: bs).map Prod.fst).head? ∧
      SameKeys c (c.dropEmpty n t) ∧ ∀ m, ((c.dropEmpty n t).freqs m).freq = (c.freqs m).freq := by
  have hitems : ItemsOk c n is := h.items (n, is) (by simp)
  unfold Counter.dropEmpty
  cases is with
  | cons i is =>
    rw [hitems.head, List.head?_cons, kept_cons, List.append_assoc, List.singleton_append]
    exact ⟨h, hhead, ⟨rfl, rfl, fun _ => rfl, fun _ _ => rfl, rfl, le_rfl⟩, fun _ => rfl⟩
  | nil =>
    rw [hitems.head, List.head?_nil, kept_nil, List.append_nil]
    -- the node is the first one exactly if there is none before it
    obtain ⟨head, hc, hnew⟩ : ∃ head,
        (if c.freqHead = some n then { c with freqHead := some t } else c) =
          { c with freqHead := head } ∧
        head = ((as ++ (t, js) :: bs).map Prod.fst).head? := by
      cases as with
      | nil => exact ⟨some t, if_pos (show c.freqHead = some n from hhead), rfl⟩
      | cons g as =>
        refine ⟨c.freqHead, ?_, hhead⟩
        rw [if_neg]
        intro heq
        rw [hhead] at heq
        have hnodup := h.nodup
        rw [List.cons_append, List.map_cons, List.nodup_cons] at hnodup
        apply hnodup.1
        rw [show g.1 = n from Option.some.inj heq]
        simp
    have hshaped := h.setHead head
    have hr := relinks_freeFreq (hshaped.items (n, []) (by simp))
    simp only [hc]
    refine ⟨hshaped.freeFreq, hr.freqHead.trans hnew, ?_, hr.freq⟩
    exact ⟨hr.capacity, hr.items, fun i => by rw [hr.nodes], fun m _ => hr.freq m, hr.freshItem,
      hr.freshFreq.ge⟩

/-- `increment` moves an item to the frequency node for one visit more. -/
theorem Shaped.increment (h : Shaped c (as ++ (n, ys ++ i :: zs) :: bs))
    (hhead : c.freqHead = ((as ++ (n, ys ++ i :: zs) :: bs).map Prod.fst).head?) :
    ∃ c' t js bs', c.increment i = some c' ∧ Target c n bs t js bs' ∧
      Shaped c' (as ++ kept n (ys ++ zs) ++ (t, js ++ [i]) :: bs') ∧
      c'.freqHead = ((as ++ kept n (ys ++ zs) ++ (t, js ++ [i]) :: bs').map Prod.fst).head? ∧
      SameKeys c c' ∧ (c'.freqs t).freq = (c.freqs n).freq + 1 := by
  have howner : (c.nodes i).freqNode = some n :=
    (h.items (n, ys ++ i :: zs) (by simp)).owner i (by simp)
  have hfresh : i < c.freshItem := h.freshItems (n, ys ++ i :: zs) (by simp) i (by simp)
  -- the four parts of `increment`, each from the shape that the one before has left
  obtain ⟨c₁, t, js, bs', htarget, hkind, h₁, hkeys₁, hhead₁, hnodes₁, hfreq₁⟩ := h.targetFreqNode
  obtain ⟨c₂, hfree, h₂, hloose, ht₂⟩ := h₁.freeItem
  have hsplit : as ++ (n, ys ++ zs) :: (t, js) :: bs' =
      (as ++ [(n, ys ++ zs)]) ++ (t, js) :: bs' := by simp
  -- the item has left its list
  have hnot : i ∉ ((as ++ [(n, ys ++ zs)]) ++ (t, js) :: bs').flatMap Prod.snd := by
    have hnodup := (perm_items as ((t, js) :: bs') n i ys zs).nodup_iff.mp h₁.nodupItems
    rw [← hsplit]
    exact (List.nodup_cons.mp hnodup).1
  have h₂' := h₂
  rw [hsplit] at h₂'
  obtain ⟨c₃, happend, h₃, ht₃⟩ := h₂'.appendItem hloose hnot
    (by rw [ht₂.freshItem, hkeys₁.freshItem]; exact hfresh)
  rw [List.append_assoc, List.singleton_append] at h₃
  have hhead₃ : c₃.freqHead =
      ((as ++ (n, ys ++ zs) :: (t, js ++ [i]) :: bs').map Prod.fst).head? := by
    rw [ht₃.freqHead, ht₂.freqHead, hhead₁, hhead]
    cases as <;> rfl
  obtain ⟨h₄, hhead₄, hkeys₄, hfreq₄⟩ := h₃.dropEmpty hhead₃
  refine ⟨_, t, js, bs', ?_, hkind, h₄, hhead₄, ?_, ?_⟩
  · unfold Counter.increment
    rw [howner]
    simp only [Option.bind_eq_bind, Option.bind_some, htarget, hfree, happend]
  · exact ((hkeys₁.trans ht₂.sameKeys).trans ht₃.sameKeys).trans hkeys₄
  · rw [hfreq₄, ht₃.freq_eq, ht₂.freq_eq, hfreq₁]

/-- Groups that an operation has nothing to do with. -/
theorem Shaped.frame (h : Shaped c gs) {ks : List Nat} (ht : Touches c c' n ks)
    (hn : n ∉ gs.map Prod.fst) (hks : ∀ g ∈ gs, ∀ j ∈ g.2, j ∉ ks) : Shaped c' gs := by
  have hne : ∀ m ∈ gs.map Prod.fst, m ≠ n := fun m hm heq => hn (heq ▸ hm)
  refine ⟨?_, fun g hg => ?_, h.nodup, h.nodupItems, ?_, ?_⟩
  · refine h.linked.congr (fun m hm => ?_) fun m hm => ?_
    · rw [ht.freqs m (hne m hm)]
    · rw [ht.freqs m (hne m hm)]
  · exact (h.items g hg).touches ht (hne _ (List.mem_map_of_mem hg)) (hks g hg)
  · rw [ht.freshFreq]
    exact h.fresh
  · rw [ht.freshItem]
    exact h.freshItems

/-- A frequency node of its own for a new item. -/
theorem Shaped.newNode (h : Shaped c gs) (hloose : Loose c i) (hi : i ∉ gs.flatMap Prod.snd) :
    ∃ c', (c.allocFreq 1).appendItem c.freshFreq i = some c' ∧ Shaped c' gs ∧
      ItemsOk c' c.freshFreq [i] ∧ (c'.freqs c.freshFreq).prev = none ∧
      (c'.freqs c.freshFreq).next = none ∧ (c'.freqs c.freshFreq).freq = 1 ∧ SameKeys c c' ∧
      c'.freshFreq = c.freshFreq + 1 := by
  have hnew : (c.allocFreq 1).freqs c.freshFreq = newFreqNode 1 := by
    simp [Counter.allocFreq]
  -- the node is alone until it is linked
  have hitems : ItemsOk (c.allocFreq 1) c.freshFreq [] := by
    refine ⟨?_, ?_, trivial, by simp⟩
    · rw [hnew]
      rfl
    · rw [hnew]
      rfl
  obtain ⟨c', hc', hitems', ht⟩ := hitems.appendItem hloose (by simp) List.nodup_nil
  refine ⟨c', hc', (h.allocFreq 1).frame ht ?_ ?_, hitems', ?_, ?_, ?_, ?_, ht.freshFreq⟩
  · intro hmem
    obtain ⟨g, hg, heq⟩ := List.mem_map.mp hmem
    exact absurd (h.fresh g hg) (by omega)
  · intro g hg j hj hj'
    rw [List.nil_append, List.mem_singleton] at hj'
    exact hi (List.mem_flatMap.mpr ⟨g, hg, hj' ▸ hj⟩)
  · rw [ht.prev, hnew]
    rfl
  · rw [ht.next, hnew]
    rfl
  · rw [ht.freq, hnew]
    rfl
  · exact (sameKeys_allocFreq 1).trans ht.sameKeys

/-- Where a new item goes: to the first frequency node if this is the one for a single visit, and
    to a new one otherwise. -/
inductive Added (c : Counter) (i : Nat) :
    List (Nat × List Nat) → Nat → List (Nat × List Nat) → Prop where
  | head (n : Nat) (is : List Nat) (gs : List (Nat × List Nat)) (hfreq : (c.freqs n).freq = 1) :
      Added c i ((n, is) :: gs) n ((n, is ++ [i]) :: gs)
  | new (n : Nat) (gs : List (Nat × List Nat)) (hn : c.freshFreq ≤ n)
      (hhead : ∀ g ∈ gs.head?, (c.freqs g.1).freq ≠ 1) : Added c i gs n ((n, [i]) :: gs)

/-- A new item goes to the node of frequency one, which is the first. -/
theorem Shaped.placeItem (h : Shaped c gs) (hhead : c.freqHead = (gs.map Prod.fst).head?)
    (hloose : Loose c i) (hi : i ∉ gs.flatMap Prod.snd) (hfresh : i < c.freshItem) :
    ∃ c' n gs', c.placeItem i = some c' ∧ Added c i gs n gs' ∧ Shaped c' gs' ∧
      c'.freqHead = (gs'.map Prod.fst).head? ∧ (c'.freqs n).freq = 1 ∧ SameKeys c c' := by
  obtain ⟨c₁, hc₁, h₁, hitems, hprev, hnext, hfreq, hkeys, hfresh₁⟩ := h.newNode hloose hi
  have hnodup : (([] ++ (c.freshFreq, [i]) :: gs).flatMap Prod.snd).Nodup := by
    simpa [h.nodupItems] using hi
  have hnew : c.freshFreq ∉ gs.map Prod.fst := by
    intro hmem
    obtain ⟨g, hg, heq⟩ := List.mem_map.mp hmem
    exact absurd (h.fresh g hg) (by omega)
  have hlt : c.freshFreq < c₁.freshFreq := by omega
  have hi₁ : ∀ j ∈ [i], j < c₁.freshItem := by
    intro j hj
    rw [List.mem_singleton.mp hj, hkeys.freshItem]
    exact hfresh
  unfold Counter.placeItem
  cases gs with
  | nil =>
    have hnone : c.freqHead = none := hhead
    rw [hnone]
    simp only [hc₁, Option.bind_eq_bind, Option.bind_some]
    refine ⟨_, c.freshFreq, [(c.freshFreq, [i])], rfl, .new _ _ le_rfl (by simp),
      Shaped.setHead ?_ _, rfl, hfreq, ⟨hkeys.capacity, hkeys.items, hkeys.key, hkeys.freq,
        hkeys.freshItem, hkeys.freshFreq⟩⟩
    have h₁' : Shaped c₁ ([] ++ []) := h₁
    exact h₁'.insert (Relinks.refl c₁) hitems hlt (by simp) hi₁ (by simp) hprev hnext
      (fun m _ => by simp) fun m _ => by simp
  | cons g gs =>
    have hsome : c.freqHead = some g.1 := hhead
    rw [hsome]
    -- a first node for one visit takes the item; another one gets a node before it
    by_cases hone : (c.freqs g.1).freq = 1
    · simp only [hone, if_true]
      have h₀ : Shaped c ([] ++ (g.1, g.2) :: gs) := h
      obtain ⟨c', hc', h', ht⟩ := h₀.appendItem hloose hi hfresh
      refine ⟨c', g.1, (g.1, g.2 ++ [i]) :: gs, hc', .head g.1 g.2 gs hone, h', ?_, ?_,
        ht.sameKeys⟩
      · rw [ht.freqHead, hsome]
        rfl
      · rw [ht.freq, hone]
    · simp only [hone, if_false, hc₁, Option.bind_eq_bind, Option.bind_some]
      have hon : c.freshFreq ≠ g.1 := Nat.ne_of_gt (h.fresh g (by simp))
      have hr := relinks_insertBeforeMe (c := c₁) (n := g.1) (o := c.freshFreq)
      have hfirst : (c₁.freqs g.1).prev = none := h₁.linked.1
      have h₁' : Shaped c₁ ([] ++ g :: gs) := h₁
      refine ⟨_, c.freshFreq, (c.freshFreq, [i]) :: g :: gs, rfl, .new _ _ le_rfl ?_,
        Shaped.setHead ?_ _, rfl, (hr.freq _).trans hfreq, ?_⟩
      · intro g' hg'
        obtain rfl := Option.some.inj hg'
        exact hone
      · refine h₁'.insert hr hitems hlt hnew hi₁ hnodup ?_ ?_ (fun m hm => ?_) fun m hm => ?_
        · simp [Counter.insertBeforeMe, hfirst, hon.symm]
        · simp [Counter.insertBeforeMe, hfirst]
        · simp [Counter.insertBeforeMe, hfirst, hm.symm]
        · simp [Counter.insertBeforeMe, hfirst, hm.symm]
      · have hkeys' := hkeys.trans hr.sameKeys
        exact ⟨hkeys'.capacity, hkeys'.items, hkeys'.key, hkeys'.freq, hkeys'.freshItem,
          hkeys'.freshFreq⟩

/-- `evict` takes out the first item of the first frequency node. -/
theorem Shaped.evict (h : Shaped c ((n, i :: is) :: gs)) (hhead : c.freqHead = some n) :
    ∃ c', c.evict = some c' ∧ Shaped c' (kept n is ++ gs) ∧
      c'.freqHead = ((kept n is ++ gs).map Prod.fst).head? ∧
      SameKeys { c with items := c.items.erase (c.nodes i).key } c' := by
  have hitem : (c.freqs n).itemHead = some i := (h.items (n, i :: is) (by simp)).head
  obtain ⟨c₁, hpop, h₁, ht⟩ := (h.setItems (c.items.erase (c.nodes i).key)).popItem
  have hitems : ItemsOk c₁ n is := h₁.items (n, is) (by simp)
  unfold Counter.evict
  rw [hhead] at hpop ht
  simp only [hhead, hitem, hpop, Option.bind_eq_bind, Option.bind_some]
  cases is with
  | cons j is =>
    rw [hitems.head, List.head?_cons, kept_cons]
    exact ⟨c₁, rfl, h₁, ht.freqHead, ht.sameKeys⟩
  | nil =>
    rw [hitems.head, List.head?_nil, kept_nil, List.nil_append]
    have hnext : (c₁.freqs n).next = (gs.map Prod.fst).head? := by
      obtain ⟨-, hnext, -⟩ := h₁.linked
      exact hnext.trans Option.or_none
    -- the head is moved on before the empty node is freed
    have h₂ : Shaped { c₁ with freqHead := (c₁.freqs n).next } ([] ++ (n, []) :: gs) :=
      h₁.setHead _
    have hr := relinks_freeFreq (h₂.items (n, []) (by simp))
    refine ⟨_, rfl, h₂.freeFreq, hr.freqHead.trans hnext, ?_⟩
    have hsame : SameKeys c₁ { c₁ with freqHead := (c₁.freqs n).next } :=
      ⟨rfl, rfl, fun _ => rfl, fun _ _ => rfl, rfl, le_rfl⟩
    exact (ht.sameKeys.trans hsame).trans hr.sameKeys

end Counter

end Samaritan.HotKeys
