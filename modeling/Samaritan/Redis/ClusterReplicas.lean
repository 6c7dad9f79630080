import Samaritan.Redis.ClusterNodes

/-!
# The Replicas of a Cluster

The second pass of `parseClusterNodes` (`proc/redis/slot.go`) visits the entries of the map in an
order that is not specified, and takes each replica from the map while it goes on. It finds the
master of a replica only if the master is in the map and has not been taken from it before. So it
comes through in every order exactly if each replica names a master of the map; a replica that
names itself does no harm, since it is still there when it is visited.
-/

namespace Samaritan.Redis

open Samaritan.Lib

variable {insts m : KeyMap Bytes ClusterInstance} {done todo : List Bytes} {id k : Bytes}
  {inst : ClusterInstance}

/-! ## Where the second pass is -/

/-- Every replica names itself or a master of the map. -/
def Rooted (insts : KeyMap Bytes ClusterInstance) : Prop :=
  ∀ id inst, insts.lookup id = some inst → inst.masterId ≠ [] →
    inst.masterId = id ∨
      ∃ master, insts.lookup inst.masterId = some master ∧ master.masterId = []

/-- The instance under `r`, if it is a replica of `k`. -/
def replicaOf (insts : KeyMap Bytes ClusterInstance) (k r : Bytes) : Option ClusterInstance :=
  (insts.lookup r).filter fun inst => inst.masterId ≠ [] && inst.masterId = k

/-- What is under `k` when the entries `done` have been visited. -/
def attached (insts : KeyMap Bytes ClusterInstance) (done : List Bytes) (k : Bytes) :
    Option ClusterInstance :=
  (insts.lookup k).bind fun inst =>
    if inst.masterId = [] then
      some { inst with replicas := inst.replicas ++ done.filterMap (replicaOf insts k) }
    else if k ∈ done then none
    else some inst

theorem attached_master (h : insts.lookup k = some inst) (hmaster : inst.masterId = []) :
    attached insts done k =
      some { inst with replicas := inst.replicas ++ done.filterMap (replicaOf insts k) } := by
  rw [attached, h, Option.bind_some, if_pos hmaster]

theorem attached_replica (h : insts.lookup k = some inst) (hreplica : inst.masterId ≠ []) :
    attached insts done k = if k ∈ done then none else some inst := by
  rw [attached, h, Option.bind_some, if_neg hreplica]

theorem attached_none (h : insts.lookup k = none) : attached insts done k = none := by
  rw [attached, h, Option.bind_none]

theorem attached_nil : attached insts [] k = insts.lookup k := by
  cases h : insts.lookup k with
  | none => exact attached_none h
  | some inst =>
    by_cases hmaster : inst.masterId = []
    · rw [attached_master h hmaster, List.filterMap_nil, List.append_nil]
      cases inst
      rfl
    · rw [attached_replica h hmaster, if_neg List.not_mem_nil]

theorem replicaOf_eq_none (h : ∀ inst, insts.lookup id = some inst → inst.masterId ≠ [] →
    inst.masterId ≠ k) : replicaOf insts k id = none := by
  unfold replicaOf
  rw [Option.filter_eq_none_iff]
  intro inst hinst
  have hne := h inst hinst
  simpa using hne

/-- A visit changes nothing but its own entry and that of the master it attaches a replica to. -/
theorem attached_append (hk : k ≠ id ∨ ∀ inst, insts.lookup k = some inst → inst.masterId = [])
    (hreplica : replicaOf insts k id = none) :
    attached insts (done ++ [id]) k = attached insts done k := by
  cases h : insts.lookup k with
  | none => rw [attached_none h, attached_none h]
  | some inst =>
    by_cases hmaster : inst.masterId = []
    · rw [attached_master h hmaster, attached_master h hmaster, List.filterMap_append,
        List.filterMap_cons_none hreplica, List.filterMap_nil, List.append_nil]
    · have hne : k ≠ id := hk.resolve_right fun hall => hmaster (hall inst h)
      rw [attached_replica h hmaster, attached_replica h hmaster]
      simp [hne]

/-! ## One visit -/

/-- The map in the middle of the second pass. -/
def AttachedTo (insts : KeyMap Bytes ClusterInstance) (done : List Bytes)
    (m : KeyMap Bytes ClusterInstance) : Prop :=
  ∀ k, m.lookup k = attached insts done k

theorem AttachedTo.skip (hm : AttachedTo insts done m)
    (hid : ∀ inst, insts.lookup id = some inst → inst.masterId = []) :
    AttachedTo insts (done ++ [id]) m := by
  intro k
  rw [hm k, attached_append]
  · by_cases hk : k = id
    · subst hk
      exact .inr hid
    · exact .inl hk
  · exact replicaOf_eq_none fun inst h hne => (hne (hid inst h)).elim

/-- The visit of a replica whose master is in the map. -/
theorem attach_replica {master : ClusterInstance} (h : m.lookup id = some inst)
    (hreplica : inst.masterId ≠ []) (hmaster : m.lookup inst.masterId = some master) :
    attach m id = .returns ((m.insert inst.masterId
      { master with replicas := master.replicas ++ [inst] }).erase id) := by
  rw [attach, h]
  simp only [if_neg hreplica, hmaster]

theorem attach_master (h : m.lookup id = some inst) (hmaster : inst.masterId = []) :
    attach m id = .returns m := by
  rw [attach, h]
  simp only [if_pos hmaster]

theorem AttachedTo.attach (hroot : Rooted insts) (hm : AttachedTo insts done m)
    (hid : id ∉ done) :
    ∃ m', attach m id = .returns m' ∧ AttachedTo insts (done ++ [id]) m' := by
  have hlook := hm id
  cases h : insts.lookup id with
  | none =>
    rw [attached_none h] at hlook
    refine ⟨m, ?_, hm.skip fun inst hinst => by simp [h] at hinst⟩
    rw [Redis.attach, hlook]
  | some inst =>
    by_cases hmaster : inst.masterId = []
    · rw [attached_master h hmaster] at hlook
      refine ⟨m, attach_master hlook hmaster, hm.skip fun inst' hinst => ?_⟩
      obtain rfl := Option.some.inj (h.symm.trans hinst)
      exact hmaster
    · rw [attached_replica h hmaster, if_neg hid] at hlook
      have hself : attached insts (done ++ [id]) id = none := by
        rw [attached_replica h hmaster, if_pos (by simp)]
      -- what the visit leaves alone
      have hother : ∀ k, k ≠ id → k ≠ inst.masterId →
          attached insts (done ++ [id]) k = attached insts done k := by
        intro k hk hkm
        apply attached_append (.inl hk)
        refine replicaOf_eq_none fun inst' hinst _ => ?_
        obtain rfl := Option.some.inj (h.symm.trans hinst)
        exact hkm.symm
      rcases hroot id inst h hmaster with heq | ⟨master, hlist, hroot'⟩
      · -- a replica of itself
        have hlook' : m.lookup inst.masterId = some inst := by rw [heq, hlook]
        refine ⟨_, attach_replica hlook hmaster hlook', fun k => ?_⟩
        by_cases hk : k = id
        · rw [hk, AList.lookup_erase, hself]
        · rw [AList.lookup_erase_ne hk, AList.lookup_insert_ne (heq ▸ hk), hm k,
            hother k hk (heq ▸ hk)]
      · have hne : inst.masterId ≠ id := by
          intro heq
          rw [heq, h] at hlist
          cases hlist
          exact hmaster hroot'
        have hlook' := (hm inst.masterId).trans (attached_master hlist hroot')
        refine ⟨_, attach_replica hlook hmaster hlook', fun k => ?_⟩
        by_cases hk : k = id
        · rw [hk, AList.lookup_erase, hself]
        · rw [AList.lookup_erase_ne hk]
          by_cases hkm : k = inst.masterId
          · -- the replica is the last one of its master
            have hrep : replicaOf insts inst.masterId id = some inst := by
              simp [replicaOf, h, hmaster]
            rw [hkm, AList.lookup_insert, attached_master hlist hroot', List.filterMap_append,
              List.filterMap_cons_some hrep, List.filterMap_nil]
            simp only [List.append_assoc]
          · rw [AList.lookup_insert_ne hkm, hm k, hother k hk hkm]

/-! ## The whole pass -/

theorem AttachedTo.forEach (hroot : Rooted insts) (hm : AttachedTo insts done m)
    (hnodup : (done ++ todo).Nodup) :
    ∃ m', Execution.forEach Redis.attach m todo = .returns m' ∧
      AttachedTo insts (done ++ todo) m' := by
  induction todo generalizing done m with
  | nil => exact ⟨m, rfl, by rwa [List.append_nil]⟩
  | cons id todo ih =>
    have hid : id ∉ done := fun h =>
      (List.nodup_append.mp hnodup).2.2 id h id List.mem_cons_self rfl
    obtain ⟨m', hattach, hm'⟩ := hm.attach hroot hid
    obtain ⟨m'', hrest, hm''⟩ := ih hm' (by simpa using hnodup)
    refine ⟨m'', ?_, by simpa using hm''⟩
    rw [Execution.forEach, hattach, Execution.returns_bind, hrest]

/-- The second pass leaves the masters, each with its replicas in the order of the visits. -/
theorem restructure_of_rooted (hroot : Rooted insts)
    (order : IterationOrder Bytes ClusterInstance) :
    ∃ m, restructure order insts = .returns m ∧
      AttachedTo insts (order.keys insts) m := by
  have hm : AttachedTo insts [] insts := fun k => attached_nil.symm
  have hnodup : (order.keys insts).Nodup := (order.perm insts).nodup_iff.mpr insts.keys_nodup
  exact hm.forEach hroot hnodup

theorem attach_panics {master : Bytes} (h : m.lookup id = some inst) (hne : inst.masterId ≠ [])
    (hid : inst.masterId = master) (hmaster : m.lookup master = none) : attach m id = .panics := by
  subst hid
  rw [attach, h]
  simp only [if_neg hne, hmaster]

/-- In some order, the second pass does not find a master that it needs. -/
theorem exists_order_panics (hroot : ¬Rooted insts) :
    ∃ order, restructure order insts = .panics := by
  unfold Rooted at hroot
  push Not at hroot
  obtain ⟨id, inst, h, hreplica, hne, hmaster⟩ := hroot
  have hid : id ∈ insts.keys := AList.lookup_isSome.mp (by rw [h]; rfl)
  cases hp : insts.lookup inst.masterId with
  | none =>
    obtain ⟨order, horder⟩ := exists_iterationOrder (List.perm_cons_erase hid).symm
    refine ⟨order, ?_⟩
    rw [restructure, horder, Execution.forEach, attach_panics h hreplica rfl hp]
    rfl
  | some parent =>
    -- the parent is a replica as well, and is taken from the map first
    have hparent := hmaster parent hp
    have hpmem : inst.masterId ∈ insts.keys := AList.lookup_isSome.mp (by rw [hp]; rfl)
    have hid' : id ∈ insts.keys.erase inst.masterId :=
      (List.mem_erase_of_ne hne.symm).mpr hid
    obtain ⟨order, horder⟩ := exists_iterationOrder
      ((List.perm_cons_erase hpmem).trans ((List.perm_cons_erase hid').cons _)).symm
    refine ⟨order, ?_⟩
    rw [restructure, horder, Execution.forEach]
    cases hg : insts.lookup parent.masterId with
    | none =>
      rw [attach_panics hp hparent rfl hg]
      rfl
    | some grand =>
      rw [attach_replica hp hparent hg, Execution.returns_bind, Execution.forEach]
      have hgone := AList.lookup_erase inst.masterId (insts.insert parent.masterId
        { grand with replicas := grand.replicas ++ [parent] })
      by_cases hcycle : id = parent.masterId
      · -- two replicas that name each other
        subst hcycle
        obtain rfl := Option.some.inj (h.symm.trans hg)
        have hstill := AList.lookup_insert (a := parent.masterId)
          (b := { inst with replicas := inst.replicas ++ [parent] }) insts
        rw [← AList.lookup_erase_ne hne.symm] at hstill
        rw [attach_panics hstill hreplica rfl hgone]
        rfl
      · have hstill := h
        rw [← AList.lookup_insert_ne hcycle, ← AList.lookup_erase_ne hne.symm] at hstill
        rw [attach_panics hstill hreplica rfl hgone]
        rfl

/-! ## What is left, if the pass comes through -/

/-- An instance without its replicas. -/
def ClusterInstance.core (inst : ClusterInstance) : ClusterInstance := { inst with replicas := [] }

/-- Apart from replicas that have been visited, the map still has the entries it had, which differ
    at most in their replicas. -/
def Follows (insts : KeyMap Bytes ClusterInstance) (done : List Bytes)
    (m : KeyMap Bytes ClusterInstance) : Prop :=
  ∀ k, (m.lookup k).map ClusterInstance.core =
    ((insts.lookup k).filter fun inst => inst.masterId = [] || k ∉ done).map ClusterInstance.core

theorem masterId_of_core_eq {a b : ClusterInstance} (h : a.core = b.core) :
    a.masterId = b.masterId := by
  have hcore : a.core.masterId = b.core.masterId := by rw [h]
  exact hcore

theorem Follows.lookup_eq_some (hm : Follows insts done m) {inst : ClusterInstance}
    (h : m.lookup k = some inst) : ∃ inst', insts.lookup k = some inst' ∧
      inst'.core = inst.core := by
  have hk := hm k
  rw [h, Option.map_some] at hk
  obtain ⟨inst', hinst', hcore⟩ := Option.map_eq_some_iff.mp hk.symm
  exact ⟨inst', (Option.filter_eq_some_iff.mp hinst').1, hcore⟩

/-- A visit that leaves all entries as they are, where nothing is to be taken from the map. -/
theorem Follows.skip (hm : Follows insts done m)
    (hid : ∀ inst, m.lookup id = some inst → inst.masterId = []) :
    Follows insts (done ++ [id]) m := by
  intro k
  rw [hm k]
  by_cases hk : k = id
  · subst hk
    have hlook := hm k
    cases h : insts.lookup k with
    | none => rfl
    | some inst =>
      by_cases hmaster : inst.masterId = []
      · simp [Option.filter, hmaster]
      · by_cases hdone : k ∈ done
        · simp [Option.filter, hmaster, hdone]
        · rw [h] at hlook
          simp only [Option.filter, hdone, not_false_eq_true, decide_true, Bool.or_true,
            if_true, Option.map_some] at hlook
          obtain ⟨inst', hinst', hcore⟩ := Option.map_eq_some_iff.mp hlook
          exact (hmaster ((masterId_of_core_eq hcore).symm.trans (hid inst' hinst'))).elim
  · simp [hk]

theorem Follows.attach (hm : Follows insts done m) {m' : KeyMap Bytes ClusterInstance}
    (h : attach m id = .returns m') : Follows insts (done ++ [id]) m' := by
  unfold Redis.attach at h
  split at h
  · rename_i hlook
    cases h
    exact hm.skip fun inst hinst => by simp [hlook] at hinst
  rename_i inst hlook
  split at h
  · rename_i hmaster
    cases h
    refine hm.skip fun inst' hinst => ?_
    obtain rfl := Option.some.inj (hlook.symm.trans hinst)
    exact hmaster
  rename_i hreplica
  split at h
  · cases h
  rename_i master hmaster
  cases h
  obtain ⟨inst', hinst', hcore⟩ := hm.lookup_eq_some hlook
  intro k
  by_cases hk : k = id
  · -- the replica has been taken from the map
    subst hk
    have hne : inst'.masterId ≠ [] := by rwa [masterId_of_core_eq hcore]
    rw [AList.lookup_erase, hinst']
    simp [Option.filter, hne]
  · have hkeep : (m.lookup k).map ClusterInstance.core =
        ((insts.lookup k).filter fun inst => inst.masterId = [] || k ∉ done ++ [id]).map
          ClusterInstance.core := by
      rw [hm k]
      simp [hk]
    rw [AList.lookup_erase_ne hk, ← hkeep]
    by_cases hkm : k = inst.masterId
    · rw [hkm, AList.lookup_insert, hmaster]
      rfl
    · rw [AList.lookup_insert_ne hkm]

theorem Follows.forEach (hm : Follows insts done m) {m' : KeyMap Bytes ClusterInstance}
    (h : Execution.forEach Redis.attach m todo = .returns m') :
    Follows insts (done ++ todo) m' := by
  induction todo generalizing done m with
  | nil =>
    cases h
    rwa [List.append_nil]
  | cons id todo ih =>
    obtain ⟨m₁, hattach, hrest⟩ := Execution.bind_eq_returns.mp h
    have hm' := ih (hm.attach hattach) hrest
    rwa [List.append_assoc, List.singleton_append] at hm'

/-- In whatever order the second pass comes through, it leaves the masters. -/
theorem lookup_restructure {order : IterationOrder Bytes ClusterInstance}
    (h : restructure order insts = .returns m) (k : Bytes) :
    (m.lookup k).map ClusterInstance.core =
      ((insts.lookup k).filter fun inst => inst.masterId = []).map ClusterInstance.core := by
  have hstart : Follows insts [] insts := by
    intro k
    cases insts.lookup k with
    | none => rfl
    | some inst => simp [Option.filter]
  have hm := hstart.forEach h k
  rw [hm]
  cases hk : insts.lookup k with
  | none => rfl
  | some inst =>
    have hmem : k ∈ order.keys insts :=
      (order.perm insts).mem_iff.mpr (AList.lookup_isSome.mp (by rw [hk]; rfl))
    simp [hmem]

/-! ## The texts that the parser comes through -/

variable {nodes : List (List Bytes)}

/-- The last line of each replica names the replica itself or a node whose last line is that of a
    master. -/
def ListsMasters (nodes : List (List Bytes)) : Prop :=
  ∀ id fs, lastAt lineId nodes id = some fs → lineMaster fs ≠ [45] →
    lineMaster fs = id ∨ ∃ gs, lastAt lineId nodes (lineMaster fs) = some gs ∧ lineMaster gs = [45]

/-- No range without an end comes before the first error of the text, and if the text has no error,
    it lists the masters of its replicas. -/
structure SafeText (data : Bytes) : Prop where
  rangesEnd : ¬Execution.FirstEndless GoodLine EndlessLine (linesOf data)
  mastersListed : (∀ line ∈ linesOf data, GoodLine line) →
    ListsMasters (nodesOf (linesOf data))

/-- The map that the first pass makes of good lines. -/
def instancesOf (nodes : List (List Bytes)) : KeyMap Bytes ClusterInstance :=
  insertAll ClusterInstance.id ∅ (nodes.map instanceOf)

theorem lookup_instancesOf : (instancesOf nodes).lookup k =
    (lastAt lineId nodes k).map instanceOf := by
  rw [instancesOf, lookup_insertAll, lastAt_map, AList.lookup_empty, Option.or_none]
  simp only [instanceOf_id]

theorem instanceOf_masterId {fs : List Bytes} (h : lineMaster fs ≠ [45]) :
    (instanceOf fs).masterId = lineMaster fs := by
  rw [instanceOf, if_pos h]

theorem masterId_instanceOf_eq_nil {fs : List Bytes} (hne : lineMaster fs ≠ []) :
    (instanceOf fs).masterId = [] ↔ lineMaster fs = [45] := by
  constructor
  · intro h
    apply not_not.mp
    intro hdash
    rw [instanceOf_masterId hdash] at h
    exact hne h
  · intro h
    rw [instanceOf, if_neg (not_not.mpr h)]

theorem rooted_instancesOf (hne : ∀ fs ∈ nodes, lineMaster fs ≠ []) :
    Rooted (instancesOf nodes) ↔ ListsMasters nodes := by
  constructor
  · intro hroot id fs hlast hreplica
    have hfs := hne fs (lastAt_eq_some hlast).1
    have hlook : (instancesOf nodes).lookup id = some (instanceOf fs) := by
      rw [lookup_instancesOf, hlast, Option.map_some]
    -- the id of a line is looked up in the map, where the last line of an id stands
    have hid := hroot id (instanceOf fs) hlook (by rwa [instanceOf_masterId hreplica])
    rw [instanceOf_masterId hreplica, lookup_instancesOf] at hid
    rcases hid with heq | ⟨master, hmaster, hroot'⟩
    · exact .inl heq
    · obtain ⟨gs, hgs, rfl⟩ := Option.map_eq_some_iff.mp hmaster
      have hgs' := hne gs (lastAt_eq_some hgs).1
      exact .inr ⟨gs, hgs, (masterId_instanceOf_eq_nil hgs').mp hroot'⟩
  · intro hlists id inst hlook hreplica
    rw [lookup_instancesOf] at hlook
    obtain ⟨fs, hlast, rfl⟩ := Option.map_eq_some_iff.mp hlook
    have hfs := hne fs (lastAt_eq_some hlast).1
    have hdash : lineMaster fs ≠ [45] := fun h =>
      hreplica ((masterId_instanceOf_eq_nil hfs).mpr h)
    rw [instanceOf_masterId hdash, lookup_instancesOf]
    rcases hlists id fs hlast hdash with heq | ⟨gs, hgs, hmaster⟩
    · exact .inl heq
    · have hgs' := hne gs (lastAt_eq_some hgs).1
      refine .inr ⟨instanceOf gs, ?_, (masterId_instanceOf_eq_nil hgs').mpr hmaster⟩
      rw [hgs, Option.map_some]

/-- The fourth field of a good node is not empty, as no field is. -/
theorem lineMaster_ne_nil {lines : List Bytes} (hgood : ∀ line ∈ lines, GoodLine line) :
    ∀ fs ∈ nodesOf lines, lineMaster fs ≠ [] := by
  intro fs hfs
  unfold nodesOf at hfs
  obtain ⟨hmem, hne⟩ := List.mem_filter.mp hfs
  obtain ⟨line, hline, rfl⟩ := List.mem_map.mp hmem
  have hnode := (hgood line hline).resolve_left (by simpa using hne)
  have hlen : 3 < (fields line).length := by
    have := hnode.1.1
    omega
  have hget : lineMaster (fields line) = (fields line)[3] := by simp [lineMaster, hlen]
  rw [hget]
  exact ne_nil_of_mem_fields (List.getElem_mem hlen)

theorem readNodes_of_good {data : Bytes} (hgood : ∀ line ∈ linesOf data, GoodLine line) :
    readNodes rangeLimit data = .returns (instancesOf (nodesOf (linesOf data))) :=
  forEach_readNodeLine hgood

/-- The first pass returns only if every line is good: another line would have ended it in an error,
    or kept it. -/
theorem goodLines_of_readNodes {data : Bytes} (h : readNodes rangeLimit data = .returns m) :
    ∀ line ∈ linesOf data, GoodLine line := by
  apply not_not.mp
  intro hgood
  by_cases hfirst : Execution.FirstEndless GoodLine EndlessLine (linesOf data)
  · have hunfinished := decided_readNodeLine.forEach.unfinished ∅ _ hfirst
    cases h.symm.trans hunfinished
  · obtain ⟨e, he⟩ := decided_readNodeLine.forEach.fails ∅ _ hgood hfirst
    cases h.symm.trans he

/-- What the parser returns is what the second pass makes of the instances of the lines. -/
theorem parseClusterNodes_returns {order : IterationOrder Bytes ClusterInstance} {data : Bytes}
    {fuel : Nat} (h : parseClusterNodes (rangeLoop fuel) order data = .returns m) :
    (∀ line ∈ linesOf data, GoodLine line) ∧
      restructure order (instancesOf (nodesOf (linesOf data))) = .returns m := by
  have hlimit := (limit_parseClusterNodes order data).eq_of_returns h
  obtain ⟨m₁, hread, hrest⟩ := Execution.bind_eq_returns.mp hlimit
  have hgood := goodLines_of_readNodes hread
  cases hread.symm.trans (readNodes_of_good hgood)
  exact ⟨hgood, hrest⟩

/-- Whatever order the nodes are visited in, the parser returns a result or an error with enough
    rounds of its loops. -/
def Terminates (data : Bytes) : Prop :=
  ∀ order, ∃ fuel, (parseClusterNodes (rangeLoop fuel) order data).Ends

theorem terminates_iff_limit {data : Bytes} :
    Terminates data ↔ ∀ order, (parseClusterNodes rangeLimit order data).Ends :=
  forall_congr' fun order => (limit_parseClusterNodes order data).exists_ends

/-- The parser comes to an end exactly on safe texts. -/
theorem terminates_iff_safeText (data : Bytes) : Terminates data ↔ SafeText data := by
  rw [terminates_iff_limit]
  unfold parseClusterNodes
  by_cases hfirst : Execution.FirstEndless GoodLine EndlessLine (linesOf data)
  · -- the first pass stays in a range
    have hread : readNodes rangeLimit data = .unfinished :=
      decided_readNodeLine.forEach.unfinished ∅ _ hfirst
    rw [hread]
    refine ⟨fun h => ?_, fun h => (h.rangesEnd hfirst).elim⟩
    obtain ⟨order, -⟩ := exists_iterationOrder (List.Perm.refl (∅ : KeyMap Bytes _).keys)
    exact (h order).elim
  · by_cases hgood : ∀ line ∈ linesOf data, GoodLine line
    · -- the second pass decides
      rw [readNodes_of_good hgood]
      have hiff := rooted_instancesOf (lineMaster_ne_nil hgood)
      constructor
      · intro h
        refine ⟨hfirst, fun _ => hiff.mp ?_⟩
        apply not_not.mp
        intro hroot
        obtain ⟨order, horder⟩ := exists_order_panics hroot
        have hends := h order
        rw [Execution.returns_bind, horder] at hends
        exact hends
      · intro h order
        obtain ⟨m, hm, -⟩ := restructure_of_rooted (hiff.mpr (h.mastersListed hgood)) order
        rw [Execution.returns_bind, hm]
        trivial
    · -- the first pass ends in an error
      obtain ⟨e, he⟩ := decided_readNodeLine.forEach.fails ∅ _ hgood hfirst
      have hread : readNodes rangeLimit data = .fails e := he
      rw [hread]
      exact ⟨fun _ => ⟨hfirst, fun h => (hgood h).elim⟩, fun _ _ => trivial⟩

/-- The order in which the entries stand in the map. -/
def entryOrder : IterationOrder Bytes ClusterInstance := ⟨AList.keys, fun _ => .refl _⟩

/-- A replica of a node that has been forgotten. -/
def orphanText : Bytes := bytesOf "r 10.0.0.2:6379@16379 slave m 0 0 1 connected\n"

/-- A replica of a replica. -/
def chainText : Bytes := bytesOf ("r 10.0.0.3:6379@16379 slave m 0 0 1 connected\n" ++
  "m 10.0.0.2:6379@16379 slave g 0 0 1 connected\n" ++
  "g 10.0.0.1:6379@16379 master - 0 0 1 connected 0-5\n")

/-- A range up to the largest integer. -/
def endlessText : Bytes :=
  bytesOf "m 10.0.0.1:6379@16379 master - 0 0 1 connected 9223372036854775806-9223372036854775807\n"

/-- The parser panics on the first two texts, on the second one in this order of its nodes, and
    stays in the range of the third one. -/
theorem not_terminates_unsafeTexts :
    ¬Terminates orphanText ∧ ¬Terminates chainText ∧ ¬Terminates endlessText := by
  simp only [terminates_iff_limit]
  have horphan : ¬(parseClusterNodes rangeLimit entryOrder orphanText).Ends := by decide +kernel
  have hchain : ¬(parseClusterNodes rangeLimit entryOrder chainText).Ends := by decide +kernel
  have hendless : ¬(parseClusterNodes rangeLimit entryOrder endlessText).Ends := by
    decide +kernel
  exact ⟨fun h => horphan (h _), fun h => hchain (h _), fun h => hendless (h _)⟩

end Samaritan.Redis
