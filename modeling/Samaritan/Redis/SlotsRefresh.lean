import Samaritan.Redis.ClusterReplicas
import Samaritan.Redis.Routing

/-!
# Refreshing the Table of Slots

`doSlotsRefresh` (`proc/redis/upstream.go`) asks a random host for the nodes of the cluster and
enters the masters of its reply in the table of slots, in the order in which the map of nodes is
visited. Nothing is entered before the whole reply has been read. So a refresh that fails leaves the
table as it was, and one that succeeds replaces exactly the entries of the slots that a master of
the reply lists.
-/

namespace Samaritan.Redis

open Samaritan.Lib

/-- The table of slots, which has entries for the numbers below `slotNum`. -/
abbrev SlotTable := Nat → Option ClusterInstance

/-- What `chooseHost` reads of the table. -/
def SlotTable.view (table : SlotTable) : Nat → Option Instance := fun slot =>
  (table slot).map fun inst =>
    { addr := inst.addr, replicas := inst.replicas.map ClusterInstance.addr }

/-! ## The refresh -/

/-- Enter an instance for one of its slots. -/
def setSlot (inst : ClusterInstance) (table : SlotTable) (slot : Int64) : SlotTable :=
  if slot.toInt < 0 ∨ (slotNum : Int) ≤ slot.toInt then table
  else Function.update table slot.toInt.toNat (some inst)

/-- Enter an instance for all of its slots. -/
def setSlots (table : SlotTable) (inst : ClusterInstance) : SlotTable :=
  inst.slots.foldl (setSlot inst) table

/-- The loop that updates the table, over the entries of the map in some order. -/
def updateSlots (order : IterationOrder Bytes ClusterInstance)
    (insts : KeyMap Bytes ClusterInstance) (table : SlotTable) : SlotTable :=
  ((order.keys insts).filterMap fun id => insts.lookup id).foldl setSlots table

def clusterNodesRequest : RespValue :=
  .array (some [.bulkString (some (bytesOf "cluster")), .bulkString (some (bytesOf "nodes"))])

/-- The text of CLUSTER NODES in a response, or the error of the refresh. -/
def clusterNodesText (resp : RespValue) : Execution Bytes Bytes :=
  if resp.type = .error then .fails resp.text
  else if resp.type ≠ .bulkString then .fails errInvalidClusterNodes
  else .returns resp.text

/-- The nodes of the cluster as a random host, if there is one, reports them. -/
def pullNodes (range : RangeLoop) (order : IterationOrder Bytes ClusterInstance)
    (randomHost : Option Bytes) (respond : Bytes → RespValue → RespValue) :
    Execution Bytes (KeyMap Bytes ClusterInstance) :=
  match randomHost with
  | none => .fails (bytesOf "no available host")
  | some addr => (clusterNodesText (respond addr clusterNodesRequest)).bind
      (parseClusterNodes range order)

/-- `doSlotsRefresh`, with the result of `randomHost` and the response that each host gives. The
    nodes are visited once in `parseOrder` and once in `updateOrder`. -/
def doSlotsRefresh (range : RangeLoop)
    (parseOrder updateOrder : IterationOrder Bytes ClusterInstance) (randomHost : Option Bytes)
    (respond : Bytes → RespValue → RespValue) (table : SlotTable) :
    Execution Bytes Unit × SlotTable :=
  match pullNodes range parseOrder randomHost respond with
  | .returns insts => (.returns (), updateSlots updateOrder insts table)
  | .fails e => (.fails e, table)
  | .panics => (.panics, table)
  | .unfinished => (.unfinished, table)

/-! ## What the reply says -/

/-- The number is one of those that the parts of a segment stand for. -/
def PartsCover (slot : Nat) : List Bytes → Prop
  | [first, last] => (numberOf first).toInt ≤ slot ∧ (slot : Int) ≤ (numberOf last).toInt
  | [single] => (numberOf single).toInt = slot
  | _ => False

/-- The line of a master lists a slot. -/
def LineLists (fs : List Bytes) (slot : Nat) : Prop :=
  ∃ seg ∈ lineSegments fs, isMarker seg = false ∧ PartsCover slot (seg.splitOn 45)

/-- The fields describe a master: they are those of the last line with its id, which has a dash in
    the place of a master. -/
def IsMasterLine (text : Bytes) (fs : List Bytes) : Prop :=
  lastAt lineId (nodesOf (linesOf text)) (lineId fs) = some fs ∧ lineMaster fs = [45]

/-- The fields describe a master of the reply that lists the slot. -/
def ListsSlot (text : Bytes) (slot : Nat) (fs : List Bytes) : Prop :=
  IsMasterLine text fs ∧ LineLists fs slot

/-- The entry is the master that the fields describe. -/
def IsEntryOf (fs : List Bytes) (entry : Option ClusterInstance) : Prop :=
  ∃ inst, entry = some inst ∧ inst.id = lineId fs ∧ inst.addr = lineAddr fs ∧ inst.masterId = []

/-- The table after a refresh that has succeeded. -/
structure Refreshed (text : Bytes) (before after : SlotTable) : Prop where
  listed : ∀ slot < slotNum, (∃ fs, ListsSlot text slot fs) →
    ∃ fs, ListsSlot text slot fs ∧ IsEntryOf fs (after slot)
  unique : ∀ slot < slotNum, ∀ fs, ListsSlot text slot fs →
    (∀ gs, ListsSlot text slot gs → gs = fs) → IsEntryOf fs (after slot)
  unlisted : ∀ slot, slotNum ≤ slot ∨ (¬∃ fs, ListsSlot text slot fs) → after slot = before slot

/-! ## One instance in the table -/

variable {insts : KeyMap Bytes ClusterInstance} {table : SlotTable} {inst : ClusterInstance}
  {slot : Nat} {ids : List Bytes} {text : Bytes} {fs : List Bytes}

/-- The instance has the slot among its own. -/
def HasSlot (inst : ClusterInstance) (slot : Nat) : Prop := ∃ s ∈ inst.slots, s.toInt = slot

theorem setSlot_apply (hslot : slot < slotNum) (s : Int64) :
    setSlot inst table s slot = if s.toInt = slot then some inst else table slot := by
  unfold setSlot
  by_cases hs : s.toInt = slot
  · have hrange : ¬(s.toInt < 0 ∨ (slotNum : Int) ≤ s.toInt) := by omega
    have hnat : s.toInt.toNat = slot := by omega
    rw [if_neg hrange, hnat, Function.update_self, if_pos hs]
  · rw [if_neg hs]
    split
    · rfl
    · rename_i hrange
      have hne : slot ≠ s.toInt.toNat := by omega
      rw [Function.update_of_ne hne]

theorem setSlot_outside (hslot : slotNum ≤ slot) (s : Int64) :
    setSlot inst table s slot = table slot := by
  unfold setSlot
  split
  · rfl
  · rename_i hrange
    have hne : slot ≠ s.toInt.toNat := by omega
    rw [Function.update_of_ne hne]

theorem setSlots_outside (hslot : slotNum ≤ slot) :
    setSlots table inst slot = table slot := by
  unfold setSlots
  generalize inst.slots = slots
  induction slots generalizing table with
  | nil => rfl
  | cons s slots ih => rw [List.foldl_cons, ih, setSlot_outside hslot]

theorem foldl_setSlot (hslot : slot < slotNum) (slots : List Int64) :
    ((∃ s ∈ slots, s.toInt = slot) → slots.foldl (setSlot inst) table slot = some inst) ∧
      ((¬∃ s ∈ slots, s.toInt = slot) → slots.foldl (setSlot inst) table slot = table slot) := by
  induction slots generalizing table with
  | nil => simp
  | cons s slots ih =>
    rw [List.foldl_cons]
    obtain ⟨hset, hkeep⟩ := @ih (setSlot inst table s)
    by_cases hrest : ∃ s ∈ slots, s.toInt = slot
    · refine ⟨fun _ => hset hrest, fun hnone => ?_⟩
      obtain ⟨s', hs', heq⟩ := hrest
      exact (hnone ⟨s', List.mem_cons_of_mem s hs', heq⟩).elim
    · -- the rest of the slots leaves what the first one has entered
      rw [hkeep hrest, setSlot_apply hslot]
      constructor
      · rintro ⟨s', hs', heq⟩
        rcases List.mem_cons.mp hs' with rfl | hs'
        · exact if_pos heq
        · exact (hrest ⟨s', hs', heq⟩).elim
      · intro hnone
        exact if_neg fun heq => hnone ⟨s, List.mem_cons_self, heq⟩

theorem setSlots_of_hasSlot (hslot : slot < slotNum) (h : HasSlot inst slot) :
    setSlots table inst slot = some inst :=
  (foldl_setSlot hslot inst.slots).1 h

theorem setSlots_of_not_hasSlot (hslot : slot < slotNum) (h : ¬HasSlot inst slot) :
    setSlots table inst slot = table slot :=
  (foldl_setSlot hslot inst.slots).2 h

/-! ## All instances in the table -/

theorem foldl_setSlots_outside (hslot : slotNum ≤ slot) (entries : List ClusterInstance) :
    entries.foldl setSlots table slot = table slot := by
  induction entries generalizing table with
  | nil => rfl
  | cons inst entries ih => rw [List.foldl_cons, ih, setSlots_outside hslot]

theorem foldl_setSlots_keep (hslot : slot < slotNum) {entries : List ClusterInstance}
    (h : ∀ inst ∈ entries, ¬HasSlot inst slot) :
    entries.foldl setSlots table slot = table slot := by
  induction entries generalizing table with
  | nil => rfl
  | cons inst entries ih =>
    rw [List.forall_mem_cons] at h
    rw [List.foldl_cons, ih h.2, setSlots_of_not_hasSlot hslot h.1]

/-- The last instance with the slot is the one that is entered. -/
theorem foldl_setSlots_set (hslot : slot < slotNum) {entries : List ClusterInstance}
    (h : ∃ inst ∈ entries, HasSlot inst slot) :
    ∃ inst ∈ entries, HasSlot inst slot ∧
      entries.foldl setSlots table slot = some inst := by
  induction entries generalizing table with
  | nil =>
    obtain ⟨inst, hinst, -⟩ := h
    cases hinst
  | cons inst entries ih =>
    rw [List.foldl_cons]
    by_cases hrest : ∃ inst ∈ entries, HasSlot inst slot
    · obtain ⟨inst', hmem, hhas, hset⟩ := @ih (setSlots table inst) hrest
      exact ⟨inst', List.mem_cons_of_mem inst hmem, hhas, hset⟩
    · have hinst : HasSlot inst slot := by
        obtain ⟨inst', hmem, hhas⟩ := h
        rcases List.mem_cons.mp hmem with rfl | hmem
        · exact hhas
        · exact (hrest ⟨inst', hmem, hhas⟩).elim
      push Not at hrest
      refine ⟨inst, List.mem_cons_self, hinst, ?_⟩
      rw [foldl_setSlots_keep hslot hrest, setSlots_of_hasSlot hslot hinst]

/-! ## The slots of a line -/

theorem mem_slotsBetween {first last : Int64} :
    (∃ s ∈ slotsBetween first last, s.toInt = slot) ↔
      first.toInt ≤ slot ∧ (slot : Int) ≤ last.toInt := by
  have hlo := Int64.le_toInt first
  have hhi := Int64.toInt_lt last
  -- no number of the range is out of the bounds of its type
  have hint : ∀ k : Nat, first.toInt + k ≤ last.toInt →
      (Int64.ofInt (first.toInt + k)).toInt = first.toInt + k := by
    intro k hk
    exact Int64.toInt_ofInt_of_le (by omega) (by omega)
  constructor
  · rintro ⟨s, hs, heq⟩
    obtain ⟨k, hk, rfl⟩ := List.mem_map.mp hs
    have hle := List.mem_range.mp hk
    rw [hint k (by omega)] at heq
    omega
  · rintro ⟨hfirst, hlast⟩
    refine ⟨Int64.ofInt (first.toInt + (slot - first.toInt).toNat), ?_, ?_⟩
    · exact List.mem_map.mpr ⟨(slot - first.toInt).toNat, List.mem_range.mpr (by omega), rfl⟩
    · rw [hint _ (by omega)]
      omega

theorem mem_segmentSlots {seg : Bytes} : (∃ s ∈ segmentSlots seg, s.toInt = slot) ↔
    isMarker seg = false ∧ PartsCover slot (seg.splitOn 45) := by
  unfold segmentSlots
  cases hmark : isMarker seg with
  | true => simp
  | false =>
    rw [if_neg (by decide)]
    unfold PartsCover
    generalize seg.splitOn 45 = parts
    split
    · simp only [mem_slotsBetween, true_and]
    · simp
    · simp

theorem lineLists_iff : LineLists fs slot ↔
    ∃ s ∈ (lineSegments fs).flatMap segmentSlots, s.toInt = slot := by
  unfold LineLists
  constructor
  · rintro ⟨seg, hseg, hcover⟩
    obtain ⟨s, hs, heq⟩ := mem_segmentSlots.mpr hcover
    exact ⟨s, List.mem_flatMap.mpr ⟨seg, hseg, hs⟩, heq⟩
  · rintro ⟨s, hs, heq⟩
    obtain ⟨seg, hseg, hmem⟩ := List.mem_flatMap.mp hs
    exact ⟨seg, hseg, mem_segmentSlots.mp ⟨s, hmem, heq⟩⟩

/-! ## The masters of the reply -/

/-- The instances that the parser returns are those of the masters. -/
theorem lookup_parsed {order : IterationOrder Bytes ClusterInstance} {fuel : Nat}
    (h : parseClusterNodes (rangeLoop fuel) order text = .returns insts) (k : Bytes) :
    (insts.lookup k).map ClusterInstance.core =
      ((lastAt lineId (nodesOf (linesOf text)) k).filter fun fs => lineMaster fs = [45]).map
        fun fs => (instanceOf fs).core := by
  obtain ⟨hgood, hrest⟩ := parseClusterNodes_returns h
  rw [lookup_restructure hrest k, lookup_instancesOf]
  cases hlast : lastAt lineId (nodesOf (linesOf text)) k with
  | none => rfl
  | some fs =>
    have hiff := masterId_instanceOf_eq_nil (lineMaster_ne_nil hgood fs (lastAt_eq_some hlast).1)
    by_cases hdash : lineMaster fs = [45]
    · simp [Option.filter, hdash, hiff.mpr hdash]
    · simp [Option.filter, hdash, hiff]

theorem isEntryOf_of_core (hdash : lineMaster fs = [45]) (h : inst.core = (instanceOf fs).core) :
    IsEntryOf fs (some inst) ∧ inst.slots = (lineSegments fs).flatMap segmentSlots := by
  rw [instanceOf, if_neg (not_not.mpr hdash)] at h
  simp only [ClusterInstance.core, ClusterInstance.mk.injEq] at h
  obtain ⟨hid, haddr, hmaster, -, hslots⟩ := h
  exact ⟨⟨inst, rfl, hid, haddr, hmaster⟩, hslots⟩

variable {order : IterationOrder Bytes ClusterInstance} {fuel : Nat}

/-- An instance with the slot is a master of the reply that lists it. -/
theorem exists_listsSlot (h : parseClusterNodes (rangeLoop fuel) order text = .returns insts)
    {k : Bytes} (hlook : insts.lookup k = some inst) (hhas : HasSlot inst slot) :
    ∃ fs, ListsSlot text slot fs ∧ IsEntryOf fs (some inst) := by
  have hk := lookup_parsed h k
  rw [hlook, Option.map_some] at hk
  obtain ⟨fs, hfilter, hcore⟩ := Option.map_eq_some_iff.mp hk.symm
  obtain ⟨hlast, hdash⟩ := Option.filter_eq_some_iff.mp hfilter
  replace hdash : lineMaster fs = [45] := by simpa using hdash
  obtain ⟨hentry, hslots⟩ := isEntryOf_of_core hdash hcore.symm
  have hid := (lastAt_eq_some hlast).2
  unfold HasSlot at hhas
  rw [hslots, ← lineLists_iff] at hhas
  exact ⟨fs, ⟨⟨by rw [hid, hlast], hdash⟩, hhas⟩, hentry⟩

/-- A master of the reply that lists the slot is an instance with the slot. -/
theorem exists_hasSlot (h : parseClusterNodes (rangeLoop fuel) order text = .returns insts)
    (hfs : ListsSlot text slot fs) : ∃ k inst, insts.lookup k = some inst ∧ HasSlot inst slot := by
  obtain ⟨⟨hlast, hdash⟩, hlists⟩ := hfs
  have hk := lookup_parsed h (lineId fs)
  have hfilter : (some fs).filter (fun fs => lineMaster fs = [45]) = some fs := by
    simp [Option.filter, hdash]
  rw [hlast, hfilter, Option.map_some] at hk
  obtain ⟨inst, hinst, hcore⟩ := Option.map_eq_some_iff.mp hk
  obtain ⟨-, hslots⟩ := isEntryOf_of_core hdash hcore
  refine ⟨lineId fs, inst, hinst, ?_⟩
  unfold HasSlot
  rw [hslots]
  exact lineLists_iff.mp hlists

theorem mem_entries : inst ∈ (order.keys insts).filterMap (fun id => insts.lookup id) ↔
    ∃ k, insts.lookup k = some inst := by
  rw [List.mem_filterMap]
  constructor
  · rintro ⟨k, -, hk⟩
    exact ⟨k, hk⟩
  · rintro ⟨k, hk⟩
    refine ⟨k, (order.perm insts).mem_iff.mpr ?_, hk⟩
    exact AList.lookup_isSome.mp (by rw [hk]; rfl)

theorem refreshed_updateSlots {updateOrder : IterationOrder Bytes ClusterInstance}
    (h : parseClusterNodes (rangeLoop fuel) order text = .returns insts) :
    Refreshed text table (updateSlots updateOrder insts table) := by
  -- the entry that stays is that of some line that lists the slot: the order decides which
  have hlisted : ∀ slot < slotNum, (∃ fs, ListsSlot text slot fs) →
      ∃ fs, ListsSlot text slot fs ∧ IsEntryOf fs (updateSlots updateOrder insts table slot) := by
    rintro slot hslot ⟨fs, hfs⟩
    obtain ⟨k, inst, hlook, hhas⟩ := exists_hasSlot h hfs
    have hentry : inst ∈ (updateOrder.keys insts).filterMap fun id => insts.lookup id :=
      mem_entries.mpr ⟨k, hlook⟩
    obtain ⟨inst', hmem, hhas', hset⟩ := @foldl_setSlots_set table slot hslot _
      ⟨inst, hentry, hhas⟩
    obtain ⟨k', hlook'⟩ := mem_entries.mp hmem
    obtain ⟨gs, hgs, hmaster⟩ := exists_listsSlot h hlook' hhas'
    refine ⟨gs, hgs, ?_⟩
    rwa [updateSlots, hset]
  refine ⟨hlisted, fun slot hslot fs hfs honly => ?_, fun slot hslot => ?_⟩
  -- a slot that one line lists has no other entry
  · obtain ⟨gs, hgs, hentry⟩ := hlisted slot hslot ⟨fs, hfs⟩
    rwa [honly gs hgs] at hentry
  · by_cases hin : slot < slotNum
    · have hnone := hslot.resolve_left (by omega)
      apply foldl_setSlots_keep hin
      intro inst hmem hhas
      obtain ⟨k, hlook⟩ := mem_entries.mp hmem
      obtain ⟨fs, hfs, -⟩ := exists_listsSlot h hlook hhas
      exact hnone ⟨fs, hfs⟩
    · exact foldl_setSlots_outside (by omega) _

/-! ## The whole refresh -/

/-- A refresh that succeeds brings the table to the state of the reply. Any other, be it one that
    returns an error, leaves it as it was. -/
def RefreshedOrKept (randomHost : Option Bytes) (respond : Bytes → RespValue → RespValue)
    (table : SlotTable) : Execution Bytes Unit × SlotTable → Prop
  | (.returns (), after) => ∃ addr text, randomHost = some addr ∧
      respond addr clusterNodesRequest = .bulkString text ∧ Refreshed (text.getD []) table after
  | (_, after) => after = table

theorem clusterNodesText_eq_returns {resp : RespValue} (h : clusterNodesText resp = .returns text) :
    ∃ t, resp = .bulkString t ∧ text = t.getD [] := by
  cases resp with
  | bulkString t =>
    cases h
    exact ⟨t, rfl, rfl⟩
  | simpleString | error | integer | array => cases h

theorem doSlotsRefresh_refreshedOrKept (fuel : Nat)
    (parseOrder updateOrder : IterationOrder Bytes ClusterInstance) (randomHost : Option Bytes)
    (respond : Bytes → RespValue → RespValue) (table : SlotTable) :
    RefreshedOrKept randomHost respond table
      (doSlotsRefresh (rangeLoop fuel) parseOrder updateOrder randomHost respond table) := by
  unfold doSlotsRefresh
  cases hpull : pullNodes (rangeLoop fuel) parseOrder randomHost respond with
  | returns insts =>
    unfold pullNodes at hpull
    split at hpull
    · cases hpull
    · rename_i addr
      obtain ⟨text, htext, hparse⟩ := Execution.bind_eq_returns.mp hpull
      obtain ⟨t, hresp, rfl⟩ := clusterNodesText_eq_returns htext
      exact ⟨addr, t, rfl, hresp, refreshed_updateSlots hparse⟩
  | fails | panics | unfinished => rfl

/-! ## Requests after a refresh -/

theorem slotOf_lt (routingKey : Bytes) : slotOf routingKey < slotNum := by
  have hle : slotOf routingKey ≤ slotNum - 1 := Nat.and_le_right
  unfold slotNum at hle ⊢
  omega

/-- A request that may write goes to a master of the reply that lists the slot of its key. -/
theorem chooseHost_refreshed {before after : SlotTable} {routingKey : Bytes} {body : RespValue}
    (h : Refreshed text before after) (hlisted : ∃ fs, ListsSlot text (slotOf routingKey) fs)
    (hbody : isReadOnly body = false) (readStrategy : ReadStrategy) (randomHost : Option Bytes)
    (now : Nat) : ∃ fs, ListsSlot text (slotOf routingKey) fs ∧
      chooseHost after.view readStrategy randomHost now routingKey body = some (lineAddr fs) := by
  obtain ⟨fs, hfs, inst, hinst, -, haddr, -⟩ := h.listed _ (slotOf_lt routingKey) hlisted
  refine ⟨fs, hfs, ?_⟩
  unfold chooseHost SlotTable.view
  rw [hinst]
  simp [hbody, haddr]

end Samaritan.Redis
