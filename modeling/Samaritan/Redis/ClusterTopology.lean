import Samaritan.Redis.ClusterReplicas
import Samaritan.Redis.Routing

/-!
# Topologies and Their Texts

A topology of a cluster: its masters with the fields that tell of their slots, and its replicas,
each of a master of the topology. CLUSTER NODES writes one line for each node.

`parseClusterNodes` (`proc/redis/slot.go`) reads the masters back from this text, each with its
address, its slots and its replicas, if every master has a field of slots and no address has a
colon in its host. It refuses the text of every other topology.
-/

namespace Samaritan.Redis

open Samaritan.Lib

/-! ## Topologies -/

/-- A text without white space. -/
abbrev Word := { w : Bytes // IsWord w }

/-- One of the fields behind the state of the link to a master. -/
inductive SlotField where
  | single (slot : Fin slotNum)
  | range (first last : Fin slotNum)
  | importing (slot : Fin slotNum) (source : Word)
  | migrating (slot : Fin slotNum) (target : Word)

inductive NodeRole where
  | master (slots : List SlotField)
  | replica (master : Word)

structure ClusterNode where
  id : Word
  /-- the host of the address, which CLUSTER NODES leaves empty when it is not known -/
  ip : { s : Bytes // NoSpace s ∧ 64 ∉ s }
  port : Nat
  busPort : Option Nat
  flags : Word
  pingSent : Nat
  pongRecv : Nat
  configEpoch : Nat
  linkState : Word
  role : NodeRole

structure Topology where
  nodes : List ClusterNode
  distinct : (nodes.map fun n => n.id.val).Nodup
  /-- a dash in the place of an id says that there is none -/
  named : ∀ n ∈ nodes, n.id.val ≠ [45]
  rooted : ∀ n ∈ nodes, ∀ p, n.role = .replica p →
    ∃ m ∈ nodes, m.id.val = p.val ∧ ∃ slots, m.role = .master slots

/-! ## Their texts -/

def SlotField.text : SlotField → Bytes
  | single slot => formatNat slot
  | range first last => formatNat first ++ 45 :: formatNat last
  | importing slot source => 91 :: (formatNat slot ++ bytesOf "-<-" ++ source.val ++ [93])
  | migrating slot target => 91 :: (formatNat slot ++ bytesOf "->-" ++ target.val ++ [93])

namespace ClusterNode

/-- The address under which a node is reached. -/
def addr (n : ClusterNode) : Bytes := n.ip.val ++ 58 :: formatNat n.port

def addrField (n : ClusterNode) : Bytes :=
  match n.busPort with
  | none => n.addr
  | some bus => n.addr ++ 64 :: formatNat bus

def masterField (n : ClusterNode) : Bytes :=
  match n.role with
  | .master _ => [45]
  | .replica p => p.val

def slotFields (n : ClusterNode) : List SlotField :=
  match n.role with
  | .master slots => slots
  | .replica _ => []

def words (n : ClusterNode) : List Bytes :=
  [n.id.val, n.addrField, n.flags.val, n.masterField, formatNat n.pingSent, formatNat n.pongRecv,
    formatNat n.configEpoch, n.linkState.val] ++ n.slotFields.map SlotField.text

def line (n : ClusterNode) : Bytes := [32].intercalate n.words

end ClusterNode

/-- The text of CLUSTER NODES, where every line is ended. -/
def Topology.text (t : Topology) : Bytes := t.nodes.flatMap fun n => n.line ++ [10]

/-! ## What the parser is to make of them -/

/-- The slots of a field, in the order of their numbers. -/
def SlotField.slots : SlotField → List Int64
  | single slot => [Int64.ofInt (slot : Nat)]
  | range first last => (List.range (last.val + 1 - first.val)).map fun k : Nat =>
      Int64.ofInt ((first.val + k : Nat))
  | importing _ _ => []
  | migrating _ _ => []

/-- The instance of a replica. -/
def ClusterNode.asReplica (n : ClusterNode) : ClusterInstance :=
  { id := n.id.val, addr := n.addr, masterId := n.masterField }

/-- The replicas of the node with an id. -/
def Topology.replicasOf (t : Topology) (id : Bytes) : List ClusterInstance :=
  (t.nodes.filter fun n => n.masterField = id).map ClusterNode.asReplica

/-- The instance is the one of the master. -/
structure Topology.IsInstance (t : Topology) (n : ClusterNode) (inst : ClusterInstance) : Prop where
  id : inst.id = n.id.val
  addr : inst.addr = n.addr
  masterId : inst.masterId = []
  slots : inst.slots = n.slotFields.flatMap SlotField.slots
  replicas : inst.replicas.Perm (t.replicasOf n.id.val)

/-- The map has the masters of the topology under their ids, and nothing else. -/
structure Topology.IsRead (t : Topology) (insts : KeyMap Bytes ClusterInstance) : Prop where
  masters : ∀ n ∈ t.nodes, n.masterField = [45] →
    ∃ inst, insts.lookup n.id.val = some inst ∧ t.IsInstance n inst
  only : ∀ id inst, insts.lookup id = some inst →
    ∃ n ∈ t.nodes, n.masterField = [45] ∧ n.id.val = id

/-- In whatever order the nodes are visited, the parser reads the masters of the topology. -/
def Topology.Parsed (t : Topology) : Prop :=
  ∀ order, ∃ fuel insts, parseClusterNodes (rangeLoop fuel) order t.text = .returns insts ∧
    t.IsRead insts

/-- Every master has a field of slots, be it a marker, and the host of no address has a colon. -/
structure Topology.Parsable (t : Topology) : Prop where
  slotsListed : ∀ n ∈ t.nodes, n.role ≠ .master []
  noColon : ∀ n ∈ t.nodes, 58 ∉ n.ip.val

/-! ## Splitting -/

section

variable {a b : Bytes} {c : UInt8}

theorem splitOn_append_cons : (a ++ c :: b).splitOn c = a.splitOn c ++ b.splitOn c :=
  List.splitOnP_append_cons a b (by simp)

theorem not_mem_formatNat (n : Nat) (hc : isDigit c = false) : c ∉ formatNat n := by
  intro h
  rw [isDigit_of_mem_formatNat h] at hc
  cases hc

theorem length_splitOn_eq_one : (a.splitOn c).length = 1 ↔ c ∉ a := by
  constructor
  · intro h hc
    obtain ⟨front, back, rfl⟩ := List.append_of_mem hc
    have hfront := List.length_pos_of_ne_nil (List.splitOn_ne_nil c front)
    have hback := List.length_pos_of_ne_nil (List.splitOn_ne_nil c back)
    rw [splitOn_append_cons, List.length_append] at h
    omega
  · intro h
    rw [List.splitOn_eq_singleton h]
    rfl

theorem isGraph_formatNat {n : Nat} : ∀ c ∈ formatNat n, isGraph c = true :=
  fun _ hc => isGraph_of_isDigit (isDigit_of_mem_formatNat hc)

theorem isWord_formatNat (n : Nat) : IsWord (formatNat n) :=
  ⟨formatNat_ne_nil n, NoSpace.of_graph isGraph_formatNat⟩

/-- The text of a slot is read as its number. -/
theorem parseInt_formatNat {n : Nat} (hn : n < slotNum) :
    parseInt (formatNat n) = .ok (Int64.ofInt n) := by
  unfold slotNum at hn
  have hint : (Int64.ofInt n).toInt = n := Int64.toInt_ofInt_of_le (by omega) (by omega)
  have hformat : formatInt (Int64.ofInt n).toInt = formatNat n := by
    rw [hint, formatInt, if_neg (by omega), Int.natAbs_natCast]
  rw [← hformat]
  exact parseInt_formatInt _

end

/-! ## The fields of slots -/

variable {t : Topology} {n : ClusterNode} {f : SlotField}

theorem isNumber_formatNat (s : Fin slotNum) : IsNumber (formatNat s) := by
  unfold IsNumber
  rw [parseInt_formatNat s.isLt]
  rfl

theorem numberOf_formatNat (s : Fin slotNum) :
    numberOf (formatNat s) = Int64.ofInt (s : Nat) := by
  unfold numberOf
  rw [parseInt_formatNat s.isLt]
  rfl

theorem toInt_slot (s : Fin slotNum) : (Int64.ofInt (s : Nat)).toInt = (s : Nat) := by
  have hs : s.val < 16384 := s.isLt
  exact Int64.toInt_ofInt_of_le (by omega) (by omega)

/-- The slots that the parser reads from a range are those the node has written it for. -/
theorem slotsBetween_slots (first last : Fin slotNum) :
    slotsBetween (Int64.ofInt (first : Nat)) (Int64.ofInt (last : Nat)) =
      (SlotField.range first last).slots := by
  rw [slotsBetween, toInt_slot, toInt_slot, SlotField.slots]
  have hlen : ((last.val : Int) + 1 - first.val).toNat = last.val + 1 - first.val := by omega
  rw [hlen]
  rfl

/-- A field that begins with a number is no marker of a migration. -/
theorem isMarker_formatNat (k : Nat) (b : Bytes) : isMarker (formatNat k ++ b) = false := by
  obtain ⟨c, cs, hcs, hc, -⟩ := formatNat_eq_cons k
  have hne : c ≠ 91 := by
    rintro rfl
    cases hc
  simp [isMarker, hcs, hne.symm]

/-- Fields in brackets, of slots that migrate, are skipped. -/
theorem isMarker_brackets (b : Bytes) : isMarker (91 :: (b ++ [93])) = true := by
  have hprefix : [91] <+: 91 :: (b ++ [93]) := ⟨b ++ [93], rfl⟩
  have hsuffix : [93] <:+ 91 :: (b ++ [93]) := ⟨91 :: b, rfl⟩
  rw [isMarker, List.isPrefixOf_iff_prefix.mpr hprefix, List.isSuffixOf_iff_suffix.mpr hsuffix]
  rfl

theorem splitOn_single (s : Fin slotNum) : (formatNat s).splitOn 45 = [formatNat s] :=
  List.splitOn_eq_singleton (not_mem_formatNat _ rfl)

theorem splitOn_range (first last : Fin slotNum) :
    (formatNat first ++ 45 :: formatNat last).splitOn 45 = [formatNat first, formatNat last] := by
  rw [splitOn_append_cons, splitOn_single, splitOn_single]
  rfl

theorem slot_ne_maxValue (s : Fin slotNum) : Int64.ofInt (s : Nat) ≠ Int64.maxValue := by
  intro h
  have hs : s.val < 16384 := s.isLt
  have hint := congrArg Int64.toInt h
  have hmax : Int64.maxValue.toInt = 2 ^ 63 - 1 := by decide
  rw [toInt_slot, hmax] at hint
  omega

theorem isMarker_single (s : Fin slotNum) : isMarker (formatNat s) = false := by
  have h := isMarker_formatNat s []
  rwa [List.append_nil] at h

/-- Every slot field that a node writes can be read. -/
theorem goodSegment_text (f : SlotField) : GoodSegment f.text := by
  cases f with
  | single s =>
    refine .inr ?_
    rw [SlotField.text, splitOn_single]
    exact isNumber_formatNat s
  | range first last =>
    refine .inr ?_
    rw [SlotField.text, splitOn_range]
    refine ⟨isNumber_formatNat first, isNumber_formatNat last, ?_⟩
    rw [numberOf_formatNat]
    exact slot_ne_maxValue last
  | importing | migrating => exact .inl (isMarker_brackets _)

/-- A slot field is read as the slots it was written for. -/
theorem segmentSlots_text (f : SlotField) : segmentSlots f.text = f.slots := by
  unfold segmentSlots
  cases f with
  | single s =>
    rw [SlotField.text, isMarker_single, splitOn_single]
    show [numberOf (formatNat s)] = _
    rw [numberOf_formatNat]
    rfl
  | range first last =>
    rw [SlotField.text, isMarker_formatNat, splitOn_range]
    show slotsBetween (numberOf (formatNat first)) (numberOf (formatNat last)) = _
    rw [numberOf_formatNat, numberOf_formatNat, slotsBetween_slots]
  | importing | migrating => exact if_pos (isMarker_brackets _)

theorem noSpace_marker {arrow id : Bytes} (k : Nat) (harrow : ∀ c ∈ arrow, isGraph c = true)
    (hid : NoSpace id) : NoSpace (91 :: (formatNat k ++ arrow ++ id ++ [93])) := by
  have hend : NoSpace (id ++ [93]) := hid.append (by decide) (by simp)
  have hfront : ∀ c ∈ 91 :: (formatNat k ++ arrow), isGraph c = true := by
    intro c hc
    rcases List.mem_cons.mp hc with rfl | hc
    · rfl
    rcases List.mem_append.mp hc with hc | hc
    · exact isGraph_formatNat c hc
    · exact harrow c hc
  have hall := NoSpace.graph_append hfront hend
  rwa [List.cons_append, ← List.append_assoc] at hall

theorem isWord_text (f : SlotField) : IsWord f.text := by
  cases f with
  | single s => exact isWord_formatNat s
  | range first last =>
    refine ⟨by simp [SlotField.text], ?_⟩
    have hlast : NoSpace (45 :: formatNat last) :=
      ⟨spaceAt_graph rfl, (isWord_formatNat last).2⟩
    exact NoSpace.graph_append isGraph_formatNat hlast
  | importing s id | migrating s id =>
    exact ⟨by simp [SlotField.text], noSpace_marker s (by decide +kernel) id.property.2⟩

/-! ## The lines -/

theorem noSpace_port (k : Nat) (c : UInt8) (hc : isGraph c = true) : NoSpace (c :: formatNat k) :=
  ⟨spaceAt_graph hc, (isWord_formatNat k).2⟩

theorem noSpace_addr (n : ClusterNode) : NoSpace n.addr :=
  n.ip.property.1.append (noSpace_port n.port 58 rfl) (by simp)

theorem isWord_addrField (n : ClusterNode) : IsWord n.addrField := by
  unfold ClusterNode.addrField
  split
  · exact ⟨by simp [ClusterNode.addr], noSpace_addr n⟩
  · rename_i bus _
    exact ⟨by simp, (noSpace_addr n).append (noSpace_port bus 64 rfl) (by simp)⟩

theorem isWord_masterField (n : ClusterNode) : IsWord n.masterField := by
  unfold ClusterNode.masterField
  split
  · decide
  · rename_i p _
    exact p.property

/-- The fields of a line have no white space, so that `strings.Fields` separates them. -/
theorem isWord_of_mem_words (n : ClusterNode) : ∀ w ∈ n.words, IsWord w := by
  intro w hw
  unfold ClusterNode.words at hw
  rcases List.mem_append.mp hw with hw | hw
  · simp only [List.mem_cons, List.not_mem_nil, or_false] at hw
    rcases hw with rfl | rfl | rfl | rfl | rfl | rfl | rfl | rfl
    · exact n.id.property
    · exact isWord_addrField n
    · exact n.flags.property
    · exact isWord_masterField n
    · exact isWord_formatNat _
    · exact isWord_formatNat _
    · exact isWord_formatNat _
    · exact n.linkState.property
  · obtain ⟨f, -, rfl⟩ := List.mem_map.mp hw
    exact isWord_text f

/-- A line is read as the words it was written from. -/
theorem fields_line (n : ClusterNode) : fields n.line = n.words :=
  fields_intercalate (isWord_of_mem_words n)

/-- The text is read line by line, with an empty line at its end. -/
theorem linesOf_text (nodes : List ClusterNode) :
    linesOf (nodes.flatMap fun n => n.line ++ [10]) = nodes.map ClusterNode.line ++ [[]] := by
  unfold linesOf
  induction nodes with
  | nil => rfl
  | cons n nodes ih =>
    have hline : 10 ∉ n.line :=
      newline_not_mem_intercalate fun w hw => (isWord_of_mem_words n w hw).2
    rw [List.flatMap_cons, List.append_assoc, List.singleton_append, splitOn_append_cons,
      List.splitOn_eq_singleton hline, ih]
    rfl

theorem words_ne_nil (n : ClusterNode) : n.words ≠ [] := by simp [ClusterNode.words]

/-- The lines that are read are those of the nodes. -/
theorem nodesOf_text (t : Topology) : nodesOf (linesOf t.text) = t.nodes.map ClusterNode.words := by
  unfold Topology.text nodesOf
  rw [linesOf_text, List.map_append, List.map_map, List.filter_append]
  have hwords : t.nodes.map (fields ∘ ClusterNode.line) = t.nodes.map ClusterNode.words :=
    List.map_congr_left fun n _ => fields_line n
  have hlast : (List.map fields [[]]).filter (· ≠ []) = [] := by decide
  rw [hwords, hlast, List.append_nil, List.filter_eq_self]
  intro w hw
  obtain ⟨n, -, rfl⟩ := List.mem_map.mp hw
  simpa using words_ne_nil n

/-! ## The nodes -/

theorem lineId_words (n : ClusterNode) : lineId n.words = n.id.val := rfl

theorem lineMaster_words (n : ClusterNode) : lineMaster n.words = n.masterField := rfl

theorem lineSegments_words (n : ClusterNode) :
    lineSegments n.words = n.slotFields.map SlotField.text := rfl

theorem lineAddr_words (n : ClusterNode) : lineAddr n.words = n.addr := by
  have hat : 64 ∉ n.addr := by
    unfold ClusterNode.addr
    rw [List.mem_append, List.mem_cons, not_or, not_or]
    exact ⟨n.ip.property.2, by decide, not_mem_formatNat _ rfl⟩
  show (n.addrField.splitOn 64).headD [] = n.addr
  unfold ClusterNode.addrField
  split
  · rw [List.splitOn_eq_singleton hat]
    rfl
  · rw [splitOn_append_cons, List.splitOn_eq_singleton hat]
    rfl

/-- An address with a colon of its own (IPv6) cannot be taken apart. -/
theorem hasHead_words : HasHead n.words ↔ 58 ∉ n.ip.val := by
  have hport : (formatNat n.port).splitOn 58 = [formatNat n.port] :=
    List.splitOn_eq_singleton (not_mem_formatNat _ rfl)
  unfold HasHead
  rw [lineAddr_words, ClusterNode.addr, splitOn_append_cons, hport, List.length_append,
    ← length_splitOn_eq_one]
  simp [ClusterNode.words]

/-- Only masters have a dash for their master: no node has that name. -/
theorem masterField_eq_dash (hn : n ∈ t.nodes) :
    n.masterField = [45] ↔ ∃ slots, n.role = .master slots := by
  unfold ClusterNode.masterField
  cases hrole : n.role with
  | master slots => simp
  | replica p =>
    obtain ⟨m, hm, hid, -⟩ := t.rooted n hn p hrole
    have hp : p.val ≠ [45] := hid ▸ t.named m hm
    simp [hp]

/-- A line is refused when its address has more than one colon, or for a master without slots. -/
theorem goodNode_words (hn : n ∈ t.nodes) :
    GoodNode n.words ↔ 58 ∉ n.ip.val ∧ n.role ≠ .master [] := by
  unfold GoodNode
  rw [hasHead_words, lineMaster_words, lineSegments_words]
  apply and_congr_right
  intro _
  constructor
  · intro h hrole
    obtain ⟨hlen, -⟩ := h ((masterField_eq_dash hn).mpr ⟨[], hrole⟩)
    simp [ClusterNode.words, ClusterNode.slotFields, hrole] at hlen
  · intro hrole hdash
    obtain ⟨slots, hslots⟩ := (masterField_eq_dash hn).mp hdash
    refine ⟨?_, ?_⟩
    · have hpos : 0 < slots.length := by
        apply List.length_pos_of_ne_nil
        rintro rfl
        exact hrole hslots
      simp only [ClusterNode.words, ClusterNode.slotFields, hslots, List.length_append,
        List.length_cons, List.length_nil, List.length_map]
      omega
    · intro seg hseg
      obtain ⟨f, -, rfl⟩ := List.mem_map.mp hseg
      exact goodSegment_text f

/-- What a topology must be like is what the parser asks of its lines. -/
theorem parsable_iff_goodLines :
    t.Parsable ↔ ∀ line ∈ linesOf t.text, GoodLine line := by
  unfold Topology.text
  rw [linesOf_text]
  have hnode : ∀ n ∈ t.nodes, GoodLine n.line ↔ 58 ∉ n.ip.val ∧ n.role ≠ .master [] := by
    intro n hn
    rw [GoodLine, fields_line, or_iff_right (words_ne_nil n), goodNode_words hn]
  constructor
  · intro h line hline
    rcases List.mem_append.mp hline with hline | hline
    · obtain ⟨n, hn, rfl⟩ := List.mem_map.mp hline
      exact (hnode n hn).mpr ⟨h.noColon n hn, h.slotsListed n hn⟩
    · rw [List.mem_singleton.mp hline]
      exact .inl rfl
  · intro h
    have hgood := fun n (hn : n ∈ t.nodes) =>
      (hnode n hn).mp (h n.line (List.mem_append_left _ (List.mem_map_of_mem hn)))
    exact ⟨fun n hn => (hgood n hn).2, fun n hn => (hgood n hn).1⟩

/-- The text of a topology is read only if every line of it is good. -/
theorem Topology.Parsed.parsable (h : t.Parsed) : t.Parsable := by
  obtain ⟨fuel, insts, hparse, -⟩ := h entryOrder
  exact parsable_iff_goodLines.mpr (parseClusterNodes_returns hparse).1

/-! ## The instances -/

theorem instanceOf_master (h : n.masterField = [45]) : instanceOf n.words =
    { id := n.id.val, addr := n.addr, slots := n.slotFields.flatMap SlotField.slots } := by
  rw [instanceOf, lineMaster_words, if_neg (not_not.mpr h), lineAddr_words, lineSegments_words,
    lineId_words, List.flatMap_map]
  simp only [segmentSlots_text]

theorem instanceOf_replica (h : n.masterField ≠ [45]) : instanceOf n.words = n.asReplica := by
  rw [instanceOf, lineMaster_words, if_pos h, lineAddr_words, lineId_words,
    ClusterNode.asReplica]

/-- The map of the first pass. -/
def Topology.instances (t : Topology) : KeyMap Bytes ClusterInstance :=
  instancesOf (t.nodes.map ClusterNode.words)

/-- The instances are those of the nodes, by their names. -/
theorem lookup_instances_eq_some {k : Bytes} {inst : ClusterInstance} :
    t.instances.lookup k = some inst ↔
      ∃ n ∈ t.nodes, n.id.val = k ∧ instanceOf n.words = inst := by
  rw [Topology.instances, lookup_instancesOf, lastAt_map, Option.map_map]
  simp only [lineId_words]
  constructor
  · intro h
    obtain ⟨n, hn, rfl⟩ := Option.map_eq_some_iff.mp h
    obtain ⟨hmem, hid⟩ := lastAt_eq_some hn
    exact ⟨n, hmem, hid, rfl⟩
  · rintro ⟨n, hn, rfl, rfl⟩
    have hlast := lastAt_of_nodup t.distinct hn
    rw [hlast]
    rfl

theorem lookup_instances (hn : n ∈ t.nodes) :
    t.instances.lookup n.id.val = some (instanceOf n.words) :=
  lookup_instances_eq_some.mpr ⟨n, hn, rfl, rfl⟩

theorem masterId_words (n : ClusterNode) :
    (instanceOf n.words).masterId = [] ↔ n.masterField = [45] := by
  have hne : lineMaster n.words ≠ [] := (isWord_masterField n).1
  exact masterId_instanceOf_eq_nil hne

/-- A replica of a topology names one of its masters. -/
theorem rooted_instances (t : Topology) : Rooted t.instances := by
  intro id inst hlook hreplica
  obtain ⟨n, hn, rfl, rfl⟩ := lookup_instances_eq_some.mp hlook
  have hdash : n.masterField ≠ [45] := fun h => hreplica ((masterId_words n).mpr h)
  cases hrole : n.role with
  | master slots => exact (hdash ((masterField_eq_dash hn).mpr ⟨slots, hrole⟩)).elim
  | replica p =>
    obtain ⟨m, hm, hid, slots, hmaster⟩ := t.rooted n hn p hrole
    have hp : n.asReplica.masterId = m.id.val := by
      show n.masterField = _
      rw [ClusterNode.masterField, hrole, hid]
    rw [instanceOf_replica hdash, hp]
    refine .inr ⟨_, lookup_instances hm, ?_⟩
    exact (masterId_words m).mpr ((masterField_eq_dash hm).mpr ⟨slots, hmaster⟩)

theorem keys_instances_perm (t : Topology) :
    t.instances.keys.Perm (t.nodes.map fun n => n.id.val) := by
  apply (List.perm_ext_iff_of_nodup t.instances.keys_nodup t.distinct).mpr
  intro k
  rw [← AList.mem_keys, ← AList.lookup_isSome, Option.isSome_iff_exists, List.mem_map]
  constructor
  · rintro ⟨inst, hinst⟩
    obtain ⟨n, hn, hid, -⟩ := lookup_instances_eq_some.mp hinst
    exact ⟨n, hn, hid⟩
  · rintro ⟨n, hn, rfl⟩
    exact ⟨_, lookup_instances hn⟩

/-- The replicas of a master are the nodes that name it. -/
theorem replicaOf_instances {k : Bytes} (hk : k ≠ [45]) (hn : n ∈ t.nodes) :
    replicaOf t.instances k n.id.val =
      (Option.guard (fun n : ClusterNode => n.masterField = k) n).map ClusterNode.asReplica := by
  rw [replicaOf, lookup_instances hn]
  by_cases hdash : n.masterField = [45]
  · have hne : n.masterField ≠ k := by
      rw [hdash]
      exact hk.symm
    simp [instanceOf_master hdash, Option.filter, Option.guard, hne]
  · have hword : n.masterField ≠ [] := (isWord_masterField n).1
    rw [instanceOf_replica hdash]
    by_cases hmaster : n.masterField = k
    · subst hmaster
      simp [ClusterNode.asReplica, hword]
    · simp [ClusterNode.asReplica, Option.filter, Option.guard, hmaster]

/-- The replicas that the second pass attaches to a node, up to the order of the visits. -/
theorem filterMap_replicaOf {k : Bytes} (hk : k ≠ [45]) {ids : List Bytes}
    (hids : ids.Perm t.instances.keys) :
    (ids.filterMap (replicaOf t.instances k)).Perm (t.replicasOf k) := by
  have hperm := (hids.trans (keys_instances_perm t)).filterMap (replicaOf t.instances k)
  rw [List.filterMap_map] at hperm
  have hreplicas : t.nodes.filterMap (replicaOf t.instances k ∘ fun n => n.id.val) =
      t.replicasOf k := by
    rw [Topology.replicasOf, ← List.filterMap_eq_filter, List.map_filterMap]
    apply List.filterMap_congr
    intro n hn
    exact replicaOf_instances hk hn
  rwa [hreplicas] at hperm

/-- With its replicas attached, every master is as the topology has it. -/
theorem isRead_of_attachedTo {ids : List Bytes} {m : KeyMap Bytes ClusterInstance}
    (hids : ids.Perm t.instances.keys) (hm : AttachedTo t.instances ids m) : t.IsRead m := by
  constructor
  · intro n hn hdash
    have hlook := hm n.id.val
    rw [attached_master (lookup_instances hn) ((masterId_words n).mpr hdash),
      instanceOf_master hdash] at hlook
    refine ⟨_, hlook, rfl, rfl, rfl, rfl, ?_⟩
    exact filterMap_replicaOf (t.named n hn) hids
  · intro id inst hlook
    rw [hm id] at hlook
    cases hinst : t.instances.lookup id with
    | none =>
      rw [attached_none hinst] at hlook
      cases hlook
    | some inst' =>
      obtain ⟨n, hn, rfl, rfl⟩ := lookup_instances_eq_some.mp hinst
      refine ⟨n, hn, (masterId_words n).mp ?_, rfl⟩
      -- all replicas have been visited
      apply not_not.mp
      intro hreplica
      have hmem : n.id.val ∈ ids :=
        hids.mem_iff.mpr (AList.lookup_isSome.mp (by rw [hinst]; rfl))
      rw [attached_replica hinst hreplica, if_pos hmem] at hlook
      cases hlook

/-- The parser reads a topology from its text exactly if each master has a field of slots and no
    host has a colon. -/
theorem parsed_iff_parsable (t : Topology) : t.Parsed ↔ t.Parsable := by
  refine ⟨Topology.Parsed.parsable, fun h order => ?_⟩
  have hread := readNodes_of_good (parsable_iff_goodLines.mp h)
  rw [nodesOf_text] at hread
  obtain ⟨m, hm, hattached⟩ := restructure_of_rooted (rooted_instances t) order
  have hparse : parseClusterNodes rangeLimit order t.text = .returns m := by
    rw [parseClusterNodes, hread, Execution.returns_bind]
    exact hm
  obtain ⟨fuel, hfuel⟩ := (limit_parseClusterNodes order t.text).reached
  refine ⟨fuel, m, (hfuel fuel le_rfl).trans hparse, ?_⟩
  exact isRead_of_attachedTo (order.perm t.instances) hattached

/-- A master that owns no slots yet, as one that has just joined the cluster. -/
def slotlessMaster : Topology where
  nodes := [{
    id := ⟨bytesOf "m", by decide⟩, ip := ⟨bytesOf "10.0.0.1", by decide⟩, port := 6379,
    busPort := some 16379, flags := ⟨bytesOf "master", by decide⟩, pingSent := 0, pongRecv := 0,
    configEpoch := 1, linkState := ⟨bytesOf "connected", by decide⟩, role := .master [] }]
  distinct := List.nodup_singleton _
  named := by decide
  rooted := by
    intro n hn p hp
    rw [List.mem_singleton.mp hn] at hp
    cases hp

theorem not_parsed_slotlessMaster : ¬slotlessMaster.Parsed := fun h =>
  h.parsable.slotsListed _ List.mem_cons_self rfl

end Samaritan.Redis
