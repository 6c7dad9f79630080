import Samaritan.Lib.Fields
import Samaritan.Lib.KeyMap
import Samaritan.Lib.Execution
import Samaritan.Redis.Resp

/-!
# The Text of CLUSTER NODES

A node of a cluster describes the cluster in a text with one line for each node it knows.
`parseClusterNodes` (`proc/redis/slot.go`) reads it in two passes: the first makes an instance of
each line, with the slots that the line lists if the node is a master, and registers it under its
id; the second moves each replica from the map to its master.

The slots of a range are counted out by a loop over a machine integer. The parser takes this loop
as a parameter: with `rangeLoop` it is the program, which may need any number of rounds, and with
`rangeLimit` it is what the program comes to. What the first pass does with a text can then be said
line by line.
-/

namespace Samaritan.Redis

open Samaritan.Lib

/-! ## The parser -/

structure ClusterInstance where
  id : Bytes
  addr : Bytes
  masterId : Bytes := []
  replicas : List ClusterInstance := []
  slots : List Int64 := []

def errInvalidClusterNodes : Bytes := bytesOf "invalid cluster nodes"

/-- A loop that appends the numbers from the first argument to the second one to a list. -/
abbrev RangeLoop := Int64 → Int64 → List Int64 → Execution Bytes (List Int64)

/-- `for i := start; i <= end; i++ { slots = append(slots, i) }`, for so many rounds. -/
def rangeLoop : Nat → RangeLoop
  | 0, _, _, _ => .unfinished
  | fuel + 1, i, last, slots =>
    -- the increment wraps around
    if i ≤ last then rangeLoop fuel (i + 1) last (slots ++ [i]) else .returns slots

/-- `strconv.Atoi`, where the parser answers each error with its own. -/
def atoi (b : Bytes) : Execution Bytes Int64 :=
  match parseInt b with
  | .ok i => .returns i
  | .error _ => .fails errInvalidClusterNodes

/-- The segment tells of a slot that is imported or migrated. -/
def isMarker (seg : Bytes) : Bool := [91].isPrefixOf seg && [93].isSuffixOf seg

section

variable (range : RangeLoop)

/-- One round of the loop of `parseClusterNodesSlot`. -/
def readSegment (slots : List Int64) (seg : Bytes) : Execution Bytes (List Int64) :=
  if isMarker seg then .returns slots
  else
    match seg.splitOn 45 with
    | [first, last] => (atoi first).bind fun start => (atoi last).bind fun end' =>
        range start end' slots
    | [single] => (atoi single).bind fun slot => .returns (slots ++ [slot])
    | _ => .fails errInvalidClusterNodes

def parseClusterNodesSlot (segments : List Bytes) : Execution Bytes (List Int64) :=
  Execution.forEach (readSegment range) [] segments

/-- `fields[0]` -/
def lineId (fs : List Bytes) : Bytes := fs.getD 0 []

/-- The address of a node, without the port of the cluster bus. -/
def lineAddr (fs : List Bytes) : Bytes := ((fs.getD 1 []).splitOn 64).headD []

/-- `fields[3]`: the id of the master, or a dash if the node is one. -/
def lineMaster (fs : List Bytes) : Bytes := fs.getD 3 []

/-- `fields[8:]` -/
def lineSegments (fs : List Bytes) : List Bytes := fs.drop 8

/-- The instance that the fields of a line describe. -/
def readNode (fs : List Bytes) : Execution Bytes ClusterInstance :=
  if fs.length < 8 then .fails errInvalidClusterNodes
  else if ((lineAddr fs).splitOn 58).length ≠ 2 then .fails errInvalidClusterNodes
  else if lineMaster fs ≠ [45] then
    .returns { id := lineId fs, addr := lineAddr fs, masterId := lineMaster fs }
  -- attach slots to the master node
  else if fs.length < 9 then .fails errInvalidClusterNodes
  else (parseClusterNodesSlot range (lineSegments fs)).bind fun slots =>
    .returns { id := lineId fs, addr := lineAddr fs, slots := slots }

/-- One round of the first loop of `parseClusterNodes`. -/
def readNodeLine (insts : KeyMap Bytes ClusterInstance) (line : Bytes) :
    Execution Bytes (KeyMap Bytes ClusterInstance) :=
  -- the last line is empty
  if fields line = [] then .returns insts
  else (readNode range (fields line)).bind fun inst => .returns (insts.insert inst.id inst)

/-- The lines of the text, `strings.Split(data, "\n")`. -/
def linesOf (data : Bytes) : List Bytes := data.splitOn 10

/-- The first loop of `parseClusterNodes`. -/
def readNodes (data : Bytes) : Execution Bytes (KeyMap Bytes ClusterInstance) :=
  Execution.forEach (readNodeLine range) ∅ (linesOf data)

/-- One round of the second loop of `parseClusterNodes`. -/
def attach (insts : KeyMap Bytes ClusterInstance) (id : Bytes) :
    Execution Bytes (KeyMap Bytes ClusterInstance) :=
  match insts.lookup id with
  -- an entry that has been removed is not visited any more
  | none => .returns insts
  | some inst =>
    if inst.masterId = [] then .returns insts
    else
      match insts.lookup inst.masterId with
      -- the field of a nil pointer
      | none => .panics
      | some master =>
        let master := { master with replicas := master.replicas ++ [inst] }
        .returns ((insts.insert inst.masterId master).erase id)

/-- The second loop of `parseClusterNodes`, over the entries of the map in some order. -/
def restructure (order : IterationOrder Bytes ClusterInstance)
    (insts : KeyMap Bytes ClusterInstance) : Execution Bytes (KeyMap Bytes ClusterInstance) :=
  Execution.forEach attach insts (order.keys insts)

def parseClusterNodes (order : IterationOrder Bytes ClusterInstance) (data : Bytes) :
    Execution Bytes (KeyMap Bytes ClusterInstance) :=
  (readNodes range data).bind (restructure order)

end

/-! ## The limit of the range loop -/

/-- The numbers from `first` to `last`. -/
def slotsBetween (first last : Int64) : List Int64 :=
  (List.range (last.toInt + 1 - first.toInt).toNat).map fun k : Nat =>
    Int64.ofInt (first.toInt + k)

/-- What the loop over a range comes to: no number is larger than the largest one, so that a range
    up to it has no end. -/
def rangeLimit : RangeLoop := fun start last slots =>
  if last = Int64.maxValue then .unfinished else .returns (slots ++ slotsBetween start last)

variable {i first last : Int64} {slots : List Int64} {fuel : Nat}

theorem toInt_add_one (h : i.toInt < Int64.maxValue.toInt) : (i + 1).toInt = i.toInt + 1 := by
  have hmax : Int64.maxValue.toInt = 2 ^ 63 - 1 := by decide
  have hmin := Int64.le_toInt i
  rw [Int64.toInt_add, Int64.toInt_one, Int.bmod_eq_of_le] <;> omega

theorem slotsBetween_nil (h : ¬first ≤ last) : slotsBetween first last = [] := by
  rw [Int64.le_iff_toInt_le] at h
  rw [slotsBetween, Int.toNat_eq_zero.mpr (by omega)]
  rfl

/-- The loop counts up as long as the next number does not wrap. -/
theorem slotsBetween_cons (h : i ≤ last) (hi : (i + 1).toInt = i.toInt + 1) :
    slotsBetween i last = i :: slotsBetween (i + 1) last := by
  rw [Int64.le_iff_toInt_le] at h
  have hlen : (last.toInt + 1 - i.toInt).toNat = (last.toInt + 1 - (i + 1).toInt).toNat + 1 := by
    omega
  rw [slotsBetween, slotsBetween, hlen, List.range_succ_eq_map, List.map_cons, List.map_map]
  congr 1
  · simp
  · apply List.map_congr_left
    intro k _
    simp only [Function.comp_apply, hi, Nat.succ_eq_add_one, Nat.cast_add, Nat.cast_one]
    congr 1
    omega

/-- A range up to the largest number is never counted out. -/
theorem rangeLoop_maxValue : rangeLoop fuel i Int64.maxValue slots = .unfinished := by
  induction fuel generalizing i slots with
  | zero => rfl
  | succ fuel ih =>
    have hle : i ≤ Int64.maxValue := Int64.le_iff_toInt_le.mpr (Int64.toInt_le i)
    rw [rangeLoop, if_pos hle]
    exact ih

/-- The loop over a range needs one round for each slot, unless it ends at the largest integer. -/
theorem rangeLoop_eq (hlast : last ≠ Int64.maxValue) : rangeLoop fuel i last slots =
    if (last.toInt + 1 - i.toInt).toNat < fuel then .returns (slots ++ slotsBetween i last)
    else .unfinished := by
  have hlt : last.toInt < Int64.maxValue.toInt :=
    lt_of_le_of_ne (Int64.toInt_le last) fun h => hlast (Int64.toInt_inj.mp h)
  induction fuel generalizing i slots with
  | zero => simp [rangeLoop]
  | succ fuel ih =>
    by_cases hle : i ≤ last
    · have hi := Int64.le_iff_toInt_le.mp hle
      have hstep := toInt_add_one (lt_of_le_of_lt hi hlt)
      rw [rangeLoop, if_pos hle, ih, slotsBetween_cons hle hstep, hstep, List.append_assoc]
      have hiff : (last.toInt + 1 - (i.toInt + 1)).toNat < fuel ↔
          (last.toInt + 1 - i.toInt).toNat < fuel + 1 := by omega
      simp only [hiff, List.singleton_append]
    · have hi : ¬i.toInt ≤ last.toInt := fun h => hle (Int64.le_iff_toInt_le.mpr h)
      rw [rangeLoop, if_neg hle, slotsBetween_nil hle, List.append_nil, if_pos (by omega)]

/-- With enough rounds the loop returns, unless the range ends at the largest integer. -/
theorem limit_rangeLoop (start last : Int64) (slots : List Int64) :
    Execution.Limit (fun fuel => rangeLoop fuel start last slots)
      (rangeLimit start last slots) := by
  unfold rangeLimit
  split
  · rename_i h
    subst h
    exact ⟨fun _ => .inr rangeLoop_maxValue, 0, fun _ _ => rangeLoop_maxValue⟩
  · rename_i h
    refine ⟨fun n => ?_, (last.toInt + 1 - start.toInt).toNat + 1, fun m hm => ?_⟩
    · rw [rangeLoop_eq h]
      split
      · exact .inl rfl
      · exact .inr rfl
    · rw [rangeLoop_eq h, if_pos (by omega)]

/-! ## The limit of the parser -/

theorem limit_readSegment (slots : List Int64) (seg : Bytes) :
    Execution.Limit (fun fuel => readSegment (rangeLoop fuel) slots seg)
      (readSegment rangeLimit slots seg) := by
  unfold readSegment
  split
  · exact .const _
  · split
    · exact (Execution.Limit.const _).bind fun start =>
        (Execution.Limit.const _).bind fun last => limit_rangeLoop start last slots
    · exact .const _
    · exact .const _

theorem limit_readNode (fs : List Bytes) :
    Execution.Limit (fun fuel => readNode (rangeLoop fuel) fs) (readNode rangeLimit fs) := by
  unfold readNode
  split
  · exact .const _
  split
  · exact .const _
  split
  · exact .const _
  split
  · exact .const _
  · apply Execution.Limit.bind
    · exact .forEach limit_readSegment (lineSegments fs) []
    · exact fun slots => .const _

theorem limit_readNodeLine (insts : KeyMap Bytes ClusterInstance) (line : Bytes) :
    Execution.Limit (fun fuel => readNodeLine (rangeLoop fuel) insts line)
      (readNodeLine rangeLimit insts line) := by
  unfold readNodeLine
  split
  · exact .const _
  · exact (limit_readNode (fields line)).bind fun inst => .const _

/-- The parser with enough fuel does what it does with loops that are decided at once. -/
theorem limit_parseClusterNodes (order : IterationOrder Bytes ClusterInstance) (data : Bytes) :
    Execution.Limit (fun fuel => parseClusterNodes (rangeLoop fuel) order data)
      (parseClusterNodes rangeLimit order data) := by
  apply Execution.Limit.bind
  · exact .forEach limit_readNodeLine (linesOf data) ∅
  · exact fun insts => .const _

/-! ## What the first pass does with a line -/

/-- The number of a text that has one. -/
def numberOf (b : Bytes) : Int64 := (parseInt b).toOption.getD 0

/-- The text is a number. -/
def IsNumber (b : Bytes) : Prop := (parseInt b).isOk = true

/-- The parts of a segment are a number, or the ends of a range that does not go up to the largest
    number. -/
def GoodParts : List Bytes → Prop
  | [first, last] => IsNumber first ∧ IsNumber last ∧ numberOf last ≠ Int64.maxValue
  | [single] => IsNumber single
  | _ => False

/-- The parts of a segment are the ends of a range up to the largest number. -/
def EndlessParts : List Bytes → Prop
  | [first, last] => IsNumber first ∧ IsNumber last ∧ numberOf last = Int64.maxValue
  | _ => False

def GoodSegment (seg : Bytes) : Prop := isMarker seg = true ∨ GoodParts (seg.splitOn 45)

def EndlessSegment (seg : Bytes) : Prop := isMarker seg = false ∧ EndlessParts (seg.splitOn 45)

/-- The slots of a good segment. -/
def segmentSlots (seg : Bytes) : List Int64 :=
  if isMarker seg then []
  else
    match seg.splitOn 45 with
    | [first, last] => slotsBetween (numberOf first) (numberOf last)
    | [single] => [numberOf single]
    | _ => []

theorem atoi_of_isNumber {b : Bytes} (h : IsNumber b) : atoi b = .returns (numberOf b) := by
  unfold IsNumber at h
  unfold atoi numberOf
  cases hb : parseInt b with
  | ok i => rfl
  | error e =>
    rw [hb] at h
    cases h

theorem atoi_of_not_isNumber {b : Bytes} (h : ¬IsNumber b) :
    atoi b = .fails errInvalidClusterNodes := by
  unfold IsNumber at h
  unfold atoi
  cases hb : parseInt b with
  | ok i =>
    rw [hb] at h
    exact (h rfl).elim
  | error e => rfl

/-- A good field adds its slots. -/
theorem readSegment_of_good {seg : Bytes} (h : GoodSegment seg) :
    readSegment rangeLimit slots seg = .returns (slots ++ segmentSlots seg) := by
  unfold readSegment segmentSlots
  by_cases hmark : isMarker seg = true
  · rw [if_pos hmark, if_pos hmark, List.append_nil]
  · rw [if_neg hmark, if_neg hmark]
    have hparts := h.resolve_left hmark
    unfold GoodParts at hparts
    split at hparts
    · rename_i first last hsplit
      obtain ⟨hfirst, hlast, hmax⟩ := hparts
      simp only [hsplit]
      rw [atoi_of_isNumber hfirst, atoi_of_isNumber hlast]
      exact if_neg hmax
    · rename_i single hsplit
      simp only [hsplit]
      rw [atoi_of_isNumber hparts]
      rfl
    · exact hparts.elim

/-- The loop of an endless range does not return. -/
theorem readSegment_of_endless {seg : Bytes} (h : EndlessSegment seg) :
    readSegment rangeLimit slots seg = .unfinished := by
  obtain ⟨hmark, hparts⟩ := h
  unfold readSegment
  rw [if_neg (by simp [hmark])]
  unfold EndlessParts at hparts
  split at hparts
  · rename_i first last hsplit
    obtain ⟨hfirst, hlast, hmax⟩ := hparts
    rw [hsplit]
    show (atoi first).bind _ = _
    rw [atoi_of_isNumber hfirst, atoi_of_isNumber hlast]
    exact if_pos hmax
  · exact hparts.elim

/-- Any other field is refused. -/
theorem readSegment_of_bad {seg : Bytes} (hgood : ¬GoodSegment seg)
    (hendless : ¬EndlessSegment seg) :
    readSegment rangeLimit slots seg = .fails errInvalidClusterNodes := by
  have hmark : isMarker seg = false := Bool.eq_false_iff.mpr fun h => hgood (.inl h)
  replace hgood : ¬GoodParts (seg.splitOn 45) := fun h => hgood (.inr h)
  replace hendless : ¬EndlessParts (seg.splitOn 45) := fun h => hendless ⟨hmark, h⟩
  unfold readSegment
  rw [if_neg (by simp [hmark])]
  split
  · rename_i first last hsplit
    rw [hsplit] at hgood hendless
    by_cases hfirst : IsNumber first
    · by_cases hlast : IsNumber last
      · -- two numbers make a range, with an end or without one
        exact (hendless ⟨hfirst, hlast, not_not.mp fun hmax => hgood ⟨hfirst, hlast, hmax⟩⟩).elim
      · rw [atoi_of_isNumber hfirst, atoi_of_not_isNumber hlast]
        rfl
    · rw [atoi_of_not_isNumber hfirst]
      rfl
  · rename_i single hsplit
    rw [hsplit] at hgood
    rw [atoi_of_not_isNumber hgood]
    rfl
  · rfl

theorem decided_readSegment :
    Execution.Decided (readSegment rangeLimit) GoodSegment EndlessSegment :=
  ⟨fun _ _ h => ⟨_, readSegment_of_good h⟩, fun _ _ h => readSegment_of_endless h,
    fun _ _ hgood hendless => ⟨_, readSegment_of_bad hgood hendless⟩⟩

theorem forEach_readSegment {segments : List Bytes} (h : ∀ seg ∈ segments, GoodSegment seg) :
    Execution.forEach (readSegment rangeLimit) slots segments =
      .returns (slots ++ segments.flatMap segmentSlots) := by
  induction segments generalizing slots with
  | nil => rw [List.flatMap_nil, List.append_nil, Execution.forEach]
  | cons seg segments ih =>
    rw [List.forall_mem_cons] at h
    rw [Execution.forEach, readSegment_of_good h.1, Execution.returns_bind, ih h.2,
      List.flatMap_cons, List.append_assoc]

/-- The line has the eight fields of every node, with an address of a host and a port. -/
def HasHead (fs : List Bytes) : Prop := 8 ≤ fs.length ∧ ((lineAddr fs).splitOn 58).length = 2

/-- The parser makes an instance of the fields: they begin as they should, and the slots of a
    master are there and good. -/
def GoodNode (fs : List Bytes) : Prop :=
  HasHead fs ∧
    (lineMaster fs = [45] → 9 ≤ fs.length ∧ ∀ seg ∈ lineSegments fs, GoodSegment seg)

/-- The fields of a master whose first segment that is not good is a range without an end. -/
def EndlessNode (fs : List Bytes) : Prop :=
  HasHead fs ∧ lineMaster fs = [45] ∧
    Execution.FirstEndless GoodSegment EndlessSegment (lineSegments fs)

/-- The instance that good fields describe. -/
def instanceOf (fs : List Bytes) : ClusterInstance :=
  if lineMaster fs ≠ [45] then
    { id := lineId fs, addr := lineAddr fs, masterId := lineMaster fs }
  else
    { id := lineId fs, addr := lineAddr fs, slots := (lineSegments fs).flatMap segmentSlots }

@[simp] theorem instanceOf_id (fs : List Bytes) : (instanceOf fs).id = lineId fs := by
  unfold instanceOf
  split <;> rfl

@[simp] theorem instanceOf_addr (fs : List Bytes) : (instanceOf fs).addr = lineAddr fs := by
  unfold instanceOf
  split <;> rfl

@[simp] theorem instanceOf_replicas (fs : List Bytes) : (instanceOf fs).replicas = [] := by
  unfold instanceOf
  split <;> rfl

theorem readNode_of_head {fs : List Bytes} (h : HasHead fs) (hmaster : lineMaster fs = [45])
    (hlen : 9 ≤ fs.length) (range : RangeLoop) :
    readNode range fs = (parseClusterNodesSlot range (lineSegments fs)).bind fun slots =>
      .returns { id := lineId fs, addr := lineAddr fs, slots := slots } := by
  unfold readNode
  rw [if_neg (by have := h.1; omega), if_neg (not_not.mpr h.2), if_neg (not_not.mpr hmaster),
    if_neg (by omega)]

/-- A good line gives its instance. -/
theorem readNode_of_good {fs : List Bytes} (h : GoodNode fs) :
    readNode rangeLimit fs = .returns (instanceOf fs) := by
  obtain ⟨hhead, hslots⟩ := h
  by_cases hmaster : lineMaster fs = [45]
  · obtain ⟨hlen, hsegs⟩ := hslots hmaster
    rw [readNode_of_head hhead hmaster hlen, parseClusterNodesSlot, forEach_readSegment hsegs,
      instanceOf, if_neg (not_not.mpr hmaster)]
    rfl
  · unfold readNode
    rw [if_neg (by have := hhead.1; omega), if_neg (not_not.mpr hhead.2), if_pos hmaster,
      instanceOf, if_pos hmaster]

theorem nine_le_length {fs : List Bytes} (h : lineSegments fs ≠ []) : 9 ≤ fs.length := by
  have hlen := List.length_pos_of_ne_nil h
  rw [lineSegments, List.length_drop] at hlen
  omega

/-- A line with an endless range, behind good fields, does not return. -/
theorem readNode_of_endless {fs : List Bytes} (h : EndlessNode fs) :
    readNode rangeLimit fs = .unfinished := by
  obtain ⟨hhead, hmaster, hfirst⟩ := h
  have hne : lineSegments fs ≠ [] := by
    obtain ⟨front, x, back, hsegs, -⟩ := hfirst
    rw [hsegs]
    simp
  rw [readNode_of_head hhead hmaster (nine_le_length hne), parseClusterNodesSlot,
    decided_readSegment.forEach.unfinished _ _ hfirst]
  rfl

/-- Any other line is refused. -/
theorem readNode_of_bad {fs : List Bytes} (hgood : ¬GoodNode fs) (hendless : ¬EndlessNode fs) :
    ∃ e, readNode rangeLimit fs = .fails e := by
  by_cases hhead : HasHead fs
  · have hmaster : lineMaster fs = [45] :=
      not_not.mp fun h => hgood ⟨hhead, fun h' => (h h').elim⟩
    by_cases hlen : 9 ≤ fs.length
    · obtain ⟨e, he⟩ := decided_readSegment.forEach.fails [] (lineSegments fs)
        (fun hsegs => hgood ⟨hhead, fun _ => ⟨hlen, hsegs⟩⟩)
        (fun hfirst => hendless ⟨hhead, hmaster, hfirst⟩)
      refine ⟨e, ?_⟩
      rw [readNode_of_head hhead hmaster hlen, parseClusterNodesSlot, he]
      rfl
    · refine ⟨errInvalidClusterNodes, ?_⟩
      unfold readNode
      rw [if_neg (by have := hhead.1; omega), if_neg (not_not.mpr hhead.2),
        if_neg (not_not.mpr hmaster), if_pos (by omega)]
  · refine ⟨errInvalidClusterNodes, ?_⟩
    unfold readNode
    split
    · rfl
    · rename_i hlen
      rw [if_pos fun haddr => hhead ⟨by omega, haddr⟩]

/-! ## What it does with a text -/

def GoodLine (line : Bytes) : Prop := fields line = [] ∨ GoodNode (fields line)

def EndlessLine (line : Bytes) : Prop := fields line ≠ [] ∧ EndlessNode (fields line)

/-- The fields of the lines that have some. -/
def nodesOf (lines : List Bytes) : List (List Bytes) := (lines.map fields).filter (· ≠ [])

theorem readNodeLine_of_ne {range : RangeLoop} {insts : KeyMap Bytes ClusterInstance} {line : Bytes}
    (h : fields line ≠ []) : readNodeLine range insts line =
      (readNode range (fields line)).bind fun inst => .returns (insts.insert inst.id inst) :=
  if_neg h

/-- What becomes of the text is decided by its first line that is not good. -/
theorem decided_readNodeLine :
    Execution.Decided (readNodeLine rangeLimit) GoodLine EndlessLine := by
  refine ⟨fun insts line h => ?_, fun insts line h => ?_, fun insts line hgood hendless => ?_⟩
  · by_cases hline : fields line = []
    · exact ⟨insts, if_pos hline⟩
    · refine ⟨insts.insert (instanceOf (fields line)).id (instanceOf (fields line)), ?_⟩
      rw [readNodeLine_of_ne hline, readNode_of_good (h.resolve_left hline)]
      rfl
  · rw [readNodeLine_of_ne h.1, readNode_of_endless h.2]
    rfl
  · have hline : fields line ≠ [] := fun h => hgood (.inl h)
    obtain ⟨e, he⟩ := readNode_of_bad (fun h => hgood (.inr h)) (fun h => hendless ⟨hline, h⟩)
    refine ⟨e, ?_⟩
    rw [readNodeLine_of_ne hline, he]
    rfl

/-- The first pass registers the instance of each line under its id. -/
theorem forEach_readNodeLine {insts : KeyMap Bytes ClusterInstance} {lines : List Bytes}
    (h : ∀ line ∈ lines, GoodLine line) :
    Execution.forEach (readNodeLine rangeLimit) insts lines =
      .returns (insertAll ClusterInstance.id insts ((nodesOf lines).map instanceOf)) := by
  induction lines generalizing insts with
  | nil => rfl
  | cons line lines ih =>
    rw [List.forall_mem_cons] at h
    by_cases hline : fields line = []
    · have hnodes : nodesOf (line :: lines) = nodesOf lines := by simp [nodesOf, hline]
      rw [Execution.forEach, readNodeLine, if_pos hline, Execution.returns_bind, ih h.2, hnodes]
    · have hnodes : nodesOf (line :: lines) = fields line :: nodesOf lines := by
        simp [nodesOf, hline]
      rw [Execution.forEach, readNodeLine_of_ne hline, readNode_of_good (h.1.resolve_left hline),
        Execution.returns_bind, Execution.returns_bind, ih h.2, hnodes]
      rfl

end Samaritan.Redis
