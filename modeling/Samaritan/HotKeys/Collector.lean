import Mathlib.Data.List.Chain
import Samaritan.Lib.BinarySearch
import Samaritan.Lib.Decimal
import Samaritan.Lib.KeyMap
import Samaritan.Lib.Machine
import Samaritan.Lib.Ranking

/-!
# The Collector of Hot Keys

The collector (`proc/redis/hotkey/collector.go`) keeps the most visited keys in descending order of
a logarithmic counter. `collect` adds the visits that the counters have recorded and sorts the keys
anew; `evictStale` halves the counters that were not updated in the current minute and leaves the
order of the keys as it is.

The order in which Go iterates a map, the random numbers and the readings of the clock are given
with each step; the readings do not decrease.
-/

namespace Samaritan.HotKeys

open Samaritan.Lib

/-! ## Logarithmic counters -/

structure LogrithmCounter where
  lut : Int
  val : UInt8
  deriving DecidableEq

namespace LogrithmCounter

/-- The loop of `ReaptIncr`. The chance of an increment is `1 / (10 * val + 1)`: it is certain for
    the value zero, and a matter of the draw for the others. -/
def reaptVal (draws : Nat → Bool) : Nat → UInt8 → UInt8
  | 0, val => val
  | times + 1, val =>
    if val = 255 then val
    else reaptVal (fun i => draws (i + 1)) times (if val = 0 || draws 0 then val + 1 else val)

def reaptIncr (c : LogrithmCounter) (times : UInt64) (draws : Nat → Bool) (now : Int) :
    LogrithmCounter :=
  { c with val := reaptVal draws times.toNat c.val, lut := now }

def halve (c : LogrithmCounter) (now : Int) : LogrithmCounter :=
  if c.val = 0 then c else { c with val := c.val >>> 1, lut := now }

/-- `new(logrithmCounter)`. -/
def zero : LogrithmCounter := ⟨0, 0⟩

end LogrithmCounter

structure HotKey where
  name : Bytes
  counter : LogrithmCounter
  deriving DecidableEq

/-! ## Sorted keys -/

structure SortedHotKeys where
  capacity : UInt8
  data : List HotKey

def newSortedHotKeys (capacity : UInt8) : SortedHotKeys := ⟨capacity, []⟩

namespace SortedHotKeys

/-- The test of the binary search in `Insert`. -/
def notAbove (data : List HotKey) (key : HotKey) (i : Nat) : Bool :=
  data[i]?.any fun k => k.counter.val ≤ key.counter.val

/-- The first part of `Insert`: one place more if there is room. -/
def grow (s : SortedHotKeys) (key : HotKey) : List HotKey :=
  if UInt8.ofNat s.data.length < s.capacity then s.data ++ [key] else s.data

/-- The second part of `Insert`: `copy` moves what stands from `i` on one place up, as far as there
    is a place for it. -/
def place (data : List HotKey) (i : Nat) (key : HotKey) : List HotKey :=
  (data.take (i + 1) ++ (data.drop i).take (data.length - (i + 1))).set i key

/-- `Insert`; its result is `insertSuccess`, which `collect` does not use. -/
def insert (s : SortedHotKeys) (key : HotKey) : SortedHotKeys :=
  let i := search s.data.length (notAbove s.data key)
  let data := s.grow key
  { s with data := if i < s.data.length then place data i key else data }

/-- The result of `Insert`: the key was appended, or it was put at a place in the list. -/
def insertSuccess (s : SortedHotKeys) (key : HotKey) : Bool :=
  let i := search s.data.length (notAbove s.data key)
  if i < s.data.length then true else UInt8.ofNat s.data.length < s.capacity

end SortedHotKeys

/-! ## The collector -/

/-- The collector, with the last reading of the clock. -/
structure Collector where
  capacity : UInt8
  keys : List HotKey
  clock : Int

def newCollector (capacity : UInt8) (clock : Int) : Collector := ⟨capacity, [], clock⟩

/-- A turn of one of the loops of `collect`: the name that the iteration comes to, the draws and
    the reading of the clock. -/
structure Turn where
  name : Bytes
  draws : Nat → Bool
  now : Int

namespace Collector

/-- The visits of all counters, added up by name. -/
def accessedKeyNames (latched : List (Bytes × UInt64)) : KeyMap Bytes UInt64 :=
  latched.foldl (fun m v => m.insert v.1 ((m.lookup v.1).getD 0 + v.2)) ∅

def curHotKeys (c : Collector) : KeyMap Bytes LogrithmCounter :=
  c.keys.foldl (fun m key => m.insert key.name key.counter) ∅

/-- A turn of the loop over the current hot keys. -/
def updateKey (cur : KeyMap Bytes LogrithmCounter) (acc : KeyMap Bytes UInt64 × SortedHotKeys)
    (turn : Turn) : KeyMap Bytes UInt64 × SortedHotKeys :=
  let visits := (acc.1.lookup turn.name).getD 0
  let counter := ((cur.lookup turn.name).getD .zero).reaptIncr visits turn.draws turn.now
  (acc.1.erase turn.name, acc.2.insert ⟨turn.name, counter⟩)

/-- A turn of the loop over the names that are left. -/
def addKey (names : KeyMap Bytes UInt64) (res : SortedHotKeys) (turn : Turn) : SortedHotKeys :=
  let hitCount := (names.lookup turn.name).getD 0
  res.insert ⟨turn.name, LogrithmCounter.zero.reaptIncr hitCount turn.draws turn.now⟩

/-- The readings of the clock do not decrease. -/
def ReadsOk (c : Collector) (reads : List Int) : Prop := (c.clock :: reads).IsChain (· ≤ ·)

instance (c : Collector) (reads : List Int) : Decidable (c.ReadsOk reads) :=
  inferInstanceAs (Decidable (List.IsChain _ _))

/-- The clock after some readings. -/
def clockAfter (c : Collector) (reads : List Int) : Int := reads.getLastD c.clock

/-- `collect`. The turns of the two loops go over the names of the two maps, in any order. -/
def collect (c : Collector) (latched : List (Bytes × UInt64)) (old new : List Turn) :
    Option Collector :=
  let names := accessedKeyNames latched
  if names.keys = [] then
    if old.length + new.length = 0 then some c else none
  else
    let (names, res) := old.foldl (updateKey c.curHotKeys) (names, newSortedHotKeys c.capacity)
    let reads := (old ++ new).map Turn.now
    if (old.map Turn.name).Perm c.curHotKeys.keys ∧ (new.map Turn.name).Perm names.keys ∧
        c.ReadsOk reads then
      some { c with
        keys := (new.foldl (addKey names) res).data
        clock := c.clockAfter reads }
    else none

/-- The first loop of `evictStale`; `Halve` reads the clock once more. -/
def halveKey (cur : Int) (key : HotKey) (now : Int) : HotKey :=
  if key.counter.lut < cur then { key with counter := key.counter.halve now } else key

/-- `evictStale`, with a reading of the clock for each key that may be halved. -/
def evictStale (c : Collector) (cur : Int) (halves : List Int) : Option Collector :=
  if halves.length = c.keys.length ∧ c.ReadsOk (cur :: halves) then
    some { c with
      keys := (List.zipWith (halveKey cur) c.keys halves).filter fun key => key.counter.val ≠ 0
      clock := c.clockAfter (cur :: halves) }
  else none

end Collector

/-- The steps of a collector. -/
inductive CollectorStep where
  | collect (latched : List (Bytes × UInt64)) (old new : List Turn)
  | evictStale (cur : Int) (halves : List Int)

namespace Collector

def step (c : Collector) : CollectorStep → Option Collector
  | .collect latched old new => c.collect latched old new
  | .evictStale cur halves => c.evictStale cur halves

end Collector

/-! ## Insertion -/

/-- Keys in descending order of their counters. -/
def Descending (keys : List HotKey) : Prop :=
  keys.Pairwise fun a b => b.counter.val ≤ a.counter.val

instance (keys : List HotKey) : Decidable (Descending keys) :=
  inferInstanceAs (Decidable (List.Pairwise _ _))

namespace SortedHotKeys

variable {data : List HotKey} {key : HotKey} {i : Nat} {s : SortedHotKeys}

theorem notAbove_eq_true (hi : i < data.length) :
    notAbove data key i = true ↔ data[i].counter.val ≤ key.counter.val := by
  simp [notAbove, hi]

/-- The search finds the first key that does not come before the new one. -/
theorem separates_notAbove (h : Descending data) (key : HotKey) :
    Separates data.length (notAbove data key) (search data.length (notAbove data key)) := by
  apply separates_search
  intro a b hab hb ha
  rw [notAbove_eq_true (by omega)] at ha
  rw [notAbove_eq_true hb]
  rcases Nat.lt_or_eq_of_le hab with hlt | rfl
  · exact UInt8.le_trans (List.pairwise_iff_getElem.mp h a b (by omega) hb hlt) ha
  · exact ha

/-- The place of a key: the keys in front have larger counters, and those behind have not. -/
structure PlaceOf (data : List HotKey) (key : HotKey) (i : Nat) : Prop where
  le : i ≤ data.length
  front : ∀ k ∈ data.take i, key.counter.val < k.counter.val
  back : ∀ k ∈ data.drop i, k.counter.val ≤ key.counter.val

theorem placeOf_search (h : Descending data) (key : HotKey) :
    PlaceOf data key (search data.length (notAbove data key)) := by
  obtain ⟨hle, hbelow, habove⟩ := separates_notAbove h key
  refine ⟨hle, fun k hk => ?_, fun k hk => ?_⟩
  · obtain ⟨n, hn, rfl⟩ := List.mem_iff_getElem.mp hk
    rw [List.length_take] at hn
    have hn' : n < data.length := by omega
    have hfalse := hbelow n (by omega)
    rw [← Bool.not_eq_true, notAbove_eq_true hn', UInt8.not_le] at hfalse
    rwa [List.getElem_take]
  · obtain ⟨n, hn, rfl⟩ := List.mem_iff_getElem.mp hk
    rw [List.length_drop] at hn
    rw [List.getElem_drop]
    exact (notAbove_eq_true _).mp (habove _ (Nat.le_add_right _ n) (by omega))

/-- The value by which keys are ranked. -/
def value (key : HotKey) : Nat := key.counter.val.toNat

theorem descending_iff : Descending data ↔ data.Pairwise fun a b => value b ≤ value a := by
  simp only [Descending, value, UInt8.le_iff_toNat_le]

theorem PlaceOf.value_front (h : PlaceOf data key i) :
    ∀ k ∈ data.take i, value key ≤ value k :=
  fun k hk => (UInt8.lt_iff_toNat_lt.mp (h.front k hk)).le

theorem PlaceOf.value_back (h : PlaceOf data key i) :
    ∀ k ∈ data.drop i, value k ≤ value key :=
  fun k hk => UInt8.le_iff_toNat_le.mp (h.back k hk)

theorem PlaceOf.descending (h : PlaceOf data key i) (hdata : Descending data) :
    Descending (data.take i ++ key :: data.drop i) :=
  descending_iff.mpr (descending_insert (descending_iff.mp hdata) h.value_front h.value_back)

theorem place_eq (hi : i < data.length) :
    place data i key = data.take i ++ key :: (data.drop i).take (data.length - (i + 1)) := by
  unfold place
  rw [List.take_succ_eq_append_getElem hi, List.append_assoc, List.set_append_right _ _ (by simp)]
  simp [Nat.min_eq_left hi.le]

/-- The length of the list fits into the 8 bits in which it is compared. -/
theorem ofNat_lt_capacity_iff (hroom : s.data.length ≤ s.capacity.toNat) :
    UInt8.ofNat s.data.length < s.capacity ↔ s.data.length < s.capacity.toNat := by
  have hlt : s.data.length < 2 ^ 8 := hroom.trans_lt s.capacity.toNat_lt
  rw [UInt8.lt_iff_toNat_lt, UInt8.toNat_ofNat_of_lt' hlt]

/-- `Insert` puts the key at its place and drops what goes over the capacity. -/
theorem insert_data (hroom : s.data.length ≤ s.capacity.toNat)
    (hi : search s.data.length (notAbove s.data key) = i) (hle : i ≤ s.data.length) :
    (s.insert key).data = (s.data.take i ++ key :: s.data.drop i).take s.capacity.toNat := by
  have hgrow := ofNat_lt_capacity_iff hroom
  have hlen : (s.data.take i ++ key :: s.data.drop i).length = s.data.length + 1 := by
    simp
    omega
  unfold insert grow
  simp only [hi]
  by_cases hfree : s.data.length < s.capacity.toNat
  · -- there is room for all of them
    rw [if_pos (hgrow.mpr hfree), List.take_of_length_le (by rw [hlen]; exact hfree)]
    by_cases hend : i < s.data.length
    · have htake : (s.data ++ [key]).take i = s.data.take i := List.take_append_of_le_length hle
      have hdrop : (s.data ++ [key]).drop i = s.data.drop i ++ [key] :=
        List.drop_append_of_le_length hle
      rw [if_pos hend, place_eq (by simp; omega), htake, hdrop, List.take_left' (by simp)]
    · obtain rfl : i = s.data.length := by omega
      simp
  · -- the last one has to go, or the new one does not get in
    have hcap : s.capacity.toNat = s.data.length := by omega
    rw [if_neg fun h => hfree (hgrow.mp h), hcap, List.take_append, List.length_take,
      Nat.min_eq_left hle, List.take_take, Nat.min_eq_right hle]
    by_cases hend : i < s.data.length
    · rw [if_pos hend, place_eq hend, show s.data.length - i = s.data.length - (i + 1) + 1 by omega,
        List.take_succ_cons]
    · obtain rfl : i = s.data.length := by omega
      simp

/-- Sorted keys with names from a list, each of them once. -/
structure Ranked (s : SortedHotKeys) (names : List Bytes) : Prop where
  descending : Descending s.data
  nodup : (s.data.map HotKey.name).Nodup
  room : s.data.length ≤ s.capacity.toNat
  names : ∀ k ∈ s.data, k.name ∈ names

theorem ranked_new (capacity : UInt8) : Ranked (newSortedHotKeys capacity) [] :=
  ⟨List.Pairwise.nil, List.nodup_nil, Nat.zero_le _, fun k hk => by cases hk⟩

theorem Ranked.insert {names : List Bytes} (h : Ranked s names) (hkey : key.name ∉ names) :
    Ranked (s.insert key) (key.name :: names) := by
  have hplace := placeOf_search h.descending key
  have hdata := insert_data h.room rfl hplace.le
  generalize search s.data.length (notAbove s.data key) = i at hplace hdata
  have hperm := perm_insert i key s.data
  have hdesc := hplace.descending h.descending
  have hnodup : ((s.data.take i ++ key :: s.data.drop i).map HotKey.name).Nodup := by
    rw [(hperm.map HotKey.name).nodup_iff, List.map_cons, List.nodup_cons]
    refine ⟨fun hmem => ?_, h.nodup⟩
    obtain ⟨k, hk, heq⟩ := List.mem_map.mp hmem
    exact hkey (heq ▸ h.names k hk)
  have hsub := List.take_sublist s.capacity.toNat (s.data.take i ++ key :: s.data.drop i)
  rw [← hdata] at hsub
  refine ⟨hdesc.sublist hsub, hnodup.sublist (hsub.map _), ?_, fun k hk => ?_⟩
  · show (s.insert key).data.length ≤ s.capacity.toNat
    rw [hdata]
    exact List.length_take_le _ _
  · rcases List.mem_cons.mp (hperm.mem_iff.mp (hsub.mem hk)) with rfl | hk
    · exact List.mem_cons_self
    · exact List.mem_cons_of_mem _ (h.names k hk)

end SortedHotKeys

/-! ## Steps -/

namespace Collector

open SortedHotKeys

variable {c c' : Collector} {latched : List (Bytes × UInt64)} {old new turns : List Turn}

/-- What the documentation says about the keys. -/
structure Sorted (c : Collector) : Prop where
  descending : Descending c.keys
  nodup : (c.keys.map HotKey.name).Nodup
  room : c.keys.length ≤ c.capacity.toNat

theorem sorted_newCollector (capacity : UInt8) (clock : Int) :
    Sorted (newCollector capacity clock) :=
  ⟨List.Pairwise.nil, List.nodup_nil, Nat.zero_le _⟩

/-- The loop over the current keys. -/
theorem ranked_updateKeys (cur : KeyMap Bytes LogrithmCounter)
    (acc : KeyMap Bytes UInt64 × SortedHotKeys) {done : List Bytes} (h : Ranked acc.2 done)
    (hnames : ∀ k ∈ acc.1.keys, k ∉ done)
    (hnodup : (turns.map Turn.name).Nodup) (hturns : ∀ t ∈ turns, t.name ∉ done) :
    ∃ done', Ranked (turns.foldl (updateKey cur) acc).2 done' ∧
      (turns.foldl (updateKey cur) acc).2.capacity = acc.2.capacity ∧
      ∀ k ∈ (turns.foldl (updateKey cur) acc).1.keys, k ∉ done' := by
  induction turns generalizing acc done with
  | nil => exact ⟨done, h, rfl, hnames⟩
  | cons turn turns ih =>
    rw [List.map_cons, List.nodup_cons] at hnodup
    have hstep : Ranked (updateKey cur acc turn).2 (turn.name :: done) :=
      h.insert (hturns turn List.mem_cons_self)
    refine ih _ hstep (fun k hk => ?_) hnodup.2 fun t ht => ?_
    · rw [List.mem_cons, not_or]
      have hk' : k ∈ acc.1.erase turn.name := hk
      rw [AList.mem_erase] at hk'
      exact ⟨hk'.1, hnames k hk'.2⟩
    · rw [List.mem_cons, not_or]
      refine ⟨fun heq => hnodup.1 (heq ▸ List.mem_map_of_mem ht), ?_⟩
      exact hturns t (List.mem_cons_of_mem _ ht)

/-- The loop over the names that are left. -/
theorem ranked_addKeys {names : KeyMap Bytes UInt64} {res : SortedHotKeys} {done : List Bytes}
    (h : Ranked res done) (hnodup : (turns.map Turn.name).Nodup)
    (hturns : ∀ t ∈ turns, t.name ∉ done) :
    ∃ done', Ranked (turns.foldl (addKey names) res) done' ∧
      (turns.foldl (addKey names) res).capacity = res.capacity := by
  induction turns generalizing res done with
  | nil => exact ⟨done, h, rfl⟩
  | cons turn turns ih =>
    rw [List.map_cons, List.nodup_cons] at hnodup
    have hstep : Ranked (addKey names res turn) (turn.name :: done) :=
      h.insert (hturns turn List.mem_cons_self)
    refine ih hstep hnodup.2 fun t ht => ?_
    rw [List.mem_cons, not_or]
    refine ⟨fun heq => hnodup.1 (heq ▸ List.mem_map_of_mem ht), ?_⟩
    exact hturns t (List.mem_cons_of_mem _ ht)

/-- `collect` sorts the keys anew. -/
theorem Sorted.collect (hc : Sorted c) (h : c.collect latched old new = some c') : Sorted c' := by
  unfold Collector.collect at h
  simp only at h
  split at h
  · split at h <;> cases h
    exact hc
  · split at h <;> cases h
    rename_i hturns
    obtain ⟨hold, hnew, -⟩ := hturns
    obtain ⟨done, hranked, hcap, hleft⟩ :=
      ranked_updateKeys c.curHotKeys (accessedKeyNames latched, newSortedHotKeys c.capacity)
        (ranked_new c.capacity) (fun k _ => List.not_mem_nil)
        (hold.nodup_iff.mpr (AList.keys_nodup _)) fun t _ => List.not_mem_nil
    obtain ⟨done', hranked', hcap'⟩ :=
      ranked_addKeys hranked (hnew.nodup_iff.mpr (AList.keys_nodup _))
        fun t ht => hleft _ (hnew.mem_iff.mp (List.mem_map_of_mem ht))
    refine ⟨hranked'.descending, hranked'.nodup, ?_⟩
    have hroom := hranked'.room
    rw [hcap', hcap] at hroom
    exact hroom

/-! ## Halving -/

/-- The value of a key behind the loop of `evictStale`. -/
def halvedVal (cur : Int) (key : HotKey) : UInt8 :=
  if key.counter.lut < cur then key.counter.val >>> 1 else key.counter.val

theorem halveKey_val (cur : Int) (key : HotKey) (now : Int) :
    (halveKey cur key now).counter.val = halvedVal cur key := by
  unfold halveKey halvedVal LogrithmCounter.halve
  by_cases hstale : key.counter.lut < cur
  · by_cases hzero : key.counter.val = 0
    · simp [hstale, hzero]
    · simp [hstale, hzero]
  · simp [hstale]

theorem halveKey_name (cur : Int) (key : HotKey) (now : Int) :
    (halveKey cur key now).name = key.name := by
  unfold halveKey
  split <;> rfl

/-- A field that the loop sets by itself is set for each key. -/
theorem map_halveKeys {α : Type} {f g : HotKey → α} {cur : Int} {keys : List HotKey}
    {halves : List Int} (hlen : halves.length = keys.length)
    (hf : ∀ key now, f (halveKey cur key now) = g key) :
    (List.zipWith (halveKey cur) keys halves).map f = keys.map g := by
  induction keys generalizing halves with
  | nil => simp
  | cons key keys ih =>
    cases halves with
    | nil => cases hlen
    | cons now halves =>
      rw [List.zipWith_cons_cons, List.map_cons, List.map_cons, hf,
        ih (Nat.succ.inj hlen)]

theorem toNat_half (v : UInt8) : (v >>> 1).toNat = v.toNat / 2 := by
  rw [UInt8.toNat_shiftRight]
  exact Nat.shiftRight_eq_div_pow v.toNat 1

/-- A key that is halved, and not to zero, does not fall behind one that is not. -/
def StaysAhead (cur : Int) (a b : HotKey) : Prop :=
  a.counter.lut < cur → ¬b.counter.lut < cur →
    a.counter.val >>> 1 = 0 ∨ b.counter.val ≤ a.counter.val >>> 1

instance (cur : Int) (a b : HotKey) : Decidable (StaysAhead cur a b) :=
  inferInstanceAs (Decidable (_ → _ → _))

/-- Of two keys in order, the first one falls behind the second when it is stale, the second one
    is not, and half of its value is neither enough nor zero. -/
theorem halvedVal_le_iff {cur : Int} {a b : HotKey} (hab : b.counter.val ≤ a.counter.val) :
    (halvedVal cur a ≠ 0 → halvedVal cur b ≠ 0 → halvedVal cur b ≤ halvedVal cur a) ↔
      StaysAhead cur a b := by
  have hhalf : b.counter.val >>> 1 ≤ b.counter.val := by
    rw [UInt8.le_iff_toNat_le, toNat_half]
    exact Nat.div_le_self _ _
  unfold halvedVal StaysAhead
  -- only a stale first key loses against a second one that is not stale
  by_cases ha : a.counter.lut < cur
  · by_cases hb : b.counter.lut < cur
    · have hmono : b.counter.val >>> 1 ≤ a.counter.val >>> 1 := by
        rw [UInt8.le_iff_toNat_le, toNat_half, toNat_half]
        exact Nat.div_le_div_right (UInt8.le_iff_toNat_le.mp hab)
      simp [ha, hb, hmono]
    · rw [if_pos ha, if_neg hb]
      constructor
      · intro h _ _
        by_cases hzero : a.counter.val >>> 1 = 0
        · exact Or.inl hzero
        · refine Or.inr ?_
          by_cases hb0 : b.counter.val = 0
          · rw [hb0]
            exact UInt8.zero_le
          · exact h hzero hb0
      · intro h hzero _
        exact (h ha hb).resolve_left hzero
  · have hle : (if b.counter.lut < cur then b.counter.val >>> 1 else b.counter.val) ≤
        a.counter.val := by
      split
      · exact UInt8.le_trans hhalf hab
      · exact hab
    rw [if_neg ha]
    exact iff_of_true (fun _ _ => hle) fun h => absurd h ha

/-- No key that is halved falls behind a later one. -/
def HalvesInOrder (c : Collector) : CollectorStep → Prop
  | .collect _ _ _ => True
  | .evictStale cur _ => c.keys.Pairwise (StaysAhead cur)

instance decidableHalvesInOrder (c : Collector) : ∀ a, Decidable (c.HalvesInOrder a)
  | .collect _ _ _ => isTrue trivial
  | .evictStale _ _ => inferInstanceAs (Decidable (List.Pairwise _ _))

theorem descending_filter_iff {cur : Int} {keys : List HotKey} {halves : List Int}
    (hlen : halves.length = keys.length) :
    Descending ((List.zipWith (halveKey cur) keys halves).filter fun key => key.counter.val ≠ 0) ↔
      keys.Pairwise fun a b =>
        halvedVal cur a ≠ 0 → halvedVal cur b ≠ 0 → halvedVal cur b ≤ halvedVal cur a := by
  have hvals : (List.zipWith (halveKey cur) keys halves).map (fun key => key.counter.val) =
      keys.map (halvedVal cur) := map_halveKeys hlen (halveKey_val cur)
  have hleft := List.pairwise_map (l := List.zipWith (halveKey cur) keys halves)
    (f := fun key => key.counter.val) (R := fun a b : UInt8 => a ≠ 0 → b ≠ 0 → b ≤ a)
  rw [hvals, List.pairwise_map] at hleft
  rw [hleft, Descending, List.pairwise_filter]
  simp only [decide_eq_true_eq, ne_eq]

/-- `evictStale` keeps the names and the capacity, and the order if the halving does. -/
theorem Sorted.evictStale_iff (hc : Sorted c) {cur : Int} {halves : List Int}
    (h : c.evictStale cur halves = some c') :
    Sorted c' ↔ c.HalvesInOrder (.evictStale cur halves) := by
  unfold Collector.evictStale at h
  split at h <;> cases h
  rename_i hguard
  have hlen := hguard.1
  have hsub := (List.filter_sublist (p := fun key : HotKey => key.counter.val ≠ 0)
    (l := List.zipWith (halveKey cur) c.keys halves))
  have hnodup : ((List.zipWith (halveKey cur) c.keys halves).map HotKey.name).Nodup := by
    rw [map_halveKeys hlen (halveKey_name cur)]
    exact hc.nodup
  have hlength : (List.zipWith (halveKey cur) c.keys halves).length ≤ c.capacity.toNat := by
    rw [List.length_zipWith]
    exact (Nat.min_le_left _ _).trans hc.room
  constructor
  · intro hsorted
    have hpair := (descending_filter_iff hlen).mp hsorted.descending
    exact (hc.descending.and hpair).imp fun hab => (halvedVal_le_iff hab.1).mp hab.2
  · intro horder
    refine ⟨(descending_filter_iff hlen).mpr ?_, hnodup.sublist (hsub.map _),
      hsub.length_le.trans hlength⟩
    exact (hc.descending.and horder).imp fun hab => (halvedVal_le_iff hab.1).mpr hab.2

/-- The keys stay sorted exactly as long as no halved key falls behind a later one. Names are
    distinct and the capacity is kept in any case. -/
theorem sorted_iff_halvesInOrder {capacity : UInt8} {clock : Int} {as : List CollectorStep}
    (hrun : runFrom step (newCollector capacity clock) as = some c) :
    (∀ bs t, bs <+: as → runFrom step (newCollector capacity clock) bs = some t → Sorted t) ↔
      RunMeets step HalvesInOrder (newCollector capacity clock) as := by
  refine good_iff_runMeets (fun _ t => Sorted t) (sorted_newCollector capacity clock) ?_ hrun
  intro bs s a t _ _ hs hstep
  cases a with
  | collect latched old new => exact iff_of_true (hs.collect hstep) trivial
  | evictStale cur halves => exact hs.evictStale_iff hstep

/-- A turn in which every draw is an increment. -/
def luckyTurn (name : Bytes) (now : Int) : Turn := ⟨name, fun _ => true, now⟩

/-- Two keys are collected within a minute, and halved in the next one. -/
def collectWithinMinute : List CollectorStep :=
  [.collect [([97], 4), ([98], 3)] [] [luckyTurn [97] 0, luckyTurn [98] 0],
    .evictStale 1 [1, 1]]

theorem sorted_collectWithinMinute :
    ∃ c, runFrom step (newCollector 2 0) collectWithinMinute = some c ∧ Sorted c := by
  obtain ⟨c, hc, -⟩ : ∃ c, runFrom step (newCollector 2 0) collectWithinMinute = some c ∧
      c.keys.length = 2 := exists_of_any (by decide +kernel)
  exact ⟨c, hc, (sorted_iff_halvesInOrder hc).mpr (by decide +kernel) _ c (List.prefix_refl _) hc⟩

/-- The clock goes on to the next minute while two keys are collected: only the first one is
    halved then, and comes to stand in front of a larger one. -/
def collectOverMinute : List CollectorStep :=
  [.collect [([97], 4), ([98], 3)] [] [luckyTurn [97] 0, luckyTurn [98] 1],
    .evictStale 1 [1, 1]]

theorem not_sorted_collectOverMinute :
    ∃ c, runFrom step (newCollector 2 0) collectOverMinute = some c ∧
      c.keys = [⟨[97], ⟨1, 2⟩⟩, ⟨[98], ⟨1, 3⟩⟩] ∧ ¬Sorted c := by
  obtain ⟨c, hc, hkeys⟩ : ∃ c, runFrom step (newCollector 2 0) collectOverMinute = some c ∧
      c.keys = [⟨[97], ⟨1, 2⟩⟩, ⟨[98], ⟨1, 3⟩⟩] := exists_of_any (by decide +kernel)
  refine ⟨c, hc, hkeys, fun hsorted => ?_⟩
  have hdesc := hsorted.descending
  rw [hkeys] at hdesc
  exact absurd hdesc (by decide)

end Collector

end Samaritan.HotKeys
