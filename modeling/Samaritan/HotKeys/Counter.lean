import Samaritan.Lib.Decimal
import Samaritan.Lib.KeyMap

/-!
# Frequency Counters

A counter (`proc/redis/hotkey/counter.go`) records the visits of the keys that are visited most.
Keys with the same number of visits stand in the item list of one frequency node, in the order in
which they got there; the frequency nodes stand in a list of their own, in ascending order. Both
lists are doubly linked, and a map leads from the keys to their items.

The nodes live in a heap: pointers are addresses, and a dereference of nil has no result.
-/

namespace Samaritan.HotKeys

open Samaritan.Lib

/-! ## The heap -/

structure FreqNode where
  freq : UInt64
  prev : Option Nat
  next : Option Nat
  itemHead : Option Nat
  itemTail : Option Nat

structure ItemNode where
  key : Bytes
  freqNode : Option Nat
  prev : Option Nat
  next : Option Nat

/-- A counter with the nodes it has allocated. -/
structure Counter where
  capacity : UInt8
  items : KeyMap Bytes Nat
  freqHead : Option Nat
  freqs : Nat → FreqNode
  nodes : Nat → ItemNode
  /-- the next free addresses -/
  freshFreq : Nat
  freshItem : Nat

/-- A freshly allocated node. -/
def newFreqNode (freq : UInt64) : FreqNode := ⟨freq, none, none, none, none⟩

def newItemNode (key : Bytes) : ItemNode := ⟨key, none, none, none⟩

/-- `NewCounter`. -/
def newCounter (capacity : UInt8) : Counter where
  capacity := capacity
  items := ∅
  freqHead := none
  freqs := fun _ => newFreqNode 0
  nodes := fun _ => newItemNode []
  freshFreq := 0
  freshItem := 0

namespace Counter

/-- Write to a frequency node. -/
def setFreq (c : Counter) (n : Nat) (f : FreqNode → FreqNode) : Counter :=
  { c with freqs := Function.update c.freqs n (f (c.freqs n)) }

/-- Write to an item. -/
def setItem (c : Counter) (n : Nat) (f : ItemNode → ItemNode) : Counter :=
  { c with nodes := Function.update c.nodes n (f (c.nodes n)) }

def allocFreq (c : Counter) (freq : UInt64) : Counter :=
  { c with
    freqs := Function.update c.freqs c.freshFreq (newFreqNode freq)
    freshFreq := c.freshFreq + 1 }

def allocItem (c : Counter) (key : Bytes) : Counter :=
  { c with
    nodes := Function.update c.nodes c.freshItem (newItemNode key)
    freshItem := c.freshItem + 1 }

/-! ## Operations on nodes -/

/-- `PopItem`, of which the result is not used. -/
def popItem (c : Counter) (n : Nat) : Option Counter :=
  match (c.freqs n).itemHead with
  | none => some c
  | some item =>
    if (c.freqs n).itemHead = (c.freqs n).itemTail then
      some (c.setFreq n fun node => { node with itemHead := none, itemTail := none })
    -- the next item is dereferenced
    else do
      let next ← (c.nodes item).next
      let c := c.setItem next fun node => { node with prev := none }
      some (c.setFreq n fun node => { node with itemHead := (c.nodes item).next })

def appendItem (c : Counter) (n item : Nat) : Option Counter :=
  let c := c.setItem item fun node => { node with freqNode := some n }
  match (c.freqs n).itemHead with
  | none =>
    some (c.setFreq n fun node => { node with itemHead := some item, itemTail := some item })
  | some _ => do
    let c := c.setItem item fun node => { node with prev := (c.freqs n).itemTail }
    let c := c.setItem item fun node => { node with next := none }
    let tail ← (c.freqs n).itemTail
    let c := c.setItem tail fun node => { node with next := some item }
    some (c.setFreq n fun node => { node with itemTail := some item })

/-- The assignment `n.next = o` between frequency nodes; the source skips those to nil. -/
def linkNext (c : Counter) (n o : Option Nat) : Counter :=
  match n with
  | none => c
  | some n => c.setFreq n fun node => { node with next := o }

/-- The assignment `n.prev = o` between frequency nodes. -/
def linkPrev (c : Counter) (n o : Option Nat) : Counter :=
  match n with
  | none => c
  | some n => c.setFreq n fun node => { node with prev := o }

def insertBeforeMe (c : Counter) (n o : Nat) : Counter :=
  let c := c.linkNext (c.freqs n).prev (some o)
  let c := c.linkPrev (some o) (c.freqs n).prev
  let c := c.linkNext (some o) (some n)
  c.linkPrev (some n) (some o)

def insertAfterMe (c : Counter) (n o : Nat) : Counter :=
  let c := c.linkNext (some o) (c.freqs n).next
  let c := c.linkPrev (c.freqs n).next (some o)
  let c := c.linkNext (some n) (some o)
  c.linkPrev (some o) (some n)

/-- `Free` of a frequency node. -/
def freeFreq (c : Counter) (n : Nat) : Counter :=
  let c := c.linkNext (c.freqs n).prev (c.freqs n).next
  let c := c.linkPrev (c.freqs n).next (c.freqs n).prev
  let c := c.linkPrev (some n) none
  let c := c.linkNext (some n) none
  c.setFreq n fun node => { node with itemHead := none, itemTail := none }

/-- The `switch` of `Free` of an item, which takes it out of the list of its frequency node. -/
def unlinkItem (c : Counter) (n fnode : Nat) : Option Counter :=
  if (c.freqs fnode).itemHead = (c.freqs fnode).itemTail then
    some (c.setFreq fnode fun node => { node with itemHead := none, itemTail := none })
  else if (c.freqs fnode).itemHead = some n then do
    let next ← (c.nodes n).next
    let c := c.setItem next fun node => { node with prev := none }
    some (c.setFreq fnode fun node => { node with itemHead := (c.nodes n).next })
  else if (c.freqs fnode).itemTail = some n then do
    let prev ← (c.nodes n).prev
    let c := c.setItem prev fun node => { node with next := none }
    some (c.setFreq fnode fun node => { node with itemTail := (c.nodes n).prev })
  else do
    let prev ← (c.nodes n).prev
    let c := c.setItem prev fun node => { node with next := (c.nodes n).next }
    let next ← (c.nodes n).next
    some (c.setItem next fun node => { node with prev := (c.nodes n).prev })

/-- `Free` of an item. -/
def freeItem (c : Counter) (n : Nat) : Option Counter := do
  let fnode ← (c.nodes n).freqNode
  let c ← c.unlinkItem n fnode
  some (c.setItem n fun node => { node with prev := none, next := none, freqNode := none })

/-! ## Operations on the counter -/

def reset (c : Counter) : Counter := { c with items := ∅, freqHead := none }

/-- The first part of `increment`: the frequency node for one visit more. -/
def targetFreqNode (c : Counter) (cur : Nat) : Counter × Nat :=
  let curFreq := (c.freqs cur).freq
  match (c.freqs cur).next with
  | none => ((c.allocFreq (curFreq + 1)).insertAfterMe cur c.freshFreq, c.freshFreq)
  | some next =>
    if (c.freqs next).freq ≠ curFreq + 1 then
      ((c.allocFreq (curFreq + 1)).insertAfterMe cur c.freshFreq, c.freshFreq)
    else (c, next)

/-- The last part of `increment`: an empty frequency node is removed. -/
def dropEmpty (c : Counter) (cur target : Nat) : Counter :=
  match (c.freqs cur).itemHead with
  | some _ => c
  | none =>
    let c := if c.freqHead = some cur then { c with freqHead := some target } else c
    c.freeFreq cur

def increment (c : Counter) (item : Nat) : Option Counter := do
  let cur ← (c.nodes item).freqNode
  let (c, target) := c.targetFreqNode cur
  -- the target is found before the item leaves its node
  let c ← c.freeItem item
  let c ← c.appendItem target item
  some (c.dropEmpty cur target)

/-- The part of `add` behind the map: the item gets its frequency node. -/
def placeItem (c : Counter) (item : Nat) : Option Counter :=
  match c.freqHead with
  | some head =>
    if (c.freqs head).freq = 1 then c.appendItem head item
    else do
      let fnode := c.freshFreq
      let c ← (c.allocFreq 1).appendItem fnode item
      let c := c.insertBeforeMe head fnode
      some { c with freqHead := some fnode }
  | none => do
    let fnode := c.freshFreq
    let c ← (c.allocFreq 1).appendItem fnode item
    some { c with freqHead := some fnode }

def add (c : Counter) (item : Nat) : Option Counter :=
  placeItem { c with items := c.items.insert (c.nodes item).key item } item

def evict (c : Counter) : Option Counter := do
  let fnode ← c.freqHead
  let item ← (c.freqs fnode).itemHead
  let c := { c with items := c.items.erase (c.nodes item).key }
  let c ← c.popItem fnode
  match (c.freqs fnode).itemHead with
  | some _ => some c
  | none =>
    let c := { c with freqHead := (c.freqs fnode).next }
    some (c.freeFreq fnode)

/-- The check of `Incr` for a full counter. -/
def makeRoom (c : Counter) : Option Counter :=
  -- `uint8(len(c.items))`, as the source compares it
  if c.capacity ≤ UInt8.ofNat c.items.keys.length then c.evict else some c

/-- `Incr`. -/
def incr (c : Counter) (key : Bytes) : Option Counter :=
  match c.items.lookup key with
  | some item => c.increment item
  | none => do
    let c ← c.makeRoom
    (c.allocItem key).add c.freshItem

/-- An entry of the map that `Latch` makes. -/
def visits (c : Counter) (key : Bytes) (item : Nat) : Option (Bytes × UInt64) := do
  let fnode ← (c.nodes item).freqNode
  some (key, (c.freqs fnode).freq)

/-- `Latch`: the entries of the map it returns, and the counter behind it. -/
def latch (c : Counter) : Option (List (Bytes × UInt64) × Counter) := do
  let res ← c.items.entries.mapM fun entry => c.visits entry.1 entry.2
  some (res, c.reset)

end Counter

/-- The calls on a counter. -/
inductive CounterOp where
  | incr (key : Bytes)
  | latch
  | free
  deriving DecidableEq

namespace Counter

/-- A call has no result when it dereferences nil. `Free` resets the counter after its callback. -/
def step (c : Counter) : CounterOp → Option Counter
  | .incr key => c.incr key
  | .latch => c.latch.map Prod.snd
  | .free => some c.reset

end Counter

end Samaritan.HotKeys
