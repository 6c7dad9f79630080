import Mathlib.Data.List.Nodup
import Samaritan.Hosts.Set
import Samaritan.Lib.Rotation

/-!
# Load Balancing

The balancers of `proc/internal/lb/lb.go` pick one of the healthy hosts for a new connection. The
round robin balancer goes through the hosts by an atomic counter of 64 bits, the random one draws a
number, and the least connection one draws two hosts and takes the one with fewer connections.

Picks are made by many goroutines, but each takes the counter of the round robin balancer one up in
one atomic operation. In whatever order they come, on the same list of hosts they are fair.
-/

namespace Samaritan.Tcp

open Samaritan.Lib
open Samaritan.Hosts (Host)

/-- The policies; a number that is none of them is `unknown`. -/
inductive LoadBalancePolicy where
  | roundRobin
  | leastConnection
  | random
  | unknown
  deriving DecidableEq, Repr

/-- `roundRobinBalancer` with its index, `randomBalancer` and `leastConnBalancer`. -/
inductive Balancer where
  | roundRobin (index : UInt64)
  | random
  | leastConn
  deriving DecidableEq, Repr

/-- `New`. -/
def newBalancer : LoadBalancePolicy → Balancer
  | .leastConnection => .leastConn
  | .random => .random
  | .roundRobin => .roundRobin 0
  -- the default case of the switch
  | .unknown => .roundRobin 0

/-- What `PickHost` has come to before it looks at any connection count. -/
inductive Pick where
  | host (h : Host)
  /-- the two hosts that are compared -/
  | between (host1 host2 : Host)
  deriving DecidableEq, Repr

/-- The element of a list at a number taken modulo its length. -/
def cyclic (hosts : List Host) (i : Nat) : Option Host := hosts[i % hosts.length]?

/-- `PickHost` up to the connection counts, for the numbers that are drawn; there is nothing to
    pick in an empty list, and the index stays as it is. -/
def Balancer.pickHost (lb : Balancer) (hosts : List Host) (rand1 rand2 : Nat) :
    Option Pick × Balancer :=
  if hosts.length = 0 then (none, lb)
  else
    match lb with
    | .roundRobin index => ((cyclic hosts (index + 1).toNat).map .host, .roundRobin (index + 1))
    | .random => ((cyclic hosts rand1).map .host, .random)
    | .leastConn =>
      ((cyclic hosts rand1).bind fun host1 => (cyclic hosts rand2).map (.between host1), .leastConn)

variable {hosts : List Host} {h : Host}

theorem exists_cyclic (hne : hosts.length ≠ 0) (i : Nat) : ∃ h, cyclic hosts i = some h :=
  ⟨_, List.getElem?_eq_getElem (Nat.mod_lt i (Nat.pos_of_ne_zero hne))⟩

/-! ## Fairness of the round robin balancer -/

/-- The hosts of `len` picks from an index on. -/
def rotation (hosts : List Host) : Nat → UInt64 → List Host
  | 0, _ => []
  | len + 1, index => (cyclic hosts (index + 1).toNat).toList ++ rotation hosts len (index + 1)

theorem rotation_succ (hosts : List Host) (len : Nat) (index : UInt64) :
    rotation hosts (len + 1) index =
      rotation hosts len index ++ (cyclic hosts (index + UInt64.ofNat len + 1).toNat).toList := by
  induction len generalizing index with
  | zero => simp [rotation]
  | succ len ih =>
    rw [rotation, ih, ← List.append_assoc, ← rotation]
    have hindex : index + 1 + UInt64.ofNat len = index + UInt64.ofNat (len + 1) := by
      rw [UInt64.ofNat_add, UInt64.add_assoc, UInt64.add_comm 1]
      rfl
    rw [hindex]

/-- In a list without repetitions the picks of a host are the turns of its position. -/
theorem count_rotation (hnodup : hosts.Nodup) {r : Nat} (hr : hosts[r]? = some h) (len : Nat)
    (index : UInt64) :
    (rotation hosts len index).count h = turns (2 ^ 64) hosts.length r (index.toNat + 1) len := by
  obtain ⟨hlt, hget⟩ := List.getElem?_eq_some_iff.mp hr
  -- induction on the picks, the last one split off on both sides
  induction len with
  | zero => simp [rotation, turns]
  | succ len ih =>
    have hvalue : (index + UInt64.ofNat len + 1).toNat = (index.toNat + 1 + len) % 2 ^ 64 := by
      simp only [UInt64.toNat_add, UInt64.toNat_ofNat', UInt64.toNat_one]
      omega
    have hpos : 0 < hosts.length := by omega
    obtain ⟨g, hg⟩ := exists_cyclic hpos.ne' (index + UInt64.ofNat len + 1).toNat
    rw [rotation_succ, List.count_append, ih, hg, turns, turns, Nat.count_succ]
    congr 1
    rw [hvalue] at hg
    have hpick : g = h ↔ (index.toNat + 1 + len) % 2 ^ 64 % hosts.length = r := by
      obtain ⟨hlt', hget'⟩ := List.getElem?_eq_some_iff.mp hg
      rw [← hget, ← hget', hnodup.getElem_inj_iff]
    simp only [Option.toList_some, List.count_singleton, beq_iff_eq, hpick]

end Samaritan.Tcp
