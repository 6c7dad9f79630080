import Samaritan.Hosts.Order
import Samaritan.Tcp.HandleConn

/-!
# Fairness of the TCP Processor

Handlers load the healthy hosts and pick one of them later, while other handlers do the same. With
the round robin policy and the same healthy hosts all the time, the connections are spread evenly:
no host is picked more than once more often than another one, apart from the rare moments at which
the 64-bit index of the balancer wraps around.
-/

namespace Samaritan.Tcp

open Samaritan.Lib
open Samaritan.Hosts (Host HostSet)

namespace TcpProc

variable {p p' : TcpProc} {L hosts : List Host} {as : List ProcStep} {a : ProcStep}

/-- The policy is not changed, and whoever loads the healthy hosts gets the same list. -/
def SameHosts (L : List Host) (p : TcpProc) : ProcStep → Prop
  | .policy _ => False
  | .handler _ .load => p.hostSet.healthyCache = L
  | _ => True

instance (L : List Host) (p : TcpProc) (a : ProcStep) : Decidable (SameHosts L p a) :=
  match a with
  | .policy _ => isFalse id
  | .accept | .hosts _ | .pick _ _ _ | .count _ _ => isTrue trivial
  | .handler _ a =>
    match a with
    | .load => inferInstanceAs (Decidable (_ = _))
    | .compare | .dialOk | .dialErr _ | .spawn | .read _ _ _ | .write _ _ _ | .closeWrite _ _
    | .closeDst _ | .closeRead _ _ | .closeSrc _ | .signal | .join | .finish | .leave
    | .watchRemoved | .watchCloseServer | .watchCloseClient | .watchDone | .peerSend _ _
    | .peerFin _ | .stopClose => isTrue trivial

/-- The picks so far are a rotation, and the index is at its end. The hosts that somebody has loaded
    are those of a host set, which has no host twice. -/
structure Rotating (L : List Host) (p : TcpProc) : Prop where
  shape : p.hostSet.Shape
  picked : p.picked = rotation L p.picked.length 0
  lb : p.lb = .roundRobin (UInt64.ofNat p.picked.length)
  picking : ∀ x ∈ p.handlers, ∀ hosts, x.main = .picking hosts → hosts = L ∧ L.Nodup
  nodup : p.picked ≠ [] → L.Nodup

/-- A step of a handler leaves it with the list that was loaded. -/
theorem picking_step {x x' : Handler} {b : HandlerStep} {env : Surroundings}
    (hload : b = .load → env.healthy = L ∧ L.Nodup)
    (hx : ∀ hosts, x.main = .picking hosts → hosts = L ∧ L.Nodup) (h : x.Step env b x') :
    ∀ hosts, x'.main = .picking hosts → hosts = L ∧ L.Nodup := by
  cases h with
  | load =>
    rintro _ ⟨⟩
    exact hload rfl
  | noHost | compare | dialOk | dialErr | spawn | join | finish | leave =>
    simp [Handler.plan, Handler.setConn]
  | read | write | closeWrite | closeDst | closeRead | closeSrc | signal | watchRemoved
  | watchCloseServer | watchCloseClient | watchDone | peerSend | peerFin | stopClose => exact hx

theorem Rotating.set {k : Nat} {x' : Handler} (hp : Rotating L p)
    (hx' : ∀ hosts, x'.main = .picking hosts → hosts = L ∧ L.Nodup) :
    Rotating L (p.setHandler k x') :=
  { hp with
    picking := fun x hx => (List.mem_or_eq_of_mem_set hx).elim (hp.picking x) fun heq => heq ▸ hx' }

theorem Rotating.step (hp : Rotating L p) (hok : SameHosts L p a) (h : Step p a p') :
    Rotating L p' := by
  cases h with
  | accept =>
    refine { hp with picking := fun x hx => ?_ }
    rcases List.mem_append.mp hx with hx | hx
    · exact hp.picking x hx
    · rw [List.mem_singleton.mp hx]
      simp [newHandler]
  | hosts => exact { hp with shape := hp.shape.apply _ }
  | policy => exact hok.elim
  | @pick k rand1 rand2 x hosts pick hx hmain hpick =>
    obtain ⟨rfl, hnodup⟩ := hp.picking x (List.mem_of_getElem? hx) hosts hmain
    -- the pick of the balancer is the next one of the rotation
    have hne : hosts.length ≠ 0 := by
      intro hempty
      simp [Balancer.pickHost, hempty] at hpick
    rw [hp.lb, Balancer.pickHost, if_neg hne] at hpick
    obtain ⟨h, hcyclic, rfl⟩ := Option.map_eq_some_iff.mp hpick
    have hlb : (p.lb.pickHost hosts rand1 rand2).2 =
        .roundRobin (UInt64.ofNat (p.picked ++ [h]).length) := by
      rw [hp.lb, Balancer.pickHost, if_neg hne, List.length_append, UInt64.ofNat_add]
      rfl
    have hnext : p.picked ++ [h] = rotation hosts (p.picked ++ [h]).length 0 := by
      rw [List.length_append, List.length_singleton, rotation_succ, ← hp.picked, UInt64.zero_add,
        hcyclic]
      rfl
    exact Rotating.set (p := { p with lb := _, picked := p.picked ++ [h] })
      ⟨hp.shape, hnext, hlb, hp.picking, fun _ => hnodup⟩ (by simp)
  | @count k side x u todo hx =>
    exact Rotating.set (p := { p with counters := addTo p.counters u })
      { hp with } (hp.picking x (List.mem_of_getElem? hx))
  | @handler k b x x' hx hstep =>
    refine hp.set (picking_step ?_ (hp.picking x (List.mem_of_getElem? hx)) hstep)
    rintro rfl
    have hloaded : p.hostSet.healthyCache = L := hok
    exact ⟨hloaded, hloaded ▸ hp.shape.listsInOrder.nodup⟩

theorem rotating_of_run (hrun : runFrom step (newTcpProc hosts .roundRobin) as = some p)
    (hok : RunMeets step (SameHosts L) (newTcpProc hosts .roundRobin) as) : Rotating L p := by
  refine invariant_of_runMeets (fun p a p' hp hok h => hp.step hok (step_cases h)) ?_ hok hrun
  have hshape : (newTcpProc hosts .roundRobin).hostSet.Shape := HostSet.shape_emptySet.add
  exact ⟨hshape, rfl, rfl, by simp [newTcpProc], fun hne => absurd rfl hne⟩

/-- **Fairness**: while the healthy hosts stay the same, no host is picked more often than another
    one by more than one, and one more for each time the index wraps around. -/
theorem picked_fair {L hosts : List Host} {as : List ProcStep} {p : TcpProc}
    (hrun : runFrom step (newTcpProc hosts .roundRobin) as = some p)
    (hok : RunMeets step (SameHosts L) (newTcpProc hosts .roundRobin) as) {h h' : Host}
    (hh : h ∈ L) (hh' : h' ∈ L) :
    p.picked.count h ≤ p.picked.count h' + 1 + p.picked.length / 2 ^ 64 := by
  have hp := rotating_of_run hrun hok
  by_cases hpicked : p.picked = []
  · simp [hpicked]
  have hnodup := hp.nodup hpicked
  obtain ⟨r, hr⟩ := List.mem_iff_getElem?.mp hh
  obtain ⟨r', hr'⟩ := List.mem_iff_getElem?.mp hh'
  obtain ⟨hlt, -⟩ := List.getElem?_eq_some_iff.mp hr
  obtain ⟨hlt', -⟩ := List.getElem?_eq_some_iff.mp hr'
  have hcount := count_rotation hnodup hr p.picked.length 0
  have hcount' := count_rotation hnodup hr' p.picked.length 0
  rw [← hp.picked] at hcount hcount'
  -- the index of the first pick is one
  have hturns : turns (2 ^ 64) L.length r 1 p.picked.length ≤
      turns (2 ^ 64) L.length r' 1 p.picked.length + 1 + (1 + p.picked.length - 1) / 2 ^ 64 :=
    turns_le hlt hlt' (by decide)
  rw [Nat.add_sub_cancel_left] at hturns
  rw [hcount, hcount']
  exact hturns

/-- The second host of the sample run. -/
def otherHost : Host := ⟨2, [50], .main⟩

/-- Two handlers load the healthy hosts before either of them picks one, and a third one follows. -/
def threePicks : List ProcStep :=
  [.accept, .accept, .handler 0 .load, .handler 1 .load, .pick 1 0 0, .pick 0 0 0, .accept,
    .handler 2 .load, .pick 2 0 0]

theorem picked_fair_threePicks :
    ∃ p, runFrom step (newTcpProc [sampleHost, otherHost] .roundRobin) threePicks = some p ∧
      p.picked.length = 3 ∧
      p.picked.count otherHost ≤ p.picked.count sampleHost + 1 + p.picked.length / 2 ^ 64 ∧
      p.picked.count sampleHost ≤
        p.picked.count otherHost + 1 + p.picked.length / 2 ^ 64 := by
  have hrun : ∃ p, runFrom step (newTcpProc [sampleHost, otherHost] .roundRobin) threePicks =
      some p ∧ p.picked.length = 3 := exists_of_any (by decide +kernel)
  obtain ⟨p, hrun, hlength⟩ := hrun
  have hok : RunMeets step (SameHosts [sampleHost, otherHost])
      (newTcpProc [sampleHost, otherHost] .roundRobin) threePicks := by decide +kernel
  exact ⟨p, hrun, hlength, picked_fair hrun hok (by simp) (by simp),
    picked_fair hrun hok (by simp) (by simp)⟩

end TcpProc

end Samaritan.Tcp
