import Samaritan.HotRestart.Placed
import Samaritan.Lib.Budget

/-!
# The End of a Hot Restart

Nobody spins: the retries apart, which change nothing, the instances make no more steps by
themselves than the starts and the crashes of children give them. When nobody has crashed, no
`Accept` has failed for good and `Stop` of the controller has returned, there is only one end: the
parent has exited, one child has finished and has the port of the admin API, and all other children
try for that port for ever.

* The budget of a state pays for the steps to come. The loop that serves a child goes back to its
  top for a read error; it is paid by the closing of the connection that the error tells of.
* When nobody can move, the places of the children leave nobody to wait for. A `Stop` that does not
  return keeps the lock of the controller too; a parent that has called it is left out.
-/

namespace Samaritan.HotRestart

open Samaritan.Lib

variable {x x' : Restart} {a : Restart.Act} {i j : Nat} {ch ch' : Child} {r : Request} {h : Handler}

/-! ## The budget -/

namespace Child

/-- What the connection of a child can still cost the parent: to close it, and to handle a
    request. -/
def openBudget (ch : Child) : Nat :=
  if ch.parentEnd then 3 + if ch.toParent = [] then 0 else 5 else 0

/-- An error that the parent has still to read. -/
def resetBudget (ch : Child) : Nat := if ch.reset then 2 else 0

/-- Every step of `Run` pays for itself and for what it makes the parent do. -/
def budget (ch : Child) : Nat := 7 * (9 - ch.pc.pos) + ch.openBudget + ch.resetBudget

theorem openBudget_le (ch : Child) (hopen : ch.parentEnd = true) :
    3 ≤ ch.openBudget ∧ ch.openBudget ≤ 8 := by
  rw [openBudget, if_pos hopen]
  split <;> omega

theorem resetBudget_le (ch : Child) : ch.resetBudget ≤ 2 := by
  rw [resetBudget]
  split <;> omega

theorem openBudget_eq_zero (hclosed : ch.parentEnd = false) : ch.openBudget = 0 := by
  rw [openBudget, hclosed]
  rfl

end Child

theorem pos_le (pc : RunPc) : pc.pos ≤ 9 := by
  cases pc with
  | call r | wait r => cases r <;> simp [RunPc.pos]
  | startAdmin | sleep | close | done => simp [RunPc.pos]

/-- A step of a child is paid for. -/
theorem budget_moves (hmoves : ch.Moves ch') : ch'.budget < ch.budget := by
  have hrun : 7 * (9 - ch'.pc.pos) + 7 ≤ 7 * (9 - ch.pc.pos) := by
    have hpos := hmoves.pos_lt
    have hle := pos_le ch'.pc
    omega
  have hrest : ch'.openBudget + ch'.resetBudget ≤ ch.openBudget + ch.resetBudget + 5 := by
    cases hmoves with
    | @request r hpc =>
      have hsame : (ch.request r).resetBudget = ch.resetBudget := rfl
      cases hend : ch.parentEnd with
      | false =>
        have hzero : (ch.request r).openBudget = 0 := Child.openBudget_eq_zero hend
        omega
      | true =>
        have hle := ((ch.request r).openBudget_le hend).2
        have hge := (ch.openBudget_le hend).1
        omega
    | close =>
      have hreset := Child.resetBudget_le { ch.hangUp with pc := .done }
      have hsame : Child.openBudget { ch.hangUp with pc := .done } = ch.openBudget := rfl
      omega
    | skip | answered | refused | listen | wake => exact Nat.le_add_right _ 5
  rw [Child.budget, Child.budget]
  omega

/-- The end of the parent is closed. -/
theorem budget_cutOff_le (ch : Child) : ch.cutOff.budget ≤ ch.budget := by
  have hsame : ch.cutOff.resetBudget = ch.resetBudget := rfl
  have hpc : ch.cutOff.pc = ch.pc := rfl
  rw [Child.budget, Child.budget, Child.openBudget_eq_zero rfl, hsame, hpc]
  omega

theorem budget_cutOff (hopen : ch.parentEnd = true) : ch.cutOff.budget + 3 ≤ ch.budget := by
  have hsame : ch.cutOff.resetBudget = ch.resetBudget := rfl
  have hpc : ch.cutOff.pc = ch.pc := rfl
  have hge := (ch.openBudget_le hopen).1
  rw [Child.budget, Child.budget, Child.openBudget_eq_zero rfl, hsame, hpc]
  omega

def Stage.budget : Stage → Nat
  | .running => 6
  | .stopAdmin => 5
  | .stopCtl => 4
  | .closeQuit => 3
  | .closeLis => 2
  | .waitDone => 1
  | .exited => 0

namespace Restart

/-- The steps that are left before the next child, or the next read. -/
def serveBudget (x : Restart) : Nat :=
  match x.serve with
  | .returned => 0
  | .accepting => 1
  -- a read of a closed connection goes back to the top of the loop
  | .reading i => if x.children[i]?.map Child.parentEnd = some false then 4 else 2
  | .looping _ => 3
  | .killing _ => 4
  | .replying _ _ => 5
  | .acting _ _ => 6

def childrenBudget (x : Restart) : Nat := (x.children.map Child.budget).sum

def budget (x : Restart) : Nat :=
  x.childrenBudget + x.serveBudget + 3 * x.backlog.length + x.stage.budget

/-- What a step from outside brings. -/
def Act.cost : Act → Nat
  | .start => 69
  | .crash _ => 2
  | _ => 0

theorem serveBudget_eq (hserve : x'.serve = x.serve)
    (hends : ∀ i, x.serve = .reading i →
      x'.children[i]?.map Child.parentEnd = x.children[i]?.map Child.parentEnd) :
    x'.serveBudget = x.serveBudget := by
  rw [serveBudget, serveBudget, hserve]
  cases hs : x.serve with
  | reading i => simp only [hends i hs]
  | _ => rfl

theorem childrenBudget_set (hi : x.children[i]? = some ch)
    (hchildren : x'.children = (x.setChild i ch').children) :
    x'.childrenBudget + ch.budget = x.childrenBudget + ch'.budget := by
  rw [childrenBudget, hchildren]
  exact sum_map_set Child.budget hi

theorem childrenBudget_eq (hchildren : x'.children = x.children) :
    x'.childrenBudget = x.childrenBudget := by
  rw [childrenBudget, hchildren, childrenBudget]

/-- Neither the parent's end nor anything else of the parent is touched by a step of a child. -/
theorem budget_child (hi : x.children[i]? = some ch)
    (hchildren : x'.children = (x.setChild i ch').children) (hend : ch'.parentEnd = ch.parentEnd)
    (hserve : x'.serve = x.serve) (hbacklog : x'.backlog = x.backlog)
    (hstage : x'.stage = x.stage) : x'.budget + ch.budget = x.budget + ch'.budget := by
  have hsum := childrenBudget_set hi hchildren
  have hsame : x'.serveBudget = x.serveBudget := by
    refine serveBudget_eq hserve fun j _ => ?_
    rw [hchildren]
    by_cases hji : j = i
    · subst hji
      rw [getElem?_setChild_self hi, hi, Option.map_some, Option.map_some, hend]
    · rw [getElem?_setChild_ne hji]
  rw [budget, budget, hsame, hbacklog, hstage]
  omega

/-- The parent ends; it was paid for that. -/
theorem budget_exit (x : Restart) : x.exit.budget + x.stage.budget ≤ x.budget := by
  have hsum : x.exit.childrenBudget ≤ x.childrenBudget := by
    rw [childrenBudget, Restart.exit, List.map_map]
    exact List.sum_le_sum fun ch _ => budget_cutOff_le ch
  have hserve : x.exit.serveBudget = 0 := rfl
  have hstage : x.exit.stage.budget = 0 := rfl
  have hbacklog : x.exit.backlog.length = 0 := rfl
  rw [budget, budget, hserve, hstage, hbacklog]
  omega

/-- What a step of the parent that serves leaves alone. -/
theorem budget_serve (hchildren : x'.children = x.children) (hbacklog : x'.backlog = x.backlog)
    (hstage : x'.stage = x.stage) (hless : x'.serveBudget < x.serveBudget) :
    x'.budget < x.budget := by
  rw [budget, budget, childrenBudget_eq hchildren, hbacklog, hstage]
  omega

/-- The parent has done something to the child that it serves. -/
theorem budget_serveChild (hi : x.children[i]? = some ch)
    (hchildren : x'.children = (x.setChild i ch').children) (hbacklog : x'.backlog = x.backlog)
    (hstage : x'.stage = x.stage)
    (hless : x'.serveBudget + ch'.budget < x.serveBudget + ch.budget) : x'.budget < x.budget := by
  have hsum := childrenBudget_set hi hchildren
  rw [budget, budget, hbacklog, hstage]
  omega

theorem serveBudget_reading (hserve : x.serve = .reading i) (hi : x.children[i]? = some ch) :
    x.serveBudget = if ch.parentEnd = false then 4 else 2 := by
  simp only [serveBudget, hserve, hi, Option.map_some, Option.some.injEq]

/-- A request that is read is worth its handling. -/
theorem budget_readRequest (hopen : ch.parentEnd = true) (hne : ch.toParent ≠ [])
    (hwhole : ch.toParent.drop rpcBufSize = []) : ch.readRequest.budget + 5 = ch.budget := by
  have hreset : ch.readRequest.resetBudget = ch.resetBudget := rfl
  have hpc : ch.readRequest.pc = ch.pc := rfl
  have hbefore : ch.openBudget = 8 := by simp [Child.openBudget, hopen, hne]
  have hafter : ch.readRequest.openBudget = 3 := by
    simp [Child.openBudget, Child.readRequest, hopen, hwhole]
  rw [Child.budget, Child.budget, hreset, hpc, hbefore, hafter]
  omega

theorem budget_act (ho : x.Ordered) (hserve : x.serve = .acting i h) :
    (x.act i h).budget < x.budget := by
  have hbefore : x.serveBudget = 6 := by rw [serveBudget, hserve]
  have hbusy : x.handling i = some (false, h) := by rw [handling_acting hserve, if_pos rfl]
  obtain ⟨r, -, rfl, -⟩ := ho.busy i false h hbusy
  cases r with
  | shutdownAdmin =>
    show ({ x.shutdownAdmin with serve := .replying i .shutdownAdmin } : Restart).budget < x.budget
    rw [Restart.shutdownAdmin]
    split <;>
      exact budget_serve rfl rfl rfl (hbefore ▸ Nat.lt_succ_self 5)
  | drainListeners =>
    show ({ x.drainListeners with serve := .replying i .drainListeners } : Restart).budget <
      x.budget
    rw [Restart.drainListeners]
    split <;>
      exact budget_serve rfl rfl rfl (hbefore ▸ Nat.lt_succ_self 5)
  | terminate => exact budget_serve rfl rfl rfl (hbefore ▸ Nat.lt_succ_self 5)

theorem budget_serveStep (ho : x.Ordered) (hx : x.Placed) (hstep : ServeStep x x') :
    x'.budget < x.budget := by
  cases hstep with
  | leave hserve =>
    have hbefore : x.serveBudget = 1 := by rw [serveBudget, hserve]
    exact budget_serve rfl rfl rfl (hbefore ▸ Nat.zero_lt_one)
  | @accept i backlog hserve hlis hbacklog =>
    have hbefore : x.serveBudget = 1 := by rw [serveBudget, hserve]
    show x.childrenBudget + 3 + 3 * backlog.length + x.stage.budget < x.budget
    rw [budget, hbefore, hbacklog, List.length_cons]
    omega
  | stop hserve =>
    have hbefore : x.serveBudget = 3 := by rw [serveBudget, hserve]
    exact budget_serve rfl rfl rfl (hbefore ▸ Nat.lt_of_sub_eq_succ rfl)
  | @poll i hserve hquit =>
    have hbefore : x.serveBudget = 3 := by rw [serveBudget, hserve]
    -- as long as the parent does not quit, the connection is open
    obtain ⟨ch, hi, hconn, -⟩ := hx.served i (by rw [hserve]; rfl)
    have hopen : ch.parentEnd ≠ false := fun hend => by
      rw [hx.cut i ch hi hconn hend] at hquit
      cases hquit
    have hafter : ({ x with serve := .reading i } : Restart).serveBudget =
        if ch.parentEnd = false then 4 else 2 := serveBudget_reading rfl hi
    rw [if_neg hopen] at hafter
    exact budget_serve rfl rfl rfl (by omega)
  | readClosed hserve hi hend =>
    have hbefore := serveBudget_reading hserve hi
    rw [if_pos hend] at hbefore
    exact budget_serve rfl rfl rfl (hbefore ▸ Nat.lt_succ_self 3)
  | @read i ch msg hserve hi hend hne hread =>
    have hbefore := serveBudget_reading hserve hi
    rw [if_neg (by simp [hend])] at hbefore
    obtain ⟨r, -, hparent, -⟩ := ho.request_eq hi hend hne
    have hworth := budget_readRequest hend hne (hparent ▸ (crosses_message r).whole)
    refine budget_serveChild hi rfl rfl rfl ?_
    show 6 + ch.readRequest.budget < x.serveBudget + ch.budget
    omega
  | readFails hserve hi hend hne hread =>
    obtain ⟨r, hr⟩ := ho.request_read hi hend hne
    exact absurd hr (hread _)
  | readPanics hserve hi hend hne hread =>
    obtain ⟨r, hr⟩ := ho.request_read hi hend hne
    rw [hr] at hread
    cases hread
  -- the error is paid by the end that the child has closed
  | @readReset i ch hserve hi hend hnil hchild hreset =>
    have hbefore := serveBudget_reading hserve hi
    rw [if_neg (by simp [hend])] at hbefore
    have hworth : Child.budget { ch with reset := false } + 2 = ch.budget := by
      simp [Child.budget, Child.openBudget, Child.resetBudget, hreset]
    refine budget_serveChild hi rfl rfl rfl ?_
    show 3 + Child.budget { ch with reset := false } < x.serveBudget + ch.budget
    omega
  | readEOF hserve hi hend =>
    have hbefore := serveBudget_reading hserve hi
    rw [if_neg (by simp [hend])] at hbefore
    exact budget_serve rfl rfl rfl (hbefore ▸ Nat.one_lt_two)
  | act hserve => exact budget_act ho hserve
  | @reply i h ch hserve hi =>
    have hbefore : x.serveBudget = 5 := by rw [serveBudget, hserve]
    have hsame : (ch.answer h).budget = ch.budget := rfl
    have hafter : (x.reply i h ch).serveBudget ≤ 4 := by
      by_cases hh : h = .terminate <;> simp [serveBudget, Restart.reply, hh]
    refine budget_serveChild hi rfl rfl rfl ?_
    omega
  | kill hserve =>
    have hbefore : x.serveBudget = 4 := by rw [serveBudget, hserve]
    exact budget_serve rfl rfl rfl (hbefore ▸ Nat.lt_succ_self 3)

/-- A connection is closed: the read of it may have to go round once more. -/
theorem budget_closer (hi : x.children[i]? = some ch) (hopen : ch.parentEnd = true) :
    (x.setChild i ch.cutOff).budget < x.budget := by
  have hsum := childrenBudget_set hi (rfl : (x.setChild i ch.cutOff).children = _)
  have hworth := budget_cutOff hopen
  have hserve : (x.setChild i ch.cutOff).serveBudget ≤ x.serveBudget + 2 := by
    have hround : ∀ (p q : Prop) [Decidable p] [Decidable q],
        (if p then 4 else 2) ≤ (if q then 4 else 2) + 2 := fun p q _ _ => by
      by_cases hp : p <;> by_cases hq : q <;> simp [hp, hq]
    simp only [serveBudget, setChild]
    cases x.serve with
    | reading j => exact hround _ _
    | _ => exact Nat.le_add_right _ 2
  have hbacklog : (x.setChild i ch.cutOff).backlog = x.backlog := rfl
  have hstage : (x.setChild i ch.cutOff).stage = x.stage := rfl
  rw [budget, budget, hbacklog, hstage]
  omega

/-- The shutdown goes on to a later stage. -/
theorem budget_staging (hchildren : x'.children = x.children) (hserve : x'.serve = x.serve)
    (hbacklog : x'.backlog = x.backlog) (hless : x'.stage.budget < x.stage.budget) :
    x'.budget < x.budget := by
  rw [budget, budget, childrenBudget_eq hchildren, hbacklog,
    serveBudget_eq hserve fun i _ => by rw [hchildren]]
  omega

theorem budget_shutdownStep (hx : x.Placed) (hstep : ShutdownStep x x') :
    x'.budget < x.budget := by
  cases hstep with
  | notice hstage | stopAdmin hstage | closeQuit hstage =>
    exact budget_staging rfl rfl rfl (by rw [hstage]; exact Nat.lt_succ_self _)
  | closeLis hstage =>
    have hsum : x.closeLis.childrenBudget ≤ x.childrenBudget := by
      refine sum_map_mapIdx_le fun i ch => ?_
      split
      · exact budget_cutOff_le ch
      · exact le_rfl
    -- the child that is served is not in the backlog
    have hserve : x.closeLis.serveBudget = x.serveBudget := by
      refine serveBudget_eq rfl fun i hs => ?_
      obtain ⟨ch, hi, -, hcloser⟩ := hx.served i (by rw [hs]; rfl)
      have hnot := (hx.accepted i hcloser).2
      simp [Restart.closeLis, List.getElem?_mapIdx, hi, hnot]
    have hbacklog : x.closeLis.backlog.length = 0 := rfl
    have hstage' : x.closeLis.stage.budget = 1 := rfl
    have hbefore : x.stage.budget = 2 := by rw [hstage]; rfl
    rw [budget, budget, hserve, hbacklog, hstage', hbefore]
    omega
  | exit hstage =>
    have hexit := x.budget_exit
    rw [hstage] at hexit
    exact hexit

theorem budget_start (hx : x.Placed) : x.start.budget ≤ x.budget + 69 := by
  have hsum : x.start.childrenBudget = x.childrenBudget + (newChild x.lis).budget := by
    simp [childrenBudget, Restart.start]
  have hnew : (newChild x.lis).budget ≤ 66 := by
    cases x.lis <;> decide
  have hserve : x.start.serveBudget = x.serveBudget := by
    refine serveBudget_eq rfl fun i hs => ?_
    obtain ⟨ch, hi, -⟩ := hx.served i (by rw [hs]; rfl)
    obtain ⟨hlt, -⟩ := List.getElem?_eq_some_iff.mp hi
    rw [Restart.start, List.getElem?_append_left hlt]
  have hbacklog : x.start.backlog.length ≤ x.backlog.length + 1 := by
    rw [Restart.start]
    split <;> simp
  have hstage : x.start.stage = x.stage := rfl
  rw [budget, budget, hserve, hstage]
  omega

theorem budget_crash (hi : x.children[i]? = some ch) : (x.crash i ch).budget ≤ x.budget + 2 := by
  have hsum : (x.crash i ch).budget + ch.budget =
      x.budget + Child.budget { ch.hangUp with alive := false } :=
    budget_child hi rfl rfl rfl rfl rfl
  have hreset := Child.resetBudget_le { ch.hangUp with alive := false }
  -- a crash can leave an error for the parent to read
  have hchild : Child.budget { ch.hangUp with alive := false } ≤ ch.budget + 2 := by
    have hopen : Child.openBudget { ch.hangUp with alive := false } = ch.openBudget := rfl
    rw [Child.budget, Child.budget, hopen]
    show 7 * (9 - ch.pc.pos) + _ + _ ≤ _
    omega
  omega

/-- **What one step pays.** -/
theorem budget_step (ho : x.Ordered) (hx : x.Placed) (hstep : Step x a x') :
    (if a.internal then 1 else 0) + x'.budget ≤ x.budget + a.cost := by
  -- a step that the instances make by themselves is paid for by the budget
  have hpaid : x'.budget < x.budget → 1 + x'.budget ≤ x.budget + 0 := fun hlt => by omega
  cases hstep with
  | start => exact (Nat.zero_add _).trans_le (budget_start hx)
  | child hi _ hstep =>
    obtain ⟨ch', hmoved⟩ := ho.childMoved hi hstep
    have hsum := budget_child hi hmoved.children hmoved.moves.same.2.1 hmoved.serve hmoved.backlog
      hmoved.unchanged.stage
    have hless := budget_moves hmoved.moves
    exact hpaid (by omega)
  | serve _ hstep => exact hpaid (budget_serveStep ho hx hstep)
  | closer hi _ _ _ hend => exact hpaid (budget_closer hi hend)
  | shutdown hstep => exact hpaid (budget_shutdownStep hx hstep)
  | ctlStopped hstage =>
    exact hpaid (budget_staging rfl rfl rfl (by rw [hstage]; exact Nat.lt_succ_self 3))
  | signal | retryListen | acceptRetry => exact (Nat.zero_add _).le
  | acceptFails hserve =>
    have hbefore : x.serveBudget = 1 := by rw [serveBudget, hserve]
    have hless : budget { x with serve := .returned } < x.budget :=
      budget_serve rfl rfl rfl (hbefore ▸ Nat.zero_lt_one)
    exact (Nat.zero_add _).trans_le hless.le
  | crash hi => exact (Nat.zero_add _).trans_le (budget_crash hi)
  | crashParent =>
    have hexit := x.budget_exit
    show 0 + x.exit.budget ≤ x.budget + 0
    omega

theorem placed_step (x : Restart) (a : Act) (x' : Restart) (hx : x.Ordered ∧ x.Placed)
    (hstep : x.step a = some x') : x'.Ordered ∧ x'.Placed :=
  ⟨hx.1.step (step_cases hstep), hx.2.step hx.1 (step_cases hstep)⟩

def Act.isCrash : Act → Bool
  | .crash _ => true
  | _ => false

theorem sum_cost (as : List Act) :
    (as.map Act.cost).sum = 69 * as.count .start + 2 * as.countP Act.isCrash := by
  induction as with
  | nil => rfl
  | cons a as ih =>
    rw [List.map_cons, List.sum_cons, ih, List.count_cons, List.countP_cons]
    cases a <;> simp [Act.cost, Act.isCrash] <;> omega

/-- **Nobody spins**: the retries of `tryListen` and `Accept` apart, the instances make a bounded
    number of steps for every child that is started and for every child that crashes, in whatever
    order they move. -/
theorem settles_of_run {as : List Act} (hrun : runFrom Restart.step newRestart as = some x) :
    as.countP Act.internal ≤ 7 + 69 * as.count .start + 2 * as.countP Act.isCrash := by
  have hpaid : as.countP Act.internal + x.budget ≤ newRestart.budget + (as.map Act.cost).sum :=
    countP_add_le_of_run placed_step (fun _ _ _ hx h => budget_step hx.1 hx.2 (step_cases h))
      ⟨ordered_newRestart, placed_newRestart⟩ hrun
  have hfirst : newRestart.budget = 7 := rfl
  rw [hfirst, sum_cost] at hpaid
  omega

theorem settles_wholeRestart :
    (∃ x, runFrom Restart.step newRestart wholeRestart = some x) ∧
      wholeRestart.countP Act.internal = 31 ∧
      wholeRestart.countP Act.internal ≤
        7 + 69 * wholeRestart.count .start + 2 * wholeRestart.countP Act.isCrash := by
  obtain ⟨x, hrun, -⟩ : ∃ x, runFrom Restart.step newRestart wholeRestart = some x ∧ True :=
    exists_of_any (by decide +kernel)
  exact ⟨⟨x, hrun⟩, by decide +kernel, settles_of_run hrun⟩

/-! ## When nobody can move -/

/-- No instance can make a step by itself, the retries and a return of the controller apart. -/
def Stuck (x : Restart) : Prop :=
  ∀ a : Act, a.internal = true → a ≠ .ctlStopped → x.step a = none

/-- No process crashes, and no `Accept` fails for good. -/
def Act.calm : Act → Bool
  | .crash _ | .crashParent | .acceptFails false => false
  | _ => true

def AllAlive (x : Restart) : Prop :=
  ∀ (i : Nat) (ch : Child), x.children[i]? = some ch → ch.alive = true

theorem AllAlive.set (hx : x.AllAlive) (hi : x.children[i]? = some ch)
    (hchildren : x'.children = (x.setChild i ch').children) (halive : ch'.alive = ch.alive) :
    x'.AllAlive :=
  forall_setChild hi hchildren (fun j c _ => hx j c) (halive.trans (hx i ch hi))

theorem AllAlive.exit (hx : x.AllAlive) : x.exit.AllAlive := by
  intro i ch hi
  obtain ⟨c, hc, rfl⟩ := exit_cases hi
  exact hx i c hc

/-- Nobody dies but by a crash. -/
theorem AllAlive.step (hx : x.AllAlive) (ho : x.Ordered) (hcalm : a.calm = true)
    (hstep : Step x a x') : x'.AllAlive := by
  cases hstep with
  | start =>
    intro i ch hi
    rcases start_cases hi with hi | ⟨-, rfl⟩
    · exact hx i ch hi
    · rfl
  | child hi _ hstep =>
    -- no reply makes a child panic
    obtain ⟨ch', hmoved⟩ := ho.childMoved hi hstep
    exact hx.set hi hmoved.children hmoved.moves.same.2.2
  | serve _ hstep =>
    cases hstep with
    | leave | accept | stop | poll | readClosed | readEOF | kill => exact hx
    | read _ hi | readFails _ hi | readReset _ hi | reply _ hi => exact hx.set hi rfl rfl
    | readPanics => exact hx.exit
    | @act i h =>
      cases h with
      | shutdownLocalConf => exact hx.exit
      | shutdownAdmin =>
        simp only [Restart.act, Restart.shutdownAdmin]
        split <;> exact hx
      | drainListeners =>
        simp only [Restart.act, Restart.drainListeners]
        split <;> exact hx
      | terminate | unknown => exact hx
  | closer hi => exact hx.set hi rfl rfl
  | shutdown hstep =>
    cases hstep with
    | notice | stopAdmin | closeQuit => exact hx
    | closeLis =>
      intro i ch hi
      rw [Restart.closeLis, List.getElem?_mapIdx] at hi
      obtain ⟨c, hc, rfl⟩ := Option.map_eq_some_iff.mp hi
      split <;> exact hx i c hc
    | exit => exact hx.exit
  | ctlStopped | retryListen | acceptRetry | acceptFails | signal => exact hx
  | crash | crashParent => cases hcalm

/-- The goroutine that serves stays until the parent quits. -/
def Attended (x : Restart) : Prop := x.serve = .returned → x.quit = true

theorem Attended.step (hx : x.Attended) (ho : x.Ordered) (hp : x.Placed) (hcalm : a.calm = true)
    (hstep : Step x a x') : x'.Attended := by
  cases hstep with
  | start | closer | ctlStopped | retryListen | acceptRetry | signal => exact hx
  | child hi _ hstep =>
    obtain ⟨ch', hmoved⟩ := ho.childMoved hi hstep
    rw [Attended, hmoved.serve, hmoved.quit]
    exact hx
  | serve _ hstep =>
    cases hstep with
    | leave _ hlis =>
      -- the listener is closed behind `quit`
      intro _
      rw [hp.lis] at hlis
      show x.quit = true
      rw [hp.quit]
      revert hlis
      cases x.stage <;> simp [Stage.closed, Stage.quits]
    | readPanics => exact fun _ => rfl
    | @act i h =>
      cases h with
      | shutdownLocalConf => exact fun _ => rfl
      | shutdownAdmin | drainListeners | terminate | unknown =>
        intro hserve
        cases hserve
    | @reply i h =>
      intro hserve
      rw [Restart.reply] at hserve
      cases h <;> cases hserve
    | accept | stop | poll | readClosed | read | readFails | readReset | readEOF | kill =>
      intro hserve
      cases hserve
  | shutdown hstep =>
    cases hstep with
    | notice | stopAdmin | closeLis => exact hx
    | closeQuit | exit => exact fun _ => rfl
  | @acceptFails temporary _ hquit =>
    cases temporary with
    | false => cases hcalm
    | true => exact fun _ => hquit rfl
  | crash | crashParent => cases hcalm

/-- A child that cannot move has finished, or waits for the port or for a reply. -/
theorem Stuck.child (hs : x.Stuck) (hi : x.children[i]? = some ch) (halive : ch.alive = true) :
    ch.pc = .done ∨ ch.pc = .startAdmin ∧ x.port ≠ none ∨
      ∃ r, ch.pc = .wait r ∧ ch.toChild = [] ∧ ch.parentEnd = true := by
  have hnone : x.stepChild i ch = none := by
    simpa [Restart.step, hi, halive] using hs (.child i) rfl (by simp)
  rw [stepChild] at hnone
  cases hpc : ch.pc with
  | call r =>
    simp only [hpc] at hnone
    split at hnone <;> cases hnone
  | wait r =>
    simp only [hpc] at hnone
    split at hnone
    · cases hnone
    · rename_i hnil
      split at hnone
      · cases hnone
      · rename_i hend
        exact .inr (.inr ⟨r, rfl, not_not.mp hnil, by simpa using hend⟩)
  | startAdmin => exact .inr (.inl ⟨rfl, by simpa [hpc] using hnone⟩)
  | sleep | close => simp [hpc] at hnone
  | done => exact .inl rfl

/-- What the goroutine that serves can be waiting for. -/
theorem Stuck.serve (hs : x.Stuck) (hx : x.Placed) (hstage : x.stage ≠ .exited) :
    x.serve = .accepting ∧ x.lis = true ∧ x.backlog = [] ∨ x.serve = .returned ∨
      ∃ i ch, x.serve = .reading i ∧ x.children[i]? = some ch ∧ ch.parentEnd = true ∧
        ch.toParent = [] ∧ ch.childEnd = true := by
  have hnone : x.stepServe = none := by simpa [Restart.step, hstage] using hs .serve rfl (by simp)
  rw [stepServe] at hnone
  cases hserve : x.serve with
  | accepting =>
    simp only [hserve] at hnone
    split at hnone
    · cases hnone
    · rename_i hlis
      refine .inl ⟨rfl, by simpa using hlis, ?_⟩
      split at hnone
      · assumption
      · cases hnone
  | reading i =>
    obtain ⟨ch, hi, -⟩ := hx.served i (by rw [hserve]; rfl)
    -- it reads a connection on which nothing comes and nobody has hung up
    refine .inr (.inr ⟨i, ch, rfl, hi, ?_⟩)
    simp only [hserve, hi, Option.bind_some, stepRead] at hnone
    split at hnone
    · cases hnone
    · rename_i hopen
      split at hnone
      · cases hnone
      · rename_i hnil
        split at hnone
        · split at hnone <;> cases hnone
        · rename_i hend
          exact ⟨by simpa using hopen, not_not.mp hnil, by simpa using hend⟩
  | replying i h =>
    obtain ⟨ch, hi, -⟩ := hx.served i (by rw [hserve]; rfl)
    simp [hserve, hi] at hnone
  | looping i =>
    simp only [hserve] at hnone
    split at hnone <;> cases hnone
  | acting i h | killing i => simp [hserve] at hnone
  | returned => exact .inr (.inl rfl)

/-- The shutdown waits for a signal, for the goroutine that serves, or for the controller. -/
theorem Stuck.shutdown (hs : x.Stuck) (hctl : x.stage ≠ .stopCtl) :
    x.stage = .running ∧ x.sigterm = false ∨ x.stage = .waitDone ∧ x.serve ≠ .returned ∨
      x.stage = .exited := by
  have hnone : x.stepShutdown = none := hs .shutdown rfl (by simp)
  rw [stepShutdown] at hnone
  cases hstage : x.stage with
  | running => exact .inl ⟨rfl, by simpa [hstage] using hnone⟩
  | waitDone => exact .inr (.inl ⟨rfl, by simpa [hstage] using hnone⟩)
  | exited => exact .inr (.inr rfl)
  | stopCtl => exact absurd hstage hctl
  | stopAdmin | closeQuit | closeLis => simp [hstage] at hnone

/-- The parent has exited, one child has taken over, and the others wait for its port. -/
structure Settled (x : Restart) : Prop where
  exited : x.stage = .exited
  successor : ∃ (i : Nat) (ch : Child), x.children[i]? = some ch ∧ ch.pc = .done ∧
    x.port = some (.child i) ∧ ∀ (j : Nat) (c : Child), x.children[j]? = some c → j ≠ i →
      c.pc = .startAdmin

theorem Stuck.settled (hs : x.Stuck) (ho : x.Ordered) (hx : x.Placed) (ha : x.AllAlive)
    (hchildren : x.children ≠ []) (hstage : x.stage = .exited) : x.Settled := by
  -- nobody waits for a reply, and who is done has the port
  have hplace : ∀ (i : Nat) (ch : Child), x.children[i]? = some ch →
      ch.pc = .done ∧ x.port = some (.child i) ∨ ch.pc = .startAdmin ∧ x.port ≠ none := by
    intro i ch hi
    rcases hs.child hi (ha i ch hi) with hdone | hstart | ⟨_, -, -, hopen⟩
    · exact .inl ⟨hdone, ho.held i ch hi (ha i ch hi) (by rw [hdone]; decide)⟩
    · exact .inr hstart
    · rw [hx.gone hstage i ch hi] at hopen
      cases hopen
  obtain ⟨i, ch, hi, hdone, hport⟩ : ∃ (i : Nat) (ch : Child), x.children[i]? = some ch ∧
      ch.pc = .done ∧ x.port = some (.child i) := by
    obtain ⟨ch, rest, hlist⟩ := List.exists_cons_of_ne_nil hchildren
    have hzero : x.children[0]? = some ch := by rw [hlist]; rfl
    rcases hplace 0 ch hzero with ⟨hdone, hport⟩ | ⟨-, hport⟩
    · exact ⟨0, ch, hzero, hdone, hport⟩
    · obtain ⟨holder, hholder⟩ := Option.ne_none_iff_exists'.mp hport
      cases holder with
      | parent => rcases hx.parentPort hholder with h | h <;> simp [hstage] at h
      | child j =>
        obtain ⟨c, hc, -, hpos⟩ := hx.childPort j hholder
        rcases hplace j c hc with ⟨hdone, hport⟩ | ⟨hstart, -⟩
        · exact ⟨j, c, hc, hdone, hport⟩
        · rw [hstart] at hpos
          exact absurd hpos (by decide)
  refine ⟨hstage, i, ch, hi, hdone, hport, fun j c hj hne => ?_⟩
  rcases hplace j c hj with ⟨-, hport'⟩ | ⟨hstart, -⟩
  · rw [hport] at hport'
    exact absurd (Holder.child.inj (Option.some.inj hport')).symm hne
  · exact hstart

end Restart

end Samaritan.HotRestart
