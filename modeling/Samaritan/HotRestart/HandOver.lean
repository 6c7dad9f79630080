import Samaritan.HotRestart.Restart

/-!
# The Order of a Hand-Over

Whatever the processes do, and whenever they crash, a request is answered by the reply that belongs
to it, and the requests make the parent act in one order: its admin API is shut down before its
listeners are drained, and these are drained before it sends itself the signal to terminate. So a
request drains the listeners of the parent only when a child has started its own admin API. A signal
from outside is not a request: it shuts the parent down whatever has been asked for before.

* The conversation on a connection is in one of five phases, as long as the end of the parent is
  open: every child has at most one request under way.
* What the parent has done is told by the phase: the deed of a request that has been answered is
  done, and stays done.
-/

namespace Samaritan.HotRestart

open Samaritan.Lib

variable {x x' : Restart} {a : Restart.Act} {i j : Nat} {ch ch' : Child} {r r' : Request}
  {h : Handler}

/-- The place of a request in the course of `Run`. -/
def Request.pos (r : Request) : Nat := (RunPc.wait r).pos

/-! ## The steps of a child -/

/-- What a step of a child makes of it. -/
inductive Child.Moves (ch : Child) : Child → Prop where
  | skip {r : Request} (hpc : ch.pc = .call r) (hconn : ch.connected = false) :
      Moves ch (ch.returned r)
  | request {r : Request} (hpc : ch.pc = .call r) (hconn : ch.connected = true) :
      Moves ch (ch.request r)
  | answered {r : Request} (hpc : ch.pc = .wait r) (hne : ch.toChild ≠ []) :
      Moves ch (ch.readReply.returned r)
  | refused {r : Request} (hpc : ch.pc = .wait r) (hnil : ch.toChild = [])
      (hend : ch.parentEnd = false) : Moves ch (ch.returned r)
  | listen (hpc : ch.pc = .startAdmin) : Moves ch { ch with pc := .call .drainListeners }
  | wake (hpc : ch.pc = .sleep) : Moves ch { ch with pc := .call .terminate }
  | close (hpc : ch.pc = .close) : Moves ch { ch.hangUp with pc := .done }

namespace Child

theorem pos_afterCall (ch : Child) (r : Request) : r.pos < (ch.afterCall r).pos := by
  cases r with
  | shutdownAdmin => exact (by decide : Request.shutdownAdmin.pos < RunPc.startAdmin.pos)
  | drainListeners => exact (by decide : Request.drainListeners.pos < RunPc.sleep.pos)
  | terminate =>
    rw [afterCall]
    split <;> decide

theorem pos_call_lt (r : Request) : (RunPc.call r).pos < r.pos := by
  cases r <;> decide

/-- `Run` goes forward. -/
theorem Moves.pos_lt (hmoves : ch.Moves ch') : ch.pc.pos < ch'.pc.pos := by
  cases hmoves with
  | @skip r hpc | @request r hpc =>
    rw [hpc]
    have hcall := pos_call_lt r
    first
      | exact hcall
      | exact lt_trans hcall (ch.pos_afterCall r)
  | @answered r hpc | @refused r hpc =>
    rw [hpc]
    exact pos_afterCall _ r
  | listen hpc | wake hpc | close hpc =>
    rw [hpc]
    exact Nat.lt_succ_self _

/-- Nobody gets past the admin API without starting it. -/
theorem Moves.started (hmoves : ch.Moves ch') (hpc : ch.pc ≠ .startAdmin)
    (hpos : 3 ≤ ch'.pc.pos) : 3 ≤ ch.pc.pos := by
  cases hmoves with
  | @skip r hcall | @request r hcall | @answered r hcall | @refused r hcall =>
    rw [hcall]
    revert hpos
    cases r <;> simp [returned, Child.request, readReply, afterCall, RunPc.pos]
  | listen hstart => exact absurd hstart hpc
  | wake hsleep =>
    rw [hsleep]
    decide
  | close hclose =>
    rw [hclose]
    decide

/-- A step of a child leaves the end of the parent as it is. -/
theorem Moves.same (hmoves : ch.Moves ch') : ch'.connected = ch.connected ∧
    ch'.parentEnd = ch.parentEnd ∧ ch'.alive = ch.alive := by
  cases hmoves <;> exact ⟨rfl, rfl, rfl⟩

end Child

/-! ## Phases of a conversation -/

/-- The state of a conversation, for what the parent is doing for the child and for the requests
    whose deeds are done. -/
inductive Phase (doing : Option (Bool × Handler)) (did : Request → Prop) (ch : Child) : Prop where
  /-- nothing is under way -/
  | idle (hpc : ∀ r, ch.pc ≠ .wait r) (hparent : ch.toParent = []) (hchild : ch.toChild = [])
      (hfree : doing = none) (hdid : ∀ r, r.pos < ch.pc.pos → did r)
  /-- the request is under way -/
  | requested {r : Request} (hpc : ch.pc = .wait r) (hparent : ch.toParent = wire r.message)
      (hchild : ch.toChild = []) (hfree : doing = none) (hdid : ∀ r', r'.pos < r.pos → did r')
  | acting {r : Request} (hpc : ch.pc = .wait r) (hparent : ch.toParent = [])
      (hchild : ch.toChild = []) (hbusy : doing = some (false, r.handler))
      (hdid : ∀ r', r'.pos < r.pos → did r')
  | replying {r : Request} (hpc : ch.pc = .wait r) (hparent : ch.toParent = [])
      (hchild : ch.toChild = []) (hbusy : doing = some (true, r.handler))
      (hdid : ∀ r', r'.pos < r.pos → did r') (hthis : r ≠ .terminate → did r)
  /-- the reply is under way -/
  | replied {r : Request} (hpc : ch.pc = .wait r) (hparent : ch.toParent = [])
      (hchild : ch.toChild = wire r.handler.response) (hfree : doing = none)
      (hdid : ∀ r', r'.pos ≤ r.pos → did r')

/-- What is left of a conversation when the end of the parent is closed: a reply can still be under
    way. -/
def Left (did : Request → Prop) (ch : Child) : Prop :=
  ch.toChild = [] ∨ ∃ r, ch.pc = .wait r ∧ ch.toChild = wire r.handler.response ∧
    ∀ r', r'.pos ≤ r.pos → did r'

structure Talks (doing : Option (Bool × Handler)) (did : Request → Prop) (ch : Child) :
    Prop where
  phase : ch.parentEnd = true → Phase doing did ch
  left : ch.parentEnd = false → Left did ch

variable {doing : Option (Bool × Handler)} {did did' : Request → Prop}

theorem Phase.mono (hphase : Phase doing did ch) (hdid : ∀ r, did r → did' r) :
    Phase doing did' ch := by
  cases hphase with
  | idle hpc hparent hchild hfree h =>
    exact .idle hpc hparent hchild hfree fun r hr => hdid r (h r hr)
  | requested hpc hparent hchild hfree h =>
    exact .requested hpc hparent hchild hfree fun r hr => hdid r (h r hr)
  | acting hpc hparent hchild hbusy h =>
    exact .acting hpc hparent hchild hbusy fun r hr => hdid r (h r hr)
  | replying hpc hparent hchild hbusy h hthis =>
    exact .replying hpc hparent hchild hbusy (fun r hr => hdid r (h r hr)) fun hr =>
      hdid _ (hthis hr)
  | replied hpc hparent hchild hfree h =>
    exact .replied hpc hparent hchild hfree fun r hr => hdid r (h r hr)

/-- Whenever the end of the parent is closed, nothing but a reply is left. -/
theorem Phase.left (hphase : Phase doing did ch) : Left did ch := by
  cases hphase with
  | idle _ _ hchild | requested _ _ hchild | acting _ _ hchild | replying _ _ hchild =>
    exact .inl hchild
  | replied hpc _ hchild _ hdid => exact .inr ⟨_, hpc, hchild, hdid⟩

theorem Left.mono (hleft : Left did ch) (hdid : ∀ r, did r → did' r) : Left did' ch := by
  refine hleft.imp_right ?_
  rintro ⟨r, hpc, hchild, h⟩
  exact ⟨r, hpc, hchild, fun r' hr' => hdid r' (h r' hr')⟩

/-- Outside of a wait nothing is left. -/
theorem Left.nil (hleft : Left did ch) (hpc : ∀ r, ch.pc ≠ .wait r) : ch.toChild = [] := by
  rcases hleft with hnil | ⟨r, hwait, -⟩
  · exact hnil
  · exact absurd hwait (hpc r)

namespace Talks

theorem mono (htalks : Talks doing did ch) (hdid : ∀ r, did r → did' r) :
    Talks doing did' ch :=
  ⟨fun hend => (htalks.phase hend).mono hdid, fun hend => (htalks.left hend).mono hdid⟩

/-- What a child can find to read, whether the end of the parent is open or not. -/
theorem leftover (htalks : Talks doing did ch) : Left did ch := by
  cases hend : ch.parentEnd with
  | true => exact (htalks.phase hend).left
  | false => exact htalks.left hend

/-- What a child reads is the reply to its request, and what it asked for is done. -/
theorem reply_eq (htalks : Talks doing did ch) (hpc : ch.pc = .wait r) (hne : ch.toChild ≠ []) :
    ch.toChild = wire r.handler.response ∧ ∀ r', r'.pos ≤ r.pos → did r' := by
  rcases htalks.leftover with hnil | ⟨r', hpc', hchild, hdid⟩
  · exact absurd hnil hne
  · obtain rfl := RunPc.wait.inj (hpc.symm.trans hpc')
    exact ⟨hchild, hdid⟩

end Talks

theorem pos_lt_of_pos_call {r r' : Request} (hr : r'.pos < r.pos) :
    r'.pos < (RunPc.call r).pos := by
  cases r <;> cases r' <;> simp [Request.pos, RunPc.pos] at hr ⊢

theorem pos_le_of_afterCall (hr : r'.pos < (ch.afterCall r).pos) : r'.pos ≤ r.pos := by
  cases r <;> cases r' <;> simp [Request.pos, RunPc.pos, Child.afterCall] at hr ⊢

theorem afterCall_ne_wait (ch : Child) (r r' : Request) : ch.afterCall r ≠ .wait r' := by
  cases r with
  | shutdownAdmin | drainListeners => simp [Child.afterCall]
  | terminate =>
    rw [Child.afterCall]
    split <;> simp

/-- A step of the child keeps the conversation in order. -/
theorem Talks.moves (htalks : Talks doing did ch) (hmoves : ch.Moves ch')
    (hconn : ch.parentEnd = true → ch.connected = true) : Talks doing did ch' := by
  have hleft := htalks.leftover
  cases hmoves with
  | @skip r hpc hnot =>
    -- there is no connection
    refine ⟨fun hend => ?_, fun _ => .inl (hleft.nil (by simp [hpc]))⟩
    rw [hconn hend] at hnot
    cases hnot
  | @request r hpc _ =>
    refine ⟨fun hend => ?_, fun _ => .inl (hleft.nil (by simp [hpc]))⟩
    cases htalks.phase hend with
    | idle _ hparent hchild hfree hdid =>
      refine .requested rfl ?_ hchild hfree fun r' hr' => hdid r' (hpc ▸ pos_lt_of_pos_call hr')
      rw [Child.request, hparent, List.nil_append]
    | requested hwait | acting hwait | replying hwait | replied hwait =>
      rw [hpc] at hwait
      cases hwait
  -- the read takes the whole reply, so nothing is left for the next request
  | @answered r hpc hne =>
    obtain ⟨hreply, -⟩ := htalks.reply_eq hpc hne
    have hnil : (ch.readReply.returned r).toChild = [] := by
      show ch.toChild.drop rpcBufSize = []
      rw [hreply]
      exact (crosses_response _).whole
    refine ⟨fun hend => ?_, fun _ => .inl hnil⟩
    cases htalks.phase hend with
    | idle hwait => exact absurd hpc (hwait r)
    | requested _ _ hchild | acting _ _ hchild | replying _ _ hchild => exact absurd hchild hne
    | replied hwait hparent _ hfree hdid =>
      obtain rfl := RunPc.wait.inj (hpc.symm.trans hwait)
      exact .idle (afterCall_ne_wait _ _) hparent hnil hfree fun r' hr' =>
        hdid r' (pos_le_of_afterCall hr')
  | @refused r hpc hnil hcut =>
    refine ⟨fun hend => ?_, fun _ => .inl hnil⟩
    rw [show ch.parentEnd = true from hend] at hcut
    cases hcut
  -- between two requests the child says nothing
  | listen hpc | wake hpc | close hpc =>
    refine ⟨fun hend => ?_, fun _ => .inl (hleft.nil (by simp [hpc]))⟩
    cases htalks.phase hend with
    | idle _ hparent hchild hfree hdid =>
      refine .idle (by simp) hparent hchild hfree fun r' hr' => hdid r' ?_
      rw [hpc]
      revert hr'
      cases r' <;> simp [Request.pos, RunPc.pos]
    | requested hwait | acting hwait | replying hwait | replied hwait =>
      rw [hpc] at hwait
      cases hwait

/-! ## The parent -/

/-- Nothing is being done for a child. -/
def Serve.Idle : Serve → Prop
  | .acting _ _ | .replying _ _ | .killing _ => False
  | _ => True

namespace Restart

/-- What the parent is doing for a child, and whether it has acted. -/
def handling (x : Restart) (i : Nat) : Option (Bool × Handler) :=
  match x.serve with
  | .acting j h => if j = i then some (false, h) else none
  | .replying j h => if j = i then some (true, h) else none
  | _ => none

/-- The deed of a request is done; of a request to terminate, the signal is sent or about to be. -/
def Did (x : Restart) (i : Nat) : Request → Prop
  | .shutdownAdmin => x.shutdownAdminOnce = true
  | .drainListeners => x.drainListenersOnce = true
  | .terminate => x.serve = .killing i ∨ x.sigterm = true ∨ x.stage ≠ .running

/-- The deeds are done in the order of the requests, the first two once. -/
def InOrder (x : Restart) : Prop :=
  ∃ n, x.deeds = (if x.shutdownAdminOnce then [.shutdownAdmin] else []) ++
      (if x.drainListenersOnce then [.drainListeners] else []) ++ List.replicate n .terminate ∧
    (n = 0 ∨ x.drainListenersOnce = true)

structure Ordered (x : Restart) : Prop where
  ends : ∀ (i : Nat) (ch : Child), x.children[i]? = some ch → ch.parentEnd = true →
    ch.connected = true
  talks : ∀ (i : Nat) (ch : Child), x.children[i]? = some ch → Talks (x.handling i) (x.Did i) ch
  busy : ∀ (i : Nat) (acted : Bool) (h : Handler), x.handling i = some (acted, h) →
    ∃ (r : Request) (ch : Child), h = r.handler ∧ x.children[i]? = some ch ∧ r.pos ≤ ch.pc.pos ∧
      ∀ r', r'.pos < r.pos → x.Did i r'
  killing : ∀ i : Nat, x.serve = .killing i → x.drainListenersOnce = true
  deeds : x.InOrder
  order : x.drainListenersOnce = true → x.shutdownAdminOnce = true
  successor : x.drainListenersOnce = true →
    ∃ (i : Nat) (ch : Child), x.children[i]? = some ch ∧ 3 ≤ ch.pc.pos
  port : x.port = some .parent → x.shutdownAdminOnce = false
  held : ∀ (i : Nat) (ch : Child), x.children[i]? = some ch → ch.alive = true → 3 ≤ ch.pc.pos →
    x.port = some (.child i)

theorem ordered_newRestart : newRestart.Ordered where
  ends := by simp [newRestart]
  talks := by simp [newRestart]
  busy := by simp [newRestart, handling]
  killing := by simp [newRestart]
  deeds := ⟨0, rfl, .inl rfl⟩
  order := by simp [newRestart]
  successor := by simp [newRestart]
  port := by simp [newRestart]
  held := by simp [newRestart]

/-! ## What a step keeps -/

theorem getElem?_setChild_self (hi : x.children[i]? = some ch) :
    (x.setChild i ch').children[i]? = some ch' := by
  obtain ⟨hlt, -⟩ := List.getElem?_eq_some_iff.mp hi
  exact List.getElem?_set_self hlt

theorem getElem?_setChild_ne (hne : j ≠ i) :
    (x.setChild i ch').children[j]? = x.children[j]? :=
  List.getElem?_set_ne hne.symm

/-- Who has the port when somebody has let it go. -/
theorem release_port {holder k : Holder} :
    (x.release holder).port = some k ↔ x.port = some k ∧ k ≠ holder := by
  show (if x.port = some holder then none else x.port) = some k ↔ _
  split
  · rename_i hp
    refine ⟨fun hnone => (by cases hnone), fun hk => ?_⟩
    exact absurd (Option.some.inj (hk.1.symm.trans hp)) hk.2
  · rename_i hp
    exact ⟨fun hk => ⟨hk, fun hholder => hp (hholder ▸ hk)⟩, And.left⟩

theorem getElem?_start (hi : x.children[i]? = some ch) : x.start.children[i]? = some ch := by
  obtain ⟨hlt, -⟩ := List.getElem?_eq_some_iff.mp hi
  rw [start, List.getElem?_append_left hlt, hi]

theorem start_cases (hi : x.start.children[i]? = some ch) :
    x.children[i]? = some ch ∨ i = x.children.length ∧ ch = newChild x.lis := by
  rcases Nat.lt_trichotomy i x.children.length with hlt | rfl | hgt
  · rw [start, List.getElem?_append_left hlt] at hi
    exact .inl hi
  · rw [start, List.getElem?_append_right le_rfl, Nat.sub_self] at hi
    exact .inr ⟨rfl, (Option.some.inj hi).symm⟩
  · rw [start, List.getElem?_eq_none (by simpa using hgt)] at hi
    cases hi

theorem exit_cases (hi : x.exit.children[i]? = some ch) :
    ∃ c, x.children[i]? = some c ∧ ch = c.cutOff := by
  rw [exit, List.getElem?_map] at hi
  obtain ⟨c, hc, rfl⟩ := Option.map_eq_some_iff.mp hi
  exact ⟨c, hc, rfl⟩

/-- The children of both states are in a relation, place by place. -/
structure Keeps (R : Child → Child → Prop) (x x' : Restart) : Prop where
  later : ∀ (i : Nat) (ch : Child), x.children[i]? = some ch →
    ∃ ch', x'.children[i]? = some ch' ∧ R ch ch'
  earlier : ∀ (i : Nat) (ch' : Child), x'.children[i]? = some ch' →
    ∃ ch, x.children[i]? = some ch ∧ R ch ch'

/-- A child that does nothing itself: ends are closed, errors are taken, and it may crash. -/
structure Fades (ch ch' : Child) : Prop where
  pc : ch'.pc = ch.pc
  connected : ch'.connected = ch.connected
  toParent : ch'.toParent = ch.toParent
  toChild : ch'.toChild = ch.toChild
  parentEnd : ch'.parentEnd = true → ch.parentEnd = true
  alive : ch'.alive = true → ch.alive = true

theorem Fades.refl (ch : Child) : Fades ch ch := ⟨rfl, rfl, rfl, rfl, id, id⟩

theorem fades_cutOff (ch : Child) : Fades ch ch.cutOff :=
  ⟨rfl, rfl, rfl, rfl, fun hend => by simp [Child.cutOff] at hend, id⟩

theorem fades_crash (ch : Child) : Fades ch { ch.hangUp with alive := false } :=
  ⟨rfl, rfl, rfl, rfl, id, fun halive => by simp at halive⟩

theorem fades_reset (ch : Child) : Fades ch { ch with reset := false } :=
  ⟨rfl, rfl, rfl, rfl, id, id⟩

theorem keeps_of_eq {R : Child → Child → Prop} (hrefl : ∀ c, R c c)
    (hchildren : x'.children = x.children) : Keeps R x x' where
  later i ch hi := ⟨ch, by rw [hchildren, hi], hrefl ch⟩
  earlier i ch hi := ⟨ch, by rw [← hchildren, hi], hrefl ch⟩

theorem keeps_setChild {R : Child → Child → Prop} (hrefl : ∀ c, R c c)
    (hi : x.children[i]? = some ch) (hch : R ch ch')
    (hchildren : x'.children = (x.setChild i ch').children) : Keeps R x x' where
  later j c hj := by
    rw [hchildren]
    by_cases hji : j = i
    · subst hji
      obtain rfl := Option.some.inj (hi.symm.trans hj)
      exact ⟨ch', getElem?_setChild_self hi, hch⟩
    · exact ⟨c, by rw [getElem?_setChild_ne hji, hj], hrefl c⟩
  earlier j c hj := by
    rw [hchildren] at hj
    by_cases hji : j = i
    · subst hji
      rw [getElem?_setChild_self hi] at hj
      cases hj
      exact ⟨ch, hi, hch⟩
    · rw [getElem?_setChild_ne hji] at hj
      exact ⟨c, hj, hrefl c⟩

theorem keeps_mapIdx {f : Nat → Child → Child} (hf : ∀ i ch, Fades ch (f i ch))
    (hchildren : x'.children = x.children.mapIdx f) : Keeps Fades x x' where
  later i ch hi := ⟨f i ch, by rw [hchildren, List.getElem?_mapIdx, hi, Option.map_some], hf i ch⟩
  earlier i ch' hi := by
    rw [hchildren, List.getElem?_mapIdx] at hi
    obtain ⟨ch, hch, rfl⟩ := Option.map_eq_some_iff.mp hi
    exact ⟨ch, hch, hf i ch⟩

/-- The exit of the parent cuts off every child. -/
theorem keeps_exit (x : Restart) : Keeps Fades x x.exit where
  later i ch hi :=
    ⟨ch.cutOff, by rw [exit, List.getElem?_map, hi, Option.map_some], fades_cutOff ch⟩
  earlier i ch' hi := by
    obtain ⟨ch, hch, rfl⟩ := exit_cases hi
    exact ⟨ch, hch, fades_cutOff ch⟩

/-- A child that is cut off or crashes has done what it had done. -/
theorem talks_fades (htalks : Talks doing did ch) (hfades : Fades ch ch') :
    Talks doing did ch' := by
  have hleft : Left did ch → Left did ch' := by
    rw [Left, Left, hfades.toChild, hfades.pc]
    exact id
  -- a connection that is still open was open before; a phase is about what has not changed
  refine ⟨fun hend => ?_, fun _ => hleft htalks.leftover⟩
  cases htalks.phase (hfades.parentEnd hend) with
  | idle hpc hparent hchild hfree hdid =>
    refine .idle ?_ (hfades.toParent.trans hparent) (hfades.toChild.trans hchild) hfree ?_
    · rw [hfades.pc]
      exact hpc
    · rw [hfades.pc]
      exact hdid
  | requested hpc hparent hchild hfree hdid =>
    exact .requested (hfades.pc.trans hpc) (hfades.toParent.trans hparent)
      (hfades.toChild.trans hchild) hfree hdid
  | acting hpc hparent hchild hbusy hdid =>
    exact .acting (hfades.pc.trans hpc) (hfades.toParent.trans hparent)
      (hfades.toChild.trans hchild) hbusy hdid
  | replying hpc hparent hchild hbusy hdid hthis =>
    exact .replying (hfades.pc.trans hpc) (hfades.toParent.trans hparent)
      (hfades.toChild.trans hchild) hbusy hdid hthis
  | replied hpc hparent hchild hfree hdid =>
    exact .replied (hfades.pc.trans hpc) (hfades.toParent.trans hparent)
      (hfades.toChild.trans hchild) hfree hdid

theorem handling_of_idle (hidle : x.serve.Idle) (i : Nat) : x.handling i = none := by
  rw [handling]
  cases hserve : x.serve with
  | acting | replying =>
    rw [hserve] at hidle
    exact hidle.elim
  | _ => rfl

/-- The deeds stay in order when nothing is done. -/
theorem InOrder.of_eq (hdeeds : x.InOrder) (honce : x'.shutdownAdminOnce = x.shutdownAdminOnce)
    (hdrain : x'.drainListenersOnce = x.drainListenersOnce) (hsame : x'.deeds = x.deeds) :
    x'.InOrder := by
  rw [InOrder, honce, hdrain, hsame]
  exact hdeeds

/-- What the parent does beside its handlers. -/
structure Quiet (x x' : Restart) : Prop where
  keeps : Keeps Fades x x'
  once : x'.shutdownAdminOnce = x.shutdownAdminOnce
  drain : x'.drainListenersOnce = x.drainListenersOnce
  deeds : x'.deeds = x.deeds
  did : ∀ i r, x.Did i r → x'.Did i r
  parentPort : x'.port = some .parent → x.port = some .parent
  childPort : ∀ (i : Nat) (ch : Child), x'.children[i]? = some ch → ch.alive = true →
    x.port = some (.child i) → x'.port = some (.child i)

/-- The order is kept when nobody is served, or by those who do not serve. -/
theorem Ordered.quiet (hx : x.Ordered) (hquiet : Quiet x x')
    (hserve : x'.serve = x.serve ∨ x.serve.Idle ∧ x'.serve.Idle) : x'.Ordered := by
  -- nobody is being handled, or somebody is handled as before
  have hhandling : ∀ i, x'.handling i = x.handling i := by
    rcases hserve with hsame | ⟨hidle, hidle'⟩
    · intro i
      rw [handling, hsame, handling]
    · intro i
      rw [handling_of_idle hidle, handling_of_idle hidle']
  refine ⟨fun i ch' hi hend => ?_, fun i ch' hi => ?_, fun i acted h hh => ?_,
    fun i hs => ?_, hx.deeds.of_eq hquiet.once hquiet.drain hquiet.deeds, ?_, ?_, fun hp => ?_,
    fun i ch' hi halive hpos => ?_⟩
  · obtain ⟨ch, hch, hfades⟩ := hquiet.keeps.earlier i ch' hi
    rw [hfades.connected]
    exact hx.ends i ch hch (hfades.parentEnd hend)
  · obtain ⟨ch, hch, hfades⟩ := hquiet.keeps.earlier i ch' hi
    rw [hhandling]
    exact (talks_fades (hx.talks i ch hch) hfades).mono (hquiet.did i)
  · rw [hhandling] at hh
    obtain ⟨r, ch, hr, hch, hpos, hdid⟩ := hx.busy i acted h hh
    obtain ⟨ch', hch', hfades⟩ := hquiet.keeps.later i ch hch
    exact ⟨r, ch', hr, hch', hfades.pc ▸ hpos, fun r' hr' => hquiet.did i r' (hdid r' hr')⟩
  · rw [hquiet.drain]
    rcases hserve with hsame | ⟨-, hidle'⟩
    · exact hx.killing i (hsame ▸ hs)
    · rw [hs] at hidle'
      exact hidle'.elim
  · rw [hquiet.drain, hquiet.once]
    exact hx.order
  · rw [hquiet.drain]
    intro hdrain
    obtain ⟨i, ch, hch, hpos⟩ := hx.successor hdrain
    obtain ⟨ch', hch', hfades⟩ := hquiet.keeps.later i ch hch
    exact ⟨i, ch', hch', hfades.pc ▸ hpos⟩
  · rw [hquiet.once]
    exact hx.port (hquiet.parentPort hp)
  · obtain ⟨ch, hch, hfades⟩ := hquiet.keeps.earlier i ch' hi
    apply hquiet.childPort i ch' hi halive
    exact hx.held i ch hch (hfades.alive halive) (hfades.pc ▸ hpos)

/-- What was done for a child stays done. -/
theorem did_mono (honce : x'.shutdownAdminOnce = x.shutdownAdminOnce)
    (hdrain : x'.drainListenersOnce = x.drainListenersOnce)
    (hkill : x.Did i .terminate → x'.Did i .terminate) : x.Did i r → x'.Did i r := by
  cases r with
  | shutdownAdmin => exact fun hdid => honce.trans hdid
  | drainListeners => exact fun hdid => hdrain.trans hdid
  | terminate => exact hkill

/-- The parent ends, whatever it was doing. -/
theorem Ordered.exit (hx : x.Ordered) : x.exit.Ordered := by
  have hkeeps := x.keeps_exit
  have hdid : ∀ i r, x.Did i r → x.exit.Did i r := fun i r =>
    did_mono rfl rfl fun _ => .inr (.inr (by simp [Restart.exit]))
  -- all connections are closed, so what is left of the conversations are the replies
  have hcut : ∀ (i : Nat) (ch : Child), x.exit.children[i]? = some ch → ch.parentEnd = false := by
    intro i ch hi
    obtain ⟨c, -, rfl⟩ := exit_cases hi
    rfl
  refine ⟨fun i ch hi hend => ?_, fun i ch' hi => ⟨fun hend => ?_, fun _ => ?_⟩, ?_, ?_,
    hx.deeds, hx.order, fun hdrain => ?_, fun hp => ?_, fun i ch' hi halive hpos => ?_⟩
  · rw [hcut i ch hi] at hend
    cases hend
  · rw [hcut i ch' hi] at hend
    cases hend
  · obtain ⟨ch, hch, hfades⟩ := hkeeps.earlier i ch' hi
    exact ((talks_fades (hx.talks i ch hch) hfades).mono (hdid i)).leftover
  · simp [Restart.exit, handling]
  · simp [Restart.exit]
  · obtain ⟨i, ch, hch, hpos⟩ := hx.successor hdrain
    obtain ⟨ch', hch', hfades⟩ := hkeeps.later i ch hch
    exact ⟨i, ch', hch', hfades.pc ▸ hpos⟩
  · exact absurd rfl (release_port.mp hp).2
  · obtain ⟨ch, hch, hfades⟩ := hkeeps.earlier i ch' hi
    have hport := hx.held i ch hch (hfades.alive halive) (hfades.pc ▸ hpos)
    exact release_port.mpr ⟨hport, by simp⟩

/-- A new child has said nothing. -/
theorem Ordered.start (hx : x.Ordered) : x.start.Ordered := by
  refine ⟨fun i ch hi hend => ?_, fun i ch hi => ?_, fun i acted h hh => ?_, hx.killing,
    hx.deeds, hx.order, fun hdrain => ?_, hx.port, fun i ch hi halive hpos => ?_⟩
  · rcases start_cases hi with hi | ⟨-, rfl⟩
    · exact hx.ends i ch hi hend
    · exact hend
  · rcases start_cases hi with hi | ⟨rfl, rfl⟩
    · exact hx.talks i ch hi
    · -- no handler works for a child that does not exist
      have hfree : x.handling x.children.length = none := by
        rw [Option.eq_none_iff_forall_ne_some]
        rintro ⟨acted, h⟩ hh
        obtain ⟨r, c, -, hc, -⟩ := hx.busy _ acted h hh
        rw [List.getElem?_eq_none le_rfl] at hc
        cases hc
      exact ⟨fun _ => .idle (by simp [newChild]) rfl rfl hfree fun r hr => by
        simp [newChild, RunPc.pos] at hr, fun _ => .inl rfl⟩
  · obtain ⟨r, ch, hr, hch, hrest⟩ := hx.busy i acted h hh
    exact ⟨r, ch, hr, getElem?_start hch, hrest⟩
  · obtain ⟨i, ch, hch, hpos⟩ := hx.successor hdrain
    exact ⟨i, ch, getElem?_start hch, hpos⟩
  · rcases start_cases hi with hi | ⟨-, rfl⟩
    · exact hx.held i ch hi halive hpos
    · simp [newChild, RunPc.pos] at hpos

/-- A statement about all children, when one of them is replaced. -/
theorem forall_setChild {P : Nat → Child → Prop} (hi : x.children[i]? = some ch)
    (hchildren : x'.children = (x.setChild i ch').children)
    (hold : ∀ (j : Nat) (c : Child), j ≠ i → x.children[j]? = some c → P j c) (hnew : P i ch') :
    ∀ (j : Nat) (c : Child), x'.children[j]? = some c → P j c := by
  intro j c hj
  rw [hchildren] at hj
  by_cases hji : j = i
  · subst hji
    rw [getElem?_setChild_self hi] at hj
    cases hj
    exact hnew
  · rw [getElem?_setChild_ne hji] at hj
    exact hold j c hji hj

/-- What is found at a place before is found there behind, no less far. -/
theorem exists_setChild (hi : x.children[i]? = some ch)
    (hchildren : x'.children = (x.setChild i ch').children) (hpos : ch.pc.pos ≤ ch'.pc.pos)
    {j : Nat} {c : Child} (hj : x.children[j]? = some c) :
    ∃ c', x'.children[j]? = some c' ∧ c.pc.pos ≤ c'.pc.pos := by
  rw [hchildren]
  by_cases hji : j = i
  · subst hji
    obtain rfl := Option.some.inj (hi.symm.trans hj)
    exact ⟨ch', getElem?_setChild_self hi, hpos⟩
  · exact ⟨c, by rw [getElem?_setChild_ne hji, hj], le_rfl⟩

/-- The parent has done nothing but to go on serving. -/
structure Unchanged (x x' : Restart) : Prop where
  once : x'.shutdownAdminOnce = x.shutdownAdminOnce
  drain : x'.drainListenersOnce = x.drainListenersOnce
  deeds : x'.deeds = x.deeds
  sigterm : x'.sigterm = x.sigterm
  stage : x'.stage = x.stage

theorem Unchanged.did_of (hsame : Unchanged x x')
    (hkill : x.serve = .killing i → x'.serve = .killing i) : x.Did i r → x'.Did i r := by
  refine did_mono hsame.once hsame.drain fun hdid => hdid.imp hkill ?_
  rw [hsame.sigterm, hsame.stage]
  exact id

/-- A child makes a step; the port changes hands only when nobody has it. -/
theorem Ordered.moves (hx : x.Ordered) (hi : x.children[i]? = some ch) (hmoves : ch.Moves ch')
    (hchildren : x'.children = (x.setChild i ch').children) (hserve : x'.serve = x.serve)
    (hsame : Unchanged x x')
    (hport : x'.port = x.port ∧ (3 ≤ ch'.pc.pos → 3 ≤ ch.pc.pos) ∨
      x.port = none ∧ x'.port = some (.child i)) : x'.Ordered := by
  obtain ⟨hconnected, hend, halive⟩ := hmoves.same
  have hdid : ∀ j r, x.Did j r → x'.Did j r := fun j r => hsame.did_of (hserve.trans ·)
  have hhandling : ∀ j, x'.handling j = x.handling j := fun j => by
    rw [handling, hserve, handling]
  -- a child only goes forward in `Run`
  have hforward : ∀ (j : Nat) (c : Child), x.children[j]? = some c →
      ∃ c', x'.children[j]? = some c' ∧ c.pc.pos ≤ c'.pc.pos := fun j c =>
    exists_setChild hi hchildren hmoves.pos_lt.le
  refine ⟨forall_setChild hi hchildren (fun j c _ => hx.ends j c) fun h => ?_,
    forall_setChild hi hchildren (fun j c _ hj => ?_) ?_, fun j acted h hh => ?_, ?_,
    hx.deeds.of_eq hsame.once hsame.drain hsame.deeds, ?_, fun hdrain => ?_, fun hp => ?_, ?_⟩
  · rw [hconnected]
    exact hx.ends i ch hi (hend ▸ h)
  · rw [hhandling]
    exact (hx.talks j c hj).mono (hdid j)
  · rw [hhandling]
    exact ((hx.talks i ch hi).moves hmoves (hx.ends i ch hi)).mono (hdid i)
  · rw [hhandling] at hh
    obtain ⟨r, c, hr, hc, hpos, hdone⟩ := hx.busy j acted h hh
    obtain ⟨c', hc', hle⟩ := hforward j c hc
    exact ⟨r, c', hr, hc', hpos.trans hle, fun r' hr' => hdid j r' (hdone r' hr')⟩
  · rw [hserve, hsame.drain]
    exact hx.killing
  · rw [hsame.drain, hsame.once]
    exact hx.order
  · rw [hsame.drain] at hdrain
    obtain ⟨j, c, hc, hpos⟩ := hx.successor hdrain
    obtain ⟨c', hc', hle⟩ := hforward j c hc
    exact ⟨j, c', hc', hpos.trans hle⟩
  · rw [hsame.once]
    rcases hport with ⟨hport, -⟩ | ⟨-, hport⟩
    · exact hx.port (hport ▸ hp)
    · rw [hport] at hp
      cases hp
  · rcases hport with ⟨hport, hback⟩ | ⟨hnone, hport⟩
    · rw [hport]
      exact forall_setChild hi hchildren (fun j c _ => hx.held j c) fun h hpos =>
        hx.held i ch hi (halive ▸ h) (hback hpos)
    · rw [hport]
      -- the port was free, so no other child had come so far
      refine forall_setChild hi hchildren (fun j c _ hj h hpos => ?_) fun _ _ => rfl
      rw [hx.held j c hj h hpos] at hnone
      cases hnone

/-- What is read from a child is its request. -/
theorem Ordered.request_eq (hx : x.Ordered) (hi : x.children[i]? = some ch)
    (hend : ch.parentEnd = true) (hne : ch.toParent ≠ []) :
    ∃ r, ch.pc = .wait r ∧ ch.toParent = wire r.message ∧ ch.toChild = [] ∧
      x.handling i = none ∧ ∀ r', r'.pos < r.pos → x.Did i r' := by
  cases (hx.talks i ch hi).phase hend with
  | idle _ hparent | acting _ hparent | replying _ hparent | replied _ hparent =>
    exact absurd hparent hne
  | requested hpc hparent hchild hfree hdid => exact ⟨_, hpc, hparent, hchild, hfree, hdid⟩

theorem handling_acting (hserve : x.serve = .acting i h) (j : Nat) :
    x.handling j = if i = j then some (false, h) else none := by
  rw [handling, hserve]

theorem handling_replying (hserve : x.serve = .replying i h) (j : Nat) :
    x.handling j = if i = j then some (true, h) else none := by
  rw [handling, hserve]

/-- A request is read. -/
theorem Ordered.read (hx : x.Ordered) (hidle : x.serve.Idle) (hi : x.children[i]? = some ch)
    (hend : ch.parentEnd = true) (hne : ch.toParent ≠ []) {msg : Message}
    (hread : received ch.toParent = .returns msg)
    (hchildren : x'.children = (x.setChild i ch.readRequest).children)
    (hserve : x'.serve = .acting i (handlerFor msg.type)) (hsame : Unchanged x x')
    (hport : x'.port = x.port) : x'.Ordered := by
  obtain ⟨r, hpc, hparent, hchild, -, hdone⟩ := hx.request_eq hi hend hne
  rw [hparent, (crosses_message r).back] at hread
  obtain rfl := Execution.returns.inj hread
  rw [handlerFor_message] at hserve
  -- a goroutine that reads is not about to send the signal
  have hdid : ∀ j r, x.Did j r → x'.Did j r := fun j r => hsame.did_of fun hkill => by
    rw [hkill] at hidle
    exact hidle.elim
  have hhandling := handling_acting hserve
  refine ⟨forall_setChild hi hchildren (fun j c _ => hx.ends j c) (hx.ends i ch hi),
    forall_setChild hi hchildren (fun j c hji hj => ?_) ⟨fun _ => ?_, fun hcut => ?_⟩,
    fun j acted h hh => ?_, ?_, hx.deeds.of_eq hsame.once hsame.drain hsame.deeds, ?_,
    fun hdrain => ?_, ?_, ?_⟩
  · rw [hhandling, if_neg (Ne.symm hji), ← handling_of_idle hidle j]
    exact (hx.talks j c hj).mono (hdid j)
  · refine .acting hpc ?_ hchild (by rw [hhandling, if_pos rfl]) fun r' hr' =>
      hdid i r' (hdone r' hr')
    -- one read takes the whole request
    show ch.toParent.drop rpcBufSize = []
    rw [hparent]
    exact (crosses_message r).whole
  · rw [show ch.parentEnd = false from hcut] at hend
    cases hend
  · rw [hhandling] at hh
    split at hh
    · rename_i hij
      subst hij
      obtain ⟨-, rfl⟩ := Prod.mk.inj (Option.some.inj hh)
      refine ⟨r, ch.readRequest, rfl, ?_, ?_, fun r' hr' => hdid i r' (hdone r' hr')⟩
      · rw [hchildren]
        exact getElem?_setChild_self hi
      · show r.pos ≤ ch.pc.pos
        rw [hpc]
        exact le_rfl
    · cases hh
  · simp [hserve]
  · rw [hsame.drain, hsame.once]
    exact hx.order
  · rw [hsame.drain] at hdrain
    obtain ⟨j, c, hc, hpos⟩ := hx.successor hdrain
    obtain ⟨c', hc', hle⟩ := exists_setChild hi hchildren (le_refl ch.pc.pos) hc
    exact ⟨j, c', hc', hpos.trans hle⟩
  · rw [hport, hsame.once]
    exact hx.port
  · rw [hport]
    exact forall_setChild hi hchildren (fun j c _ => hx.held j c) (hx.held i ch hi)

theorem handler_injective {r r' : Request} (hr : r.handler = r'.handler) : r = r' := by
  revert hr
  cases r <;> cases r' <;> simp [Request.handler]

/-- A handler has acted: its deed is done, or there is none before the reply. -/
theorem Ordered.acted (hx : x.Ordered) (hserve : x.serve = .acting i r.handler)
    (hchildren : x'.children = x.children) (hserve' : x'.serve = .replying i r.handler)
    (hdid : ∀ j r', x.Did j r' → x'.Did j r') (hthis : r ≠ .terminate → x'.Did i r)
    (hdeeds : x'.InOrder) (horder : x'.drainListenersOnce = true → x'.shutdownAdminOnce = true)
    (hsuccessor : x'.drainListenersOnce = true →
      ∃ (i : Nat) (ch : Child), x.children[i]? = some ch ∧ 3 ≤ ch.pc.pos)
    (hport : x'.port = some .parent → x'.shutdownAdminOnce = false)
    (hheld : ∀ j, x.port = some (.child j) → x'.port = some (.child j)) : x'.Ordered := by
  have hhandling := handling_acting hserve
  have hhandling' := handling_replying hserve'
  refine ⟨hchildren ▸ hx.ends, fun j c hj => ?_, fun j acted h hh => ?_, by simp [hserve'], hdeeds,
    horder, hchildren ▸ hsuccessor, hport, fun j c hj halive hpos => ?_⟩
  · rw [hchildren] at hj
    have htalks := (hx.talks j c hj).mono (hdid j)
    rw [hhandling] at htalks
    rw [hhandling']
    by_cases hij : i = j
    · subst hij
      rw [if_pos rfl] at htalks ⊢
      refine ⟨fun hend => ?_, htalks.left⟩
      -- of the five phases only that of a handler at work is possible
      cases htalks.phase hend with
      | idle _ _ _ hfree | requested _ _ _ hfree | replied _ _ _ hfree => cases hfree
      | replying _ _ _ hbusy => simp at hbusy
      | @acting r' hpc hparent hchild hbusy hdone =>
        obtain ⟨-, hhandler⟩ := Prod.mk.inj (Option.some.inj hbusy)
        obtain rfl := handler_injective hhandler
        exact .replying hpc hparent hchild rfl hdone hthis
    · rw [if_neg hij] at htalks ⊢
      exact htalks
  · rw [hhandling'] at hh
    split at hh
    · rename_i hij
      subst hij
      obtain ⟨-, rfl⟩ := Prod.mk.inj (Option.some.inj hh)
      have hbusy : x.handling i = some (false, r.handler) := by rw [hhandling, if_pos rfl]
      obtain ⟨r', c, hr', hc, hpos, hdone⟩ := hx.busy i false _ hbusy
      exact ⟨r', c, hr', hchildren ▸ hc, hpos, fun q hq => hdid i q (hdone q hq)⟩
    · cases hh
  · rw [hchildren] at hj
    exact hheld j (hx.held j c hj halive hpos)

/-- A handler acts. -/
theorem Ordered.act (hx : x.Ordered) (hserve : x.serve = .acting i h) : (x.act i h).Ordered := by
  have hbusy : x.handling i = some (false, h) := by rw [handling_acting hserve, if_pos rfl]
  obtain ⟨r, ch, rfl, hi, hpos, hdone⟩ := hx.busy i false h hbusy
  -- the signal is not touched
  have hkill : ∀ j, x.Did j .terminate → x.sigterm = true ∨ x.stage ≠ .running := by
    intro j hdid
    rcases hdid with hdid | hdid
    · rw [hserve] at hdid
      cases hdid
    · exact hdid
  cases r with
  | shutdownAdmin =>
    show ({ x.shutdownAdmin with serve := .replying i .shutdownAdmin } : Restart).Ordered
    rw [Restart.shutdownAdmin]
    split
    · rename_i honce
      refine hx.acted (r := .shutdownAdmin) hserve rfl rfl (fun j r' => ?_) (fun _ => honce)
        hx.deeds hx.order hx.successor hx.port fun _ hp => hp
      exact did_mono rfl rfl fun hdid => .inr (hkill j hdid)
    · rename_i honce
      have hfresh : x.shutdownAdminOnce = false := by simpa using honce
      -- the listeners are never drained before
      have hdrain : x.drainListenersOnce = false := by
        by_contra hdrain
        exact honce (hx.order (by simpa using hdrain))
      refine hx.acted (r := .shutdownAdmin) hserve rfl rfl (fun j r' hdid => ?_) (fun _ => rfl)
        ?_ (fun _ => rfl) hx.successor (fun hp => absurd rfl (release_port.mp hp).2)
        fun j hp => release_port.mpr ⟨hp, by simp⟩
      · cases r' with
        | shutdownAdmin => exact rfl
        | drainListeners => exact hdid
        | terminate => exact .inr (hkill j hdid)
      · obtain ⟨n, hdeeds, hn⟩ := hx.deeds
        obtain rfl : n = 0 := hn.resolve_right (by simp [hdrain])
        refine ⟨0, ?_, .inl rfl⟩
        simp [hdeeds, hfresh, hdrain, release]
  | drainListeners =>
    have honce : x.shutdownAdminOnce = true := hdone .shutdownAdmin (by decide)
    -- the child has its own admin API, as its place in `Run` says
    have hstarted : ∃ (i : Nat) (ch : Child), x.children[i]? = some ch ∧ 3 ≤ ch.pc.pos :=
      ⟨i, ch, hi, le_trans (by decide) hpos⟩
    show ({ x.drainListeners with serve := .replying i .drainListeners } : Restart).Ordered
    rw [Restart.drainListeners]
    split
    · rename_i hdrain
      refine hx.acted (r := .drainListeners) hserve rfl rfl (fun j r' => ?_) (fun _ => hdrain)
        hx.deeds hx.order hx.successor hx.port fun _ hp => hp
      exact did_mono rfl rfl fun hdid => .inr (hkill j hdid)
    · rename_i hnot
      have hdrain : x.drainListenersOnce = false := by simpa using hnot
      refine hx.acted (r := .drainListeners) hserve rfl rfl (fun j r' hdid => ?_) (fun _ => rfl)
        ?_ (fun _ => honce) (fun _ => hstarted) hx.port fun _ hp => hp
      · cases r' with
        | shutdownAdmin => exact hdid
        | drainListeners => exact rfl
        | terminate => exact .inr (hkill j hdid)
      · obtain ⟨n, hdeeds, hn⟩ := hx.deeds
        obtain rfl : n = 0 := hn.resolve_right (by simp [hdrain])
        refine ⟨0, ?_, .inl rfl⟩
        simp [hdeeds, honce, hdrain]
  | terminate =>
    refine hx.acted (r := .terminate) hserve rfl rfl (fun j r' => ?_) (fun hr => absurd rfl hr)
      hx.deeds hx.order hx.successor hx.port fun _ hp => hp
    exact did_mono rfl rfl fun hdid => .inr (hkill j hdid)

theorem pos_lt_or_eq {r r' : Request} (hr : r'.pos ≤ r.pos) : r'.pos < r.pos ∨ r' = r := by
  cases r <;> cases r' <;> simp [Request.pos, RunPc.pos] at hr ⊢

/-- The reply ends the work for the child, but for the signal. -/
theorem talks_answer (htalks : Talks (some (true, r.handler)) did ch) (hdid : ∀ r, did r → did' r)
    (hkill : r = .terminate → did' .terminate) : Talks none did' (ch.answer r.handler) := by
  refine ⟨fun hend => ?_, fun hcut => ?_⟩
  · have hopen : ch.parentEnd = true := hend
    cases htalks.phase hopen with
    | idle _ _ _ hfree | requested _ _ _ hfree | replied _ _ _ hfree => cases hfree
    | acting _ _ _ hbusy => simp at hbusy
    | @replying r' hpc hparent hchild hbusy hdone hthis =>
      obtain ⟨-, hhandler⟩ := Prod.mk.inj (Option.some.inj hbusy)
      obtain rfl := handler_injective hhandler
      refine .replied hpc hparent ?_ rfl fun q hq => ?_
      · rw [Child.answer, hopen, hchild]
        rfl
      · rcases pos_lt_or_eq hq with hlt | rfl
        · exact hdid q (hdone q hlt)
        · by_cases hq : q = .terminate
          · subst hq
            exact hkill rfl
          · exact hdid q (hthis hq)
  · have hclosed : ch.parentEnd = false := hcut
    have hsame : (ch.answer r.handler).toChild = ch.toChild := by simp [Child.answer, hclosed]
    rw [Left, hsame]
    exact (htalks.left hclosed).mono hdid

/-- A reply is written. -/
theorem Ordered.reply (hx : x.Ordered) (hserve : x.serve = .replying i h)
    (hi : x.children[i]? = some ch) : (x.reply i h ch).Ordered := by
  have hbusy : x.handling i = some (true, h) := by rw [handling_replying hserve, if_pos rfl]
  obtain ⟨r, c, rfl, -, -, hdone⟩ := hx.busy i true h hbusy
  have hdid : ∀ j q, x.Did j q → (x.reply i r.handler ch).Did j q := fun j q =>
    did_mono rfl rfl fun hkill => .inr (hkill.resolve_left (by simp [hserve]))
  have hfree : ∀ j, (x.reply i r.handler ch).handling j = none := fun j => by
    cases r <;> rfl
  have hforward : ∀ (j : Nat) (c : Child), x.children[j]? = some c →
      ∃ c', (x.reply i r.handler ch).children[j]? = some c' ∧ c.pc.pos ≤ c'.pc.pos := fun j c =>
    exists_setChild hi rfl (le_refl (ch.answer r.handler).pc.pos)
  refine ⟨forall_setChild hi rfl (fun j c _ => hx.ends j c) (hx.ends i ch hi),
    forall_setChild hi rfl (fun j c hji hj => ?_) ?_, fun j acted h hh => ?_, fun j hs => ?_,
    hx.deeds, hx.order, fun hdrain => ?_, hx.port,
    forall_setChild hi rfl (fun j c _ => hx.held j c) (hx.held i ch hi)⟩
  · have htalks := hx.talks j c hj
    rw [handling_replying hserve, if_neg (Ne.symm hji)] at htalks
    rw [hfree]
    exact htalks.mono (hdid j)
  · rw [hfree]
    refine talks_answer (hbusy ▸ hx.talks i ch hi) (hdid i) fun hr => .inl ?_
    rw [hr]
    rfl
  · rw [hfree] at hh
    cases hh
  · -- only the handler of the last request kills
    obtain rfl : r = .terminate := by
      revert hs
      cases r <;> simp [Restart.reply, Request.handler]
    exact hdone .drainListeners (by decide)
  · obtain ⟨j, c, hc, hpos⟩ := hx.successor hdrain
    obtain ⟨c', hc', hle⟩ := hforward j c hc
    exact ⟨j, c', hc', hpos.trans hle⟩

/-- The signal is sent. -/
theorem Ordered.kill (hx : x.Ordered) (hserve : x.serve = .killing i)
    (hchildren : x'.children = x.children) (hidle : x'.serve.Idle)
    (honce : x'.shutdownAdminOnce = x.shutdownAdminOnce)
    (hdrain : x'.drainListenersOnce = x.drainListenersOnce)
    (hdeeds : x'.deeds = x.deeds ++ [.terminate]) (hsignal : x'.sigterm = true)
    (hport : x'.port = x.port) : x'.Ordered := by
  have hdid : ∀ j r, x.Did j r → x'.Did j r := fun j r =>
    did_mono honce hdrain fun _ => .inr (.inl hsignal)
  have hfree : ∀ j, x.handling j = none := fun j => by rw [handling, hserve]
  refine ⟨hchildren ▸ hx.ends, fun j c hj => ?_, fun j acted h hh => ?_, fun j hs => ?_, ?_, ?_,
    fun hd => ?_, ?_, ?_⟩
  · rw [hchildren] at hj
    rw [handling_of_idle hidle, ← hfree j]
    exact (hx.talks j c hj).mono (hdid j)
  · rw [handling_of_idle hidle] at hh
    cases hh
  · rw [hs] at hidle
    exact hidle.elim
  -- another signal at the end of the list; the listeners are drained, as the state says
  · obtain ⟨n, hlist, -⟩ := hx.deeds
    refine ⟨n + 1, ?_, .inr (hdrain.trans (hx.killing i hserve))⟩
    rw [hdeeds, hlist, honce, hdrain, List.append_assoc, ← List.replicate_succ']
  · rw [hdrain, honce]
    exact hx.order
  · rw [hdrain] at hd
    rw [hchildren]
    exact hx.successor hd
  · rw [hport, honce]
    exact hx.port
  · rw [hchildren, hport]
    exact hx.held

/-- What a step of a child leaves as it is, and what becomes of the port. -/
structure ChildMoved (x : Restart) (i : Nat) (ch : Child) (x' : Restart) (ch' : Child) : Prop where
  moves : ch.Moves ch'
  children : x'.children = (x.setChild i ch').children
  unchanged : Unchanged x x'
  serve : x'.serve = x.serve
  backlog : x'.backlog = x.backlog
  closers : x'.closers = x.closers
  quit : x'.quit = x.quit
  lis : x'.lis = x.lis
  port : x'.port = x.port ∧ (3 ≤ ch'.pc.pos → 3 ≤ ch.pc.pos) ∨
    x.port = none ∧ x'.port = some (.child i) ∧ 3 ≤ ch'.pc.pos

/-- A child makes a step of its own, other than to take the port. -/
theorem childMoved_setChild (hmoves : ch.Moves ch') (hpc : ch.pc ≠ .startAdmin) :
    ChildMoved x i ch (x.setChild i ch') ch' :=
  ⟨hmoves, rfl, ⟨rfl, rfl, rfl, rfl, rfl⟩, rfl, rfl, rfl, rfl, rfl, .inl ⟨rfl, hmoves.started hpc⟩⟩

/-- In order, a step of a child is one of its own: replies are well-formed, so none makes it
    panic. -/
theorem Ordered.childMoved (hx : x.Ordered) (hi : x.children[i]? = some ch)
    (hstep : ChildStep x i ch x') : ∃ ch', ChildMoved x i ch x' ch' := by
  cases hstep with
  | skip hpc hconn => exact ⟨_, childMoved_setChild (.skip hpc hconn) (by simp [hpc])⟩
  | request hpc hconn => exact ⟨_, childMoved_setChild (.request hpc hconn) (by simp [hpc])⟩
  | answered hpc hne => exact ⟨_, childMoved_setChild (.answered hpc hne) (by simp [hpc])⟩
  | panic hpc hne hread =>
    obtain ⟨hreply, -⟩ := (hx.talks i ch hi).reply_eq hpc hne
    rw [hreply, (crosses_response _).back] at hread
    cases hread
  | refused hpc hnil hend =>
    exact ⟨_, childMoved_setChild (.refused hpc hnil hend) (by simp [hpc])⟩
  | listen hpc hport =>
    exact ⟨_, .listen hpc, rfl, ⟨rfl, rfl, rfl, rfl, rfl⟩, rfl, rfl, rfl, rfl, rfl,
      .inr ⟨hport, rfl, by simp [RunPc.pos]⟩⟩
  | wake hpc => exact ⟨_, childMoved_setChild (.wake hpc) (by simp [hpc])⟩
  | close hpc => exact ⟨_, childMoved_setChild (.close hpc) (by simp [hpc])⟩

/-- A child sends its next request only behind the reply to the last one. -/
theorem Ordered.childStep (hx : x.Ordered) (hi : x.children[i]? = some ch)
    (hstep : ChildStep x i ch x') : x'.Ordered := by
  obtain ⟨ch', hmoved⟩ := hx.childMoved hi hstep
  refine hx.moves hi hmoved.moves hmoved.children hmoved.serve hmoved.unchanged ?_
  exact hmoved.port.imp_right fun hport => ⟨hport.1, hport.2.1⟩

/-- What the parent finds to read is a request. -/
theorem Ordered.request_read (hx : x.Ordered) (hi : x.children[i]? = some ch)
    (hend : ch.parentEnd = true) (hne : ch.toParent ≠ []) :
    ∃ r : Request, received ch.toParent = .returns r.message := by
  obtain ⟨r, -, hparent, -⟩ := hx.request_eq hi hend hne
  exact ⟨r, hparent ▸ (crosses_message r).back⟩

/-- A step without a handler at work, of whatever kind. -/
theorem Ordered.idle (hx : x.Ordered) (hkeeps : Keeps Fades x x') (hsame : Unchanged x x')
    (hport : x'.port = x.port) (hidle : x.serve.Idle) (hidle' : x'.serve.Idle) : x'.Ordered := by
  refine hx.quiet ⟨hkeeps, hsame.once, hsame.drain, hsame.deeds, fun i r => ?_, ?_, ?_⟩
    (.inr ⟨hidle, hidle'⟩)
  · refine hsame.did_of fun hkill => ?_
    rw [hkill] at hidle
    exact hidle.elim
  · rw [hport]
    exact id
  · rw [hport]
    exact fun _ _ _ _ => id

/-- The parent does what the request of the child is for, and replies then. -/
theorem Ordered.serveStep (hx : x.Ordered) (hstep : ServeStep x x') : x'.Ordered := by
  cases hstep with
  | leave hserve | accept hserve | stop hserve | poll hserve | readClosed hserve | readEOF hserve =>
    exact hx.idle (keeps_of_eq .refl rfl) ⟨rfl, rfl, rfl, rfl, rfl⟩ rfl
      (by rw [hserve]; trivial) trivial
  | readReset hserve hi =>
    exact hx.idle (keeps_setChild .refl hi (fades_reset _) rfl) ⟨rfl, rfl, rfl, rfl, rfl⟩ rfl
      (by rw [hserve]; trivial) trivial
  | read hserve hi hend hne hread =>
    exact hx.read (by rw [hserve]; trivial) hi hend hne hread rfl rfl ⟨rfl, rfl, rfl, rfl, rfl⟩ rfl
  | readFails hserve hi hend hne hread =>
    obtain ⟨r, hr⟩ := hx.request_read hi hend hne
    exact absurd hr (hread _)
  | readPanics hserve hi hend hne hread =>
    obtain ⟨r, hr⟩ := hx.request_read hi hend hne
    rw [hr] at hread
    cases hread
  | act hserve => exact hx.act hserve
  | reply hserve hi => exact hx.reply hserve hi
  | kill hserve => exact hx.kill hserve rfl trivial rfl rfl rfl rfl rfl

/-- Steps of the parent that leave the goroutine that serves alone. -/
theorem Ordered.beside (hx : x.Ordered) (hkeeps : Keeps Fades x x') (hserve : x'.serve = x.serve)
    (honce : x'.shutdownAdminOnce = x.shutdownAdminOnce)
    (hdrain : x'.drainListenersOnce = x.drainListenersOnce) (hdeeds : x'.deeds = x.deeds)
    (hkill : x.sigterm = true ∨ x.stage ≠ .running → x'.sigterm = true ∨ x'.stage ≠ .running)
    (hport : x'.port = x.port ∨ x'.port = (x.release .parent).port) : x'.Ordered := by
  refine hx.quiet ⟨hkeeps, honce, hdrain, hdeeds, fun i r => ?_, ?_, ?_⟩ (.inl hserve)
  · refine did_mono honce hdrain fun hdid => hdid.imp (fun h => ?_) hkill
    rw [hserve]
    exact h
  · rcases hport with hport | hport
    · rw [hport]
      exact id
    · rw [hport]
      exact fun hp => (release_port.mp hp).1
  · intro i ch _ _ hp
    rcases hport with hport | hport
    · rw [hport, hp]
    · rw [hport]
      exact release_port.mpr ⟨hp, by simp⟩

/-- A signal shuts the parent down whatever has been asked for. -/
theorem Ordered.shutdownStep (hx : x.Ordered) (hstep : ShutdownStep x x') : x'.Ordered := by
  cases hstep with
  | notice hstage hsignal | closeQuit hstage =>
    exact hx.beside (keeps_of_eq .refl rfl) rfl rfl rfl rfl (fun _ => .inr (by simp)) (.inl rfl)
  | stopAdmin hstage =>
    exact hx.beside (keeps_of_eq .refl rfl) rfl rfl rfl rfl (fun _ => .inr (by simp)) (.inr rfl)
  | closeLis hstage =>
    refine hx.beside (keeps_mapIdx (fun i ch => ?_) rfl) rfl rfl rfl rfl
      (fun _ => .inr (by simp [closeLis])) (.inl rfl)
    split
    · exact fades_cutOff ch
    · exact .refl ch
  | exit => exact hx.exit

/-- A child crashes: its port is free again. -/
theorem Ordered.crash (hx : x.Ordered) (hi : x.children[i]? = some ch) :
    (x.crash i ch).Ordered := by
  refine hx.quiet ⟨keeps_setChild .refl hi (fades_crash ch) rfl, rfl, rfl, rfl,
    fun _ _ hdid => hdid, fun hp => (release_port.mp hp).1, fun j c hj halive hp => ?_⟩ (.inl rfl)
  -- the crashed child is not alive
  have hji : j ≠ i := by
    rintro rfl
    have hself : (x.crash j ch).children[j]? = some { ch.hangUp with alive := false } :=
      getElem?_setChild_self hi
    obtain rfl := Option.some.inj (hself.symm.trans hj)
    cases halive
  exact release_port.mpr ⟨hp, by simpa using hji⟩

/-- **What one step preserves.** -/
theorem Ordered.step (hx : x.Ordered) (hstep : Step x a x') : x'.Ordered := by
  cases hstep with
  | start => exact hx.start
  | child hi _ hstep => exact hx.childStep hi hstep
  | serve _ hstep => exact hx.serveStep hstep
  | closer hi =>
    exact hx.beside (keeps_setChild .refl hi (fades_cutOff _) rfl) rfl rfl rfl rfl id (.inl rfl)
  | shutdown hstep => exact hx.shutdownStep hstep
  | ctlStopped =>
    exact hx.beside (keeps_of_eq .refl rfl) rfl rfl rfl rfl (fun _ => .inr (by simp)) (.inl rfl)
  | retryListen | acceptRetry => exact hx
  | acceptFails hserve =>
    exact hx.idle (keeps_of_eq .refl rfl) ⟨rfl, rfl, rfl, rfl, rfl⟩ rfl
      (by rw [hserve]; trivial) trivial
  | signal => exact hx.beside (keeps_of_eq .refl rfl) rfl rfl rfl rfl (fun _ => .inl rfl) (.inl rfl)
  | crash hi => exact hx.crash hi
  | crashParent => exact hx.exit

/-- One child, from its start to the end of the parent. -/
def wholeRestart : List Act :=
  [.start, .child 0, .serve, .serve, .serve, .serve, .serve, .child 0, .child 0, .child 0, .serve,
    .serve, .serve, .serve, .child 0, .child 0, .child 0, .serve, .serve, .serve, .serve, .child 0,
    .child 0, .serve, .shutdown, .shutdown, .ctlStopped, .shutdown, .shutdown, .serve, .serve,
    .shutdown]

end Restart

end Samaritan.HotRestart
