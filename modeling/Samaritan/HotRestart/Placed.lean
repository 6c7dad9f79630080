import Samaritan.HotRestart.HandOver

/-!
# Where Everybody Is in a Hot Restart

A child that has reached the parent is in the backlog of the listener, or is being served, or has
been left; which of them it is says who can still close its connection, and what the child can be
waiting for. The flags of the parent follow the stage of its shutdown.
-/

namespace Samaritan.HotRestart

open Samaritan.Lib

variable {x x' : Restart} {a : Restart.Act} {i j : Nat} {ch ch' : Child} {r : Request} {h : Handler}

/-! ## Where everybody is -/

/-- The stages behind the closing of `quit`. -/
def Stage.quits : Stage → Bool
  | .closeLis | .waitDone | .exited => true
  | _ => false

/-- The stages behind the closing of the listener. -/
def Stage.closed : Stage → Bool
  | .waitDone | .exited => true
  | _ => false

namespace Restart

/-- A child that nobody has accepted has got no answer. -/
structure Unserved (ch : Child) : Prop where
  connected : ch.connected = true
  parentEnd : ch.parentEnd = true
  toChild : ch.toChild = []
  pos : ch.pc.pos ≤ 1

structure Placed (x : Restart) : Prop where
  quit : x.quit = x.stage.quits
  lis : x.lis = !x.stage.closed
  /-- connections are closed by a parent that quits -/
  cut : ∀ (i : Nat) (ch : Child), x.children[i]? = some ch → ch.connected = true →
    ch.parentEnd = false → x.quit = true
  dialed : ∀ (i : Nat) (ch : Child), x.children[i]? = some ch → ch.connected = false → x.lis = false
  served : ∀ i : Nat, x.serve.child = some i →
    ∃ ch : Child, x.children[i]? = some ch ∧ ch.connected = true ∧ i ∈ x.closers
  backlog : ∀ i ∈ x.backlog, ∃ ch : Child, x.children[i]? = some ch ∧ Unserved ch
  nodup : x.backlog.Nodup
  accepted : ∀ i ∈ x.closers, i < x.children.length ∧ i ∉ x.backlog
  emptied : x.lis = false → x.backlog = []
  /-- a child that is not served any more has closed its end -/
  covered : x.quit = false → ∀ (i : Nat) (ch : Child), x.children[i]? = some ch →
    ch.connected = true → i ∈ x.backlog ∨ x.serve.child = some i ∨ ch.childEnd = false
  ended : ∀ (i : Nat) (ch : Child), x.children[i]? = some ch → ch.connected = true →
    (ch.childEnd = false ↔ ch.pc = .done ∨ ch.alive = false)
  parentPort : x.port = some .parent → x.stage = .running ∨ x.stage = .stopAdmin
  childPort : ∀ i : Nat, x.port = some (.child i) →
    ∃ ch : Child, x.children[i]? = some ch ∧ ch.alive = true ∧ 3 ≤ ch.pc.pos
  gone : x.stage = .exited → ∀ (i : Nat) (ch : Child), x.children[i]? = some ch →
    ch.parentEnd = false

theorem placed_newRestart : newRestart.Placed where
  quit := rfl
  lis := rfl
  cut := by simp [newRestart]
  dialed := by simp [newRestart]
  served := by simp [newRestart, Serve.child]
  backlog := by simp [newRestart]
  nodup := by simp [newRestart]
  accepted := by simp [newRestart]
  emptied := by simp [newRestart]
  covered := by simp [newRestart]
  ended := by simp [newRestart]
  parentPort := by simp [newRestart]
  childPort := by simp [newRestart]
  gone := by simp [newRestart]

/-- What the parent can do to a child that it serves. -/
structure Handled (ch ch' : Child) : Prop where
  pc : ch'.pc = ch.pc
  connected : ch'.connected = ch.connected
  childEnd : ch'.childEnd = ch.childEnd
  parentEnd : ch'.parentEnd = ch.parentEnd
  alive : ch'.alive = ch.alive

theorem Keeps.length_eq {R : Child → Child → Prop} (hkeeps : Keeps R x x') :
    x'.children.length = x.children.length := by
  apply le_antisymm
  · refine Nat.le_of_not_lt fun hlt => ?_
    obtain ⟨ch, hch, -⟩ := hkeeps.earlier _ _ (List.getElem?_eq_getElem hlt)
    rw [List.getElem?_eq_none le_rfl] at hch
    cases hch
  · refine Nat.le_of_not_lt fun hlt => ?_
    obtain ⟨ch, hch, -⟩ := hkeeps.later _ _ (List.getElem?_eq_getElem hlt)
    rw [List.getElem?_eq_none le_rfl] at hch
    cases hch

/-- Nobody is served any more, and nobody needs to be. -/
def Leaves (x x' : Restart) : Prop :=
  x'.serve.child = none ∧ (x.quit = true ∨ ∀ (i : Nat) (ch : Child), x.serve.child = some i →
    x.children[i]? = some ch → ch.childEnd = false)

/-- The parent serves. -/
theorem Placed.serving (hx : x.Placed) (hkeeps : Keeps Handled x x')
    (hunserved : ∀ i ∈ x.backlog, x'.children[i]? = x.children[i]?) (hstage : x'.stage = x.stage)
    (hquit : x'.quit = x.quit) (hlis : x'.lis = x.lis)
    (hport : x'.port = x.port ∨ x'.port = (x.release .parent).port)
    (hbacklog : x'.backlog = x.backlog) (hclosers : x'.closers = x.closers)
    (hserve : x'.serve.child = x.serve.child ∨ Leaves x x') : x'.Placed := by
  -- a port can only get free
  have hholder : ∀ holder, x'.port = some holder → x.port = some holder := by
    intro holder hp
    rcases hport with hport | hport
    · exact hport ▸ hp
    · exact (release_port.mp (hport ▸ hp)).1
  -- the fields in turn: flags, connections, who is served, the backlog, the port
  refine ⟨?_, ?_, fun i ch' hi hconn hend => ?_, fun i ch' hi hconn => ?_, fun i hc => ?_,
    fun i hb => ?_, ?_, fun i hc => ?_, ?_, fun hq i ch' hi hconn => ?_,
    fun i ch' hi hconn => ?_, fun hp => ?_, fun i hp => ?_, fun hs i ch' hi => ?_⟩
  · rw [hquit, hstage]
    exact hx.quit
  · rw [hlis, hstage]
    exact hx.lis
  · obtain ⟨ch, hch, hh⟩ := hkeeps.earlier i ch' hi
    rw [hquit]
    exact hx.cut i ch hch (hh.connected ▸ hconn) (hh.parentEnd ▸ hend)
  · obtain ⟨ch, hch, hh⟩ := hkeeps.earlier i ch' hi
    rw [hlis]
    exact hx.dialed i ch hch (hh.connected ▸ hconn)
  · rcases hserve with hsame | ⟨hnone, -⟩
    · obtain ⟨ch, hch, hconn, hcloser⟩ := hx.served i (hsame ▸ hc)
      obtain ⟨ch', hch', hh⟩ := hkeeps.later i ch hch
      exact ⟨ch', hch', hh.connected.trans hconn, hclosers ▸ hcloser⟩
    · rw [hnone] at hc
      cases hc
  · rw [hbacklog] at hb
    obtain ⟨ch, hch, hun⟩ := hx.backlog i hb
    exact ⟨ch, (hunserved i hb).trans hch, hun⟩
  · rw [hbacklog]
    exact hx.nodup
  · rw [hkeeps.length_eq, hbacklog]
    exact hx.accepted i (hclosers ▸ hc)
  · rw [hlis, hbacklog]
    exact hx.emptied
  · rw [hquit] at hq
    obtain ⟨ch, hch, hh⟩ := hkeeps.earlier i ch' hi
    rw [hbacklog, hh.childEnd]
    -- who was served is served still, or has closed its end
    rcases hx.covered hq i ch hch (hh.connected ▸ hconn) with hb | hs | hend
    · exact .inl hb
    · rcases hserve with hsame | ⟨-, hquit' | hended⟩
      · exact .inr (.inl (hsame.trans hs))
      · rw [hq] at hquit'
        cases hquit'
      · exact .inr (.inr (hended i ch hs hch))
    · exact .inr (.inr hend)
  · obtain ⟨ch, hch, hh⟩ := hkeeps.earlier i ch' hi
    rw [hh.childEnd, hh.pc, hh.alive]
    exact hx.ended i ch hch (hh.connected ▸ hconn)
  · rw [hstage]
    exact hx.parentPort (hholder _ hp)
  · obtain ⟨ch, hch, halive, hpos⟩ := hx.childPort i (hholder _ hp)
    obtain ⟨ch', hch', hh⟩ := hkeeps.later i ch hch
    exact ⟨ch', hch', hh.alive.trans halive, hh.pc ▸ hpos⟩
  · obtain ⟨ch, hch, hh⟩ := hkeeps.earlier i ch' hi
    rw [hh.parentEnd]
    exact hx.gone (hstage ▸ hs) i ch hch

/-- What may become of one child while the parent does nothing. -/
structure ChildChange (x : Restart) (i : Nat) (ch ch' : Child) : Prop where
  connected : ch'.connected = ch.connected
  cut : ch'.parentEnd = false → ch.parentEnd = false ∨ x.quit = true
  parentEnd : ch'.parentEnd = true → ch.parentEnd = true
  unserved : i ∈ x.backlog → Unserved ch → Unserved ch'
  childEnd : ch.childEnd = false → ch'.childEnd = false
  ended : ch'.connected = true → (ch'.childEnd = false ↔ ch'.pc = .done ∨ ch'.alive = false)

theorem Placed.childChange (hx : x.Placed) (hi : x.children[i]? = some ch)
    (hchange : ChildChange x i ch ch') (hchildren : x'.children = (x.setChild i ch').children)
    (hstage : x'.stage = x.stage) (hquit : x'.quit = x.quit) (hlis : x'.lis = x.lis)
    (hbacklog : x'.backlog = x.backlog) (hclosers : x'.closers = x.closers)
    (hserve : x'.serve = x.serve) (hparent : x'.port = some .parent → x.port = some .parent)
    (hchild : ∀ j, x'.port = some (.child j) → j ≠ i ∧ x.port = some (.child j) ∨
      j = i ∧ ch'.alive = true ∧ 3 ≤ ch'.pc.pos) : x'.Placed := by
  have hself : x'.children[i]? = some ch' := hchildren ▸ getElem?_setChild_self hi
  have hother : ∀ j, j ≠ i → x'.children[j]? = x.children[j]? := fun j hji =>
    hchildren ▸ getElem?_setChild_ne hji
  refine ⟨?_, ?_, ?_, ?_, fun j hc => ?_, fun j hb => ?_, ?_, fun j hc => ?_, ?_, fun hq => ?_,
    ?_, fun hp => ?_, fun j hp => ?_, fun hs => ?_⟩
  · rw [hquit, hstage]
    exact hx.quit
  · rw [hlis, hstage]
    exact hx.lis
  · rw [hquit]
    refine forall_setChild hi hchildren (fun j c _ => hx.cut j c) fun hconn hend => ?_
    exact (hchange.cut hend).elim (hx.cut i ch hi (hchange.connected ▸ hconn)) id
  · rw [hlis]
    exact forall_setChild hi hchildren (fun j c _ => hx.dialed j c) fun hconn =>
      hx.dialed i ch hi (hchange.connected ▸ hconn)
  · rw [hserve] at hc
    obtain ⟨c, hcj, hconn, hcloser⟩ := hx.served j hc
    rw [hclosers]
    by_cases hji : j = i
    · subst hji
      obtain rfl := Option.some.inj (hi.symm.trans hcj)
      exact ⟨ch', hself, hchange.connected.trans hconn, hcloser⟩
    · exact ⟨c, (hother j hji).trans hcj, hconn, hcloser⟩
  · rw [hbacklog] at hb
    obtain ⟨c, hcj, hun⟩ := hx.backlog j hb
    by_cases hji : j = i
    · subst hji
      obtain rfl := Option.some.inj (hi.symm.trans hcj)
      exact ⟨ch', hself, hchange.unserved hb hun⟩
    · exact ⟨c, (hother j hji).trans hcj, hun⟩
  · rw [hbacklog]
    exact hx.nodup
  · rw [hchildren, hbacklog]
    obtain ⟨hlt, hnot⟩ := hx.accepted j (hclosers ▸ hc)
    exact ⟨by simpa [setChild] using hlt, hnot⟩
  · rw [hlis, hbacklog]
    exact hx.emptied
  · rw [hquit] at hq
    rw [hbacklog, hserve]
    refine forall_setChild hi hchildren (fun j c _ => hx.covered hq j c) fun hconn => ?_
    -- a child that was left has closed its end, and keeps it closed
    have hcovered := hx.covered hq i ch hi (hchange.connected ▸ hconn)
    exact hcovered.imp_right (Or.imp_right hchange.childEnd)
  · exact forall_setChild hi hchildren (fun j c _ => hx.ended j c) hchange.ended
  · rw [hstage]
    exact hx.parentPort (hparent hp)
  -- the port is with another child as before, or with this one, which has come far enough
  · rcases hchild j hp with ⟨hji, hport⟩ | ⟨rfl, halive, hpos⟩
    · obtain ⟨c, hcj, hrest⟩ := hx.childPort j hport
      exact ⟨c, (hother j hji).trans hcj, hrest⟩
    · exact ⟨ch', hself, halive, hpos⟩
  · refine forall_setChild hi hchildren (fun j c _ => hx.gone (hstage ▸ hs) j c) ?_
    cases hend : ch'.parentEnd with
    | false => rfl
    | true =>
      have hopen := hchange.parentEnd hend
      rw [hx.gone (hstage ▸ hs) i ch hi] at hopen
      cases hopen

/-- A step of a child changes nothing about its end but to close it. -/
theorem childChange_moves (hx : x.Placed) (hi : x.children[i]? = some ch) (halive : ch.alive = true)
    (hmoves : ch.Moves ch') : ChildChange x i ch ch' := by
  obtain ⟨hconnected, hend, halive'⟩ := hmoves.same
  have hopen : ch.connected = true → ch.pc ≠ .done → ch.childEnd = true := by
    intro hconn hpc
    by_contra hclosed
    rcases (hx.ended i ch hi hconn).mp (by simpa using hclosed) with hdone | hdead
    · exact hpc hdone
    · rw [halive] at hdead
      cases hdead
  refine ⟨hconnected, fun h => .inl (hend ▸ h), fun h => hend ▸ h, fun _ hun => ?_, ?_, ?_⟩
  · -- an unserved child can only write its first request
    have hpos := hun.pos
    cases hmoves with
    | skip hpc hconn =>
      rw [hun.connected] at hconn
      cases hconn
    | @request r hpc hconn =>
      rw [hpc] at hpos
      refine ⟨hconn, hun.parentEnd, hun.toChild, ?_⟩
      revert hpos
      cases r <;> simp [Child.request, RunPc.pos]
    | answered hpc hne => exact absurd hun.toChild hne
    | refused hpc hnil hcut =>
      rw [hun.parentEnd] at hcut
      cases hcut
    | listen hpc | wake hpc | close hpc => simp [hpc, RunPc.pos] at hpos
  · cases hmoves with
    | close => exact fun _ => rfl
    | _ => exact id
  · intro hconn
    rw [halive', halive]
    cases hmoves with
    | skip hpc hnot =>
      rw [show ch.connected = true from hconn] at hnot
      cases hnot
    | request hpc => simp [Child.request, hopen hconn (by simp [hpc])]
    | @answered r hpc | @refused r hpc =>
      have hstill := hopen hconn (by simp [hpc])
      have hpc' : ch.afterCall r ≠ .done := by
        cases r <;> simp [Child.afterCall, show ch.connected = true from hconn]
      refine iff_of_false (fun hclosed => ?_) fun hend => hend.elim hpc' (by simp)
      rw [show ch.childEnd = false from hclosed] at hstill
      cases hstill
    | listen hpc | wake hpc => simp [hopen hconn (by simp [hpc])]
    | close hpc => simp [Child.hangUp]

theorem Placed.childStep (hx : x.Placed) (ho : x.Ordered) (hi : x.children[i]? = some ch)
    (halive : ch.alive = true) (hstep : ChildStep x i ch x') : x'.Placed := by
  obtain ⟨ch', hmoved⟩ := ho.childMoved hi hstep
  have hmoves := hmoved.moves
  have halive' : ch'.alive = true := hmoves.same.2.2.trans halive
  refine hx.childChange hi (childChange_moves hx hi halive hmoves) hmoved.children
    hmoved.unchanged.stage hmoved.quit hmoved.lis hmoved.backlog hmoved.closers hmoved.serve
    (fun hp => ?_) fun j hp => ?_
  · rcases hmoved.port with ⟨hport, -⟩ | ⟨-, hport, -⟩
    · exact hport ▸ hp
    · rw [hport] at hp
      cases hp
  · rcases hmoved.port with ⟨hport, -⟩ | ⟨-, hport, hpos⟩
    · -- the port stays with a child that goes on
      rw [hport] at hp
      by_cases hji : j = i
      · subst hji
        obtain ⟨c, hc, -, hpos⟩ := hx.childPort j hp
        obtain rfl := Option.some.inj (hi.symm.trans hc)
        exact .inr ⟨rfl, halive', hpos.trans hmoves.pos_lt.le⟩
      · exact .inl ⟨hji, hp⟩
    · rw [hport] at hp
      exact .inr ⟨(Holder.child.inj (Option.some.inj hp)).symm, halive', hpos⟩

theorem Placed.crash (hx : x.Placed) (hi : x.children[i]? = some ch) : (x.crash i ch).Placed := by
  have hchange : ChildChange x i ch { ch.hangUp with alive := false } :=
    { connected := rfl
      cut := .inl
      parentEnd := id
      unserved := fun _ hun => ⟨hun.connected, hun.parentEnd, hun.toChild, hun.pos⟩
      childEnd := fun _ => rfl
      ended := fun _ => iff_of_true rfl (.inr rfl) }
  refine hx.childChange hi hchange rfl rfl rfl rfl rfl rfl rfl (fun hp => (release_port.mp hp).1)
    fun j hp => ?_
  obtain ⟨hport, hne⟩ := release_port.mp hp
  exact .inl ⟨fun hji => hne (by rw [hji]), hport⟩

theorem Placed.closer (hx : x.Placed) (hi : x.children[i]? = some ch) (hcloser : i ∈ x.closers)
    (hquit : x.quit = true) : (x.setChild i ch.cutOff).Placed := by
  obtain ⟨-, hnot⟩ := hx.accepted i hcloser
  have hchange : ChildChange x i ch ch.cutOff :=
    { connected := rfl
      cut := fun _ => .inr hquit
      parentEnd := fun hend => by cases hend
      unserved := fun hb => absurd hb hnot
      childEnd := id
      ended := hx.ended i ch hi }
  refine hx.childChange hi hchange rfl rfl rfl rfl rfl rfl rfl id fun j hp => ?_
  by_cases hji : j = i
  · subst hji
    obtain ⟨c, hc, hrest⟩ := hx.childPort j hp
    obtain rfl := Option.some.inj (hi.symm.trans hc)
    exact .inr ⟨rfl, hrest⟩
  · exact .inl ⟨hji, hp⟩

/-- The parent ends. -/
theorem Placed.exit (hx : x.Placed) : x.exit.Placed := by
  have hkeeps := x.keeps_exit
  refine ⟨rfl, rfl, fun _ _ _ _ _ => rfl, fun _ _ _ _ => rfl, ?_, ?_, List.nodup_nil,
    fun i hc => ?_, fun _ => rfl, fun hq => ?_, fun i ch hi hconn => ?_, fun hp => ?_,
    fun i hp => ?_, fun _ i ch hi => ?_⟩
  · simp [Restart.exit, Serve.child]
  · simp [Restart.exit]
  · exact ⟨hkeeps.length_eq ▸ (hx.accepted i hc).1, by simp [Restart.exit]⟩
  · cases hq
  · obtain ⟨c, hc, rfl⟩ := exit_cases hi
    exact hx.ended i c hc hconn
  · exact absurd rfl (release_port.mp hp).2
  · obtain ⟨ch, hch, halive, hpos⟩ := hx.childPort i (release_port.mp hp).1
    exact ⟨ch.cutOff, by rw [Restart.exit, List.getElem?_map, hch]; rfl, halive, hpos⟩
  · obtain ⟨c, -, rfl⟩ := exit_cases hi
    rfl

/-- A new child is in the backlog, or has not reached the parent. -/
theorem Placed.start (hx : x.Placed) : x.start.Placed := by
  have hlast : x.start.children[x.children.length]? = some (newChild x.lis) := by
    rw [Restart.start, List.getElem?_append_right le_rfl, Nat.sub_self]
    rfl
  have hmem : ∀ i ∈ x.start.backlog, i ∈ x.backlog ∨ i = x.children.length ∧ x.lis = true := by
    intro i hb
    simp only [Restart.start] at hb
    split at hb
    · rename_i hlis
      exact (List.mem_append.mp hb).imp_right fun h => ⟨List.mem_singleton.mp h, hlis⟩
    · exact .inl hb
  -- the place of the new child is not in use
  have hfresh : x.children.length ∉ x.backlog := by
    intro hb
    obtain ⟨ch, hch, -⟩ := hx.backlog _ hb
    rw [List.getElem?_eq_none le_rfl] at hch
    cases hch
  refine ⟨hx.quit, hx.lis, fun i ch hi hconn hend => ?_, fun i ch hi hconn => ?_, fun i hc => ?_,
    fun i hb => ?_, ?_, fun i hc => ?_, fun hlis => ?_, fun hq i ch hi hconn => ?_,
    fun i ch hi hconn => ?_, hx.parentPort, fun i hp => ?_, fun hs i ch hi => ?_⟩
  · rcases start_cases hi with hi | ⟨-, rfl⟩
    · exact hx.cut i ch hi hconn hend
    · exact absurd (hconn.symm.trans hend) (by simp)
  · rcases start_cases hi with hi | ⟨-, rfl⟩
    · exact hx.dialed i ch hi hconn
    · exact hconn
  · obtain ⟨ch, hch, hrest⟩ := hx.served i hc
    exact ⟨ch, getElem?_start hch, hrest⟩
  · rcases hmem i hb with hb | ⟨rfl, hlis⟩
    · obtain ⟨ch, hch, hun⟩ := hx.backlog i hb
      exact ⟨ch, getElem?_start hch, hun⟩
    · exact ⟨_, hlast, hlis, hlis, rfl, Nat.zero_le 1⟩
  · simp only [Restart.start]
    split
    · refine List.nodup_append.mpr ⟨hx.nodup, List.nodup_singleton _, fun i hb j hj hij => ?_⟩
      rw [hij, List.mem_singleton.mp hj] at hb
      exact hfresh hb
    · exact hx.nodup
  · obtain ⟨hlt, hnot⟩ := hx.accepted i hc
    refine ⟨?_, fun hb => ?_⟩
    · rw [Restart.start, List.length_append]
      exact Nat.lt_add_right _ hlt
    · rcases hmem i hb with hb | ⟨rfl, -⟩
      · exact hnot hb
      · exact lt_irrefl _ hlt
  · have hshut : x.lis = false := hlis
    rw [Restart.start, hshut]
    exact hx.emptied hshut
  · rcases start_cases hi with hi | ⟨rfl, rfl⟩
    · refine (hx.covered hq i ch hi hconn).imp_left fun hb => ?_
      simp only [Restart.start]
      split
      · exact List.mem_append_left _ hb
      · exact hb
    · have hlis : x.lis = true := hconn
      refine .inl ?_
      rw [Restart.start, hlis]
      exact List.mem_append_right _ (List.mem_singleton_self _)
  · rcases start_cases hi with hi | ⟨-, rfl⟩
    · exact hx.ended i ch hi hconn
    · have hlis : x.lis = true := hconn
      simp [newChild, hlis]
  · obtain ⟨ch, hch, hrest⟩ := hx.childPort i hp
    exact ⟨ch, getElem?_start hch, hrest⟩
  · rcases start_cases hi with hi | ⟨-, rfl⟩
    · exact hx.gone hs i ch hi
    · show x.lis = false
      rw [hx.lis, show x.stage = .exited from hs]
      rfl

theorem Placed.accept (hx : x.Placed) {backlog : List Nat} (hlis : x.lis = true)
    (hbacklog : x.backlog = i :: backlog) (hserve : x.serve = .accepting) :
    { x with backlog := backlog, serve := .looping i, closers := i :: x.closers }.Placed := by
  obtain ⟨ch, hi, hun⟩ := hx.backlog i (by simp [hbacklog])
  have hsub : ∀ j ∈ backlog, j ∈ x.backlog := fun j hj => by simp [hbacklog, hj]
  have hnodup := hx.nodup
  rw [hbacklog, List.nodup_cons] at hnodup
  refine ⟨hx.quit, hx.lis, hx.cut, hx.dialed, fun j hc => ?_, fun j hb => hx.backlog j (hsub j hb),
    hnodup.2, fun j hc => ?_, fun hshut => ?_, fun hq j c hj hconn => ?_, hx.ended,
    hx.parentPort, hx.childPort, hx.gone⟩
  · cases hc
    exact ⟨ch, hi, hun.connected, List.mem_cons_self⟩
  · rcases List.mem_cons.mp hc with rfl | hc
    · exact ⟨(List.getElem?_eq_some_iff.mp hi).1, hnodup.1⟩
    · obtain ⟨hlt, hnot⟩ := hx.accepted j hc
      exact ⟨hlt, fun hb => hnot (hsub j hb)⟩
  · rw [hlis] at hshut
    cases hshut
  -- the child leaves the backlog and is served at once
  · rcases hx.covered hq j c hj hconn with hb | hs | hend
    · rw [hbacklog] at hb
      rcases List.mem_cons.mp hb with rfl | hb
      · exact .inr (.inl rfl)
      · exact .inl hb
    · rw [hserve] at hs
      cases hs
    · exact .inr (.inr hend)

/-- The handler of signals goes on to a stage before the last ones. -/
theorem Placed.staging (hx : x.Placed) (hchildren : x'.children = x.children)
    (hbacklog : x'.backlog = x.backlog) (hclosers : x'.closers = x.closers)
    (hserve : x'.serve = x.serve) (hlis : x'.lis = x.lis) (hquit' : x'.quit = x'.stage.quits)
    (hlis' : x'.lis = !x'.stage.closed) (hquit : x.quit = true → x'.quit = true)
    (hparent : x'.port = some .parent → x'.stage = .running ∨ x'.stage = .stopAdmin)
    (hchild : ∀ i, x'.port = some (.child i) → x.port = some (.child i))
    (hstage : x'.stage ≠ .exited) : x'.Placed := by
  refine ⟨hquit', hlis', fun i ch hi hconn hend => ?_, ?_, ?_, ?_, ?_, ?_, ?_, fun hq => ?_, ?_,
    hparent, fun i hp => ?_, fun hs => absurd hs hstage⟩
  · rw [hchildren] at hi
    exact hquit (hx.cut i ch hi hconn hend)
  · rw [hchildren, hlis]
    exact hx.dialed
  · rw [hchildren, hserve, hclosers]
    exact hx.served
  · rw [hchildren, hbacklog]
    exact hx.backlog
  · rw [hbacklog]
    exact hx.nodup
  · rw [hchildren, hbacklog, hclosers]
    exact hx.accepted
  · rw [hlis, hbacklog]
    exact hx.emptied
  -- `quit` is not opened again
  · have hnot : x.quit = false := by
      by_contra hyes
      rw [hquit (by simpa using hyes)] at hq
      cases hq
    rw [hchildren, hbacklog, hserve]
    exact hx.covered hnot
  · rw [hchildren]
    exact hx.ended
  · rw [hchildren]
    exact hx.childPort i (hchild i hp)

/-- The listener is closed: who is in the backlog is cut off. -/
theorem Placed.closeLis (hx : x.Placed) (hstage : x.stage = .closeLis) : x.closeLis.Placed := by
  have hquit : x.quit = true := by rw [hx.quit, hstage]; rfl
  -- only the ends of the parent change
  have hchild : ∀ (i : Nat) (ch : Child), x.closeLis.children[i]? = some ch →
      ∃ c, x.children[i]? = some c ∧ ch.pc = c.pc ∧ ch.connected = c.connected ∧
        ch.childEnd = c.childEnd ∧ ch.alive = c.alive := by
    intro i ch hi
    rw [Restart.closeLis, List.getElem?_mapIdx] at hi
    obtain ⟨c, hc, rfl⟩ := Option.map_eq_some_iff.mp hi
    refine ⟨c, hc, ?_⟩
    split <;> exact ⟨rfl, rfl, rfl, rfl⟩
  have hkept : ∀ (i : Nat) (c : Child), x.children[i]? = some c →
      ∃ ch, x.closeLis.children[i]? = some ch ∧ ch.pc = c.pc ∧ ch.connected = c.connected ∧
        ch.alive = c.alive := by
    intro i c hc
    refine ⟨_, by rw [Restart.closeLis, List.getElem?_mapIdx, hc, Option.map_some], ?_⟩
    split <;> exact ⟨rfl, rfl, rfl⟩
  refine ⟨hquit, rfl, fun _ _ _ _ _ => hquit, fun _ _ _ _ => rfl, fun i hc => ?_,
    by simp [Restart.closeLis], List.nodup_nil, fun i hc => ?_, fun _ => rfl,
    fun hq => ?_, fun i ch hi hconn => ?_, fun hp => ?_, fun i hp => ?_, by simp [Restart.closeLis]⟩
  · obtain ⟨c, hcc, hconn, hcloser⟩ := hx.served i hc
    obtain ⟨ch, hch, -, hconnected, -⟩ := hkept i c hcc
    exact ⟨ch, hch, hconnected.trans hconn, hcloser⟩
  · exact ⟨by simpa [Restart.closeLis] using (hx.accepted i hc).1, by simp [Restart.closeLis]⟩
  · rw [show x.quit = false from hq] at hquit
    cases hquit
  · obtain ⟨c, hc, hpc, hconnected, hend, halive⟩ := hchild i ch hi
    rw [hend, hpc, halive]
    exact hx.ended i c hc (hconnected ▸ hconn)
  · rcases hx.parentPort hp with hstage' | hstage'
    · rw [hstage] at hstage'
      cases hstage'
    · rw [hstage] at hstage'
      cases hstage'
  · obtain ⟨c, hc, halive, hpos⟩ := hx.childPort i hp
    obtain ⟨ch, hch, hpc, -, halive'⟩ := hkept i c hc
    exact ⟨ch, hch, halive'.trans halive, hpc ▸ hpos⟩

theorem Placed.shutdownStep (hx : x.Placed) (hstep : ShutdownStep x x') : x'.Placed := by
  have hquit := hx.quit
  have hlis := hx.lis
  cases hstep with
  | notice hstage =>
    rw [hstage] at hquit hlis
    exact hx.staging rfl rfl rfl rfl rfl hquit hlis id (fun _ => .inr rfl) (fun _ => id) (by simp)
  | stopAdmin hstage =>
    rw [hstage] at hquit hlis
    exact hx.staging rfl rfl rfl rfl rfl hquit hlis id
      (fun hp => absurd rfl (release_port.mp hp).2) (fun i hp => (release_port.mp hp).1) (by simp)
  | closeQuit hstage =>
    rw [hstage] at hquit hlis
    refine hx.staging rfl rfl rfl rfl rfl rfl hlis (fun _ => rfl) (fun hp => ?_) (fun _ => id)
      (by simp)
    rcases hx.parentPort hp with hstage' | hstage' <;> simp [hstage] at hstage'
  | closeLis hstage => exact hx.closeLis hstage
  | exit => exact hx.exit

theorem handled_refl (ch : Child) : Handled ch ch := ⟨rfl, rfl, rfl, rfl, rfl⟩

/-- The parent does something to the child that it serves. -/
theorem Placed.servingChild (hx : x.Placed) (hi : x.children[i]? = some ch)
    (hserve : x.serve.child = some i) (hchildren : x'.children = (x.setChild i ch').children)
    (hhandled : Handled ch ch') (hstage : x'.stage = x.stage)
    (hquit : x'.quit = x.quit) (hlis : x'.lis = x.lis) (hport : x'.port = x.port)
    (hbacklog : x'.backlog = x.backlog) (hclosers : x'.closers = x.closers)
    (hserve' : x'.serve.child = some i) : x'.Placed := by
  refine hx.serving (keeps_setChild handled_refl hi hhandled hchildren) (fun j hb => ?_) hstage
    hquit hlis (.inl hport) hbacklog hclosers (.inl (hserve'.trans hserve.symm))
  -- who is served is not in the backlog any more
  obtain ⟨-, -, -, hcloser⟩ := hx.served i hserve
  have hji : j ≠ i := fun hji => (hx.accepted i hcloser).2 (hji ▸ hb)
  rw [hchildren, getElem?_setChild_ne hji]

/-- The parent goes on serving, without doing anything to a child. -/
theorem Placed.servingOn (hx : x.Placed) (hchildren : x'.children = x.children)
    (hstage : x'.stage = x.stage) (hquit : x'.quit = x.quit) (hlis : x'.lis = x.lis)
    (hport : x'.port = x.port ∨ x'.port = (x.release .parent).port)
    (hbacklog : x'.backlog = x.backlog) (hclosers : x'.closers = x.closers)
    (hserve : x'.serve.child = x.serve.child ∨ Leaves x x') : x'.Placed :=
  hx.serving (keeps_of_eq handled_refl hchildren) (fun _ _ => by rw [hchildren]) hstage hquit hlis
    hport hbacklog hclosers hserve

theorem Placed.act (hx : x.Placed) (hserve : x.serve = .acting i h) : (x.act i h).Placed := by
  have hchild : x.serve.child = some i := by rw [hserve]; rfl
  cases h with
  | shutdownLocalConf => exact hx.exit
  | shutdownAdmin =>
    show ({ x.shutdownAdmin with serve := .replying i .shutdownAdmin } : Restart).Placed
    rw [Restart.shutdownAdmin]
    split
    · exact hx.servingOn rfl rfl rfl rfl (.inl rfl) rfl rfl (.inl hchild.symm)
    · exact hx.servingOn rfl rfl rfl rfl (.inr rfl) rfl rfl (.inl hchild.symm)
  | drainListeners =>
    show ({ x.drainListeners with serve := .replying i .drainListeners } : Restart).Placed
    rw [Restart.drainListeners]
    split <;>
      exact hx.servingOn rfl rfl rfl rfl (.inl rfl) rfl rfl (.inl hchild.symm)
  | terminate | unknown =>
    exact hx.servingOn rfl rfl rfl rfl (.inl rfl) rfl rfl (.inl hchild.symm)

theorem Placed.serveStep (hx : x.Placed) (hstep : ServeStep x x') : x'.Placed := by
  cases hstep with
  | leave hserve hlis =>
    have hchild : x.serve.child = none := by rw [hserve]; rfl
    exact hx.servingOn rfl rfl rfl rfl (.inl rfl) rfl rfl (.inl hchild.symm)
  | accept hserve hlis hbacklog => exact hx.accept hlis hbacklog hserve
  | stop hserve hquit =>
    exact hx.servingOn rfl rfl rfl rfl (.inl rfl) rfl rfl (.inr ⟨rfl, .inl hquit⟩)
  | @poll i hserve | @readClosed i _ hserve | @kill i hserve =>
    have hchild : x.serve.child = some i := by rw [hserve]; rfl
    exact hx.servingOn rfl rfl rfl rfl (.inl rfl) rfl rfl (.inl hchild.symm)
  | @read i _ _ hserve hi | @readFails i _ hserve hi | @readReset i _ hserve hi =>
    have hchild : x.serve.child = some i := by rw [hserve]; rfl
    exact hx.servingChild hi hchild rfl ⟨rfl, rfl, rfl, rfl, rfl⟩ rfl rfl rfl rfl rfl rfl rfl
  | readPanics => exact hx.exit
  -- the connection ends because the child has closed it
  | readEOF hserve hi _ _ hend =>
    refine hx.servingOn rfl rfl rfl rfl (.inl rfl) rfl rfl
      (.inr ⟨rfl, .inr fun j c hj hc => ?_⟩)
    rw [hserve] at hj
    cases hj
    obtain rfl := Option.some.inj (hi.symm.trans hc)
    exact hend
  | act hserve => exact hx.act hserve
  | @reply i h ch hserve hi =>
    have hchild : x.serve.child = some i := by rw [hserve]; rfl
    refine hx.servingChild hi hchild rfl ⟨rfl, rfl, rfl, rfl, rfl⟩ rfl rfl rfl rfl rfl rfl ?_
    rw [Restart.reply]
    split <;> rfl

/-- **What one step preserves.** -/
theorem Placed.step (hx : x.Placed) (ho : x.Ordered) (hstep : Step x a x') : x'.Placed := by
  cases hstep with
  | start => exact hx.start
  | child hi halive hstep => exact hx.childStep ho hi halive hstep
  | serve _ hstep => exact hx.serveStep hstep
  | closer hi _ hcloser hquit => exact hx.closer hi hcloser hquit
  | shutdown hstep => exact hx.shutdownStep hstep
  | ctlStopped hstage =>
    have hquit := hx.quit
    have hlis := hx.lis
    rw [hstage] at hquit hlis
    refine hx.staging rfl rfl rfl rfl rfl hquit hlis id (fun hp => ?_) (fun _ => id) (by simp)
    rcases hx.parentPort hp with hstage' | hstage' <;> simp [hstage] at hstage'
  | retryListen | acceptRetry => exact hx
  | acceptFails hserve =>
    have hchild : x.serve.child = none := by rw [hserve]; rfl
    exact hx.servingOn rfl rfl rfl rfl (.inl rfl) rfl rfl (.inl hchild.symm)
  | signal => exact hx.servingOn rfl rfl rfl rfl (.inl rfl) rfl rfl (.inl rfl)
  | crash hi => exact hx.crash hi
  | crashParent => exact hx.exit

end Restart

end Samaritan.HotRestart
