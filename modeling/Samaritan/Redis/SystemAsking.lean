import Mathlib.Data.List.Chain
import Samaritan.Redis.ClientShutdown
import Samaritan.Redis.System

/-!
# `ASKING` and Its Request

After an `ASK` reply `handleRedirection` dispatches `ASKING` and then the request to the same
address, by two calls of `MakeRequestToHost`. A node takes `ASKING` for the next command of its
connection only. The two commands are written one right behind the other when each of them is put
on the queue of the client right behind the other and the filters stop neither: a request of
another goroutine can come between the two calls, and the second call looks up the client again.
-/

namespace Samaritan.Redis

open Samaritan.Lib

/-! ## The line of a client -/

/-- What `loopWrite` is still going to write, in order. -/
def ClientWrite.toWrite {ρ : Type} (pending : List ρ) : ClientWrite ρ → List ρ
  | .select => pending
  | .filter req => req :: pending
  | .encode req _ => req :: pending
  | .checkLen _ => pending
  | .flush _ => pending
  | .enqueue _ => pending
  | .fail _ _ => []
  | .returned => []
  | .exited => []

/-- `loopWrite` goes on to take requests. -/
def ClientWrite.active {ρ : Type} : ClientWrite ρ → Bool
  | .fail _ _ => false
  | .returned => false
  | .exited => false
  | _ => true

namespace Client

variable {ρ : Type}

/-- The requests that are written and those that are going to be written, in order. -/
def line (c : Client ρ) : List ρ :=
  c.encoded.map Prod.fst ++ c.loopWrite.toWrite c.pendingReqs

theorem encoded_isPrefix_line (c : Client ρ) : c.encoded.map Prod.fst <+: c.line :=
  List.prefix_append _ _

/-- What a step does to the line: it stays or is cut behind what is written, a request is put at
    its end, or the filters stop a request. -/
theorem Step.line_cases {c c' : Client ρ} {a : ClientStep ρ} (hs : Staged c) (h : Step c a c') :
    c'.line <+: c.line ∨
    (∃ req, a = .put req ∧ c.loopWrite.active = true ∧ c'.line = c.line ++ [req]) ∨
    ∃ l₁ req l₂, a = .filterStop ∧ c.loopWrite = .filter req ∧ c.line = l₁ ++ req :: l₂ ∧
      c'.line = l₁ ++ l₂ := by
  cases h with
  | @put l₁ l₂ req hsend hroom =>
    cases hactive : c.loopWrite.active with
    | false =>
      refine .inl ?_
      cases hpos : c.loopWrite <;> simp_all [ClientWrite.active, line, ClientWrite.toWrite]
    | true =>
      refine .inr (.inl ⟨req, rfl, rfl, ?_⟩)
      cases hpos : c.loopWrite <;> simp_all [ClientWrite.active, line, ClientWrite.toWrite]
  | @filterStop req hpos =>
    refine .inr (.inr ⟨c.encoded.map Prod.fst, req, c.pendingReqs, rfl, hpos, ?_, rfl⟩)
    simp [line, hpos, ClientWrite.toWrite]
  | drainPending hpos hqueue =>
    -- nothing is written any more
    have hexited : c.loopWrite = .exited := hs.writeDone (by simp [hpos])
    simp [line, hexited, ClientWrite.toWrite]
  | take hpos hqueue => simp [line, hpos, hqueue, ClientWrite.toWrite]
  | writeQuit hpos | filterContinue hpos | encode hpos | encodeErr hpos | checkLenEmpty hpos
  | checkLen hpos | flush hpos | flushErr hpos | enqueue hpos | enqueueQuit hpos | fail hpos
  | writeExit hpos => simp [line, hpos, ClientWrite.toWrite]
  | _ => exact .inl List.prefix_rfl

end Client

/-! ## One right behind the other -/

/-- A request of the role `y` can come right behind one of the role `x`. -/
def Role.Next (x y : Role) : Prop := ∀ d, x = .asking d ↔ y = .asked d

instance (x y : Role) : Decidable (x.Next y) :=
  match x, y with
  | .asking d, .asked e => decidable_of_iff (d = e) (by
      constructor
      · rintro rfl
        simp [Role.Next]
      · intro h
        simpa using ((h d).mp rfl).symm)
  | .asking d, .plain => isFalse fun h => by simpa using (h d).mp rfl
  | .asking d, .asking _ => isFalse fun h => by simpa using (h d).mp rfl
  | .plain, .asked e => isFalse fun h => by simpa using (h e).mpr rfl
  | .asked _, .asked e => isFalse fun h => by simpa using (h e).mpr rfl
  | .plain, .plain => isTrue (by simp [Role.Next])
  | .plain, .asking _ => isTrue (by simp [Role.Next])
  | .asked _, .plain => isTrue (by simp [Role.Next])
  | .asked _, .asking _ => isTrue (by simp [Role.Next])

/-- In the list `ASKING` is right in front of its request and nothing else is, and a request that
    needs an `ASKING` is right behind it. -/
def Together (items : List Item) : Prop := (Role.plain :: items.map Item.role).IsChain Role.Next

/-- The role of the last request. -/
def lastRole (items : List Item) : Role := (items.map Item.role).getLast?.getD .plain

theorem together_singleton (req : Nat) : Together [⟨req, .plain⟩] := by
  simp [Together, Role.Next]

theorem Together.of_isPrefix {items items' : List Item} (h : Together items)
    (hpre : items' <+: items) : Together items' := by
  obtain ⟨rest, rfl⟩ := hpre
  rw [Together, List.map_append, ← List.cons_append] at h
  exact h.left_of_append

theorem Together.append {items : List Item} (h : Together items) {item : Item}
    (hnext : (lastRole items).Next item.role) : Together (items ++ [item]) := by
  rw [Together, List.map_append, ← List.cons_append]
  refine List.IsChain.append h (by simp) ?_
  intro x hx y hy
  simp only [List.getLast?_cons, Option.mem_def, Option.some.injEq] at hx
  simp only [List.map_cons, List.map_nil, List.head?_cons, Option.mem_def, Option.some.injEq] at hy
  rw [← hx, ← hy]
  exact hnext

/-- A request without a companion is taken out. -/
theorem Together.remove {l₁ l₂ : List Item} {item : Item} (h : Together (l₁ ++ item :: l₂))
    (hplain : item.role = .plain) : Together (l₁ ++ l₂) := by
  rw [Together, List.map_append, List.map_cons, hplain, ← List.cons_append] at h
  rw [Together, List.map_append, ← List.cons_append]
  obtain ⟨hleft, hright, hjoin⟩ := List.isChain_append.mp h
  obtain ⟨hhead, htail⟩ := List.isChain_cons.mp hright
  refine List.IsChain.append hleft htail fun x hx y hy d => ?_
  -- neither neighbour has a companion in the request between them
  have hx' := hjoin x hx .plain (by simp) d
  have hy' := hhead y hy d
  simp only [reduceCtorEq, iff_false, false_iff] at hx' hy'
  simp [hx', hy']

/-- Among the written commands `ASKING` is right in front of the request it is for. -/
def WrittenTogether (encoded : List (Item × RespValue)) : Prop :=
  ∀ l₁ x l₂, encoded = l₁ ++ x :: l₂ → ∀ d,
    (x.1.role = .asked d → ∃ y ∈ l₁.getLast?, y.1.role = .asking d) ∧
      (x.1.role = .asking d → ∀ y ∈ l₂.head?, y.1.role = .asked d)

theorem writtenTogether_of_together {encoded : List (Item × RespValue)}
    (h : Together (encoded.map Prod.fst)) : WrittenTogether encoded := by
  rintro l₁ x l₂ rfl d
  rw [Together, List.map_append, List.map_append, List.map_cons, List.map_cons,
    ← List.cons_append] at h
  obtain ⟨-, hright, hjoin⟩ := List.isChain_append.mp h
  obtain ⟨hhead, -⟩ := List.isChain_cons.mp hright
  constructor
  · intro hasked
    have hlast := fun r hr => hjoin r hr x.1.role (by simp) d
    rcases List.eq_nil_or_concat l₁ with rfl | ⟨l₀, y, rfl⟩
    · have hplain := hlast .plain (by simp)
      simp [hasked] at hplain
    · refine ⟨y, by simp, ?_⟩
      exact (hlast y.1.role (by simp [List.getLast?_cons])).mpr hasked
  · intro hasking y hy
    refine (hhead y.1.role ?_ d).mp hasking
    cases l₂ with
    | nil => simp at hy
    | cons z rest =>
      obtain rfl : z = y := by simpa using hy
      simp

namespace System

/-! ## Runs -/

/-- The request that is about to be put on the queue of a client can be the next one there: it
    does not come between `ASKING` and its request, and it comes right behind its own `ASKING`. -/
def PutFits (s : System) : List Job → Prop
  | ⟨item, .put c⟩ :: _ => ∀ cl ∈ s.clients c, cl.loopWrite.active = true →
      (lastRole cl.line).Next item.role
  | _ => True

/-- The filters stop neither `ASKING` nor its request. -/
def StopFits : ClientWrite Item → Prop
  | .filter item => item.role = .plain
  | _ => True

/-- The step keeps `ASKING` and its request together. -/
def AsksTogether (s : System) : SystemStep → Prop
  | .put k => s.PutFits (s.callers k)
  | .client c .filterStop => ∀ cl ∈ s.clients c, StopFits cl.loopWrite
  | _ => True

instance (s : System) (jobs : List Job) : Decidable (s.PutFits jobs) :=
  match jobs with
  | ⟨_, .put _⟩ :: _ => inferInstanceAs (Decidable (∀ cl ∈ s.clients _, _ → _))
  | [] => isTrue trivial
  | ⟨_, .choose _⟩ :: _ => isTrue trivial
  | ⟨_, .check _⟩ :: _ => isTrue trivial
  | ⟨_, .get _⟩ :: _ => isTrue trivial
  | ⟨_, .send _⟩ :: _ => isTrue trivial

instance (w : ClientWrite Item) : Decidable (StopFits w) := by
  unfold StopFits
  split
  · infer_instance
  · infer_instance

instance (s : System) (a : SystemStep) : Decidable (s.AsksTogether a) := by
  unfold AsksTogether
  split
  · infer_instance
  · infer_instance
  · infer_instance

/-- The line of the client is in order. -/
def InLine (cl : Client Item) : Prop := cl.Staged ∧ Together cl.line

theorem inLine_connect (req : Nat) : InLine (connect ⟨req, .plain⟩) :=
  ⟨Client.staged_of_run (connect_eq _), together_singleton req⟩

/-- **One step**: a step that keeps `ASKING` and its request together keeps the lines in order. -/
theorem AllClients.inLine_step {s s' : System} {a : SystemStep} (hs : AllClients InLine s)
    (hasks : AsksTogether s a) (h : Step s a s') : AllClients InLine s' := by
  intro c cl' hcl'
  rcases h.client_cases hcl' with hsame | ⟨cl, b, hcl, hb, hcause⟩ | ⟨t, -, rfl⟩
  · exact hs c cl' hsame
  · obtain ⟨hstaged, htogether⟩ := hs c cl hcl
    refine ⟨hstaged.step hb, ?_⟩
    -- the line loses its end, gets an item, or loses one the filters stop
    rcases hb.line_cases hstaged with hpre | ⟨item, rfl, hactive, hline⟩ |
      ⟨l₁, item, l₂, rfl, hpos, hline, hline'⟩
    · exact htogether.of_isPrefix hpre
    · rw [hline]
      refine htogether.append ?_
      cases hcause with
      | byItself hself => cases hself
      | put hk =>
        rw [AsksTogether, hk] at hasks
        exact hasks cl hcl hactive
    · rw [hline] at htogether
      rw [hline']
      refine htogether.remove ?_
      cases hcause with
      | byItself =>
        have hstop := hasks cl hcl
        rw [hpos] at hstop
        exact hstop
  · exact inLine_connect _

/-- **`ASKING` and its request**: in every run in which no other request is put on the queue of a
    client between an `ASKING` and its request, the request is put right behind its `ASKING` and
    the filters stop neither, every client writes `ASKING` right in front of its request. -/
theorem asking_together {as : List SystemStep} {s : System}
    (hrun : runFrom step newSystem as = some s)
    (hmeets : RunMeets step AsksTogether newSystem as) {c : Nat} {cl : Client Item}
    (hcl : s.clients c = some cl) : WrittenTogether cl.encoded := by
  have hstep : ∀ (s : System) a s', AllClients InLine s → AsksTogether s a → step s a = some s' →
      AllClients InLine s' := fun s a s' hs hasks h => hs.inLine_step hasks (step_cases h)
  have hline := invariant_of_runMeets hstep (allClients_newSystem _) hmeets hrun c cl hcl
  exact writtenTogether_of_together (hline.2.of_isPrefix cl.encoded_isPrefix_line)

/-- Several steps of a client. -/
def clientSteps (c : Nat) (as : List (ClientStep Item)) : List SystemStep := as.map (.client c)

/-- A command of one word or more. -/
def command (words : List String) : RespValue :=
  .array (some (words.map fun w => .bulkString (some (bytesOf w))))

/-- A session sends a request to a node that has no client yet. The node answers with `ASK`, and
    `ASKING` is put on the queue of a new client of another node. -/
def askRun : List SystemStep :=
  [.request 0 noSurroundings (command ["get", "k"]), .choose (.session 0) (some (bytesOf "a")),
    .check (.session 0) 0, .registry (.load 0), .registry (.store 0 0), .registry (.lock 0),
    .dialOk 0 0, .registry (.finish 0), .got (.session 0), .send (.session 0),
    .put (.session 0)] ++
  clientSteps 0 [.take, .filterContinue (command ["readonly"]), .encode, .checkLen, .enqueue,
    .take, .filterContinue (command ["get", "k"]), .encode, .checkLen, .flush, .enqueue,
    .answer respOK, .decode, .receive, .handle,
    .answer (.error (bytesOf "ASK 1 b")), .decode, .receive, .handle] ++
  [.check (.client 0) 1, .registry (.load 1), .registry (.store 1 1), .registry (.lock 1),
    .dialOk 1 1, .registry (.finish 1), .got (.client 0), .send (.client 0), .put (.client 0)]

/-- The request for which `ASKING` was put follows. -/
def askedPut : List SystemStep :=
  [.check (.client 0) 2, .registry (.load 2), .got (.client 0), .send (.client 0),
    .put (.client 0)]

/-- Another session sends a request to that node. -/
def otherPut : List SystemStep :=
  [.request 1 noSurroundings (command ["get", "k"]), .choose (.session 1) (some (bytesOf "b")),
    .check (.session 1) 3, .registry (.load 3), .got (.session 1), .send (.session 1),
    .put (.session 1)]

/-- The new client writes the request at the front of its queue. -/
def writeNext (words : List String) : List SystemStep :=
  clientSteps 1 [.take, .filterContinue (command words), .encode, .checkLen, .enqueue]

/-- The request of the other session comes in between. -/
def interleavedRun : List SystemStep :=
  askRun ++ otherPut ++ askedPut ++ writeNext ["readonly"] ++ writeNext ["asking"] ++
    writeNext ["get", "k"]

/-- The request of the other session comes last. -/
def orderlyRun : List SystemStep :=
  askRun ++ askedPut ++ otherPut ++ writeNext ["readonly"] ++ writeNext ["asking"] ++
    writeNext ["get", "k"]

/-- The roles of what the client of the second node has written. -/
def written (s : System) : Option (List Role) :=
  (s.clients 1).map fun cl => cl.encoded.map fun e => e.1.role

theorem interleavedRun_written :
    (runFrom step newSystem interleavedRun).map written =
      some (some [.plain, .asking 2, .plain]) := by
  decide +kernel

theorem orderlyRun_written :
    (runFrom step newSystem orderlyRun).map written =
      some (some [.plain, .asking 2, .asked 2]) := by
  decide +kernel

theorem orderlyRun_asksTogether : RunMeets step AsksTogether newSystem orderlyRun := by
  decide +kernel

/-- In `interleavedRun` the command of another session is written right behind `ASKING`. -/
theorem not_writtenTogether_interleavedRun :
    ∃ s cl, Reachable step newSystem s ∧ s.clients 1 = some cl ∧ ¬ WrittenTogether cl.encoded := by
  obtain ⟨s, hrun, hwritten⟩ := Option.map_eq_some_iff.mp interleavedRun_written
  obtain ⟨cl, hcl, hroles⟩ := Option.map_eq_some_iff.mp hwritten
  refine ⟨s, cl, ⟨_, hrun⟩, hcl, fun htogether => ?_⟩
  obtain ⟨x, rest, hx, hxrole, hrest⟩ := List.map_eq_cons_iff.mp hroles
  obtain ⟨y, rest', rfl, hyrole, hrest'⟩ := List.map_eq_cons_iff.mp hrest
  obtain ⟨z, rest'', rfl, hzrole, -⟩ := List.map_eq_cons_iff.mp hrest'
  have hbehind := (htogether [x] y (z :: rest'') hx 2).2 hyrole z rfl
  rw [hzrole] at hbehind
  cases hbehind

/-- `asking_together` at `orderlyRun`, where `ASKING` and its request are written. -/
theorem asking_together_orderlyRun :
    ∃ s cl, runFrom step newSystem orderlyRun = some s ∧ s.clients 1 = some cl ∧
      cl.encoded.map (fun e => e.1.role) = [.plain, .asking 2, .asked 2] ∧
      WrittenTogether cl.encoded := by
  obtain ⟨s, hrun, hwritten⟩ := Option.map_eq_some_iff.mp orderlyRun_written
  obtain ⟨cl, hcl, hroles⟩ := Option.map_eq_some_iff.mp hwritten
  exact ⟨s, cl, hrun, hcl, hroles, asking_together hrun orderlyRun_asksTogether hcl⟩

end System

end Samaritan.Redis
