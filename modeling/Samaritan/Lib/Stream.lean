import Samaritan.Lib.Decimal

/-!
# Byte Streams and Buffered Writing

The two ends of a connection as a program sees them.

- `Source` is an input that is read in calls: each call returns the bytes that are
  there, at most as many as asked for, possibly together with an error.
- `Sink` is an output that accepts bytes until it fails.
- `BufWriter` is a writer with a fixed buffer in front of a `Sink`: the bytes not
  yet handed over are in `buf`, the first error is kept and stops every later call.

Errors are of an arbitrary type `ε`. How an input is cut into chunks and when an
output fails are parameters of the initial state, so that all operations are
functions.
-/

namespace Samaritan.Lib

variable {ε : Type*}

theorem take_ne_nil {α : Type*} {l : List α} {n : Nat} (hn : 0 < n) (hl : l ≠ []) :
    l.take n ≠ [] := by
  rw [Ne, List.take_eq_nil_iff, not_or]
  exact ⟨Nat.ne_of_gt hn, hl⟩

/-! ## Sources -/

/-- What one read call can return at most: data, and an error that comes with it. -/
structure Chunk (ε : Type*) where
  data : Bytes
  err : Option ε

/-- An input: the chunks still to be returned, and the error of every call after them. -/
structure Source (ε : Type*) where
  chunks : List (Chunk ε)
  final : ε

/-- One read call for at most `n` bytes. A chunk that is longer than `n` is returned in
    parts, its error with the last part. -/
def Source.read (s : Source ε) (n : Nat) : Bytes × Option ε × Source ε :=
  match s.chunks with
  | [] => ([], some s.final, s)
  | c :: cs =>
    if c.data.length ≤ n then (c.data, c.err, { s with chunks := cs })
    else (c.data.take n, none, { s with chunks := { c with data := c.data.drop n } :: cs })

/-- All bytes an input still holds. -/
def Source.bytes (s : Source ε) : Bytes := (s.chunks.map Chunk.data).flatten

theorem Source.length_read_le (s : Source ε) (n : Nat) : (s.read n).1.length ≤ n := by
  rw [Source.read]
  split
  · simp
  · split
    · assumption
    · simp

/-- No byte is lost between a read call and the rest of the input. -/
theorem Source.read_append_bytes (s : Source ε) (n : Nat) :
    (s.read n).1 ++ (s.read n).2.2.bytes = s.bytes := by
  obtain ⟨chunks, final⟩ := s
  cases chunks with
  | nil => simp [Source.read, Source.bytes]
  | cons c cs =>
    simp only [Source.read]
    split <;> simp [Source.bytes, ← List.append_assoc]

theorem Source.length_chunks_read_le (s : Source ε) (n : Nat) :
    (s.read n).2.2.chunks.length ≤ s.chunks.length := by
  rw [Source.read]
  split
  · exact le_refl _
  · rename_i c cs hchunks
    rw [hchunks]
    split
    · exact Nat.le_succ _
    · exact le_refl _

/-- A call that returns neither bytes nor an error has used up a chunk. -/
theorem Source.read_progress {s : Source ε} {n : Nat} (hn : 0 < n) (h : (s.read n).2.1 = none) :
    ((s.read n).1 ≠ [] ∧ (s.read n).2.2.chunks.length ≤ s.chunks.length) ∨
      (s.read n).2.2.chunks.length < s.chunks.length := by
  obtain ⟨chunks, final⟩ := s
  cases chunks with
  | nil => simp [Source.read] at h
  | cons c cs =>
    simp only [Source.read]
    split
    · exact Or.inr (by simp)
    · rename_i hlong
      have hdata : c.data ≠ [] := by
        intro hnil
        simp [hnil] at hlong
      exact Or.inl ⟨take_ne_nil hn hdata, by simp⟩

/-- The input returns its bytes in non-empty pieces and without errors until they are
    all read. -/
def Source.Clean (s : Source ε) : Prop := ∀ c ∈ s.chunks, c.data ≠ [] ∧ c.err = none

@[simp] theorem Source.read_final (s : Source ε) (n : Nat) : (s.read n).2.2.final = s.final := by
  rw [Source.read]
  split
  · rfl
  · split <;> rfl

/-- A clean input without bytes has come to its end. -/
theorem Source.Clean.read_of_nil {s : Source ε} (hs : s.Clean) (hb : s.bytes = []) (n : Nat) :
    s.read n = ([], some s.final, s) := by
  obtain ⟨chunks, final⟩ := s
  cases chunks with
  | nil => rfl
  | cons c cs =>
    have hdata := (hs c (List.mem_cons_self ..)).1
    simp [Source.bytes, hdata] at hb

/-- A clean input that still holds bytes returns some of them, without an error. -/
theorem Source.Clean.read {s : Source ε} (hs : s.Clean) (hb : s.bytes ≠ []) {n : Nat}
    (hn : 0 < n) :
    (s.read n).1 ≠ [] ∧ (s.read n).2.1 = none ∧ (s.read n).2.2.Clean := by
  obtain ⟨chunks, final⟩ := s
  cases chunks with
  | nil => simp [Source.bytes] at hb
  | cons c cs =>
    obtain ⟨hdata, herr⟩ := hs c (List.mem_cons_self ..)
    have htail : ∀ d ∈ cs, d.data ≠ [] ∧ d.err = none :=
      fun d hd => hs d (List.mem_cons_of_mem _ hd)
    simp only [Source.read]
    split
    · exact ⟨hdata, herr, htail⟩
    · rename_i hlong
      refine ⟨take_ne_nil hn hdata, rfl, ?_⟩
      intro d hd
      rcases List.mem_cons.mp hd with rfl | hd
      · refine ⟨?_, herr⟩
        rw [Ne, List.drop_eq_nil_iff]
        exact hlong
      · exact htail d hd

/-! ### Errors that come with bytes -/

/-- A chunk with its error in a call of its own. -/
def Chunk.separate (c : Chunk ε) : List (Chunk ε) :=
  match c.err with
  | none => [c]
  | some e => if c.data = [] then [c] else [⟨c.data, none⟩, ⟨[], some e⟩]

/-- The input with each error in the call behind the bytes it came with. -/
def Source.separate (s : Source ε) : Source ε :=
  { s with chunks := s.chunks.flatMap Chunk.separate }

/-- The input behind one more call, which returns the error. -/
def Source.failing (s : Source ε) (e : ε) : Source ε :=
  { s with chunks := ⟨[], some e⟩ :: s.chunks }

theorem Source.read_failing (s : Source ε) (e : ε) (n : Nat) :
    (s.failing e).read n = ([], some e, s) := by
  simp [Source.failing, Source.read]

theorem Source.bytes_failing (s : Source ε) (e : ε) : (s.failing e).bytes = s.bytes := by
  simp [Source.failing, Source.bytes]

theorem Source.bytes_separate (s : Source ε) : s.separate.bytes = s.bytes := by
  obtain ⟨chunks, final⟩ := s
  simp only [Source.separate, Source.bytes]
  induction chunks with
  | nil => rfl
  | cons c cs ih =>
    obtain ⟨data, err⟩ := c
    rw [List.flatMap_cons, List.map_append, List.flatten_append, ih]
    cases err with
    | none => simp [Chunk.separate]
    | some e =>
      by_cases hdata : data = []
      · simp [Chunk.separate, hdata]
      · simp [Chunk.separate, hdata]

/-- A call on the separated input returns the same, unless bytes come with an error: then the error
    comes with the next call. -/
theorem Source.read_separate (s : Source ε) (n : Nat) :
    (((s.read n).1 = [] ∨ (s.read n).2.1 = none) ∧
      s.separate.read n = ((s.read n).1, (s.read n).2.1, (s.read n).2.2.separate)) ∨
    ((s.read n).1 ≠ [] ∧ ∃ e, (s.read n).2.1 = some e ∧
      s.separate.read n = ((s.read n).1, none, (s.read n).2.2.separate.failing e)) := by
  obtain ⟨chunks, final⟩ := s
  cases chunks with
  | nil => exact .inl ⟨.inl rfl, rfl⟩
  | cons c cs =>
    obtain ⟨data, err⟩ := c
    by_cases hlen : data.length ≤ n
    · cases err with
      | none =>
        refine .inl ⟨.inr ?_, ?_⟩
        · simp [Source.read, hlen]
        · simp [Source.read, Source.separate, Chunk.separate, hlen]
      | some e =>
        by_cases hdata : data = []
        · subst hdata
          exact .inl ⟨.inl (by simp [Source.read]),
            by simp [Source.read, Source.separate, Chunk.separate]⟩
        · refine .inr ⟨by simpa [Source.read, hlen] using hdata, e, ?_, ?_⟩
          · simp [Source.read, hlen]
          · simp [Source.read, Source.separate, Source.failing, Chunk.separate, hlen, hdata]
    -- a long chunk is returned in parts, and the error comes with the last one
    · have hdata : data ≠ [] := by
        rintro rfl
        exact hlen (Nat.zero_le n)
      have hrest : data.drop n ≠ [] := by
        rw [Ne, List.drop_eq_nil_iff]
        exact hlen
      refine .inl ⟨.inr ?_, ?_⟩
      · simp [Source.read, hlen]
      · cases err with
        | none => simp [Source.read, Source.separate, Chunk.separate, hlen]
        | some e => simp [Source.read, Source.separate, Chunk.separate, hlen, hdata, hrest]

/-! ## Sinks -/

/-- An output: the bytes it has accepted, and, when it is going to fail, how many more
    it accepts and the error it then returns. -/
structure Sink (ε : Type*) where
  out : Bytes
  limit : Option (Nat × ε)

/-- One write call: how many bytes were accepted, the error, and the output after it. -/
def Sink.write (s : Sink ε) (p : Bytes) : Nat × Option ε × Sink ε :=
  match s.limit with
  | none => (p.length, none, { s with out := s.out ++ p })
  | some (k, e) =>
    if p.length ≤ k then (p.length, none, ⟨s.out ++ p, some (k - p.length, e)⟩)
    else (k, some e, ⟨s.out ++ p.take k, some (0, e)⟩)

/-- What one write call can do: accept everything, or fail after a proper part. -/
theorem Sink.write_cases (s : Sink ε) (p : Bytes) :
    (∃ s', s.write p = (p.length, none, s') ∧ s'.out = s.out ++ p) ∨
    (∃ k e s', s.write p = (k, some e, s') ∧ k < p.length ∧ s'.out = s.out ++ p.take k) := by
  obtain ⟨out, limit⟩ := s
  cases limit with
  | none => exact Or.inl ⟨_, rfl, rfl⟩
  | some l =>
    obtain ⟨k, e⟩ := l
    by_cases hk : p.length ≤ k
    · exact Or.inl ⟨⟨out ++ p, some (k - p.length, e)⟩, by simp [Sink.write, hk], rfl⟩
    · exact Or.inr ⟨k, e, ⟨out ++ p.take k, some (0, e)⟩, by simp [Sink.write, hk],
        by omega, rfl⟩

/-! ## Buffered writers -/

/-- A buffered writer (`bufio.Writer`). -/
structure BufWriter (ε : Type*) where
  size : Nat
  buf : Bytes
  wr : Sink ε
  err : Option ε
  size_pos : 0 < size
  buf_le : buf.length ≤ size

namespace BufWriter

/-- The free space of the buffer. -/
def available (b : BufWriter ε) : Nat := b.size - b.buf.length

/-- Hand the buffered bytes to the output; an error keeps those it did not accept. -/
def flush (b : BufWriter ε) : BufWriter ε :=
  if b.err.isSome then b
  else if b.buf = [] then b
  else
    { b with
      buf := b.buf.drop (b.wr.write b.buf).1
      wr := (b.wr.write b.buf).2.2
      err := (b.wr.write b.buf).2.1
      buf_le := by
        have := b.buf_le
        simp only [List.length_drop]
        omega }

/-- Copy as much of `p` into the buffer as fits. -/
def push (b : BufWriter ε) (p : Bytes) : BufWriter ε :=
  { b with
    buf := b.buf ++ p.take b.available
    buf_le := by
      have := b.buf_le
      simp only [available, List.length_append, List.length_take]
      omega }

/-- Hand `p` to the output past the (empty) buffer. -/
def direct (b : BufWriter ε) (p : Bytes) : BufWriter ε :=
  { b with wr := (b.wr.write p).2.2, err := (b.wr.write p).2.1 }

@[simp] theorem push_wr (b : BufWriter ε) (p : Bytes) : (b.push p).wr = b.wr := rfl

@[simp] theorem push_buf (b : BufWriter ε) (p : Bytes) :
    (b.push p).buf = b.buf ++ p.take b.available := rfl

/-- The bytes handed to the writer that it has not dropped: accepted or buffered. -/
def held (b : BufWriter ε) : Bytes := b.wr.out ++ b.buf

/-- Flushing loses no byte and leaves an empty buffer unless it fails. -/
theorem flush_spec (b : BufWriter ε) :
    b.flush.held = b.held ∧ b.flush.size = b.size ∧ (b.flush.err = none → b.flush.buf = []) := by
  rw [flush]
  split
  -- an earlier error: nothing is done, and the error is still there
  · rename_i herr
    refine ⟨rfl, rfl, fun h => ?_⟩
    simp [h] at herr
  · split
    · rename_i hbuf
      exact ⟨rfl, rfl, fun _ => hbuf⟩
    · rcases b.wr.write_cases b.buf with ⟨s', hw, hout⟩ | ⟨k, e, s', hw, -, hout⟩
      · refine ⟨?_, rfl, fun _ => ?_⟩
        · simp [held, hw, hout]
        · simp [hw]
      · refine ⟨?_, rfl, fun h => ?_⟩
        · simp [held, hw, hout]
        · simp [hw] at h

theorem flush_buf_of_err {b : BufWriter ε} (h : b.flush.err = none) : b.flush.buf = [] :=
  (flush_spec b).2.2 h

/-- `Writer.Write`: a write that does not fit fills and flushes the buffer until the rest
    fits or the buffer is empty; then it goes past the buffer. -/
def write (b : BufWriter ε) (p : Bytes) : BufWriter ε :=
  if b.err.isSome then b
  else if p.length ≤ b.available then b.push p
  -- the output accepts all of `p` or the error ends the loop
  else if _hbuf : b.buf = [] then b.direct p
  else if _hfail : (b.push p).flush.err.isSome then (b.push p).flush
  else write (b.push p).flush (p.drop b.available)
-- a round may copy nothing when the buffer is full, but then it empties the buffer
termination_by 2 * p.length + (if b.buf = [] then 0 else 1)
decreasing_by
  have hnone : (b.push p).flush.err = none := by simpa using _hfail
  rw [if_neg _hbuf, if_pos (flush_buf_of_err hnone), List.length_drop]
  omega

/-- `Writer.WriteString`: like `write`, but a text always goes through the buffer. -/
def writeString (b : BufWriter ε) (p : Bytes) : BufWriter ε :=
  if b.err.isSome then b
  else if _hfit : p.length ≤ b.available then b.push p
  else if _hfail : (b.push p).flush.err.isSome then (b.push p).flush
  else writeString (b.push p).flush (p.drop b.available)
termination_by 2 * p.length + (if b.buf = [] then 0 else 1)
decreasing_by
  have hnone : (b.push p).flush.err = none := by simpa using _hfail
  have hpos := b.size_pos
  rw [if_pos (flush_buf_of_err hnone), List.length_drop]
  split
  · rename_i hbuf
    simp only [available, hbuf, List.length_nil] at _hfit ⊢
    omega
  · omega

/-- `Writer.WriteByte`. -/
def writeByte (b : BufWriter ε) (c : UInt8) : BufWriter ε :=
  if b.err.isSome then b
  else if b.available = 0 then
    if b.flush.err.isSome then b.flush else b.flush.push [c]
  else b.push [c]

theorem push_held {b : BufWriter ε} {p : Bytes} (h : p.length ≤ b.available) :
    (b.push p).held = b.held ++ p := by
  simp [held, List.take_of_length_le h]

/-- Filling and flushing takes the first part of `p` over. -/
theorem flush_push_held (b : BufWriter ε) (p : Bytes) :
    (b.push p).flush.held ++ p.drop b.available = b.held ++ p := by
  rw [(flush_spec _).1]
  simp [held]

theorem direct_held {b : BufWriter ε} {p : Bytes} (hbuf : b.buf = [])
    (h : (b.direct p).err = none) : (b.direct p).held = b.held ++ p := by
  rcases b.wr.write_cases p with ⟨s', hw, hout⟩ | ⟨k, e, s', hw, -, -⟩
  · simp [held, direct, hbuf, hw, hout]
  · simp [direct, hw] at h

/-- A write that succeeds hands over exactly its bytes, after everything before. -/
theorem write_held {b : BufWriter ε} {p : Bytes} (h : (b.write p).err = none) :
    (b.write p).held = b.held ++ p := by
  fun_induction write b p with
  | case1 b p herr => simp [h] at herr
  | case2 b p _ hfit => exact push_held hfit
  | case3 b p _ _ hbuf => exact direct_held hbuf h
  | case4 b p _ _ _ hfail => simp [h] at hfail
  | case5 b p _ _ _ _ ih => rw [ih h, flush_push_held]

theorem writeString_held {b : BufWriter ε} {p : Bytes} (h : (b.writeString p).err = none) :
    (b.writeString p).held = b.held ++ p := by
  fun_induction writeString b p with
  | case1 b p herr => simp [h] at herr
  | case2 b p _ hfit => exact push_held hfit
  | case3 b p _ _ hfail => simp [h] at hfail
  | case4 b p _ _ _ ih => rw [ih h, flush_push_held]

theorem writeByte_held {b : BufWriter ε} {c : UInt8} (h : (b.writeByte c).err = none) :
    (b.writeByte c).held = b.held ++ [c] := by
  rw [writeByte] at h ⊢
  split at h
  · rename_i herr
    simp [h] at herr
  · rename_i herr
    rw [if_neg herr]
    split at h
    · rename_i hfull
      rw [if_pos hfull]
      split at h
      · rename_i hfail
        simp [h] at hfail
      · rename_i hfail
        have hnone : b.flush.err = none := by simpa using hfail
        obtain ⟨hheld, hsize, hbuf⟩ := flush_spec b
        -- a buffer that has been flushed has room for one byte
        have hroom : ([c] : Bytes).length ≤ b.flush.available := by
          have := b.flush.size_pos
          simp only [available, hbuf hnone, List.length_nil, List.length_cons]
          omega
        rw [if_neg hfail, push_held hroom, hheld]
    · rename_i hfull
      rw [if_neg hfull]
      exact push_held (by simp only [List.length_cons, List.length_nil]; omega)

/-! ### What a failing call leaves out -/

/-- What a call that is given the bytes `p` does to the output: it only adds to it, and if it
    fails, not all of the bytes handed over so far have been accepted. -/
structure Takes (b : BufWriter ε) (p : Bytes) (b' : BufWriter ε) : Prop where
  grows : b.wr.out <+: b'.wr.out
  short : b.err = none → b'.err.isSome → b'.wr.out.length < b.held.length + p.length

/-- A call that does not touch the output. -/
theorem Takes.of_wr_eq {b b' : BufWriter ε} (p : Bytes) (hwr : b'.wr = b.wr)
    (herr : b'.err = b.err) : Takes b p b' where
  grows := by rw [hwr]
  short := by
    intro hnone hfail
    simp [herr, hnone] at hfail

/-- A call after one that has succeeded. -/
theorem Takes.trans {b b' b'' : BufWriter ε} {p q : Bytes} (h : Takes b p b')
    (hnone : b'.err = none) (hheld : b'.held = b.held ++ p) (h' : Takes b' q b'') :
    Takes b (p ++ q) b'' where
  grows := h.grows.trans h'.grows
  short := by
    intro _ hfail
    have hshort := h'.short hnone hfail
    rw [hheld] at hshort
    simp only [List.length_append] at hshort ⊢
    omega

/-- A call may stop before it has looked at all its bytes. -/
theorem Takes.append {b b' : BufWriter ε} {p : Bytes} (h : Takes b p b') (q : Bytes) :
    Takes b (p ++ q) b' where
  grows := h.grows
  short := by
    intro hnone hfail
    have hshort := h.short hnone hfail
    rw [List.length_append]
    omega

/-- A flush that fails has handed on less than was buffered. -/
theorem takes_flush (b : BufWriter ε) : Takes b [] b.flush := by
  rw [flush]
  split
  · exact .of_wr_eq _ rfl rfl
  · split
    · exact .of_wr_eq _ rfl rfl
    · rcases b.wr.write_cases b.buf with ⟨s', hw, hout⟩ | ⟨k, e, s', hw, hk, hout⟩
      · exact ⟨by simp [hw, hout], by simp [hw]⟩
      · refine ⟨by simp [hw, hout], fun _ _ => ?_⟩
        simp only [hw, hout, held, List.length_append, List.length_take, List.length_nil]
        omega

theorem takes_direct (b : BufWriter ε) (p : Bytes) : Takes b p (b.direct p) := by
  rw [direct]
  rcases b.wr.write_cases p with ⟨s', hw, hout⟩ | ⟨k, e, s', hw, hk, hout⟩
  · exact ⟨by simp [hw, hout], by simp [hw]⟩
  · refine ⟨by simp [hw, hout], fun _ _ => ?_⟩
    simp only [hw, hout, held, List.length_append, List.length_take]
    omega

/-- Filling the buffer and flushing it. -/
theorem takes_flush_push (b : BufWriter ε) (p : Bytes) : Takes b p (b.push p).flush where
  grows := (takes_flush (b.push p)).grows
  short := by
    intro hnone hfail
    have hshort := (takes_flush (b.push p)).short hnone hfail
    simp only [held, push_wr, push_buf, List.length_append, List.length_take,
      List.length_nil] at hshort ⊢
    omega

/-- One round of a long write, and the rest of the write after it. -/
theorem Takes.round {b b' : BufWriter ε} {p : Bytes} (hnone : (b.push p).flush.err = none)
    (h : Takes (b.push p).flush (p.drop b.available) b') : Takes b p b' where
  grows := (takes_flush_push b p).grows.trans h.grows
  short := by
    intro _ hfail
    have hshort := h.short hnone hfail
    rwa [← List.length_append, flush_push_held, List.length_append] at hshort

/-- A write that fails has handed on less than was buffered and given to it. -/
theorem takes_write (b : BufWriter ε) (p : Bytes) : Takes b p (b.write p) := by
  fun_induction write b p with
  | case1 b p _ | case2 b p _ _ => exact .of_wr_eq _ rfl rfl
  | case3 b p _ _ _ => exact takes_direct b p
  | case4 b p _ _ _ _ => exact takes_flush_push b p
  | case5 b p _ _ _ hfail ih => exact .round (by simpa using hfail) ih

theorem takes_writeString (b : BufWriter ε) (p : Bytes) : Takes b p (b.writeString p) := by
  fun_induction writeString b p with
  | case1 b p _ | case2 b p _ _ => exact .of_wr_eq _ rfl rfl
  | case3 b p _ _ _ => exact takes_flush_push b p
  | case4 b p _ _ hfail ih => exact .round (by simpa using hfail) ih

theorem takes_writeByte (b : BufWriter ε) (c : UInt8) : Takes b [c] (b.writeByte c) := by
  rw [writeByte]
  split
  · exact .of_wr_eq _ rfl rfl
  · split
    · split
      · exact (takes_flush b).append [c]
      · rename_i hfail
        have hnone : b.flush.err = none := by simpa using hfail
        exact (takes_flush b).trans hnone (by simp [(flush_spec b).1]) (.of_wr_eq _ rfl rfl)
    · exact .of_wr_eq _ rfl rfl

/-! ### The size of the buffer -/

@[simp] theorem flush_size (b : BufWriter ε) : b.flush.size = b.size := (flush_spec b).2.1

@[simp] theorem write_size (b : BufWriter ε) (p : Bytes) : (b.write p).size = b.size := by
  fun_induction write b p with
  | case1 | case2 | case3 => rfl
  | case4 b p _ _ _ _ => exact flush_size (b.push p)
  | case5 b p _ _ _ _ ih => exact ih.trans (flush_size (b.push p))

@[simp] theorem writeString_size (b : BufWriter ε) (p : Bytes) :
    (b.writeString p).size = b.size := by
  fun_induction writeString b p with
  | case1 | case2 => rfl
  | case3 b p _ _ _ => exact flush_size (b.push p)
  | case4 b p _ _ _ ih => exact ih.trans (flush_size (b.push p))

@[simp] theorem writeByte_size (b : BufWriter ε) (c : UInt8) : (b.writeByte c).size = b.size := by
  rw [writeByte]
  split
  · rfl
  · split
    · split
      · exact flush_size b
      · exact flush_size b
    · rfl

/-- The last bytes of a write that would fit into the empty buffer stay in the buffer. -/
theorem write_buf_ne_nil {b : BufWriter ε} {p : Bytes} (hp : p ≠ []) (hlen : p.length ≤ b.size)
    (h : (b.write p).err = none) : (b.write p).buf ≠ [] := by
  fun_induction write b p with
  | case1 b p herr => simp [h] at herr
  | case2 b p _ hfit => simp [List.take_of_length_le hfit, hp]
  | case3 b p _ hfit hbuf => simp [available, hbuf, hlen] at hfit
  | case4 b p _ _ _ hfail => simp [h] at hfail
  | case5 b p _ hfit _ _ ih =>
    refine ih ?_ ?_ h
    · intro hnil
      exact hfit (List.drop_eq_nil_iff.mp hnil)
    · rw [flush_size, List.length_drop]
      exact (Nat.sub_le _ _).trans hlen

/-! ### An output that does not fail -/

/-- Nothing has failed, and the output is not going to fail. -/
structure Sound (b : BufWriter ε) : Prop where
  noErr : b.err = none
  noLimit : b.wr.limit = none

theorem Sound.flush {b : BufWriter ε} (h : b.Sound) : b.flush.Sound := by
  rw [BufWriter.flush]
  split
  · exact h
  · split
    · exact h
    · exact ⟨by simp [Sink.write, h.noLimit], by simp [Sink.write, h.noLimit]⟩

theorem Sound.push {b : BufWriter ε} (h : b.Sound) (p : Bytes) : (b.push p).Sound :=
  ⟨h.noErr, h.noLimit⟩

theorem Sound.direct {b : BufWriter ε} (h : b.Sound) (p : Bytes) : (b.direct p).Sound :=
  ⟨by simp [BufWriter.direct, Sink.write, h.noLimit],
    by simp [BufWriter.direct, Sink.write, h.noLimit]⟩

/-- On an output that does not fail no write fails. -/
theorem Sound.write {b : BufWriter ε} (h : b.Sound) (p : Bytes) : (b.write p).Sound := by
  fun_induction BufWriter.write b p with
  | case1 b p _ => exact h
  | case2 b p _ _ => exact h.push p
  | case3 b p _ _ _ => exact h.direct p
  | case4 b p _ _ _ _ => exact (h.push p).flush
  | case5 b p _ _ _ _ ih => exact ih (h.push p).flush

theorem Sound.writeString {b : BufWriter ε} (h : b.Sound) (p : Bytes) :
    (b.writeString p).Sound := by
  fun_induction BufWriter.writeString b p with
  | case1 b p _ => exact h
  | case2 b p _ _ => exact h.push p
  | case3 b p _ _ _ => exact (h.push p).flush
  | case4 b p _ _ _ ih => exact ih (h.push p).flush

theorem Sound.writeByte {b : BufWriter ε} (h : b.Sound) (c : UInt8) : (b.writeByte c).Sound := by
  rw [BufWriter.writeByte]
  split
  · exact h
  · split
    · split
      · exact h.flush
      · exact h.flush.push [c]
    · exact h.push [c]

end BufWriter

end Samaritan.Lib
