import Samaritan.Lib.Stream

/-!
# The Buffered Reader

`Reader` of `proc/redis/bufio.go`: a fixed buffer in front of the connection. The
source keeps two indices into the buffer array; every operation depends only on the
unread part between them and on the length of the array, which are the fields `data`
and `size` here. The slice allocator only decides where results are stored and is left
out.

A result slice and an error are returned together, as in the source: `ReadSlice` hands
back the full buffer along with its error, and its caller uses it.
-/

namespace Samaritan.Redis

open Samaritan.Lib

/-! ## Errors -/

/-- The errors a connection returns, or its reader keeps for it. -/
inductive IoErr where
  | eof
  | noProgress
  | net (msg : Bytes)
  deriving DecidableEq

/-- The errors of reading RESP from a connection. `tooDeep` is not one of the source: it is
    the end of the decoder's recursion budget. -/
inductive Err where
  | io (e : IoErr)
  | unexpectedEOF
  | bufferFull
  | badRespType
  | badCRLFEnd
  | badArrayLen
  | badArrayLenTooLong
  | badBulkStringLen
  | badBulkStringLenTooLong
  | badMultiBulkLen
  | num (e : NumError)
  | tooDeep
  deriving DecidableEq

/-! ## The reader -/

/-- A buffered reader: `data` is the unread part of its buffer of `size` bytes. -/
structure Reader where
  size : Nat
  data : Bytes
  rd : Source IoErr
  err : Option IoErr
  size_pos : 0 < size
  data_le : data.length ≤ size

namespace Reader

def defaultBufferSize : Nat := 4096

/-- `NewReaderSize` on a connection. -/
def newReaderSize (rd : Source IoErr) (size : Nat) : Reader where
  size := if size = 0 then defaultBufferSize else size
  data := []
  rd := rd
  err := none
  size_pos := by
    split
    · decide
    · omega
  data_le := by simp

/-- All bytes that were not consumed yet. -/
def unread (b : Reader) : Bytes := b.data ++ b.rd.bytes

/-- Consume the first `n` buffered bytes. -/
def advance (b : Reader) (n : Nat) : Reader :=
  { b with
    data := b.data.drop n
    data_le := by
      have := b.data_le
      simp only [List.length_drop]
      omega }

/-- What the connection returns when the free part of the buffer is read into. -/
def received (b : Reader) : Bytes × Option IoErr × Source IoErr :=
  b.rd.read (b.size - b.data.length)

/-- Read from the connection into the free part of the buffer; the outcome is `err`.
    Bytes that come together with an error are not taken over. -/
def fill (b : Reader) : Reader :=
  if b.err.isSome then b
  else
    match h : b.received with
    | (_, some e, rd) => { b with rd := rd, err := some e }
    | ([], none, rd) => { b with rd := rd, err := some .noProgress }
    | (c :: d, none, rd) =>
      { b with
        data := b.data ++ c :: d
        rd := rd
        data_le := by
          have hlen : (c :: d).length ≤ b.size - b.data.length :=
            le_of_eq_of_le (by rw [← received, h]) (b.rd.length_read_le _)
          have hle := b.data_le
          rw [List.length_append]
          omega }

/-- Make sure that something is buffered. -/
def ensure (b : Reader) : Reader := if b.data = [] then b.fill else b

/-- `PeekByte`: the next byte, left in the buffer. -/
def peekByte : EStateM Err Reader UInt8 := fun b =>
  match b.err, b.ensure.err with
  | some e, _ => .error (.io e) b
  | none, some e => .error (.io e) b.ensure
  | none, none => .ok (b.ensure.data.headD 0) b.ensure

/-- `ReadByte`. -/
def readByte : EStateM Err Reader UInt8 := fun b =>
  match b.err, b.ensure.err with
  | some e, _ => .error (.io e) b
  | none, some e => .error (.io e) b.ensure
  | none, none => .ok (b.ensure.data.headD 0) (b.ensure.advance 1)

/-- `Read`: at most `n` bytes; a large read on an empty buffer goes past the buffer. -/
def read (b : Reader) (n : Nat) : Bytes × Option IoErr × Reader :=
  if b.err.isSome ∨ n = 0 then ([], b.err, b)
  else if b.data = [] ∧ b.size ≤ n then
    ((b.rd.read n).1, (b.rd.read n).2.1,
      { b with rd := (b.rd.read n).2.2, err := (b.rd.read n).2.1 })
  else if b.ensure.err.isSome then ([], b.ensure.err, b.ensure)
  else (b.ensure.data.take n, none, b.ensure.advance n)

@[simp] theorem advance_rd (b : Reader) (n : Nat) : (b.advance n).rd = b.rd := rfl

@[simp] theorem advance_data (b : Reader) (n : Nat) : (b.advance n).data = b.data.drop n := rfl

/-- What filling can do: nothing after an error, fail, or append what one read call of the
    connection returned. -/
theorem fill_cases (b : Reader) :
    (b.err.isSome ∧ b.fill = b) ∨
    (b.err = none ∧ b.fill.err = some (b.received.2.1.getD .noProgress) ∧
      (b.received.2.1 ≠ none ∨ b.received.1 = []) ∧ b.fill.data = b.data ∧
      b.fill.size = b.size ∧ b.fill.rd = b.received.2.2) ∨
    (b.err = none ∧ b.fill.err = none ∧ b.received.2.1 = none ∧ b.received.1 ≠ [] ∧
      b.fill.data = b.data ++ b.received.1 ∧ b.fill.size = b.size ∧
      b.fill.rd = b.received.2.2) := by
  by_cases herr : b.err.isSome
  · exact Or.inl ⟨herr, by rw [fill, if_pos herr]⟩
  · have hnone : b.err = none := by simpa using herr
    refine Or.inr ?_
    rcases hread : b.received with ⟨d, e, rd⟩
    rw [fill, if_neg herr]
    split
    · rename_i e' rd' h
      obtain ⟨-, rfl, rfl⟩ : d = _ ∧ e = some e' ∧ rd = rd' := by simpa [hread] using h
      exact Or.inl ⟨hnone, rfl, Or.inl (by simp), rfl, rfl, rfl⟩
    · rename_i rd' h
      obtain ⟨rfl, rfl, rfl⟩ : d = [] ∧ e = none ∧ rd = rd' := by simpa [hread] using h
      exact Or.inl ⟨hnone, rfl, Or.inr rfl, rfl, rfl, rfl⟩
    · rename_i c cs rd' h
      obtain ⟨rfl, rfl, rfl⟩ : d = c :: cs ∧ e = none ∧ rd = rd' := by simpa [hread] using h
      exact Or.inr ⟨hnone, hnone, rfl, by simp, rfl, rfl, rfl⟩

/-- A fill that succeeds makes the buffered part longer. -/
theorem length_lt_fill {b : Reader} (h : b.fill.err = none) :
    b.data.length < b.fill.data.length ∧ b.fill.size = b.size := by
  rcases b.fill_cases with ⟨herr, heq⟩ | ⟨-, herr, -⟩ | ⟨-, -, -, hne, hdata, hsize, -⟩
  · rw [heq] at h
    simp [h] at herr
  · simp [h] at herr
  · have := List.length_pos_iff.mpr hne
    refine ⟨?_, hsize⟩
    rw [hdata, List.length_append]
    omega

/-! ## Reading up to a delimiter -/

/-- The loop of `ReadSlice`. -/
def readSliceLoop (delim : UInt8) (b : Reader) : Bytes × Option Err × Reader :=
  if delim ∈ b.data then
    -- the slice ends with the delimiter
    (b.data.take (b.data.idxOf delim + 1), none, b.advance (b.data.idxOf delim + 1))
  else if _hfull : b.data.length = b.size then (b.data, some .bufferFull, b.advance b.size)
  else if _hfill : b.fill.err.isSome then ([], b.fill.err.map .io, b.fill)
  else readSliceLoop delim b.fill
termination_by b.size - b.data.length
decreasing_by
  obtain ⟨hlt, hsize⟩ := length_lt_fill (b := b) (by simpa using _hfill)
  have := b.data_le
  omega

/-- `ReadSlice`: the bytes up to and including the delimiter, as long as they fit into the
    buffer. -/
def readSlice (delim : UInt8) (b : Reader) : Bytes × Option Err × Reader :=
  if b.err.isSome then ([], b.err.map .io, b) else readSliceLoop delim b

/-- A fill never makes the input longer. -/
theorem length_unread_fill_le (b : Reader) : b.fill.unread.length ≤ b.unread.length := by
  have hbytes : b.received.1 ++ b.received.2.2.bytes = b.rd.bytes := b.rd.read_append_bytes _
  have hlen := congrArg List.length hbytes
  rw [List.length_append] at hlen
  rcases b.fill_cases with ⟨-, heq⟩ | ⟨-, -, -, hdata, -, hrd⟩ | ⟨-, -, -, -, hdata, -, hrd⟩
  · rw [heq]
  · simp only [unread, hdata, hrd, List.length_append]
    omega
  · simp only [unread, hdata, hrd, List.length_append]
    omega

/-- A full buffer is consumed whole, so that the next call works on less input. -/
theorem length_unread_readSlice {delim : UInt8} {b : Reader}
    (h : (b.readSlice delim).2.1 = some .bufferFull) :
    (b.readSlice delim).2.2.unread.length < b.unread.length := by
  rw [readSlice] at h ⊢
  split at h
  · simp at h
  · rename_i herr
    rw [if_neg herr]
    clear herr
    fun_induction readSliceLoop delim b with
    | case1 b hmem | case3 b hmem hfull hfill => simp at h
    | case2 b hmem hfull =>
      have hpos := b.size_pos
      simp only [unread, advance_data, advance_rd, List.length_append, List.length_drop]
      omega
    | case4 b hmem hfull hfill ih => exact lt_of_lt_of_le (ih h) (length_unread_fill_le b)

/-- `ReadBytes`: the bytes up to and including the delimiter, collected from as many full
    buffers as it takes. -/
def readBytes (delim : UInt8) (full : Bytes) (b : Reader) : EStateM.Result Err Reader Bytes :=
  match _h : b.readSlice delim with
  | (f, none, b') => .ok (full ++ f) b'
  | (f, some .bufferFull, b') => readBytes delim (full ++ f) b'
  | (_, some e, b') => .error e b'
termination_by b.unread.length
decreasing_by
  have hlt := @length_unread_readSlice delim b (by rw [_h])
  rw [_h] at hlt
  exact hlt

theorem readBytes_of_line {delim : UInt8} {full f : Bytes} {b b' : Reader}
    (h : b.readSlice delim = (f, none, b')) : readBytes delim full b = .ok (full ++ f) b' := by
  rw [readBytes]
  split <;> simp_all

theorem readBytes_of_full {delim : UInt8} {full f : Bytes} {b b' : Reader}
    (h : b.readSlice delim = (f, some .bufferFull, b')) :
    readBytes delim full b = readBytes delim (full ++ f) b' := by
  rw [readBytes]
  split <;> simp_all

theorem readBytes_of_error {delim : UInt8} {full f : Bytes} {e : Err} {b b' : Reader}
    (h : b.readSlice delim = (f, some e, b')) (he : e ≠ .bufferFull) :
    readBytes delim full b = .error e b' := by
  rw [readBytes]
  split <;> simp_all

/-- What `ReadSlice` returns without an error ends at the first delimiter; a full buffer holds
    none. -/
theorem readSlice_line {delim : UInt8} {b : Reader} :
    ((b.readSlice delim).2.1 = none →
      ∃ l, (b.readSlice delim).1 = l ++ [delim] ∧ delim ∉ l) ∧
    ((b.readSlice delim).2.1 = some .bufferFull → delim ∉ (b.readSlice delim).1) := by
  rw [readSlice]
  split
  · rename_i herr
    obtain ⟨e, he⟩ := Option.isSome_iff_exists.mp herr
    simp [he]
  · rename_i herr
    clear herr
    fun_induction readSliceLoop delim b with
    | case1 b hmem =>
      obtain ⟨l, r, hdata, hl⟩ := List.eq_append_cons_of_mem hmem
      have hidx : b.data.idxOf delim = l.length := by
        rw [hdata, List.idxOf_append_of_notMem hl, List.idxOf_cons_self, Nat.add_zero]
      refine ⟨fun _ => ⟨l, ?_, hl⟩, by simp⟩
      change b.data.take (b.data.idxOf delim + 1) = l ++ [delim]
      rw [hidx, hdata, List.take_length_add_append, List.take_succ_cons, List.take_zero]
    | case2 b hmem hfull => exact ⟨by simp, fun _ => hmem⟩
    | case3 b hmem hfull hfill =>
      obtain ⟨e, he⟩ := Option.isSome_iff_exists.mp hfill
      simp [he]
    | case4 b hmem hfull hfill ih => exact ih

/-- What `ReadBytes` returns ends at the first delimiter. -/
theorem readBytes_line {delim : UInt8} {full line : Bytes} {b b' : Reader} (hfull : delim ∉ full)
    (h : readBytes delim full b = .ok line b') : ∃ l, line = l ++ [delim] ∧ delim ∉ l := by
  fun_induction readBytes delim full b with
  | case1 full b f b₁ hread =>
    obtain ⟨l, hl, hdelim⟩ := readSlice_line.1 (congrArg (·.2.1) hread)
    have hf : f = l ++ [delim] := (congrArg (·.1) hread).symm.trans hl
    cases h
    exact ⟨full ++ l, by simp [hf], by simp [hfull, hdelim]⟩
  | case2 full b f b₁ hread ih =>
    -- a full buffer adds no delimiter to what is collected
    have hf : delim ∉ f := by
      have hslice := readSlice_line.2 (congrArg (·.2.1) hread)
      rwa [congrArg (·.1) hread] at hslice
    exact ih (by simp [hfull, hf]) h
  | case3 full b f e b₁ hne hread => cases h

/-! ## Reading a fixed number of bytes -/

/-- After `ensure` without an error something is buffered. -/
theorem ensure_progress {b : Reader} (h : b.ensure.err = none) :
    b.ensure.data ≠ [] ∧ b.ensure.rd.chunks.length ≤ b.rd.chunks.length := by
  rw [ensure] at h ⊢
  split at h
  · rename_i hdata
    rw [if_pos hdata]
    rcases b.fill_cases with ⟨herr, heq⟩ | ⟨-, herr, -⟩ | ⟨-, -, hread, hne, hd, -, hrd⟩
    · rw [heq] at h
      simp [h] at herr
    · simp [h] at herr
    · refine ⟨by simp [hd, hne], ?_⟩
      have hroom : 0 < b.size - b.data.length := by
        have := b.size_pos
        simp only [hdata, List.length_nil]
        omega
      rw [hrd]
      rcases Source.read_progress hroom hread with ⟨-, hle⟩ | hlt
      · exact hle
      · exact hlt.le
  · rename_i hdata
    rw [if_neg hdata]
    exact ⟨hdata, le_rfl⟩

/-- A read that neither fails nor returns anything has used up a chunk of the input. -/
theorem read_progress {b : Reader} {n : Nat} (hn : 0 < n) (h : (b.read n).2.1 = none) :
    ((b.read n).1 ≠ [] ∧ (b.read n).2.2.rd.chunks.length ≤ b.rd.chunks.length) ∨
      (b.read n).2.2.rd.chunks.length < b.rd.chunks.length := by
  rw [read] at h ⊢
  split at h
  · rename_i hstop
    have hnone : b.err = none := h
    simp [hnone] at hstop
    omega
  · rename_i hstop
    rw [if_neg hstop]
    split at h
    -- a large read goes past the buffer
    · rename_i hdirect
      rw [if_pos hdirect]
      exact Source.read_progress hn h
    · rename_i hdirect
      rw [if_neg hdirect]
      split at h
      · rename_i herr
        have hnone : b.ensure.err = none := h
        simp [hnone] at herr
      · rename_i herr
        rw [if_neg herr]
        have hens := ensure_progress (by simpa using herr)
        exact Or.inl ⟨take_ne_nil (by omega) hens.1, hens.2⟩

theorem length_read_le (b : Reader) (n : Nat) : (b.read n).1.length ≤ n := by
  rw [read]
  split
  · exact Nat.zero_le n
  · split
    · exact b.rd.length_read_le n
    · split
      · exact Nat.zero_le n
      · exact List.length_take_le n _

/-- `io.ReadFull` on the reader, continuing with `n` more bytes after `got`. -/
def readFullLoop (n : Nat) (got : Bytes) (b : Reader) : EStateM.Result Err Reader Bytes :=
  if _hn : n = 0 then .ok got b
  else if (b.read n).1.length = n then .ok (got ++ (b.read n).1) (b.read n).2.2
  else
    match _h : (b.read n).2.1 with
    | some e =>
      if e = .eof ∧ got ++ (b.read n).1 ≠ [] then .error .unexpectedEOF (b.read n).2.2
      else .error (.io e) (b.read n).2.2
    | none => readFullLoop (n - (b.read n).1.length) (got ++ (b.read n).1) (b.read n).2.2
termination_by n + b.rd.chunks.length
decreasing_by
  rcases read_progress (Nat.pos_of_ne_zero _hn) _h with ⟨hne, hle⟩ | hlt
  · have := List.length_pos_iff.mpr hne
    omega
  · omega

/-- `ReadFull`. -/
def readFull (n : Nat) : EStateM Err Reader Bytes := fun b =>
  match b.err with
  | some e => .error (.io e) b
  | none => if n = 0 then .ok [] b else readFullLoop n [] b

/-! ## Reading from any input

No operation makes the input longer, and none returns the error the decoder has for its
budget. -/

theorem length_unread_advance_le (b : Reader) (n : Nat) :
    (b.advance n).unread.length ≤ b.unread.length := by
  simp only [unread, advance_data, advance_rd, List.length_append, List.length_drop]
  omega

theorem length_unread_ensure_le (b : Reader) : b.ensure.unread.length ≤ b.unread.length := by
  rw [ensure]
  split
  · exact length_unread_fill_le b
  · exact le_rfl

theorem length_unread_read_le (b : Reader) (n : Nat) :
    (b.read n).2.2.unread.length ≤ b.unread.length := by
  rw [read]
  split
  · exact le_rfl
  · split
    · have hbytes := congrArg List.length (b.rd.read_append_bytes n)
      simp only [unread, List.length_append] at hbytes ⊢
      omega
    · split
      · exact length_unread_ensure_le b
      · exact (length_unread_advance_le _ n).trans (length_unread_ensure_le b)

theorem readSlice_bounded (delim : UInt8) (b : Reader) :
    (b.readSlice delim).2.2.unread.length ≤ b.unread.length ∧
      (b.readSlice delim).2.1 ≠ some .tooDeep := by
  rw [readSlice]
  split
  · refine ⟨le_rfl, ?_⟩
    cases b.err <;> simp
  · fun_induction readSliceLoop delim b with
    | case1 b hmem | case2 b hmem hfull => exact ⟨length_unread_advance_le b _, by simp⟩
    | case3 b hmem hfull hfill =>
      refine ⟨length_unread_fill_le b, ?_⟩
      cases b.fill.err <;> simp
    | case4 b hmem hfull hfill ih =>
      have hnone : b.fill.err = none := by simpa using hfill
      obtain ⟨hle, hne⟩ := ih (by simp [hnone])
      exact ⟨hle.trans (length_unread_fill_le b), hne⟩

/-- A result with less than `n` bytes of input left, or an error other than the one for the
    decoder's budget. -/
def LeavesBelow {α : Type} (n : Nat) : EStateM.Result Err Reader α → Prop
  | .ok _ b => b.unread.length < n
  | .error e _ => e ≠ .tooDeep

theorem LeavesBelow.mono {α : Type} {m n : Nat} {r : EStateM.Result Err Reader α}
    (h : LeavesBelow m r) (hmn : m ≤ n) : LeavesBelow n r := by
  cases r with
  | ok a b => exact lt_of_lt_of_le h hmn
  | error e b => exact h

theorem readBytes_bounded (delim : UInt8) (full : Bytes) (b : Reader) :
    LeavesBelow (b.unread.length + 1) (readBytes delim full b) := by
  fun_induction readBytes delim full b with
  | case1 full b f b₁ hread =>
    have hle := (readSlice_bounded delim b).1
    rw [hread] at hle
    exact Nat.lt_succ_of_le hle
  | case2 full b f b₁ hread ih =>
    have hle := (readSlice_bounded delim b).1
    rw [hread] at hle
    exact ih.mono (Nat.succ_le_succ hle)
  | case3 full b f e b₁ hne hread =>
    have hdeep := (readSlice_bounded delim b).2
    rw [hread] at hdeep
    exact fun he => hdeep (congrArg some he)

theorem readFullLoop_bounded (n : Nat) (got : Bytes) (b : Reader) :
    LeavesBelow (b.unread.length + 1) (readFullLoop n got b) := by
  fun_induction readFullLoop n got b with
  | case1 got b => exact Nat.lt_succ_self b.unread.length
  | case2 n got b hn hall => exact Nat.lt_succ_of_le (length_unread_read_le b n)
  | case3 n got b hn hpart e hread heof | case4 n got b hn hpart e hread heof => simp [LeavesBelow]
  | case5 n got b hn hpart hread ih =>
    exact ih.mono (Nat.succ_le_succ (length_unread_read_le b n))

theorem readFull_bounded (n : Nat) (b : Reader) :
    LeavesBelow (b.unread.length + 1) (readFull n b) := by
  rw [readFull]
  split
  · simp [LeavesBelow]
  · split
    · exact Nat.lt_succ_self b.unread.length
    · exact readFullLoop_bounded n [] b

theorem peekByte_bounded (b : Reader) : LeavesBelow (b.unread.length + 1) (peekByte b) := by
  rw [peekByte]
  split
  · simp [LeavesBelow]
  · simp [LeavesBelow]
  · exact Nat.lt_succ_of_le (length_unread_ensure_le b)

/-- Reading a byte makes the input shorter. -/
theorem readByte_bounded (b : Reader) : LeavesBelow b.unread.length (readByte b) := by
  rw [readByte]
  split
  · simp [LeavesBelow]
  · simp [LeavesBelow]
  · rename_i hens
    have hpos := List.length_pos_iff.mpr (ensure_progress hens).1
    have hle := length_unread_ensure_le b
    simp only [LeavesBelow, unread, advance_data, advance_rd, List.length_append,
      List.length_drop] at hle ⊢
    omega

/-! ## Reading from a well-behaved input

Filling the buffer from an input that arrives in non-empty pieces without errors. What each
operation returns then is said in `Redis/StreamReader`. -/

/-- The reader has no error, and its unread bytes are `input`, to arrive in non-empty
    pieces. -/
structure Delivers (b : Reader) (input : Bytes) : Prop where
  err : b.err = none
  clean : b.rd.Clean
  unread_eq : b.unread = input

theorem delivers_newReaderSize {rd : Source IoErr} (hrd : rd.Clean) (size : Nat) :
    Delivers (newReaderSize rd size) rd.bytes :=
  ⟨rfl, hrd, rfl⟩

theorem Delivers.advance {b : Reader} {input : Bytes} (h : Delivers b input) (n : Nat) :
    Delivers (b.advance n) (input.drop (min n b.data.length)) := by
  refine ⟨h.err, h.clean, ?_⟩
  rw [← h.unread_eq, unread, unread, List.drop_append, advance_data, advance_rd]
  have hover : min n b.data.length - b.data.length = 0 := by omega
  rw [hover, List.drop_zero]
  congr 1
  rcases Nat.le_total n b.data.length with hle | hle
  · rw [min_eq_left hle]
  · rw [min_eq_right hle, List.drop_length, List.drop_eq_nil_of_le hle]

/-- Filling an unfinished input succeeds and keeps it. -/
theorem Delivers.fill {b : Reader} {input : Bytes} (h : Delivers b input)
    (hroom : b.data.length < b.size) (hmore : b.data.length < input.length) :
    Delivers b.fill input ∧ b.fill.size = b.size := by
  have hunread := h.unread_eq
  have hbytes : b.rd.bytes ≠ [] := by
    intro hnil
    simp only [unread, hnil, List.append_nil] at hunread
    rw [hunread] at hmore
    omega
  obtain ⟨hne, hok, hclean⟩ : b.received.1 ≠ [] ∧ b.received.2.1 = none ∧ b.received.2.2.Clean :=
    h.clean.read hbytes (by omega)
  have hsplit : b.received.1 ++ b.received.2.2.bytes = b.rd.bytes := b.rd.read_append_bytes _
  rcases b.fill_cases with ⟨herr, -⟩ | ⟨-, -, hbad, -⟩ | ⟨-, hnone, -, -, hdata, hsize, hrd⟩
  · simp [h.err] at herr
  · rcases hbad with hbad | hbad
    · exact absurd hok hbad
    · exact absurd hbad hne
  · refine ⟨⟨hnone, hrd ▸ hclean, ?_⟩, hsize⟩
    rw [unread, hdata, hrd, List.append_assoc, hsplit]
    exact hunread

/-- With a byte still to come, `ensure` buffers it. -/
theorem Delivers.ensure {b : Reader} {c : UInt8} {rest : Bytes} (h : Delivers b (c :: rest)) :
    Delivers b.ensure (c :: rest) ∧ b.ensure.size = b.size ∧ ∃ tl, b.ensure.data = c :: tl := by
  have hhead : ∀ b' : Reader, Delivers b' (c :: rest) → b'.data ≠ [] →
      ∃ tl, b'.data = c :: tl := by
    intro b' h' hne
    obtain ⟨x, xs, hx⟩ := List.exists_cons_of_ne_nil hne
    have hunread := h'.unread_eq
    simp only [unread, hx, List.cons_append, List.cons.injEq] at hunread
    exact ⟨xs, by rw [hx, hunread.1]⟩
  rw [Reader.ensure]
  split
  · rename_i hdata
    have hpos := b.size_pos
    obtain ⟨hfill, hsize⟩ := h.fill (by simp [hdata, hpos]) (by simp [hdata])
    refine ⟨hfill, hsize, hhead _ hfill ?_⟩
    have hlt := (length_lt_fill hfill.err).1
    intro hnil
    rw [hnil] at hlt
    exact Nat.not_lt_zero _ hlt
  · rename_i hdata
    exact ⟨h, rfl, hhead b h hdata⟩

end Reader

end Samaritan.Redis
