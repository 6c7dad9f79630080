import Samaritan.Redis.DecodeCalls

/-!
# Bytes That Come with an Error

A connection may return bytes and an error in one call. `fill` takes over the error and drops the
bytes, while the direct path of `Read` hands both on. The reader is compared with itself on the
separated connection, where the error comes in a call of its own behind the bytes.

As long as no fill is given bytes with an error, the two do the same: each operation returns the
same, and the readers differ at most in that one has the error already and the other is about to
get it.
-/

namespace Samaritan.Redis

open Samaritan.Lib Program

namespace Reader

variable {b b' : Reader} {e : IoErr} {n : Nat}

/-! ## The fills of an operation -/

/-- A fill of the reader would not get bytes together with an error. -/
def Apart (b : Reader) : Prop :=
  b.err = none → b.received.1 = [] ∨ b.received.2.1 = none

/-- A fill loses no bytes exactly if it gets none with an error. -/
theorem unread_fill_iff : b.fill.unread = b.unread ↔ b.Apart := by
  have hsplit : b.received.1 ++ b.received.2.2.bytes = b.rd.bytes := b.rd.read_append_bytes _
  unfold Apart
  rcases b.fill_cases with ⟨herr, heq⟩ | ⟨hnone, -, hbad, hdata, -, hrd⟩ |
    ⟨-, -, hok, -, hdata, -, hrd⟩
  · rw [heq]
    exact iff_of_true rfl fun hnone => by simp [hnone] at herr
  · have hlost : b.fill.unread = b.unread ↔ b.received.1 = [] := by
      rw [unread, unread, hdata, hrd, ← hsplit, List.append_cancel_left_eq,
        List.self_eq_append_left]
    rw [hlost]
    constructor
    · exact fun h _ => .inl h
    · intro h
      rcases h hnone with h | h
      · exact h
      · exact hbad.resolve_left (absurd h)
  · refine iff_of_true ?_ fun _ => .inr hok
    rw [unread, unread, hdata, hrd, List.append_assoc, hsplit]

/-- The readers at which the loop of `ReadSlice` fills. -/
def sliceFills (delim : UInt8) (b : Reader) : List Reader :=
  if delim ∈ b.data then []
  else if _hfull : b.data.length = b.size then []
  else if _hfill : b.fill.err.isSome then [b]
  else b :: sliceFills delim b.fill
termination_by b.size - b.data.length
decreasing_by
  obtain ⟨hlt, hsize⟩ := length_lt_fill (b := b) (by simpa using _hfill)
  have := b.data_le
  omega

/-- The readers at which `ReadSlice` fills. -/
def lineFills (delim : UInt8) (b : Reader) : List Reader :=
  if b.err.isSome then [] else b.sliceFills delim

/-- The readers at which `ReadBytes` fills. -/
def bytesFills (delim : UInt8) (b : Reader) : List Reader :=
  b.lineFills delim ++
    match _h : b.readSlice delim with
    | (_, some .bufferFull, b') => bytesFills delim b'
    | _ => []
termination_by b.unread.length
decreasing_by
  have hlt := @length_unread_readSlice delim b (by rw [_h])
  rw [_h] at hlt
  exact hlt

/-- The readers at which `PeekByte` and `ReadByte` fill. -/
def byteFills (b : Reader) : List Reader :=
  if b.err.isSome then [] else if b.data = [] then [b] else []

/-- The readers at which `Read` fills. A large read on an empty buffer does not. -/
def readFills (n : Nat) (b : Reader) : List Reader :=
  if b.err.isSome ∨ n = 0 then []
  else if b.data = [] ∧ b.size ≤ n then []
  else if b.data = [] then [b]
  else []

/-- The readers at which the loop of `io.ReadFull` fills. -/
def fullFills (n : Nat) (b : Reader) : List Reader :=
  if _hn : n = 0 then []
  else if (b.read n).1.length = n then b.readFills n
  else
    match _h : (b.read n).2.1 with
    | some _ => b.readFills n
    | none => b.readFills n ++ fullFills (n - (b.read n).1.length) (b.read n).2.2
termination_by n + b.rd.chunks.length
decreasing_by
  rcases read_progress (Nat.pos_of_ne_zero _hn) _h with ⟨hne, hle⟩ | hlt
  · have := List.length_pos_iff.mpr hne
    omega
  · omega

end Reader

/-- The readers at which an operation fills its buffer. -/
def ReaderOp.fills {β : Type} : ReaderOp β → Reader → List Reader
  | .peekByte, b => b.byteFills
  | .readByte, b => b.byteFills
  | .readLine, b => b.lineFills LF
  | .readBytes, b => b.bytesFills LF
  | .readFull n _, b => if b.err.isSome then [] else b.fullFills n

/-- Each fill in `n` calls of `Decode` is at a reader with the property. -/
def Decoder.EachFill (ok : Reader → Prop) : Nat → Decoder → Prop
  | 0, _ => True
  | n + 1, d =>
    (d.err = none → (decodeCalls (d.br.unread.length + 1)).Meets ReaderOp.onReader
      (fun op b => ∀ r ∈ op.fills b, ok r) d.br) ∧
    d.decode.2.EachFill ok n

namespace Reader

variable {b b' : Reader} {e : IoErr} {n : Nat}

/-! ## The separated connection -/

/-- The reader on the separated connection. -/
def separate (b : Reader) : Reader := { b with rd := b.rd.separate }

/-- The reader on the separated connection, where the error is still to come. -/
def pending (b : Reader) (e : IoErr) : Reader :=
  { b with rd := b.rd.separate.failing e, err := none }

/-- The second reader stands on the separated connection where the first one stands on the
    connection itself. -/
inductive Separated : Reader → Reader → Prop
  | same (b : Reader) : Separated b b.separate
  | late {b : Reader} {e : IoErr} (herr : b.err = some e) (hdata : b.data = []) :
      Separated b (b.pending e)

theorem Separated.unread_eq (h : Separated b b') : b'.unread = b.unread := by
  cases h with
  | same => exact congrArg (b.data ++ ·) b.rd.bytes_separate
  | late herr hdata =>
    exact congrArg (b.data ++ ·) ((Source.bytes_failing _ _).trans b.rd.bytes_separate)

theorem eq_of_fields (hsize : b.size = b'.size) (hdata : b.data = b'.data) (hrd : b.rd = b'.rd)
    (herr : b.err = b'.err) : b = b' := by
  cases b
  cases b'
  simp_all

theorem received_separate (h : b.Apart) (hnone : b.err = none) :
    b.separate.received = (b.received.1, b.received.2.1, b.received.2.2.separate) := by
  rcases b.rd.read_separate (b.size - b.data.length) with ⟨-, heq⟩ | ⟨hne, e, herr, -⟩
  · exact heq
  · rcases h hnone with hnil | hok
    · exact absurd hnil hne
    · cases herr.symm.trans hok

/-- A fill that is apart takes the same bytes from both connections. -/
theorem fill_separate (h : b.Apart) : b.separate.fill = b.fill.separate := by
  by_cases hsome : b.err.isSome
  · rw [fill, if_pos (show b.separate.err.isSome from hsome), fill, if_pos hsome]
  have hnone : b.err = none := by simpa using hsome
  have hreceived := received_separate h hnone
  rcases b.fill_cases with ⟨herr, -⟩ | ⟨-, herr, hbad, hdata, hsize, hrd⟩ |
    ⟨-, herr, hok, hne, hdata, hsize, hrd⟩
  · exact absurd herr hsome
  · rcases b.separate.fill_cases with ⟨herr', -⟩ | ⟨-, herr', -, hdata', hsize', hrd'⟩ |
      ⟨-, -, hok', hne', -⟩
    · exact absurd herr' hsome
    · rw [hreceived] at herr' hrd'
      exact eq_of_fields (hsize'.trans hsize.symm) (hdata'.trans hdata.symm)
        (hrd'.trans (congrArg Source.separate hrd.symm)) (herr'.trans herr.symm)
    · rw [hreceived] at hok' hne'
      exact (hbad.elim (absurd hok') (fun hnil => absurd hnil hne'))
  · rcases b.separate.fill_cases with ⟨herr', -⟩ | ⟨-, -, hbad', -⟩ |
      ⟨-, herr', -, -, hdata', hsize', hrd'⟩
    · exact absurd herr' hsome
    · rw [hreceived] at hbad'
      exact (hbad'.elim (absurd hok) (fun hnil => absurd hnil hne))
    · rw [hreceived] at hdata' hrd'
      exact eq_of_fields (hsize'.trans hsize.symm) (hdata'.trans hdata.symm)
        (hrd'.trans (congrArg Source.separate hrd.symm)) (herr'.trans herr.symm)

theorem ensure_separate (h : b.data = [] → b.Apart) : b.separate.ensure = b.ensure.separate := by
  unfold ensure
  by_cases hdata : b.data = []
  · rw [if_pos (show b.separate.data = [] from hdata), if_pos hdata, fill_separate (h hdata)]
  · rw [if_neg (show ¬b.separate.data = [] from hdata), if_neg hdata]

/-- The error that is still to come is what the next fill gets. -/
theorem fill_pending (b : Reader) (e : IoErr) : (b.pending e).fill.err = some e := by
  have hreceived : (b.pending e).received = ([], some e, b.rd.separate) :=
    Source.read_failing _ e _
  rcases (b.pending e).fill_cases with ⟨herr, -⟩ | ⟨-, herr, -⟩ | ⟨-, -, hok, -⟩
  · cases herr
  · rw [herr, hreceived]
    rfl
  · rw [hreceived] at hok
    cases hok

theorem ensure_pending (hdata : b.data = []) : (b.pending e).ensure.err = some e := by
  rw [ensure, if_pos (show (b.pending e).data = [] from hdata), fill_pending]

/-! ## Bytes and lines -/

/-- Making sure that something is buffered fails with the same error, or does the same. -/
theorem Separated.ensure (h : Separated b b') (hok : ∀ r ∈ b.byteFills, r.Apart) :
    (∃ e, (b.err = some e ∨ b.err = none ∧ b.ensure.err = some e) ∧
      (b'.err = some e ∨ b'.err = none ∧ b'.ensure.err = some e)) ∨
    (b.err = none ∧ b.ensure.err = none ∧ b'.err = none ∧ b'.ensure = b.ensure.separate) := by
  cases h with
  | same =>
    cases herr : b.err with
    | some e => exact .inl ⟨e, .inl rfl, .inl herr⟩
    | none =>
      have hens : b.separate.ensure = b.ensure.separate :=
        ensure_separate fun hdata => hok b (by simp [byteFills, herr, hdata])
      rw [hens]
      cases hens' : b.ensure.err with
      | some e => exact .inl ⟨e, .inr ⟨rfl, rfl⟩, .inr ⟨herr, hens'⟩⟩
      | none => exact .inr ⟨rfl, rfl, herr, rfl⟩
  | @late e herr hdata => exact .inl ⟨e, .inl herr, .inr ⟨rfl, ensure_pending hdata⟩⟩

theorem peekByte_of_err (h : b.err = some e ∨ b.err = none ∧ b.ensure.err = some e) :
    ∃ b₁, Reader.peekByte b = .error (.io e) b₁ := by
  rcases h with h | ⟨h, hens⟩
  · simp [Reader.peekByte, h]
  · simp [Reader.peekByte, h, hens]

theorem readByte_of_err (h : b.err = some e ∨ b.err = none ∧ b.ensure.err = some e) :
    ∃ b₁, Reader.readByte b = .error (.io e) b₁ := by
  rcases h with h | ⟨h, hens⟩
  · simp [Reader.readByte, h]
  · simp [Reader.readByte, h, hens]

/-- The next byte is the same, and so is the error. -/
theorem Separated.peekByte (h : Separated b b') (hok : ∀ r ∈ b.byteFills, r.Apart) :
    Agree Separated (Reader.peekByte b) (Reader.peekByte b') := by
  rcases h.ensure hok with ⟨e, hb, hb'⟩ | ⟨herr, hens, herr', hens'⟩
  · obtain ⟨b₁, hb⟩ := peekByte_of_err hb
    obtain ⟨b₂, hb'⟩ := peekByte_of_err hb'
    rw [hb, hb']
    exact .error
  · simp only [Reader.peekByte, herr, hens, herr', hens',
      show b.ensure.separate.err = none from hens]
    exact .ok (.same _)

theorem Separated.readByte (h : Separated b b') (hok : ∀ r ∈ b.byteFills, r.Apart) :
    Agree Separated (Reader.readByte b) (Reader.readByte b') := by
  rcases h.ensure hok with ⟨e, hb, hb'⟩ | ⟨herr, hens, herr', hens'⟩
  · obtain ⟨b₁, hb⟩ := readByte_of_err hb
    obtain ⟨b₂, hb'⟩ := readByte_of_err hb'
    rw [hb, hb']
    exact .error
  · simp only [Reader.readByte, herr, hens, herr', hens',
      show b.ensure.separate.err = none from hens]
    exact .ok (.same (b.ensure.advance 1))

/-- Every fill of the loop is apart, so that it stops at the same place. -/
theorem readSliceLoop_separate {delim : UInt8} (hok : ∀ r ∈ b.sliceFills delim, r.Apart) :
    b.separate.readSliceLoop delim = ((b.readSliceLoop delim).1, (b.readSliceLoop delim).2.1,
      (b.readSliceLoop delim).2.2.separate) := by
  fun_induction readSliceLoop delim b with
  | case1 b hmem =>
    rw [readSliceLoop, if_pos (show delim ∈ b.separate.data from hmem)]
    rfl
  | case2 b hmem hfull =>
    rw [readSliceLoop, if_neg (show delim ∉ b.separate.data from hmem),
      dif_pos (show b.separate.data.length = b.separate.size from hfull)]
    rfl
  -- the only fill of the loop that may end with an error
  | case3 b hmem hfull hfill =>
    rw [sliceFills, if_neg hmem, dif_neg hfull, dif_pos hfill] at hok
    have hsep := fill_separate (hok b (List.mem_singleton_self b))
    rw [readSliceLoop, if_neg (show delim ∉ b.separate.data from hmem),
      dif_neg (show ¬b.separate.data.length = b.separate.size from hfull), hsep,
      dif_pos (show b.fill.separate.err.isSome from hfill)]
    rfl
  | case4 b hmem hfull hfill ih =>
    rw [sliceFills, if_neg hmem, dif_neg hfull, dif_neg hfill] at hok
    have hsep := fill_separate (hok b (List.mem_cons_self ..))
    rw [readSliceLoop, if_neg (show delim ∉ b.separate.data from hmem),
      dif_neg (show ¬b.separate.data.length = b.separate.size from hfull), hsep,
      dif_neg (show ¬b.fill.separate.err.isSome from hfill)]
    exact ih fun r hr => hok r (List.mem_cons_of_mem _ hr)

theorem readSlice_separate {delim : UInt8} (hok : ∀ r ∈ b.lineFills delim, r.Apart) :
    b.separate.readSlice delim = ((b.readSlice delim).1, (b.readSlice delim).2.1,
      (b.readSlice delim).2.2.separate) := by
  unfold Reader.readSlice
  by_cases hsome : b.err.isSome
  · rw [if_pos (show b.separate.err.isSome from hsome), if_pos hsome]
    rfl
  · rw [if_neg (show ¬b.separate.err.isSome from hsome), if_neg hsome]
    rw [lineFills, if_neg hsome] at hok
    exact readSliceLoop_separate hok

/-- An error that is still to come ends the next line. -/
theorem readSlice_pending (delim : UInt8) (hdata : b.data = []) :
    ∃ b₁, (b.pending e).readSlice delim = ([], some (.io e), b₁) := by
  have hempty : (b.pending e).data = [] := hdata
  have hpos := (b.pending e).size_pos
  have hroom : ¬(b.pending e).data.length = (b.pending e).size := by
    rw [hempty]
    exact hpos.ne
  refine ⟨(b.pending e).fill, ?_⟩
  rw [Reader.readSlice, if_neg (by simp [pending]), readSliceLoop, if_neg (by simp [hempty]),
    dif_neg hroom, dif_pos (by rw [fill_pending]; rfl), fill_pending]
  rfl

theorem readSlice_of_err (delim : UInt8) (herr : b.err = some e) :
    b.readSlice delim = ([], some (.io e), b) := by
  rw [Reader.readSlice, if_pos (by simp [herr]), herr]
  rfl

/-- A line is read alike. -/
theorem Separated.readLine (h : Separated b b') (hok : ∀ r ∈ b.lineFills LF, r.Apart) :
    Agree Separated (Redis.readLine b) (Redis.readLine b') := by
  unfold Redis.readLine
  cases h with
  | same =>
    rw [readSlice_separate hok]
    obtain ⟨line, err, b₁⟩ := b.readSlice LF
    cases err with
    | none => exact .ok (.same b₁)
    | some e => exact .error
  -- the error comes with the next fill instead of with the last bytes
  | late herr hdata =>
    obtain ⟨b₁, hslice⟩ := readSlice_pending LF hdata
    rw [readSlice_of_err LF herr, hslice]
    exact .error

/-- A line that is longer than the buffer is read alike. -/
theorem agree_readBytes_separate {delim : UInt8} {full : Bytes}
    (hok : ∀ r ∈ b.bytesFills delim, r.Apart) :
    Agree Separated (Reader.readBytes delim full b) (Reader.readBytes delim full b.separate) := by
  -- one case for each result of `ReadSlice`; only a full buffer goes on
  fun_induction Reader.readBytes delim full b with
  | case1 full b f b₁ hread =>
    have hline : ∀ r ∈ b.lineFills delim, r.Apart := fun r hr =>
      hok r (by rw [bytesFills]; exact List.mem_append_left _ hr)
    have hsep := readSlice_separate hline
    rw [hread] at hsep
    rw [readBytes_of_line hsep]
    exact .ok (.same b₁)
  | case2 full b f b₁ hread ih =>
    have hline : ∀ r ∈ b.lineFills delim, r.Apart := fun r hr =>
      hok r (by rw [bytesFills]; exact List.mem_append_left _ hr)
    have hsep := readSlice_separate hline
    rw [hread] at hsep
    rw [readBytes_of_full hsep]
    refine ih fun r hr => hok r ?_
    rw [bytesFills]
    refine List.mem_append_right _ ?_
    split <;> simp_all
  | case3 full b f e b₁ hne hread =>
    have hline : ∀ r ∈ b.lineFills delim, r.Apart := fun r hr =>
      hok r (by rw [bytesFills]; exact List.mem_append_left _ hr)
    have hsep := readSlice_separate hline
    rw [hread] at hsep
    rw [readBytes_of_error hsep hne]
    exact .error

theorem Separated.readBytes (h : Separated b b') (hok : ∀ r ∈ b.bytesFills LF, r.Apart) :
    Agree Separated (Reader.readBytes LF [] b) (Reader.readBytes LF [] b') := by
  cases h with
  | same => exact agree_readBytes_separate hok
  | late herr hdata =>
    obtain ⟨b₁, hslice⟩ := readSlice_pending LF hdata
    rw [readBytes_of_error (readSlice_of_err LF herr) (by simp),
      readBytes_of_error hslice (by simp)]
    exact .error

/-! ## A fixed number of bytes -/

/-- `Read` returns the same, or it returns bytes with an error on the direct path, and on the
    separated connection the error is still to come. -/
theorem read_separate (hok : ∀ r ∈ b.readFills n, r.Apart) :
    b.separate.read n = ((b.read n).1, (b.read n).2.1, (b.read n).2.2.separate) ∨
    ∃ e, (b.read n).1 ≠ [] ∧ (b.read n).2.1 = some e ∧ (b.read n).2.2.err = some e ∧
      (b.read n).2.2.data = [] ∧
      b.separate.read n = ((b.read n).1, none, (b.read n).2.2.pending e) := by
  unfold Reader.read
  by_cases hstop : b.err.isSome ∨ n = 0
  · rw [if_pos (show b.separate.err.isSome ∨ n = 0 from hstop), if_pos hstop]
    exact .inl rfl
  rw [if_neg (show ¬(b.separate.err.isSome ∨ n = 0) from hstop), if_neg hstop]
  rw [readFills, if_neg hstop] at hok
  -- a read as large as the buffer goes to the connection directly
  by_cases hdirect : b.data = [] ∧ b.size ≤ n
  · rw [if_pos (show b.separate.data = [] ∧ b.separate.size ≤ n from hdirect), if_pos hdirect]
    rcases b.rd.read_separate n with ⟨-, heq⟩ | ⟨hne, e, herr, heq⟩
    · refine .inl ?_
      simp only [separate, heq]
    · refine .inr ⟨e, hne, herr, herr, hdirect.1, ?_⟩
      simp only [separate, pending, heq]
  · rw [if_neg (show ¬(b.separate.data = [] ∧ b.separate.size ≤ n) from hdirect), if_neg hdirect]
    rw [if_neg hdirect] at hok
    have hens : b.separate.ensure = b.ensure.separate :=
      ensure_separate fun hdata => hok b (by simp [hdata])
    rw [hens]
    refine .inl ?_
    by_cases herr : b.ensure.err.isSome
    · rw [if_pos (show b.ensure.separate.err.isSome from herr), if_pos herr]
      rfl
    · rw [if_neg (show ¬b.ensure.separate.err.isSome from herr), if_neg herr]
      rfl

theorem read_pending (hdata : b.data = []) (hn : 0 < n) :
    ∃ b₁, (b.pending e).read n = ([], some e, b₁) := by
  have hread : (b.pending e).rd.read n = ([], some e, b.rd.separate) := Source.read_failing _ e n
  rw [Reader.read, if_neg (by simp [pending]; omega)]
  split
  · rw [hread]
    exact ⟨_, rfl⟩
  · rw [if_pos (by rw [ensure_pending hdata]; rfl), ensure_pending hdata]
    exact ⟨_, rfl⟩

/-- An error ends the loop before all bytes have come. -/
theorem readFullLoop_of_error {got : Bytes} (hn : n ≠ 0) (hpart : (b.read n).1.length ≠ n)
    (hread : (b.read n).2.1 = some e) : Reader.readFullLoop n got b =
      .error (if e = .eof ∧ got ++ (b.read n).1 ≠ [] then .unexpectedEOF else .io e)
        (b.read n).2.2 := by
  rw [Reader.readFullLoop, dif_neg hn, if_neg hpart]
  split
  · rename_i e' hread'
    obtain rfl := Option.some.inj (hread.symm.trans hread')
    split <;> rfl
  · rename_i hread'
    cases hread.symm.trans hread'

/-- Without an error the loop goes on with the bytes that are missing. -/
theorem readFullLoop_of_part {got : Bytes} (hn : n ≠ 0) (hpart : (b.read n).1.length ≠ n)
    (hread : (b.read n).2.1 = none) : Reader.readFullLoop n got b =
      Reader.readFullLoop (n - (b.read n).1.length) (got ++ (b.read n).1) (b.read n).2.2 := by
  rw [Reader.readFullLoop, dif_neg hn, if_neg hpart]
  split
  · rename_i e' hread'
    cases hread.symm.trans hread'
  · rfl

theorem mem_fullFills_of_readFills (hn : n ≠ 0) {r : Reader} (hr : r ∈ b.readFills n) :
    r ∈ b.fullFills n := by
  rw [fullFills, dif_neg hn]
  split
  · exact hr
  · split
    · exact hr
    · exact List.mem_append_left _ hr

theorem mem_fullFills_of_rest (hn : n ≠ 0) (hpart : (b.read n).1.length ≠ n)
    (hread : (b.read n).2.1 = none) {r : Reader}
    (hr : r ∈ (b.read n).2.2.fullFills (n - (b.read n).1.length)) : r ∈ b.fullFills n := by
  rw [fullFills, dif_neg hn, if_neg hpart]
  split
  · rename_i e' hread'
    cases hread.symm.trans hread'
  · exact List.mem_append_right _ hr

/-- An error that is still to come ends the loop at once. -/
theorem readFullLoop_pending (hdata : b.data = []) (hn : 0 < n) (got : Bytes) :
    ∃ b₁, Reader.readFullLoop n got (b.pending e) =
      .error (if e = .eof ∧ got ≠ [] then .unexpectedEOF else .io e) b₁ := by
  obtain ⟨b₁, hread⟩ := @read_pending b e n hdata hn
  have hpart : ((b.pending e).read n).1.length ≠ n := by
    rw [hread]
    exact hn.ne
  have hloop := @readFullLoop_of_error _ _ _ got hn.ne' hpart (congrArg (·.2.1) hread)
  rw [hread, List.append_nil] at hloop
  exact ⟨b₁, hloop⟩

/-- A read that fails within `io.ReadFull` makes it fail with the same error on the separated
    connection, at once or with the next read. -/
theorem readFullLoop_separate_of_error {got : Bytes} (hn : n ≠ 0)
    (hpart : (b.read n).1.length ≠ n) (hread : (b.read n).2.1 = some e)
    (hok : ∀ r ∈ b.readFills n, r.Apart) : ∃ b₁, Reader.readFullLoop n got b.separate =
      .error (if e = .eof ∧ got ++ (b.read n).1 ≠ [] then .unexpectedEOF else .io e) b₁ := by
  rcases read_separate hok with heq | ⟨e', -, hread', -, hdata, heq⟩
  · have hloop := @readFullLoop_of_error b.separate e n got hn (by rwa [heq])
      (by rw [heq]; exact hread)
    rw [heq] at hloop
    exact ⟨_, hloop⟩
  · obtain rfl := Option.some.inj (hread'.symm.trans hread)
    have hlen := b.length_read_le n
    have hpos : 0 < n - (b.read n).1.length := by omega
    obtain ⟨b₁, hpending⟩ := @readFullLoop_pending _ e' _ hdata hpos (got ++ (b.read n).1)
    have hloop := @readFullLoop_of_part b.separate n got hn (by rwa [heq]) (by rw [heq])
    rw [heq] at hloop
    exact ⟨b₁, hloop.trans hpending⟩

/-- A fixed number of bytes is read alike. -/
theorem agree_readFullLoop_separate {got : Bytes} (hok : ∀ r ∈ b.fullFills n, r.Apart) :
    Agree Separated (Reader.readFullLoop n got b) (Reader.readFullLoop n got b.separate) := by
  fun_induction Reader.readFullLoop n got b with
  | case1 got b =>
    rw [Reader.readFullLoop, dif_pos rfl]
    exact .ok (.same b)
  -- all bytes are there: an error that came with them is dropped
  | case2 n got b hn hall =>
    rw [fullFills, dif_neg hn, if_pos hall] at hok
    rw [Reader.readFullLoop, dif_neg hn]
    rcases read_separate hok with heq | ⟨e, -, -, herr, hdata, heq⟩
    · rw [heq, if_pos hall]
      exact .ok (.same _)
    · rw [heq, if_pos hall]
      exact .ok (.late herr hdata)
  | case3 n got b hn hpart e hread heof =>
    obtain ⟨b₁, hloop⟩ := @readFullLoop_separate_of_error b e n got hn hpart hread
      fun r hr => hok r (mem_fullFills_of_readFills hn hr)
    rw [hloop, if_pos heof]
    exact .error
  | case4 n got b hn hpart e hread heof =>
    obtain ⟨b₁, hloop⟩ := @readFullLoop_separate_of_error b e n got hn hpart hread
      fun r hr => hok r (mem_fullFills_of_readFills hn hr)
    rw [hloop, if_neg heof]
    exact .error
  | case5 n got b hn hpart hread ih =>
    rcases read_separate fun r hr => hok r (mem_fullFills_of_readFills hn hr) with
      heq | ⟨e, -, hread', -⟩
    · have hloop := @readFullLoop_of_part b.separate n got hn (by rwa [heq])
        (by rw [heq]; exact hread)
      rw [heq] at hloop
      rw [hloop]
      exact ih fun r hr => hok r (mem_fullFills_of_rest hn hpart hread hr)
    · cases hread'.symm.trans hread

theorem Separated.readFull (h : Separated b b') (hn : 0 < n)
    (hok : ∀ r ∈ if b.err.isSome then [] else b.fullFills n, r.Apart) :
    Agree Separated (Reader.readFull n b) (Reader.readFull n b') := by
  unfold Reader.readFull
  cases h with
  | same =>
    cases herr : b.err with
    | some e =>
      rw [show b.separate.err = some e from herr]
      exact .error
    | none =>
      rw [show b.separate.err = none from herr]
      simp only [herr, Option.isSome_none, Bool.false_eq_true, if_false, if_neg hn.ne'] at hok ⊢
      exact agree_readFullLoop_separate hok
  | @late e herr hdata =>
    obtain ⟨b₁, hread⟩ := @readFullLoop_pending b e n hdata hn []
    simp only [herr, show (b.pending e).err = none from rfl, if_neg hn.ne', hread]
    simp only [ne_eq, not_true_eq_false, and_false, if_false]
    exact .error

end Reader

/-! ## Decoding -/

open Reader (Separated Apart)

/-- Every operation of the decoder gives the same on both connections. -/
theorem ReaderOp.agree_separated {β : Type} (op : ReaderOp β) {b b' : Reader}
    (h : Separated b b') (hok : ∀ r ∈ op.fills b, r.Apart) :
    Agree Separated (op.onReader b) (op.onReader b') := by
  cases op with
  | peekByte => exact h.peekByte hok
  | readByte => exact h.readByte hok
  | readLine => exact h.readLine hok
  | readBytes => exact h.readBytes hok
  | readFull n hn => exact h.readFull hn hok

/-- Two decoders have the same error, or the second one reads the separated connection. -/
inductive Decoder.SeparatedFrom : Decoder → Decoder → Prop
  | failed {d d' : Decoder} (e : Err) (hd : d.err = some e) (hd' : d'.err = some e) :
      SeparatedFrom d d'
  | ready {b b' : Reader} (hb : Separated b b') : SeparatedFrom ⟨b, none⟩ ⟨b', none⟩

/-- One `Decode` returns the same, and leaves decoders that go on returning the same. -/
theorem Decoder.SeparatedFrom.decode {d d' : Decoder} (h : SeparatedFrom d d')
    (hok : d.err = none → (decodeCalls (d.br.unread.length + 1)).Meets ReaderOp.onReader
      (fun op b => ∀ r ∈ op.fills b, r.Apart) d.br) :
    d.decode.1 = d'.decode.1 ∧ SeparatedFrom d.decode.2 d'.decode.2 := by
  cases h with
  | failed e hd hd' =>
    simp only [Decoder.decode, hd, hd', true_and]
    exact .failed e hd hd'
  | @ready b b' hb =>
    have hres := agree_run (fun op s t hst hok => ReaderOp.agree_separated op hst hok) _ hb
      (hok rfl)
    rw [run_decodeCalls] at hres
    simp only [Decoder.decode, hb.unread_eq]
    generalize Redis.decode (b.unread.length + 1) b = x at hres
    generalize Redis.decode (b.unread.length + 1) b' = x' at hres
    cases hres with
    | ok hst => exact ⟨rfl, .ready hst⟩
    | error => exact ⟨rfl, .failed _ rfl rfl⟩

/-- All calls of `Decode` return the same. -/
theorem Decoder.SeparatedFrom.results {d d' : Decoder} (h : SeparatedFrom d d') {n : Nat}
    (hok : d.EachFill Apart n) : d.results n = d'.results n := by
  induction n generalizing d d' with
  | zero => rfl
  | succ n ih =>
    obtain ⟨hres, hnext⟩ := h.decode hok.1
    rw [Decoder.results, Decoder.results, hres, ih hnext hok.2]

theorem Decoder.EachFill.mono {ok ok' : Reader → Prop} (himp : ∀ r, ok r → ok' r) {n : Nat}
    {d : Decoder} (h : d.EachFill ok n) : d.EachFill ok' n := by
  induction n generalizing d with
  | zero => trivial
  | succ n ih =>
    refine ⟨fun hd => (h.1 hd).mono fun op b hall r hr => himp r (hall r hr), ih h.2⟩

/-- **Bytes that come with an error**: in any number of calls of `Decode`, no fill loses a byte and
    all results are those on the separated connection, if and only if no fill is given bytes
    together with an error. Bytes that come with an error on the direct path are kept. -/
theorem decode_separate_iff (s : Source IoErr) (bufSize n : Nat) :
    ((newDecoder s bufSize).EachFill (fun r => r.fill.unread = r.unread) n ∧
      (newDecoder s bufSize).results n = (newDecoder s.separate bufSize).results n) ↔
    (newDecoder s bufSize).EachFill Apart n := by
  constructor
  · rintro ⟨hkeeps, -⟩
    exact hkeeps.mono fun r => Reader.unread_fill_iff.mp
  · intro hapart
    refine ⟨hapart.mono fun r => Reader.unread_fill_iff.mpr, ?_⟩
    have hsep : Decoder.SeparatedFrom (newDecoder s bufSize) (newDecoder s.separate bufSize) :=
      .ready (.same (Reader.newReaderSize s bufSize))
    exact hsep.results hapart

-- on the direct path the bytes are kept: the body of a bulk string that is larger than the buffer
example : (newDecoder ⟨[⟨bytesOf "$6\r\n", none⟩, ⟨bytesOf "abcdef\r\n", some .eof⟩], .eof⟩
    4).results 1 = [.ok (.bulkString (some (bytesOf "abcdef")))] := by
  with_unfolding_all rfl

/-- An integer that comes together with the end of the connection. -/
def lateInteger : Source IoErr := ⟨[⟨bytesOf ":1\r\n", some .eof⟩], .eof⟩

/-- It is not decoded, although it is when the end comes in the next call. -/
theorem decode_lateInteger :
    (newDecoder lateInteger 4096).results 1 = [.error (.io .eof)] ∧
    (newDecoder lateInteger.separate 4096).results 1 = [.ok (.integer 1)] := by
  constructor
  · rfl
  · with_unfolding_all rfl

end Samaritan.Redis
