import Samaritan.Lib.Stream

/-!
# Buffered Reading

A reader with a fixed buffer in front of a `Source`, as the standard library has it
(`bufio.Reader`), and the reading of a given number of bytes from it (`io.ReadFull`).

- `BufReader.read` returns what is buffered, or the result of one read call of the input.
- `BufReader.fill` reads until something has come, for a limited number of calls.
- `BufReader.discard` and `BufReader.readFull` are loops over the two.

The two indices into the buffer are replaced by the unread part `data`. An error is kept while there
are bytes in front of it, and forgotten when it is returned.

`Supplies b xs` says that exactly the bytes `xs` are still to come from the reader. The rules for it
do not depend on how the input is cut into pieces.
-/

namespace Samaritan.Lib

/-- The errors of reading from an input whose own errors are of type `ε`. -/
inductive InputError (ε : Type*) where
  | eof
  | unexpectedEOF
  | noProgress
  | conn (e : ε)

/-- The end of the input is not expected in the middle of what is read. -/
def InputError.unexpected {ε : Type*} : InputError ε → InputError ε
  | .eof => .unexpectedEOF
  | e => e

/-- A buffered reader (`bufio.Reader`): `data` is the unread part of its buffer of `size` bytes. -/
structure BufReader (ε : Type*) where
  size : Nat
  data : Bytes
  rd : Source (InputError ε)
  err : Option (InputError ε)
  size_pos : 0 < size
  data_le : data.length ≤ size

variable {ε : Type*}

namespace BufReader

/-! ## Operations -/

/-- The default size of the buffer. -/
def defaultBufSize : Nat := 4096

theorem defaultBufSize_pos : 0 < defaultBufSize := Nat.zero_lt_succ _

/-- `NewReader`. -/
def newReader (rd : Source (InputError ε)) : BufReader ε where
  size := defaultBufSize
  data := []
  rd := rd
  err := none
  size_pos := defaultBufSize_pos
  data_le := Nat.zero_le _

/-- Consume the first `n` buffered bytes. -/
def advance (b : BufReader ε) (n : Nat) : BufReader ε :=
  { b with
    data := b.data.drop n
    data_le := by
      have hle := b.data_le
      rw [List.length_drop]
      omega }

/-- What one read call of the input returns for the free part of the buffer. -/
def received (b : BufReader ε) : Bytes × Option (InputError ε) × Source (InputError ε) :=
  b.rd.read (b.size - b.data.length)

/-- Put the bytes of one read call into the buffer. -/
def receive (b : BufReader ε) : BufReader ε :=
  { b with
    data := b.data ++ b.received.1
    rd := b.received.2.2
    data_le := by
      have hle := b.data_le
      have hread : b.received.1.length ≤ b.size - b.data.length := b.rd.length_read_le _
      rw [List.length_append]
      omega }

/-- The loop of `fill`: read calls that return neither bytes nor an error are repeated, but not
    forever. -/
def fillLoop : Nat → BufReader ε → BufReader ε
  | 0, b => { b with err := some .noProgress }
  | tries + 1, b =>
    match b.received.2.1 with
    | some e => { b.receive with err := some e }
    | none => if b.received.1 = [] then fillLoop tries b.receive else b.receive

/-- `fill`. -/
def fill (b : BufReader ε) : BufReader ε := fillLoop 100 b

/-- `Read`: at most `n` bytes. A large read on an empty buffer goes past the buffer. -/
def read (b : BufReader ε) (n : Nat) : Bytes × Option (InputError ε) × BufReader ε :=
  -- an error is forgotten when it is returned
  if n = 0 then ([], b.err, { b with err := none })
  else if b.data ≠ [] then (b.data.take n, none, b.advance n)
  else if b.err.isSome then ([], b.err, { b with err := none })
  else if b.size ≤ n then
    ((b.rd.read n).1, (b.rd.read n).2.1, { b with rd := (b.rd.read n).2.2 })
  -- one read call only, not as in `fill`
  else if b.received.1 = [] then ([], b.received.2.1, b.receive)
  else (b.received.1.take n, none, { b.receive with err := b.received.2.1 }.advance n)

/-- Make sure that something is buffered. -/
def ensure (b : BufReader ε) : BufReader ε := if b.data = [] then b.fill else b

/-- Filling ends with bytes in the buffer or with an error. -/
theorem fillLoop_data_ne_nil {tries : Nat} {b : BufReader ε} (h : (fillLoop tries b).err = none) :
    (fillLoop tries b).data ≠ [] := by
  induction tries generalizing b with
  | zero => simp [fillLoop] at h
  | succ tries ih =>
    unfold fillLoop at h ⊢
    split at h
    · simp at h
    · split at h
      · rename_i hnil
        rw [if_pos hnil]
        exact ih h
      · rename_i hne
        rw [if_neg hne]
        simp [receive, hne]

theorem ensure_data_ne_nil {b : BufReader ε} (h : b.ensure.err = none) : b.ensure.data ≠ [] := by
  unfold ensure at h ⊢
  split at h
  · rename_i hnil
    rw [if_pos hnil]
    exact fillLoop_data_ne_nil h
  · rename_i hne
    rwa [if_neg hne]

/-- The loop of `Discard`: how many bytes were not skipped, and why. -/
def discardLoop (remain : Nat) (b : BufReader ε) : Nat × Option (InputError ε) × BufReader ε :=
  if remain ≤ b.ensure.data.length then (0, none, b.ensure.advance remain)
  else if _hfail : b.ensure.err.isSome then
    (remain - b.ensure.data.length, b.ensure.err,
      { b.ensure.advance b.ensure.data.length with err := none })
  else discardLoop (remain - b.ensure.data.length) (b.ensure.advance b.ensure.data.length)
termination_by remain
decreasing_by
  have hne := ensure_data_ne_nil (show b.ensure.err = none by simpa using _hfail)
  have hpos := List.length_pos_iff.mpr hne
  omega

/-- `Discard`: how many of `n` bytes were skipped, and why not all. -/
def discard (b : BufReader ε) (n : Nat) : Nat × Option (InputError ε) × BufReader ε :=
  if n = 0 then (0, none, b)
  else (n - (discardLoop n b).1, (discardLoop n b).2)

theorem read_of_data {b : BufReader ε} {n : Nat} (hn : 0 < n) (h : b.data ≠ []) :
    b.read n = (b.data.take n, none, b.advance n) := by
  rw [read, if_neg (Nat.pos_iff_ne_zero.mp hn), if_pos h]

theorem read_of_err {b : BufReader ε} {n : Nat} (hn : 0 < n) (hdata : b.data = [])
    (h : b.err.isSome) : b.read n = ([], b.err, { b with err := none }) := by
  rw [read, if_neg (Nat.pos_iff_ne_zero.mp hn), if_neg (not_not_intro hdata), if_pos h]

/-- What a read on an empty buffer makes of one call of the input: the bytes are returned as far as
    they were asked for, and the error comes with them or is kept. -/
structure OneCall (call : Bytes × Option (InputError ε) × Source (InputError ε))
    (r : Bytes × Option (InputError ε) × BufReader ε) : Prop where
  rd : r.2.2.rd = call.2.2
  bytes : r.1 ++ r.2.2.data = call.1
  some_bytes : call.1 ≠ [] → r.1 ≠ []
  err : (r.2.1 = none ∧ r.1 ≠ [] ∧ r.2.2.err = call.2.1) ∨ (r.2.1 = call.2.1 ∧ r.2.2.err = none)

theorem read_of_empty {b : BufReader ε} {n : Nat} (hn : 0 < n) (hdata : b.data = [])
    (herr : b.err = none) : ∃ m, 0 < m ∧ OneCall (b.rd.read m) (b.read n) := by
  rw [read, if_neg (Nat.pos_iff_ne_zero.mp hn), if_neg (not_not_intro hdata),
    if_neg (by simp [herr])]
  split
  · exact ⟨n, hn, rfl, by simp [hdata], id, .inr ⟨rfl, herr⟩⟩
  · have hreceived : b.rd.read b.size = b.received := by simp [received, hdata]
    refine ⟨b.size, b.size_pos, ?_⟩
    rw [hreceived]
    split
    · rename_i hnil
      exact ⟨rfl, by simp [receive, hdata], absurd hnil, .inr ⟨rfl, herr⟩⟩
    · rename_i hne
      have htake : b.received.1.take n ≠ [] := take_ne_nil hn hne
      exact ⟨rfl, by simp [receive, advance, hdata], fun _ => htake, .inl ⟨rfl, htake, rfl⟩⟩

/-- A read that returns neither bytes nor an error has used up a call of the input. -/
theorem read_progress {b : BufReader ε} {n : Nat} (hn : 0 < n) (h : (b.read n).2.1 = none) :
    ((b.read n).1 ≠ [] ∧ (b.read n).2.2.rd.chunks.length ≤ b.rd.chunks.length) ∨
      (b.read n).2.2.rd.chunks.length < b.rd.chunks.length := by
  by_cases hdata : b.data = []
  · cases herr : b.err with
    | some e =>
      rw [read_of_err hn hdata (by simp [herr]), herr] at h
      cases h
    | none =>
      obtain ⟨m, hm, hcall⟩ := read_of_empty hn hdata herr
      rw [hcall.rd]
      by_cases hnil : (b.read n).1 = []
      · -- so the call has returned nothing
        right
        have hcallNil : (b.rd.read m).1 = [] := by
          by_contra hne
          exact hcall.some_bytes hne hnil
        have hcallErr : (b.rd.read m).2.1 = none := by
          rcases hcall.err with ⟨-, hne, -⟩ | ⟨heq, -⟩
          · exact absurd hnil hne
          · exact heq.symm.trans h
        rcases b.rd.read_progress hm hcallErr with ⟨hne, -⟩ | hlt
        · exact absurd hcallNil hne
        · exact hlt
      · exact .inl ⟨hnil, b.rd.length_chunks_read_le m⟩
  · rw [read_of_data hn hdata]
    exact .inl ⟨take_ne_nil hn hdata, le_refl _⟩

/-- `io.ReadFull`, after the bytes `got`: a call for `n` bytes more. -/
def readFullLoop (n : Nat) (got : Bytes) (b : BufReader ε) :
    Bytes × Option (InputError ε) × BufReader ε :=
  if _hdone : n = 0 then (got, none, b)
  else if _hfail : (b.read n).2.1.isSome then
    -- an error behind the last byte asked for is not returned
    if n ≤ (b.read n).1.length then (got ++ (b.read n).1, none, (b.read n).2.2)
    else if got ++ (b.read n).1 = [] then (got ++ (b.read n).1, (b.read n).2)
    else (got ++ (b.read n).1, (b.read n).2.1.map .unexpected, (b.read n).2.2)
  else readFullLoop (n - (b.read n).1.length) (got ++ (b.read n).1) (b.read n).2.2
-- a read may return nothing, but then it has used up a call of the input
termination_by n + b.rd.chunks.length
decreasing_by
  have hnone : (b.read n).2.1 = none := by simpa using _hfail
  rcases read_progress (Nat.pos_of_ne_zero _hdone) hnone with ⟨hne, hle⟩ | hlt
  · have hpos := List.length_pos_iff.mpr hne
    omega
  · omega

/-- `io.ReadFull`: exactly `n` bytes, or what there is and an error. -/
def readFull (b : BufReader ε) (n : Nat) : Bytes × Option (InputError ε) × BufReader ε :=
  readFullLoop n [] b

/-! ## What is still to come -/

/-- The bytes `xs` are still to come from the reader, and then the end of the input. -/
structure Supplies (b : BufReader ε) (xs : Bytes) : Prop where
  clean : b.rd.Clean
  noErr : b.err = none
  unread : b.data ++ b.rd.bytes = xs

theorem supplies_newReader {rd : Source (InputError ε)} (h : rd.Clean) :
    (newReader rd).Supplies rd.bytes := ⟨h, rfl, rfl⟩

/-- A read returns a first part of what is to come; only at the end it returns an error. -/
theorem Supplies.read {b : BufReader ε} {xs : Bytes} (h : b.Supplies xs) {n : Nat} (hn : 0 < n) :
    (xs = [] ∧ (b.read n).1 = [] ∧ (b.read n).2.1.isSome) ∨
      ((b.read n).1 ≠ [] ∧ (b.read n).2.1 = none ∧
        ∃ ys, xs = (b.read n).1 ++ ys ∧ (b.read n).2.2.Supplies ys) := by
  by_cases hdata : b.data = []
  · -- nothing is buffered, so one call of the input decides
    obtain ⟨m, hm, hcall⟩ := read_of_empty hn hdata h.noErr
    have hxs : b.rd.bytes = xs := by simpa [hdata] using h.unread
    by_cases hbytes : b.rd.bytes = []
    · left
      have hread := h.clean.read_of_nil hbytes m
      rw [hread] at hcall
      have hnil : (b.read n).1 = [] := (List.append_eq_nil_iff.mp hcall.bytes).1
      refine ⟨hxs.symm.trans hbytes, hnil, ?_⟩
      rcases hcall.err with ⟨-, hne, -⟩ | ⟨heq, -⟩
      · exact absurd hnil hne
      · rw [heq]
        rfl
    · right
      obtain ⟨hne, hnone, hclean⟩ := h.clean.read hbytes hm
      have hsplit := b.rd.read_append_bytes m
      have herrs : (b.read n).2.1 = none ∧ (b.read n).2.2.err = none := by
        rcases hcall.err with ⟨hres, -, hkept⟩ | ⟨hres, hkept⟩
        · exact ⟨hres, hkept.trans hnone⟩
        · exact ⟨hres.trans hnone, hkept⟩
      refine ⟨hcall.some_bytes hne, herrs.1, (b.read n).2.2.data ++ (b.read n).2.2.rd.bytes, ?_,
        ?_, herrs.2, rfl⟩
      · rw [← List.append_assoc, hcall.bytes, hcall.rd, hsplit, hxs]
      · rw [hcall.rd]
        exact hclean
  · right
    rw [read_of_data hn hdata]
    refine ⟨take_ne_nil hn hdata, rfl, b.data.drop n ++ b.rd.bytes, ?_, h.clean, h.noErr, rfl⟩
    rw [← List.append_assoc, List.take_append_drop, h.unread]

/-- Filling an empty buffer takes the next bytes over. -/
theorem Supplies.fill {b : BufReader ε} {xs : Bytes} (h : b.Supplies xs) (hdata : b.data = [])
    (hxs : xs ≠ []) : b.fill.Supplies xs := by
  have hbytes : b.rd.bytes = xs := by simpa [hdata] using h.unread
  have hroom : 0 < b.size - b.data.length := by simpa [hdata] using b.size_pos
  obtain ⟨hne, hnone, hclean⟩ := h.clean.read (by rwa [hbytes]) hroom
  have hfill : b.fill = b.receive := by
    unfold BufReader.fill fillLoop
    simp only [received, hnone]
    exact if_neg hne
  rw [hfill]
  refine ⟨hclean, h.noErr, ?_⟩
  show b.data ++ b.received.1 ++ b.received.2.2.bytes = xs
  rw [List.append_assoc, received, b.rd.read_append_bytes, h.unread]

theorem Supplies.ensure {b : BufReader ε} {xs : Bytes} (h : b.Supplies xs) (hxs : xs ≠ []) :
    b.ensure.Supplies xs := by
  unfold BufReader.ensure
  split
  · rename_i hdata
    exact h.fill hdata hxs
  · exact h

/-- Skipping over buffered bytes. -/
theorem Supplies.advance {b : BufReader ε} {xs : Bytes} (h : b.Supplies xs) {n : Nat}
    (hn : n ≤ b.data.length) : (b.advance n).Supplies (xs.drop n) := by
  refine ⟨h.clean, h.noErr, ?_⟩
  rw [← h.unread, List.drop_append_of_le_length hn]
  rfl

theorem Supplies.discardLoop {b : BufReader ε} {xs : Bytes} (h : b.Supplies xs) {n : Nat}
    (hpos : 0 < n) (hn : n ≤ xs.length) :
    ∃ b', BufReader.discardLoop n b = (0, none, b') ∧ b'.Supplies (xs.drop n) := by
  have hens : b.ensure.Supplies xs := h.ensure (List.length_pos_iff.mp (hpos.trans_le hn))
  fun_induction BufReader.discardLoop n b generalizing xs with
  | case1 n b hle => exact ⟨_, rfl, hens.advance hle⟩
  | case2 n b _ hfail => simp [hens.noErr] at hfail
  | case3 n b hle _ ih =>
    -- the whole buffer is skipped, and there is more to skip behind it
    have hnext := hens.advance (le_refl b.ensure.data.length)
    have hlen : n - b.ensure.data.length ≤ (xs.drop b.ensure.data.length).length := by
      rw [List.length_drop]
      omega
    have hpos' : 0 < n - b.ensure.data.length := by omega
    obtain ⟨b', hloop, hb'⟩ := ih hnext hpos' hlen
      (hnext.ensure (List.length_pos_iff.mp (hpos'.trans_le hlen)))
    refine ⟨b', hloop, ?_⟩
    rw [List.drop_drop] at hb'
    have hsum : b.ensure.data.length + (n - b.ensure.data.length) = n := by omega
    rwa [hsum] at hb'

/-- `Discard` skips over bytes that are to come. -/
theorem Supplies.discard {b : BufReader ε} {xs ys : Bytes} (h : b.Supplies (xs ++ ys)) :
    ∃ b', b.discard xs.length = (xs.length, none, b') ∧ b'.Supplies ys := by
  unfold BufReader.discard
  split
  · rename_i hzero
    obtain rfl := List.length_eq_zero_iff.mp hzero
    exact ⟨b, rfl, h⟩
  · rename_i hne
    obtain ⟨b', hloop, hb'⟩ := h.discardLoop (Nat.pos_of_ne_zero hne) (by simp)
    rw [hloop]
    rw [List.drop_left] at hb'
    exact ⟨b', rfl, hb'⟩

theorem length_read_le (b : BufReader ε) (n : Nat) : (b.read n).1.length ≤ n := by
  unfold BufReader.read
  split
  · exact Nat.zero_le _
  · split
    · exact List.length_take_le _ _
    · split
      · exact Nat.zero_le _
      · split
        · exact b.rd.length_read_le n
        · split
          · exact Nat.zero_le _
          · exact List.length_take_le _ _

/-- As long as bytes are to come, a read does not fail. -/
theorem Supplies.read_of_isSome {b : BufReader ε} {xs : Bytes} (h : b.Supplies xs) {n : Nat}
    (hn : 0 < n) (hfail : (b.read n).2.1.isSome) : xs = [] ∧ (b.read n).1 = [] := by
  rcases h.read hn with ⟨hxs, hnil, -⟩ | ⟨-, hnone, -⟩
  · exact ⟨hxs, hnil⟩
  · simp [hnone] at hfail

theorem Supplies.read_of_none {b : BufReader ε} {xs : Bytes} (h : b.Supplies xs) {n : Nat}
    (hn : 0 < n) (hnone : ¬ (b.read n).2.1.isSome) :
    ∃ ys, xs = (b.read n).1 ++ ys ∧ (b.read n).2.2.Supplies ys := by
  rcases h.read hn with ⟨-, -, hfail⟩ | ⟨-, -, hys⟩
  · exact absurd hfail hnone
  · exact hys

theorem Supplies.readFullLoop {b : BufReader ε} {xs : Bytes} (h : b.Supplies xs) {n : Nat}
    (hn : n ≤ xs.length) (got : Bytes) :
    ∃ b', BufReader.readFullLoop n got b = (got ++ xs.take n, none, b') ∧
      b'.Supplies (xs.drop n) := by
  fun_induction BufReader.readFullLoop n got b generalizing xs with
  | case1 got b => exact ⟨b, by simp, h⟩
  | case2 n got b hpos hfail | case3 n got b hpos hfail | case4 n got b hpos hfail =>
    -- a read fails at the end only, but there are bytes
    obtain ⟨rfl, -⟩ := h.read_of_isSome (Nat.pos_of_ne_zero hpos) hfail
    exact absurd (Nat.le_zero.mp hn) hpos
  | case5 n got b hpos hnone ih =>
    obtain ⟨ys, rfl, hys⟩ := h.read_of_none (Nat.pos_of_ne_zero hpos) hnone
    have hle := b.length_read_le n
    obtain ⟨b', hloop, hb'⟩ := ih hys (by rw [List.length_append] at hn; omega)
    refine ⟨b', ?_, ?_⟩
    · rw [hloop, List.take_append, List.take_of_length_le hle, List.append_assoc]
    · rwa [List.drop_append, List.drop_of_length_le hle]

theorem Supplies.readFullLoop_short {b : BufReader ε} {xs : Bytes} (h : b.Supplies xs) {n : Nat}
    (hn : xs.length < n) (got : Bytes) : (BufReader.readFullLoop n got b).2.1.isSome := by
  fun_induction BufReader.readFullLoop n got b generalizing xs with
  | case1 got b => exact absurd hn (Nat.not_lt_zero _)
  | case2 n got b hpos hfail hle =>
    obtain ⟨-, hnil⟩ := h.read_of_isSome (Nat.pos_of_ne_zero hpos) hfail
    rw [hnil] at hle
    exact absurd (Nat.le_zero.mp hle) hpos
  | case3 n got b hpos hfail => exact hfail
  | case4 n got b hpos hfail => simpa using hfail
  | case5 n got b hpos hnone ih =>
    obtain ⟨ys, rfl, hys⟩ := h.read_of_none (Nat.pos_of_ne_zero hpos) hnone
    refine ih hys ?_
    rw [List.length_append] at hn
    omega

/-- `io.ReadFull` returns the next bytes. -/
theorem Supplies.readFull {b : BufReader ε} {xs ys : Bytes} (h : b.Supplies (xs ++ ys)) :
    ∃ b', b.readFull xs.length = (xs, none, b') ∧ b'.Supplies ys := by
  obtain ⟨b', hloop, hb'⟩ := h.readFullLoop (n := xs.length) (by simp) []
  rw [List.take_left, List.nil_append] at hloop
  rw [List.drop_left] at hb'
  exact ⟨b', hloop, hb'⟩

/-- `io.ReadFull` fails when there are not enough bytes. -/
theorem Supplies.readFull_short {b : BufReader ε} {xs : Bytes} (h : b.Supplies xs) {n : Nat}
    (hn : xs.length < n) : (b.readFull n).2.1.isSome :=
  h.readFullLoop_short hn []

end BufReader

end Samaritan.Lib
