import Samaritan.Lib.Program
import Samaritan.Redis.Resp
import Samaritan.Redis.Bufio

/-!
# The Reader as a Reader of a Stream

What the operations of the buffered reader are for, without a buffer and without pieces: they take
bytes from the front of a stream that ends in an error. The size of the buffer is left only as the
limit of a line that `ReadSlice` can return.

On a connection that returns its bytes in non-empty pieces and then an error, each operation of the
reader does what it does on the stream of these bytes, however they are cut.
-/

namespace Samaritan.Redis

open Samaritan.Lib Program

/-! ## Streams -/

namespace ByteStream

/-- The bytes up to and including the first delimiter. -/
def upTo (delim : UInt8) (input : Bytes) : Bytes := input.take (input.idxOf delim + 1)

/-- The bytes behind the first delimiter. -/
def behind (delim : UInt8) (input : Bytes) : Bytes := input.drop (input.idxOf delim + 1)

variable (size : Nat) (final : IoErr)

def peekByte : EStateM Err Bytes UInt8
  | [] => .error (.io final) []
  | c :: rest => .ok c (c :: rest)

def readByte : EStateM Err Bytes UInt8
  | [] => .error (.io final) []
  | c :: rest => .ok c rest

/-- The line up to the next LF, if it is not longer than `size`. -/
def readLine : EStateM Err Bytes Bytes := fun input =>
  if LF ∈ input.take size then .ok (upTo LF input) (behind LF input)
  else if size ≤ input.length then .error .bufferFull (input.drop size)
  else .error (.io final) input

/-- The line up to the next LF. -/
def readBytes : EStateM Err Bytes Bytes := fun input =>
  if LF ∈ input then .ok (upTo LF input) (behind LF input)
  else .error (.io final) []

/-- The next `n` bytes. A stream that ends in between has ended unexpectedly. -/
def readFull (n : Nat) : EStateM Err Bytes Bytes := fun input =>
  if n ≤ input.length then .ok (input.take n) (input.drop n)
  else if final = .eof ∧ input ≠ [] then .error .unexpectedEOF []
  else .error (.io final) []

theorem upTo_append_of_mem {delim : UInt8} {l rest : Bytes} (h : delim ∈ l) :
    upTo delim (l ++ rest) = upTo delim l ∧ behind delim (l ++ rest) = behind delim l ++ rest := by
  have hlt := List.idxOf_lt_length_iff.mpr h
  unfold upTo behind
  rw [List.idxOf_append_of_mem h]
  exact ⟨List.take_append_of_le_length hlt, List.drop_append_of_le_length hlt⟩

theorem upTo_append_of_not_mem {delim : UInt8} {l rest : Bytes} (h : delim ∉ l) :
    upTo delim (l ++ rest) = l ++ upTo delim rest ∧
      behind delim (l ++ rest) = behind delim rest := by
  unfold upTo behind
  rw [List.idxOf_append_of_notMem h, Nat.add_assoc]
  exact ⟨List.take_length_add_append _, List.drop_length_add_append _⟩

theorem upTo_line {delim : UInt8} {l rest : Bytes} (h : delim ∉ l) :
    upTo delim (l ++ delim :: rest) = l ++ [delim] ∧ behind delim (l ++ delim :: rest) = rest := by
  obtain ⟨hupTo, hbehind⟩ := @upTo_append_of_not_mem delim l (delim :: rest) h
  rw [hupTo, hbehind]
  simp [upTo, behind]

/-- A line is returned if its LF is one of the first `size` bytes. -/
theorem readLine_eq_ok_iff {input line rest : Bytes} :
    readLine size final input = .ok line rest ↔
      ∃ l, LF ∉ l ∧ l.length < size ∧ line = l ++ [LF] ∧ input = l ++ LF :: rest := by
  have hidx : ∀ {l r : Bytes}, LF ∉ l → (LF ∈ (l ++ LF :: r).take size ↔ l.length < size) := by
    intro l r hl
    rw [List.mem_take_iff_idxOf_lt (by simp), List.idxOf_append_of_notMem hl]
    simp
  unfold readLine
  constructor
  · intro h
    split at h
    · rename_i hmem
      obtain ⟨l, r, rfl, hl⟩ := List.eq_append_cons_of_mem (List.mem_of_mem_take hmem)
      obtain ⟨hupTo, hbehind⟩ := @upTo_line LF l r hl
      rw [hupTo, hbehind] at h
      cases h
      exact ⟨l, hl, (hidx hl).mp hmem, rfl, rfl⟩
    · split at h <;> cases h
  · rintro ⟨l, hl, hlen, rfl, rfl⟩
    obtain ⟨hupTo, hbehind⟩ := @upTo_line LF l rest hl
    rw [if_pos ((hidx hl).mpr hlen), hupTo, hbehind]

theorem readBytes_eq_ok_iff {input line rest : Bytes} :
    readBytes final input = .ok line rest ↔
      ∃ l, LF ∉ l ∧ line = l ++ [LF] ∧ input = l ++ LF :: rest := by
  unfold readBytes
  constructor
  · intro h
    split at h
    · rename_i hmem
      obtain ⟨l, r, rfl, hl⟩ := List.eq_append_cons_of_mem hmem
      obtain ⟨hupTo, hbehind⟩ := @upTo_line LF l r hl
      rw [hupTo, hbehind] at h
      cases h
      exact ⟨l, hl, rfl, rfl⟩
    · cases h
  · rintro ⟨l, hl, rfl, rfl⟩
    obtain ⟨hupTo, hbehind⟩ := @upTo_line LF l rest hl
    rw [if_pos (by simp), hupTo, hbehind]

theorem readFull_eq_ok_iff {n : Nat} {input b rest : Bytes} :
    readFull final n input = .ok b rest ↔ b.length = n ∧ input = b ++ rest := by
  unfold readFull
  constructor
  · intro h
    split at h
    · rename_i hlen
      cases h
      exact ⟨List.length_take_of_le hlen, (List.take_append_drop n input).symm⟩
    · split at h <;> cases h
  · rintro ⟨rfl, rfl⟩
    rw [if_pos (by simp), List.take_left, List.drop_left]

end ByteStream

/-! ## The reader -/

namespace Reader

open ByteStream (upTo behind)

variable {size : Nat} {final : IoErr} {b : Reader} {input : Bytes}

/-- The reader stands in front of a stream: it has no error, the stream is unread, to arrive in
    non-empty pieces, and then comes the error. -/
structure Streams (size : Nat) (final : IoErr) (b : Reader) (input : Bytes) : Prop
    extends Delivers b input where
  size_eq : b.size = size
  final_eq : b.rd.final = final

theorem streams_newReaderSize {rd : Source IoErr} (hrd : rd.Clean) (size : Nat) :
    Streams (newReaderSize rd size).size rd.final (newReaderSize rd size) rd.bytes :=
  ⟨delivers_newReaderSize hrd size, rfl, rfl⟩

/-- Consuming bytes that are buffered. -/
theorem Streams.advance (h : Streams size final b input) {n : Nat} (hn : n ≤ b.data.length) :
    Streams size final (b.advance n) (input.drop n) := by
  have hadv := h.toDelivers.advance n
  rw [min_eq_left hn] at hadv
  exact ⟨hadv, h.size_eq, h.final_eq⟩

/-- Filling an unfinished stream succeeds and keeps it; otherwise the error has come. -/
theorem Streams.fill (h : Streams size final b input) (hroom : b.data.length < size) :
    (b.data.length < input.length ∧ Streams size final b.fill input) ∨
      (b.data = input ∧ b.fill.err = some final) := by
  have hunread := h.unread_eq
  have hrd := b.fill_cases
  -- whether the connection still has bytes
  by_cases hbytes : b.rd.bytes = []
  · right
    have hreceived : b.received = ([], some b.rd.final, b.rd) := h.clean.read_of_nil hbytes _
    refine ⟨by rwa [unread, hbytes, List.append_nil] at hunread, ?_⟩
    rcases hrd with ⟨herr, -⟩ | ⟨-, herr, -⟩ | ⟨-, -, hnone, -⟩
    · simp [h.err] at herr
    · rw [herr, hreceived, ← h.final_eq]
      rfl
    · simp [hreceived] at hnone
  · left
    have hmore : b.data.length < input.length := by
      rw [← hunread, unread, List.length_append]
      have := List.length_pos_iff.mpr hbytes
      omega
    obtain ⟨hfill, hsize⟩ := h.toDelivers.fill (h.size_eq ▸ hroom) hmore
    refine ⟨hmore, hfill, hsize.trans h.size_eq, ?_⟩
    rcases hrd with ⟨herr, -⟩ | ⟨-, herr, -⟩ | ⟨-, -, -, -, -, -, hrd⟩
    · simp [h.err] at herr
    · simp [hfill.err] at herr
    · rw [hrd, received, Source.read_final, h.final_eq]

/-- What is buffered is a part of the stream. -/
theorem Streams.data_append (h : Streams size final b input) :
    ∃ rest, input = b.data ++ rest ∧ b.data.length ≤ size :=
  ⟨b.rd.bytes, h.unread_eq.symm, h.size_eq ▸ b.data_le⟩

theorem Streams.size_pos (h : Streams size final b input) : 0 < size :=
  h.size_eq ▸ b.size_pos

theorem Streams.ensure_nil (h : Streams size final b []) : b.ensure.err = some final := by
  obtain ⟨rest, hrest, -⟩ := h.data_append
  have hdata : b.data = [] := (List.append_eq_nil_iff.mp hrest.symm).1
  rw [ensure, if_pos hdata]
  rcases h.fill (by simpa [hdata] using h.size_pos) with ⟨hlt, -⟩ | ⟨-, herr⟩
  · simp at hlt
  · exact herr

theorem Streams.ensure_cons {c : UInt8} {rest : Bytes} (h : Streams size final b (c :: rest)) :
    Streams size final b.ensure (c :: rest) ∧ ∃ tl, b.ensure.data = c :: tl := by
  obtain ⟨hens, hsize, tl, hdata⟩ := h.toDelivers.ensure
  refine ⟨⟨hens, hsize.trans h.size_eq, ?_⟩, tl, hdata⟩
  rw [ensure]
  split
  · rename_i hnil
    rcases h.fill (by simpa [hnil] using h.size_pos) with ⟨-, hfill⟩ | ⟨hall, -⟩
    · exact hfill.final_eq
    · simp [hnil] at hall
  · exact h.final_eq

theorem Streams.peekByte (h : Streams size final b input) :
    Agree (Streams size final) (Reader.peekByte b) (ByteStream.peekByte final input) := by
  cases input with
  | nil =>
    have hpeek : Reader.peekByte b = .error (.io final) b.ensure := by
      simp [Reader.peekByte, h.err, h.ensure_nil]
    rw [hpeek]
    exact .error
  | cons c rest =>
    obtain ⟨hens, tl, hdata⟩ := h.ensure_cons
    have hpeek : Reader.peekByte b = .ok c b.ensure := by
      simp [Reader.peekByte, h.err, hens.err, hdata]
    rw [hpeek]
    exact .ok hens

theorem Streams.readByte (h : Streams size final b input) :
    Agree (Streams size final) (Reader.readByte b) (ByteStream.readByte final input) := by
  cases input with
  | nil =>
    have hread : Reader.readByte b = .error (.io final) b.ensure := by
      simp [Reader.readByte, h.err, h.ensure_nil]
    rw [hread]
    exact .error
  | cons c rest =>
    obtain ⟨hens, tl, hdata⟩ := h.ensure_cons
    have hread : Reader.readByte b = .ok c (b.ensure.advance 1) := by
      simp [Reader.readByte, h.err, hens.err, hdata]
    rw [hread]
    exact .ok (hens.advance (by simp [hdata]))

/-! ## Lines -/

/-- What `ReadSlice` makes of a stream. -/
inductive Sliced (size : Nat) (final : IoErr) (delim : UInt8) (input : Bytes) :
    Bytes × Option Err × Reader → Prop
  /-- the line fits into the buffer -/
  | line {b : Reader} (hmem : delim ∈ input.take size)
      (hb : Streams size final b (behind delim input)) :
      Sliced size final delim input (upTo delim input, none, b)
  /-- a full buffer without a delimiter -/
  | full {b : Reader} (hmem : delim ∉ input.take size) (hlen : size ≤ input.length)
      (hb : Streams size final b (input.drop size)) :
      Sliced size final delim input (input.take size, some .bufferFull, b)
  /-- the stream has ended -/
  | ended {b : Reader} (hmem : delim ∉ input) (hlen : input.length < size) :
      Sliced size final delim input ([], some (.io final), b)

theorem Streams.readSlice (h : Streams size final b input) (delim : UInt8) :
    Sliced size final delim input (b.readSlice delim) := by
  rw [Reader.readSlice, if_neg (by simp [h.err])]
  -- each round of the loop finds the delimiter, finds the buffer full, or fills it further
  fun_induction readSliceLoop delim b with
  | case1 b hmem =>
    obtain ⟨rest, hrest, hle⟩ := h.data_append
    have hlt := List.idxOf_lt_length_iff.mpr hmem
    have hidx : input.idxOf delim = b.data.idxOf delim := by
      rw [hrest, List.idxOf_append_of_mem hmem]
    have hline : b.data.take (b.data.idxOf delim + 1) = upTo delim input := by
      rw [hrest, (ByteStream.upTo_append_of_mem hmem).1]
      rfl
    have hb := h.advance hlt
    rw [hline]
    rw [← hidx] at hb ⊢
    refine .line ?_ hb
    rw [hrest, List.take_append]
    exact List.mem_append_left _ (by rwa [List.take_of_length_le hle])
  | case2 b hmem hfull =>
    obtain ⟨rest, hrest, hle⟩ := h.data_append
    have hlen : b.data.length = size := hfull.trans h.size_eq
    have hdata : input.take size = b.data := by
      rw [hrest, ← hlen, List.take_left]
    have hb := h.advance hlen.ge
    rw [← hdata, h.size_eq]
    exact .full (hdata ▸ hmem) (by rw [hrest, List.length_append]; omega) hb
  | case3 b hmem hfull hfill =>
    have hroom : b.data.length < size := h.size_eq ▸ lt_of_le_of_ne b.data_le hfull
    rcases h.fill hroom with ⟨-, hok⟩ | ⟨hall, herr⟩
    · simp [hok.err] at hfill
    · rw [herr]
      exact .ended (hall ▸ hmem) (hall ▸ hroom)
  | case4 b hmem hfull hfill ih =>
    have hroom : b.data.length < size := h.size_eq ▸ lt_of_le_of_ne b.data_le hfull
    rcases h.fill hroom with ⟨-, hok⟩ | ⟨-, herr⟩
    · exact ih hok
    · simp [herr] at hfill

/-- `ReadBytes` returns the line whatever its length. -/
theorem Streams.readBytes (h : Streams size final b input) (full : Bytes) :
    (LF ∈ input ∧ ∃ b', Reader.readBytes LF full b = .ok (full ++ upTo LF input) b' ∧
      Streams size final b' (behind LF input)) ∨
    (LF ∉ input ∧ ∃ b', Reader.readBytes LF full b = .error (.io final) b') := by
  induction hn : input.length using Nat.strongRecOn generalizing b input full with
  | ind n ih =>
    subst hn
    have hslice := h.readSlice LF
    generalize hread : b.readSlice LF = r at hslice
    cases hslice with
    | line hmem hb =>
      exact .inl ⟨List.mem_of_mem_take hmem, _, readBytes_of_line hread, hb⟩
    | full hmem hlen hb =>
      -- a full buffer is collected, and the rest of the stream is shorter
      have hpos := h.size_pos
      have hsplit : input = input.take size ++ input.drop size := (List.take_append_drop ..).symm
      obtain ⟨hupTo, hbehind⟩ := @ByteStream.upTo_append_of_not_mem LF _ (input.drop size) hmem
      rw [← hsplit] at hupTo hbehind
      have hiff : LF ∈ input ↔ LF ∈ input.drop size := by
        conv_lhs => rw [hsplit, List.mem_append]
        simp [hmem]
      rw [readBytes_of_full hread, hupTo, hbehind, hiff, ← List.append_assoc]
      exact ih _ (by rw [List.length_drop]; omega) hb (full ++ input.take size) rfl
    | ended hmem hlen =>
      exact .inr ⟨hmem, _, readBytes_of_error hread (by simp)⟩

/-! ## A fixed number of bytes -/

/-- `Read` returns some of the bytes that are left, or the error. -/
theorem Streams.read (h : Streams size final b input) {n : Nat} (hn : 0 < n) :
    (∃ d b' rest, b.read n = (d, none, b') ∧ d ≠ [] ∧ d.length ≤ n ∧ input = d ++ rest ∧
      Streams size final b' rest) ∨
    (input = [] ∧ ∃ b', b.read n = ([], some final, b')) := by
  rw [Reader.read, if_neg (by simp [h.err]; omega)]
  cases input with
  | nil =>
    right
    refine ⟨rfl, ?_⟩
    have hdata : b.data = [] := by
      obtain ⟨rest, hrest, -⟩ := h.data_append
      exact (List.append_eq_nil_iff.mp hrest.symm).1
    have hbytes : b.rd.bytes = [] := by simpa [unread, hdata] using h.unread_eq
    split
    · rw [h.clean.read_of_nil hbytes n, h.final_eq]
      exact ⟨_, rfl⟩
    · rw [if_pos (by simp [h.ensure_nil]), h.ensure_nil]
      exact ⟨_, rfl⟩
  | cons c rest =>
    left
    split
    -- past the empty buffer, straight from the connection
    · rename_i hdirect
      have hunread := h.unread_eq
      simp only [unread, hdirect.1, List.nil_append] at hunread
      obtain ⟨hne, hok, hclean⟩ := h.clean.read (by simp [hunread]) hn
      have hsplit := b.rd.read_append_bytes n
      refine ⟨(b.rd.read n).1, { b with rd := (b.rd.read n).2.2, err := none },
        (b.rd.read n).2.2.bytes, by rw [hok], hne, b.rd.length_read_le n, ?_, ?_⟩
      · rw [hsplit, hunread]
      · exact ⟨⟨rfl, hclean, by simp [unread, hdirect.1]⟩, h.size_eq,
          (b.rd.read_final n).trans h.final_eq⟩
    · obtain ⟨hens, tl, hdata⟩ := h.ensure_cons
      obtain ⟨more, hmore, -⟩ := hens.data_append
      rw [if_neg (by simp [hens.err])]
      have hadv := hens.toDelivers.advance n
      have htake : b.ensure.data.take n = (c :: rest).take (min n b.ensure.data.length) := by
        rw [hmore, List.take_append_of_le_length (min_le_right _ _), ← List.take_eq_take_min]
      refine ⟨_, _, _, rfl, ?_, List.length_take_le n _, ?_, ⟨hadv, hens.size_eq, hens.final_eq⟩⟩
      · exact take_ne_nil (by omega) (by simp [hdata])
      · rw [htake, List.take_append_drop]

/-- `io.ReadFull` collects exactly the bytes asked for, or ends with the stream. -/
theorem Streams.readFullLoop (h : Streams size final b input) (n : Nat) (got : Bytes) :
    (n ≤ input.length ∧ ∃ b', Reader.readFullLoop n got b = .ok (got ++ input.take n) b' ∧
      Streams size final b' (input.drop n)) ∨
    (input.length < n ∧ ∃ b', Reader.readFullLoop n got b =
      .error (if final = .eof ∧ got ++ input ≠ [] then .unexpectedEOF else .io final) b') := by
  -- on the number of bytes asked for, which every read lowers
  induction n using Nat.strongRecOn generalizing b input got with
  | ind n ih =>
    rcases Nat.eq_zero_or_pos n with rfl | hpos
    · exact .inl ⟨Nat.zero_le _, b, by simp [Reader.readFullLoop], by simpa using h⟩
    · rw [Reader.readFullLoop, dif_neg (by omega)]
      rcases h.read hpos with ⟨d, b', rest, hread, hne, hle, rfl, hb'⟩ | ⟨rfl, b', hread⟩
      · have hd := List.length_pos_iff.mpr hne
        rw [hread, List.length_append]
        split
        · rename_i hall
          have hall' : d.length = n := hall
          subst hall'
          exact .inl ⟨by omega, b', by simp, by simpa using hb'⟩
        · have hnext := ih (n - d.length) (by omega) hb' (got ++ d)
          rw [List.append_assoc, List.append_assoc] at hnext
          have hn : n = d.length + (n - d.length) := by omega
          have htake : d ++ rest.take (n - d.length) = (d ++ rest).take n := by
            conv_rhs => rw [hn, List.take_length_add_append]
          have hdrop : rest.drop (n - d.length) = (d ++ rest).drop n := by
            conv_rhs => rw [hn, List.drop_length_add_append]
          rcases hnext with ⟨hlen, b'', hb'', hrest⟩ | ⟨hlen, b'', hb''⟩
          · refine .inl ⟨by omega, b'', ?_, hdrop ▸ hrest⟩
            rw [hb'', htake]
          · exact .inr ⟨by omega, b'', hb''⟩
      -- the stream ends first
      · refine .inr ⟨hpos, b', ?_⟩
        rw [hread, if_neg (by simp; omega)]
        simp only [List.append_nil]
        split <;> rfl

theorem Streams.readFull (h : Streams size final b input) {n : Nat} (hn : 0 < n) :
    Agree (Streams size final) (Reader.readFull n b) (ByteStream.readFull final n input) := by
  have hloop : Reader.readFull n b = Reader.readFullLoop n [] b := by
    simp only [Reader.readFull, h.err, if_neg (show n ≠ 0 by omega)]
  rw [hloop, ByteStream.readFull]
  rcases h.readFullLoop n [] with ⟨hlen, b', hb', hrest⟩ | ⟨hlen, b', hb'⟩
  · rw [hb', if_pos hlen]
    exact .ok hrest
  · rw [hb', if_neg hlen.not_ge]
    simp only [List.nil_append]
    split <;> exact .error

end Reader

end Samaritan.Redis
