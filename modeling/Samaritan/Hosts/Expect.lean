import Samaritan.Lib.Execution
import Samaritan.Lib.Search
import Samaritan.Lib.Stream

/-!
# Expecting a Payload

The advanced TCP checker (`proc/internal/hc/atcp`) sends payloads to a host and expects payloads in
what comes back. A `BufferedConn` is shared by the actions of a check; it has a buffer of fixed size
in front of the connection. `TCPExpect` searches the payload in the buffer and in what follows it,
skips what cannot be part of an occurrence and reads more, until the payload is found or the stream
has ended.

The result is that of a search in the whole stream: the buffered bytes and all that is still to
come.
-/

namespace Samaritan.Hosts

open Samaritan.Lib

/-! ## The connection -/

/-- `MaxBufferSize`. -/
def maxBufferSize : Nat := 2048

/-- What reading from the connection may return. -/
inductive ConnErr where
  | eof
  | net (text : Bytes)
  deriving DecidableEq

inductive ExpectErr where
  | conn (e : ConnErr)
  /-- `ErrSkippedTooFar` -/
  | skippedTooFar
  /-- `ErrUnexpectedResponse` -/
  | unexpectedResponse
  deriving DecidableEq

structure BufferedConn where
  start : Nat
  /-- the bytes from `start` to `end` -/
  data : Bytes
  conn : Source ConnErr
  err : Option ConnErr
  /-- the connection has been asked to read into an empty slice -/
  emptyRead : Bool
  fits : start + data.length ≤ maxBufferSize

namespace BufferedConn

/-- `end`. -/
def stop (c : BufferedConn) : Nat := c.start + c.data.length

/-- `Error`: the first error other than the end of the stream. -/
def error (c : BufferedConn) : Option ConnErr := if c.err = some .eof then none else c.err

/-- `AtEOF`. -/
def atEOF (c : BufferedConn) : Bool := c.err.isSome

def setErr (c : BufferedConn) (e : Option ConnErr) : BufferedConn :=
  match e with
  | none => c
  | some e => if c.err = none ∨ c.err = some .eof then { c with err := some e } else c

/-- `SkipBuffer`; the buffer begins anew when all of it is skipped. -/
def skipBuffer (c : BufferedConn) (n : Nat) : Except ExpectErr BufferedConn :=
  if n = 0 then .ok c
  else if hn : n ≤ c.data.length then
    .ok { c with
      start := if n = c.data.length then 0 else c.start + n
      data := c.data.drop n
      fits := by
        have := c.fits
        rw [List.length_drop]
        split <;> omega }
  else .error .skippedTooFar

def shiftBufferIfNeeded (c : BufferedConn) : BufferedConn :=
  if maxBufferSize ≤ c.stop then
    { c with
      start := 0
      fits := by
        have := c.fits
        omega }
  else c

/-- The size of the slice that the connection is asked to read into. -/
def room (c : BufferedConn) : Nat := maxBufferSize - c.stop

/-- The bytes that a read call adds to the buffer: those that come with an error are kept when it is
    the end of the stream. -/
def added (c : BufferedConn) : Bytes :=
  let (bytes, err, _) := c.conn.read c.room
  if err = none ∨ err = some .eof then bytes else []

theorem length_added_le (c : BufferedConn) : c.added.length ≤ c.room := by
  have hread := c.conn.length_read_le c.room
  unfold added
  simp only
  split
  · exact hread
  · simp

/-- `ReadMore`. -/
def readMore (c : BufferedConn) : BufferedConn :=
  let c := c.shiftBufferIfNeeded
  let (_, err, conn) := c.conn.read c.room
  setErr
    { c with
      data := c.data ++ c.added
      conn := conn
      emptyRead := c.emptyRead || c.room == 0
      fits := by
        have hadded := c.length_added_le
        have hfits := c.fits
        unfold room stop at hadded
        rw [List.length_append]
        omega }
    err

/-- `Buffer`. -/
def buffer (c : BufferedConn) : BufferedConn := if c.data = [] then c.readMore else c

end BufferedConn

/-! ## The search -/

/-- The index of the first byte of a partial payload at the end of the buffer. -/
def endsWithPartially (buf payload : Bytes) : Option Nat :=
  (longestPartial payload buf (payload.length - 1)).map (buf.length - ·)

/-- `searchPayload`: the number of bytes to be skipped, which is `none` when there is nothing left
    to search in, and whether the payload has been found. -/
def searchPayload (payload buf : Bytes) (atEOF : Bool) : Option Nat × Bool :=
  match indexIn payload buf with
  | some index => (some (index + payload.length), true)
  | none =>
    if atEOF then (none, false)
    else
      match endsWithPartially buf payload with
      | some firstByteLastPos => (some firstByteLastPos, false)
      -- not a single byte can be part of the payload
      | none => (some buf.length, false)

/-- The loop of `Perform` with a number of rounds. -/
def performLoop (payload : Bytes) : Nat → BufferedConn → Execution ExpectErr Unit × BufferedConn
  | 0, c => (.unfinished, c)
  | rounds + 1, c =>
    let c := c.buffer
    match searchPayload payload c.data c.atEOF with
    | (none, _) => (.fails .unexpectedResponse, c)
    | (some skip, found) =>
      match c.skipBuffer skip with
      | .error e => (.fails e, c)
      | .ok c =>
        if found then (.returns (), c)
        else
          let c := c.readMore
          match c.error with
          | some e => (.fails (.conn e), c)
          | none => performLoop payload rounds c

/-- `TCPExpect.Perform`, with no deadline. -/
def perform (payload : Bytes) (rounds : Nat) (c : BufferedConn) :
    Execution ExpectErr Unit × BufferedConn :=
  match c.error with
  | some e => (.fails (.conn e), c)
  | none => performLoop payload rounds c

/-! ## Streams that end -/

/-- The end of the stream comes with the last chunk or behind it, and there is no other error. -/
def EndsWithEof : List (Chunk ConnErr) → Prop
  | [] => True
  | c :: cs => (c.err = none ∨ c.err = some .eof ∧ cs = []) ∧ EndsWithEof cs

/-- How many calls it takes at most to read all of the input. -/
def sourceWeight (s : Source ConnErr) : Nat := s.bytes.length + s.chunks.length

theorem EndsWithEof.read {s : Source ConnErr} (hchunks : EndsWithEof s.chunks)
    (hfinal : s.final = .eof) {n : Nat} (hn : 0 < n) :
    EndsWithEof (s.read n).2.2.chunks ∧ (s.read n).2.2.final = .eof ∧
      ((s.read n).2.1 = none ∧ sourceWeight (s.read n).2.2 < sourceWeight s ∨
        (s.read n).2.1 = some .eof ∧ (s.read n).2.2.chunks = []) := by
  obtain ⟨chunks, final⟩ := s
  cases chunks with
  | nil => exact ⟨hchunks, hfinal, .inr ⟨congrArg some hfinal, rfl⟩⟩
  | cons c cs =>
    obtain ⟨herr, hrest⟩ := hchunks
    simp only [Source.read]
    split
    · refine ⟨hrest, hfinal, ?_⟩
      rcases herr with hnone | ⟨heof, hlast⟩
      · exact .inl ⟨hnone, by simp [sourceWeight, Source.bytes]; omega⟩
      · exact .inr ⟨heof, hlast⟩
    · -- a part of the chunk is returned
      refine ⟨⟨herr, hrest⟩, hfinal, .inl ⟨rfl, ?_⟩⟩
      simp [sourceWeight, Source.bytes]
      omega

namespace BufferedConn

/-- What is searched: the buffered bytes and all that the connection is going to return. -/
def text (c : BufferedConn) : Bytes := c.data ++ c.conn.bytes

/-- The connection delivers a stream that ends, and nothing follows its end. -/
structure Streaming (c : BufferedConn) : Prop where
  chunks : EndsWithEof c.conn.chunks
  final : c.conn.final = .eof
  err : c.err = none ∨ c.err = some .eof ∧ c.conn.chunks = []

variable {c : BufferedConn}

theorem Streaming.error_eq (hc : c.Streaming) : c.error = none := by
  rcases hc.err with herr | ⟨herr, -⟩ <;> simp [error, herr]

/-- At the end of the stream all that is left is in the buffer. -/
theorem Streaming.text_of_atEOF (hc : c.Streaming) (heof : c.atEOF = true) : c.text = c.data := by
  rcases hc.err with herr | ⟨-, hchunks⟩
  · simp [atEOF, herr] at heof
  · simp [text, Source.bytes, hchunks]

theorem shiftBufferIfNeeded_eq (c : BufferedConn) :
    c.shiftBufferIfNeeded.data = c.data ∧ c.shiftBufferIfNeeded.conn = c.conn ∧
      c.shiftBufferIfNeeded.err = c.err ∧ c.shiftBufferIfNeeded.emptyRead = c.emptyRead := by
  unfold shiftBufferIfNeeded
  split <;> exact ⟨rfl, rfl, rfl, rfl⟩

/-- There is room behind the bytes, once they have been shifted to the front. -/
theorem room_shiftBufferIfNeeded (hroom : c.data.length < maxBufferSize) :
    0 < c.shiftBufferIfNeeded.room := by
  unfold room shiftBufferIfNeeded
  split
  · simpa [stop] using hroom
  · omega

theorem setErr_eq (c : BufferedConn) (e : Option ConnErr) :
    (c.setErr e).data = c.data ∧ (c.setErr e).conn = c.conn ∧
      (c.setErr e).emptyRead = c.emptyRead := by
  unfold setErr
  split
  · exact ⟨rfl, rfl, rfl⟩
  · split <;> exact ⟨rfl, rfl, rfl⟩

theorem setErr_err {e : Option ConnErr} (h : c.err = none ∨ c.err = some .eof) :
    (c.setErr e).err = e.or c.err := by
  cases e with
  | none => rfl
  | some e => simp [setErr, h]

theorem readMore_eq (c : BufferedConn) :
    c.readMore.data = c.data ++ c.shiftBufferIfNeeded.added ∧
      c.readMore.conn = (c.conn.read c.shiftBufferIfNeeded.room).2.2 ∧
      c.readMore.emptyRead = (c.emptyRead || c.shiftBufferIfNeeded.room == 0) := by
  obtain ⟨hdata, hconn, -, hempty⟩ := c.shiftBufferIfNeeded_eq
  unfold readMore
  simp only [setErr_eq, hdata, hconn, hempty]
  exact ⟨trivial, trivial, trivial⟩

theorem readMore_err (h : c.err = none ∨ c.err = some .eof) :
    c.readMore.err = (c.conn.read c.shiftBufferIfNeeded.room).2.1.or c.err := by
  obtain ⟨-, hconn, herr, -⟩ := c.shiftBufferIfNeeded_eq
  unfold readMore
  simp only
  rw [setErr_err (by simpa [herr] using h), hconn, herr]

/-- Reading more moves bytes from the connection into the buffer, as long as there is room. -/
theorem Streaming.readMore (hc : c.Streaming) (hroom : c.data.length < maxBufferSize) :
    c.readMore.Streaming ∧ c.readMore.text = c.text ∧ c.readMore.emptyRead = c.emptyRead ∧
      (c.readMore.err = none → sourceWeight c.readMore.conn < sourceWeight c.conn) := by
  obtain ⟨hdata, hconn, hempty⟩ := c.readMore_eq
  have hpos := room_shiftBufferIfNeeded hroom
  have herr := readMore_err (hc.err.imp_right And.left)
  obtain ⟨hchunks, hfinal, hread⟩ := EndsWithEof.read hc.chunks hc.final hpos
  -- no byte is dropped
  have hadded : c.shiftBufferIfNeeded.added = (c.conn.read c.shiftBufferIfNeeded.room).1 := by
    unfold added
    rw [c.shiftBufferIfNeeded_eq.2.1]
    exact if_pos (hread.imp And.left And.left)
  rw [← hconn] at hchunks hfinal hread
  refine ⟨⟨hchunks, hfinal, ?_⟩, ?_, ?_, ?_⟩
  · rw [herr]
    rcases hread with ⟨hnone, hweight⟩ | ⟨heof, hlast⟩
    · rw [hnone, Option.none_or]
      refine hc.err.imp_right fun ⟨h, hlast⟩ => ⟨h, ?_⟩
      -- nothing follows the end of the stream
      simp [Source.read, hlast] at hnone
    · rw [heof, Option.some_or]
      exact .inr ⟨rfl, hlast⟩
  · rw [text, hdata, hconn, hadded, List.append_assoc, Source.read_append_bytes]
    rfl
  · rw [hempty, beq_eq_false_iff_ne.mpr hpos.ne', Bool.or_false]
  · intro hnone
    rw [herr, Option.or_eq_none_iff] at hnone
    rcases hread with ⟨-, hweight⟩ | ⟨heof, -⟩
    · exact hweight
    · rw [heof] at hnone
      cases hnone.1

/-- `Buffer` reads when the buffer is empty. -/
theorem Streaming.buffer (hc : c.Streaming) :
    c.buffer.Streaming ∧ c.buffer.text = c.text ∧ c.buffer.emptyRead = c.emptyRead ∧
      (c.buffer.err = none → c.err = none ∧ sourceWeight c.buffer.conn ≤ sourceWeight c.conn) := by
  unfold BufferedConn.buffer
  split
  · rename_i hempty
    have hroom : c.data.length < maxBufferSize := by simp [hempty, maxBufferSize]
    obtain ⟨hstream, htext, hread, hweight⟩ := hc.readMore hroom
    refine ⟨hstream, htext, hread, fun hnone => ⟨?_, (hweight hnone).le⟩⟩
    rw [readMore_err (hc.err.imp_right And.left), Option.or_eq_none_iff] at hnone
    exact hnone.2
  · exact ⟨hc, rfl, rfl, fun hnone => ⟨hnone, le_rfl⟩⟩

theorem skipBuffer_eq {n : Nat} (hn : n ≤ c.data.length) :
    ∃ c', c.skipBuffer n = .ok c' ∧ c'.data = c.data.drop n ∧ c'.conn = c.conn ∧
      c'.err = c.err ∧ c'.emptyRead = c.emptyRead := by
  unfold skipBuffer
  by_cases hzero : n = 0
  · exact ⟨c, by simp [hzero], by simp [hzero], rfl, rfl, rfl⟩
  · rw [if_neg hzero, dif_pos hn]
    exact ⟨_, rfl, rfl, rfl, rfl, rfl⟩

/-- Skipping bytes of the buffer. -/
theorem Streaming.skipBuffer (hc : c.Streaming) {n : Nat} (hn : n ≤ c.data.length) :
    ∃ c', c.skipBuffer n = .ok c' ∧ c'.Streaming ∧ c'.text = c.text.drop n ∧
      c'.data = c.data.drop n ∧ c'.emptyRead = c.emptyRead ∧ c'.err = c.err ∧
      c'.conn = c.conn := by
  obtain ⟨c', hskip, hdata, hconn, herr, hempty⟩ := skipBuffer_eq hn
  refine ⟨c', hskip, ⟨hconn ▸ hc.chunks, hconn ▸ hc.final, ?_⟩, ?_, hdata, hempty, herr, hconn⟩
  · rw [herr, hconn]
    exact hc.err
  · rw [text, text, hdata, hconn, List.drop_append_of_le_length hn]

end BufferedConn

/-! ## The search is that of the whole stream -/

/-- When the payload is not in the buffer, what is kept of it is shorter than the payload, and no
    occurrence begins in what is skipped. -/
theorem searchPayload_of_absent {payload buf : Bytes} (habsent : Absent payload buf) :
    ∃ skip, searchPayload payload buf false = (some skip, false) ∧ skip ≤ buf.length ∧
      (buf.drop skip).length ≤ payload.length - 1 ∧
      ∀ rest, ∀ m < skip, ¬payload <+: (buf ++ rest).drop m := by
  refine ⟨buf.length - (longestPartial payload buf (payload.length - 1)).getD 0, ?_, by omega,
    ?_, fun rest m hm => not_prefix_of_lt_partial habsent rest hm⟩
  · unfold searchPayload endsWithPartially
    rw [indexIn_of_absent habsent]
    cases longestPartial payload buf (payload.length - 1) <;> rfl
  · rw [List.length_drop]
    cases hpartial : longestPartial payload buf (payload.length - 1) with
    | none => simp
    | some i =>
      have hle := longestPartial_le hpartial
      rw [Option.getD_some]
      omega

/-- What `Perform` comes to for a text: it finds what the search in the whole text finds, and leaves
    what follows it. -/
structure Searched (payload text : Bytes) (emptyRead : Bool)
    (r : Execution ExpectErr Unit × BufferedConn) : Prop where
  streaming : r.2.Streaming
  emptyRead : r.2.emptyRead = emptyRead
  found : ∀ post, afterFirst payload text = some post → r.1 = .returns () ∧ r.2.text = post
  missing : afterFirst payload text = none → r.1 = .fails .unexpectedResponse

/-- A bound on the rounds: behind the end of the stream one is left. -/
def BufferedConn.cost (c : BufferedConn) : Nat :=
  if c.err = none then sourceWeight c.conn + 2 else 1

/-- A round that finds the payload in the buffer. -/
theorem searched_of_firstAt {payload : Bytes} (hpos : payload ≠ []) {c : BufferedConn}
    (hc : c.Streaming) {n : Nat} (hfirst : FirstAt payload c.data n) :
    ∃ c', searchPayload payload c.data c.atEOF = (some (n + payload.length), true) ∧
      c.skipBuffer (n + payload.length) = .ok c' ∧
      Searched payload c.text c.emptyRead (.returns (), c') := by
  have hfits : n + payload.length ≤ c.data.length := by
    have hlen := hfirst.here.length_le
    have hlt := List.length_pos_iff.mpr hpos
    rw [List.length_drop] at hlen
    omega
  obtain ⟨c', hskip, hstream, htext, -, hempty, -, -⟩ := hc.skipBuffer hfits
  have hafter : afterFirst payload c.text = some (c.text.drop (n + payload.length)) :=
    afterFirst_of_firstAt (hfirst.append hpos c.conn.bytes)
  refine ⟨c', ?_, hskip, hstream, hempty, ?_, ?_⟩
  · rw [searchPayload, indexIn_of_firstAt hfirst]
  · intro post hpost
    rw [hafter, Option.some.injEq] at hpost
    exact ⟨rfl, htext.trans hpost⟩
  · intro hnone
    rw [hafter] at hnone
    cases hnone

/-- A round at the end of the stream without the payload in the buffer. -/
theorem searched_of_atEOF {payload : Bytes} {c : BufferedConn} (hc : c.Streaming)
    (habsent : Absent payload c.data) (heof : c.atEOF = true) :
    Searched payload c.text c.emptyRead (.fails .unexpectedResponse, c) := by
  have hnone : afterFirst payload c.text = none := by
    rw [hc.text_of_atEOF heof]
    exact afterFirst_of_absent habsent
  refine ⟨hc, rfl, ?_, fun _ => rfl⟩
  intro post hpost
  rw [hnone] at hpost
  cases hpost

/-- A round that reads more: it keeps what follows the first occurrence, and takes from the
    connection. -/
theorem round_of_absent {payload : Bytes} (hpos : payload ≠ [])
    (hmax : payload.length ≤ maxBufferSize) {c : BufferedConn} (hc : c.Streaming)
    (habsent : Absent payload c.data) :
    ∃ skip c', searchPayload payload c.data false = (some skip, false) ∧
      c.skipBuffer skip = .ok c' ∧ c'.readMore.Streaming ∧
      afterFirst payload c'.readMore.text = afterFirst payload c.text ∧
      c'.readMore.emptyRead = c.emptyRead ∧
      (c'.readMore.err = none → sourceWeight c'.readMore.conn < sourceWeight c.conn) := by
  obtain ⟨skip, hsearch, hfits, hkept, hbefore⟩ := searchPayload_of_absent habsent
  obtain ⟨c', hskip, hstream, htext, hdata, hempty, -, hconn⟩ := hc.skipBuffer hfits
  have hroom : c'.data.length < maxBufferSize := by
    have hlt := List.length_pos_iff.mpr hpos
    rw [hdata]
    omega
  obtain ⟨hmore, htext', hempty', hweight⟩ := hstream.readMore hroom
  refine ⟨skip, c', hsearch, hskip, hmore, ?_, hempty'.trans hempty, hconn ▸ hweight⟩
  rw [htext', htext]
  exact afterFirst_drop (hbefore c.conn.bytes)

theorem performLoop_searched {payload : Bytes} (hpos : payload ≠ [])
    (hmax : payload.length ≤ maxBufferSize) {rounds : Nat} {c : BufferedConn}
    (hc : c.Streaming) (hrounds : c.cost ≤ rounds) :
    Searched payload c.text c.emptyRead (performLoop payload rounds c) := by
  -- induction on the rounds; the text keeps what follows the first occurrence in it
  induction rounds generalizing c with
  | zero =>
    unfold BufferedConn.cost at hrounds
    split at hrounds <;> omega
  | succ rounds ih =>
    obtain ⟨hb, htext, hempty, hweight⟩ := hc.buffer
    generalize hbuffer : c.buffer = b at hb htext hempty hweight
    rw [performLoop, hbuffer, ← htext, ← hempty]
    rcases indexIn_cases payload b.data with ⟨n, -, hfirst⟩ | ⟨hindex, habsent⟩
    · obtain ⟨c', hsearch, hskip, hsearched⟩ := searched_of_firstAt hpos hb hfirst
      simp only [hsearch, hskip, if_true]
      exact hsearched
    · cases heof : b.atEOF with
      | true =>
        have hsearch : searchPayload payload b.data true = (none, false) := by
          rw [searchPayload, hindex]
          rfl
        simp only [hsearch]
        exact searched_of_atEOF hb habsent heof
      | false =>
        obtain ⟨skip, c', hsearch, hskip, hmore, hafter, hempty', hweight'⟩ :=
          round_of_absent hpos hmax hb habsent
        simp only [hsearch, hskip, Bool.false_eq_true, if_false, hmore.error_eq]
        have hcost : c'.readMore.cost ≤ rounds := by
          obtain ⟨hcerr, hle⟩ := hweight (by simpa [BufferedConn.atEOF] using heof)
          rw [BufferedConn.cost, if_pos hcerr] at hrounds
          unfold BufferedConn.cost
          split
          · have hlt := hweight' ‹_›
            omega
          · omega
        have hnext := ih hmore hcost
        rw [hempty'] at hnext
        exact ⟨hnext.streaming, hnext.emptyRead,
          fun post hpost => hnext.found post (hafter ▸ hpost),
          fun hpost => hnext.missing (hafter ▸ hpost)⟩

/-- What is asked of `Perform` for a payload and a connection. -/
structure Finds (payload : Bytes) (c : BufferedConn)
    (r : Execution ExpectErr Unit × BufferedConn) : Prop where
  finished : r.1 ≠ .unfinished
  /-- it succeeds exactly if the payload is in the buffered bytes and the stream -/
  succeeds_iff : r.1 = .returns () ↔ payload <:+: c.data ++ c.conn.bytes
  /-- what is left is what follows the first occurrence -/
  leaves : r.1 = .returns () → ∃ before,
    c.data ++ c.conn.bytes = before ++ payload ++ (r.2.data ++ r.2.conn.bytes) ∧
    ∀ before' post, c.data ++ c.conn.bytes = before' ++ payload ++ post →
      before.length ≤ before'.length
  /-- the connection is not asked to read into an empty slice -/
  neverEmpty : c.emptyRead = false → r.2.emptyRead = false
  /-- the next action finds the connection in order -/
  streaming : r.2.Streaming

/-- **Expecting a payload**: with enough rounds `Perform` is a search in the whole stream. -/
theorem perform_finds (payload : Bytes) (hpos : 1 ≤ payload.length) (hmax : payload.length ≤ 2048)
    (c : BufferedConn) (hc : c.Streaming) :
    ∃ rounds, ∀ more, rounds ≤ more → Finds payload c (perform payload more c) := by
  refine ⟨c.cost, fun more hmore => ?_⟩
  have hne : payload ≠ [] := List.length_pos_iff.mp hpos
  have hsearched := performLoop_searched hne hmax hc hmore
  have hperform : perform payload more c = performLoop payload more c := by
    rw [perform, hc.error_eq]
  rw [hperform]
  generalize performLoop payload more c = r at hsearched
  cases hafter : afterFirst payload c.text with
  | none =>
    have hfails := hsearched.missing hafter
    refine ⟨by simp [hfails], ?_, by simp [hfails], fun h => hsearched.emptyRead.trans h,
      hsearched.streaming⟩
    exact iff_of_false (by simp [hfails]) (afterFirst_eq_none_iff.mp hafter)
  | some post =>
    obtain ⟨hreturns, htext⟩ := hsearched.found post hafter
    obtain ⟨before, heq, hfirst⟩ := afterFirst_eq_some_iff.mp hafter
    refine ⟨by simp [hreturns], ?_, fun _ => ⟨before, ?_, hfirst⟩,
      fun h => hsearched.emptyRead.trans h, hsearched.streaming⟩
    · exact iff_of_true hreturns ⟨before, post, heq.symm⟩
    · rw [← htext] at heq
      exact heq

/-- A stream in two chunks, the second with the end of the stream, behind two buffered bytes at the
    end of the buffer. -/
def sampleConn : BufferedConn where
  start := 2046
  data := [98, 97]
  conn := ⟨[⟨[98, 97, 110], none⟩, ⟨[97, 110, 97, 33], some .eof⟩], .eof⟩
  err := none
  emptyRead := false
  fits := by decide

theorem perform_finds_sampleConn :
    ∃ rounds, ∀ more, rounds ≤ more →
      Finds [98, 97, 110, 97, 110, 97] sampleConn
        (perform [98, 97, 110, 97, 110, 97] more sampleConn) :=
  perform_finds [98, 97, 110, 97, 110, 97] (by decide) (by decide) sampleConn
    ⟨⟨.inl rfl, .inr ⟨rfl, rfl⟩, trivial⟩, rfl, .inl rfl⟩

end Samaritan.Hosts
