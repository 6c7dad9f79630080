import Samaritan.Lib.BufReader
import Samaritan.Lib.Program

/-!
# The MySQL Health Check

`proc/internal/hc/mysql`: a host is healthy if it answers a login. The checker sends its packets,
reads the greeting of the server, and expects an OK packet.

* `expectGreeting` skips exactly the first packet, for every payload whose length fits into three
  bytes.
* `expectOK` reads the header of the second packet twice, the second time from the payload. So it
  decides by the fifth byte of the payload and not by the first one, and needs five bytes.

The server's bytes may come in any pieces.
-/

namespace Samaritan.Hosts.Mysql

open Samaritan.Lib BufReader

variable {ε : Type}

/-! ## Packets -/

/-- `buildMySQLPacket`: the length of the payload in three bytes, least significant first. -/
def buildMySQLPacket (payload : Bytes) (seq : UInt8) : Bytes :=
  [UInt8.ofNat payload.length, UInt8.ofNat (payload.length >>> 8),
    UInt8.ofNat (payload.length >>> 16), seq] ++ payload

/-- The header of a packet. -/
structure Header where
  payloadLen : Vector UInt8 3
  sequenceID : UInt8

/-- `PayloadLength`. -/
def Header.payloadLength (h : Header) : Nat :=
  (h.payloadLen[0].toUInt32 ||| h.payloadLen[1].toUInt32 <<< 8 |||
    h.payloadLen[2].toUInt32 <<< 16).toNat

/-- The four bytes of a header, as `binary.Read` stores them. -/
def Header.ofBytes : Bytes → Header
  | [l₀, l₁, l₂, seq] => ⟨#v[l₀, l₁, l₂], seq⟩
  | _ => ⟨#v[0, 0, 0], 0⟩

/-- `binary.LittleEndian.PutUint32`. -/
def putUint32 (n : UInt32) : Bytes :=
  [n.toUInt8, (n >>> 8).toUInt8, (n >>> 16).toUInt8, (n >>> 24).toUInt8]

/-- The answer to a greeting; the password is always empty. -/
structure HandshakeResponse where
  capabilityFlags : UInt32
  maxPacketSize : UInt32
  characterSet : UInt8
  reserved : Vector UInt8 23
  username : Bytes

/-- `HandshakeResponse.Bytes`. -/
def HandshakeResponse.bytes (r : HandshakeResponse) : Bytes :=
  putUint32 r.capabilityFlags ++ putUint32 r.maxPacketSize ++ [r.characterSet] ++
    r.reserved.toList ++ r.username ++
    -- the end of the username, and the empty password
    [0, 0]

/-- The packet of the command QUIT. -/
def comQUIT : Bytes := [1, 0, 0, 0, 1]

/-- `NewHealthCheckPacket`. -/
def newHealthCheckPacket (username : Bytes) : Bytes :=
  let responsePacket : HandshakeResponse :=
    { capabilityFlags := 0x00000200 ||| 0x00008000
      maxPacketSize := 16777216
      characterSet := 0x21
      reserved := Vector.replicate 23 0
      username }
  buildMySQLPacket responsePacket.bytes 1 ++ comQUIT

/-! ## The check -/

/-- Why a check fails. -/
inductive CheckError (ε : Type) where
  /-- the error of the dialing -/
  | dial (e : ε)
  /-- "write error: %s" -/
  | write (e : ε)
  /-- "write error: short write" -/
  | shortWrite
  /-- "read packet header error: %s" -/
  | header (e : InputError ε)
  /-- another error of reading -/
  | read (e : InputError ε)
  /-- "unexpected payload header[%#x] for an OK packet" -/
  | unexpectedHeader (b : UInt8)
  /-- `ErrTimeout` -/
  | timeout

/-- `binary.Read` of a value of `n` bytes. -/
def binaryRead (wrap : InputError ε → CheckError ε) (n : Nat) :
    EStateM (CheckError ε) (BufReader ε) Bytes := fun b =>
  match b.readFull n with
  | (bs, none, b) => .ok bs b
  | (_, some e, b) => .error (wrap e) b

/-- `reader.Discard`, without the number of bytes. -/
def skip (n : Nat) : EStateM (CheckError ε) (BufReader ε) Unit := fun b =>
  match b.discard n with
  | (_, none, b) => .ok () b
  | (_, some e, b) => .error (.read e) b

/-- `NewMySQLHeaderFromReader`. -/
def newMySQLHeaderFromReader : EStateM (CheckError ε) (BufReader ε) Header := do
  let bs ← binaryRead .header 4
  return Header.ofBytes bs

/-- `expectGreeting`. -/
def expectGreeting : EStateM (CheckError ε) (BufReader ε) Unit := do
  let header ← newMySQLHeaderFromReader
  skip header.payloadLength

/-- `expectOK`. -/
def expectOK : EStateM (CheckError ε) (BufReader ε) Unit := do
  let _ ← newMySQLHeaderFromReader
  -- the variable of the header is read once more
  let _ ← binaryRead .read 4
  let bs ← binaryRead .read 1
  let payloadHeader := bs.headD 0
  if payloadHeader ≠ 0 ∧ payloadHeader ≠ 0xfe then throw (.unexpectedHeader payloadHeader)

/-- What the checker reads: a greeting and an OK packet. -/
def expectReply : EStateM (CheckError ε) (BufReader ε) Unit := do
  expectGreeting
  expectOK

/-- The checker of a configuration. -/
structure Checker where
  handshakeThenQuit : Bytes

/-- `NewChecker`, for a valid username. -/
def newChecker (username : Bytes) : Checker where
  handshakeThenQuit := newHealthCheckPacket username

/-- `sendHandshake`. -/
def Checker.sendHandshake (c : Checker) (writer : Sink ε) : Except (CheckError ε) Unit :=
  match writer.write c.handshakeThenQuit with
  | (_, some e, _) => .error (.write e)
  | (written, none, _) =>
    if written ≠ c.handshakeThenQuit.length then .error .shortWrite else .ok ()

/-- `Check`, for the two directions of the connection that was dialed; `late` says whether the
    deadline is over at the end. -/
def Checker.check (c : Checker) (conn : Except ε (Source (InputError ε) × Sink ε))
    (late : Bool) : Except (CheckError ε) Unit :=
  match conn with
  | .error e => .error (.dial e)
  | .ok (rd, wr) =>
    match c.sendHandshake wr with
    | .error e => .error e
    | .ok () =>
      match expectReply (newReader rd) with
      | .error e _ => .error e
      | .ok () _ => if late then .error .timeout else .ok ()

/-! ## What is read -/

/-- The next bytes are read as they are. -/
theorem binaryRead_ok {b : BufReader ε} {xs ys : Bytes} (h : b.Supplies (xs ++ ys))
    (wrap : InputError ε → CheckError ε) :
    ∃ b', binaryRead wrap xs.length b = .ok xs b' ∧ b'.Supplies ys := by
  obtain ⟨b', hread, hb'⟩ := h.readFull
  refine ⟨b', ?_, hb'⟩
  unfold binaryRead
  rw [hread]

theorem binaryRead_short {b : BufReader ε} {xs : Bytes} (h : b.Supplies xs) {n : Nat}
    (hn : xs.length < n) (wrap : InputError ε → CheckError ε) :
    ∃ e b', binaryRead wrap n b = .error e b' := by
  have hfail := h.readFull_short hn
  rcases hread : b.readFull n with ⟨bs, err, b'⟩
  rw [hread] at hfail
  obtain ⟨e, rfl⟩ := Option.isSome_iff_exists.mp hfail
  refine ⟨wrap e, b', ?_⟩
  unfold binaryRead
  rw [hread]

theorem skip_ok {b : BufReader ε} {xs ys : Bytes} (h : b.Supplies (xs ++ ys)) :
    ∃ b', skip xs.length b = .ok () b' ∧ b'.Supplies ys := by
  obtain ⟨b', hdiscard, hb'⟩ := h.discard
  refine ⟨b', ?_, hb'⟩
  unfold skip
  rw [hdiscard]

/-- The first four bytes are the header. -/
theorem newMySQLHeaderFromReader_ok {b : BufReader ε} {l₀ l₁ l₂ seq : UInt8} {ys : Bytes}
    (h : b.Supplies ([l₀, l₁, l₂, seq] ++ ys)) :
    ∃ b', newMySQLHeaderFromReader b = .ok ⟨#v[l₀, l₁, l₂], seq⟩ b' ∧ b'.Supplies ys := by
  obtain ⟨b', hread, hb'⟩ := binaryRead_ok h .header
  exact ⟨b', bind_ok hread, hb'⟩

/-- The three bytes of the length, least significant first. -/
theorem payloadLength_eq (l₀ l₁ l₂ seq : UInt8) :
    Header.payloadLength ⟨#v[l₀, l₁, l₂], seq⟩ =
      l₂.toNat * 2 ^ 16 + l₁.toNat * 2 ^ 8 + l₀.toNat := by
  have h₀ := l₀.toNat_lt
  have h₁ := l₁.toNat_lt
  have h₂ := l₂.toNat_lt
  have hlow := Nat.shiftLeft_add_eq_or_of_lt (show l₀.toNat < 2 ^ 8 from h₀) l₁.toNat
  have hmiddle : l₁.toNat <<< 8 + l₀.toNat < 2 ^ 16 := by
    rw [Nat.shiftLeft_eq]
    omega
  have hhigh := Nat.shiftLeft_add_eq_or_of_lt hmiddle l₂.toNat
  show (l₀.toUInt32 ||| l₁.toUInt32 <<< 8 ||| l₂.toUInt32 <<< 16).toNat = _
  simp only [UInt32.toNat_or, UInt32.toNat_shiftLeft, UInt8.toNat_toUInt32]
  show l₀.toNat ||| l₁.toNat <<< 8 % 2 ^ 32 ||| l₂.toNat <<< 16 % 2 ^ 32 = _
  -- no shift reaches the end of the word
  rw [Nat.mod_eq_of_lt (by rw [Nat.shiftLeft_eq]; omega),
    Nat.mod_eq_of_lt (by rw [Nat.shiftLeft_eq]; omega), Nat.or_comm l₀.toNat, ← hlow, Nat.or_comm,
    ← hhigh, Nat.shiftLeft_eq, Nat.shiftLeft_eq, Nat.add_assoc]

/-- The length in a header is that of the payload, if it fits into three bytes. -/
theorem payloadLength_ofNat {n : Nat} (hn : n < 2 ^ 24) (seq : UInt8) :
    Header.payloadLength
      ⟨#v[UInt8.ofNat n, UInt8.ofNat (n >>> 8), UInt8.ofNat (n >>> 16)], seq⟩ = n := by
  rw [payloadLength_eq, UInt8.toNat_ofNat', UInt8.toNat_ofNat', UInt8.toNat_ofNat',
    Nat.shiftRight_eq_div_pow, Nat.shiftRight_eq_div_pow]
  omega

/-- **The greeting is skipped**: whatever it says, and whatever comes behind it. -/
theorem expectGreeting_ok {b : BufReader ε} {greeting ys : Bytes} {seq : UInt8}
    (hlt : greeting.length < 2 ^ 24) (h : b.Supplies (buildMySQLPacket greeting seq ++ ys)) :
    ∃ b', expectGreeting b = .ok () b' ∧ b'.Supplies ys := by
  unfold buildMySQLPacket at h
  rw [List.append_assoc] at h
  obtain ⟨b₁, hheader, hb₁⟩ := newMySQLHeaderFromReader_ok h
  obtain ⟨b₂, hskip, hb₂⟩ := skip_ok hb₁
  refine ⟨b₂, (bind_ok hheader).trans ?_, hb₂⟩
  rw [payloadLength_ofNat hlt]
  exact hskip

/-- A byte that begins an OK packet. -/
def IsOk (header : Option UInt8) : Prop := header = some 0 ∨ header = some 0xfe

instance (header : Option UInt8) : Decidable (IsOk header) :=
  inferInstanceAs (Decidable (_ ∨ _))

/-- With fewer than five bytes in the payload, one of the reads fails. -/
theorem expectOK_short {b b' : BufReader ε} {l₀ l₁ l₂ seq : UInt8} {payload : Bytes}
    (hlen : payload.length < 5) (h : b.Supplies ([l₀, l₁, l₂, seq] ++ payload)) :
    expectOK b ≠ .ok () b' := by
  intro hok
  obtain ⟨b₁, hheader, hb₁⟩ := newMySQLHeaderFromReader_ok h
  have hrest := (bind_ok hheader).symm.trans hok
  obtain ⟨bs, b₂, hagain, hrest⟩ := bind_eq_ok hrest
  by_cases hfour : payload.length < 4
  · -- the payload ends in the second header
    obtain ⟨e, b'', hfail⟩ := binaryRead_short hb₁ hfour .read
    exact absurd (hagain.symm.trans hfail) nofun
  · -- the payload is taken for the second header, and no byte is left
    have hpayload : payload.length = 4 := by omega
    rw [← List.append_nil payload] at hb₁
    obtain ⟨b₃, hread, hb₃⟩ := binaryRead_ok hb₁ .read
    rw [hpayload, hagain] at hread
    obtain ⟨-, rfl⟩ := EStateM.Result.ok.inj hread
    obtain ⟨bs', b₄, hbyte, -⟩ := bind_eq_ok hrest
    obtain ⟨e, b'', hfail⟩ := binaryRead_short hb₃ Nat.one_pos .read
    exact absurd (hbyte.symm.trans hfail) nofun

/-- With five bytes in the payload, the last of them decides. -/
theorem expectOK_five {b : BufReader ε} {l₀ l₁ l₂ seq c : UInt8} {four rest : Bytes}
    (hlen : four.length = 4) (h : b.Supplies ([l₀, l₁, l₂, seq] ++ (four ++ ([c] ++ rest)))) :
    (∃ b', expectOK b = .ok () b') ↔ IsOk (some c) := by
  obtain ⟨b₁, hheader, hb₁⟩ := newMySQLHeaderFromReader_ok h
  obtain ⟨b₂, hagain, hb₂⟩ := binaryRead_ok hb₁ .read
  obtain ⟨b₃, hbyte, hb₃⟩ := binaryRead_ok hb₂ .read
  rw [hlen] at hagain
  have hrun : expectOK b = (if c ≠ 0 ∧ c ≠ 0xfe then throw (.unexpectedHeader c) else pure () :
      EStateM (CheckError ε) (BufReader ε) Unit) b₃ :=
    (bind_ok hheader).trans ((bind_ok hagain).trans (bind_ok hbyte))
  have hok : IsOk (some c) ↔ ¬ (c ≠ 0 ∧ c ≠ 0xfe) := by
    simp only [IsOk, Option.some.injEq]
    tauto
  rw [hrun, hok]
  split
  · rename_i hother
    exact iff_of_false (fun ⟨b', h⟩ => nomatch h) (not_not_intro hother)
  · rename_i hgood
    exact iff_of_true ⟨b₃, rfl⟩ hgood

theorem expectOK_iff {b : BufReader ε} {l₀ l₁ l₂ seq : UInt8} {payload : Bytes}
    (h : b.Supplies ([l₀, l₁, l₂, seq] ++ payload)) :
    (∃ b', expectOK b = .ok () b') ↔ IsOk payload[4]? := by
  by_cases hlen : payload.length < 5
  · have hnone : payload[4]? = none := List.getElem?_eq_none (Nat.le_of_lt_succ hlen)
    rw [hnone]
    exact iff_of_false (fun ⟨b', hok⟩ => expectOK_short hlen h hok) (by decide)
  · have hfour : (payload.take 4).length = 4 := by
      rw [List.length_take]
      omega
    have hfifth : payload[4]? = some payload[4] := List.getElem?_eq_getElem (by omega)
    have hsplit : payload.take 4 ++ ([payload[4]] ++ payload.drop 5) = payload := by
      rw [List.singleton_append, List.getElem_cons_drop, List.take_append_drop]
    rw [← hsplit] at h
    rw [hfifth]
    exact expectOK_five hfour h

/-- What the checker decides by, behind a greeting. -/
theorem expectReply_iff {b : BufReader ε} {greeting payload : Bytes} {seq seq' : UInt8}
    (hlt : greeting.length < 2 ^ 24)
    (h : b.Supplies (buildMySQLPacket greeting seq ++ buildMySQLPacket payload seq')) :
    (∃ b', expectReply b = .ok () b') ↔ IsOk payload[4]? := by
  obtain ⟨b₁, hgreeting, hb₁⟩ := expectGreeting_ok hlt h
  have hrun : expectReply b = expectOK b₁ := bind_ok hgreeting
  rw [hrun]
  exact expectOK_iff hb₁

/-- **When the checker is right**: for every greeting and every second packet, in any pieces. That
    the packets are accepted just for a payload that begins as the one of an OK packet holds exactly
    if the fifth byte of the payload says the same as the first one. -/
theorem expectReply_right_iff {b : BufReader ε} {greeting payload : Bytes} {seq seq' : UInt8}
    (hlt : greeting.length < 2 ^ 24)
    (h : b.Supplies (buildMySQLPacket greeting seq ++ buildMySQLPacket payload seq')) :
    ((∃ b', expectReply b = .ok () b') ↔ IsOk payload[0]?) ↔
      (IsOk payload[4]? ↔ IsOk payload[0]?) := by
  rw [expectReply_iff hlt h]

/-- A greeting without a payload and a second packet, in one piece. -/
def replying (payload : Bytes) : Source (InputError Empty) :=
  ⟨[⟨buildMySQLPacket [] 0 ++ buildMySQLPacket payload 1, none⟩], .eof⟩

theorem supplies_replying (payload : Bytes) :
    (newReader (replying payload)).Supplies
      (buildMySQLPacket [] 0 ++ buildMySQLPacket payload 1) := by
  refine ⟨?_, rfl, by simp [replying, newReader, Source.bytes]⟩
  intro c hc
  obtain rfl := List.mem_singleton.mp hc
  exact ⟨by simp [buildMySQLPacket], rfl⟩

/-- The shortest OK packet is refused, and a packet that begins as an error is accepted. -/
theorem not_expectReply_right :
    (¬ ∃ b', expectReply (newReader (replying [0x00])) = .ok () b') ∧
      ∃ b', expectReply (newReader (replying [0xff, 0, 0, 0, 0])) = .ok () b' := by
  constructor
  · rw [expectReply_iff (by decide) (supplies_replying _)]
    decide
  · rw [expectReply_iff (by decide) (supplies_replying _)]
    decide

/-- The OK packet that servers send is accepted. -/
theorem expectReply_right_status :
    (∃ b', expectReply (newReader (replying [0, 0, 0, 2, 0, 0, 0])) = .ok () b') ↔
      IsOk (some 0) :=
  (expectReply_right_iff (by decide) (supplies_replying _)).mpr (by decide)

/-! ## The whole check -/

/-- The handshake is sent, unless the connection fails. -/
theorem sendHandshake_ok_iff {c : Checker} {wr : Sink ε} :
    c.sendHandshake wr = .ok () ↔ (wr.write c.handshakeThenQuit).2.1 = none := by
  unfold Checker.sendHandshake
  rcases wr.write_cases c.handshakeThenQuit with ⟨wr', hwrite, -⟩ | ⟨k, e, wr', hwrite, -, -⟩
  · rw [hwrite]
    simp
  · rw [hwrite]
    simp

/-- **A server that greets is healthy** exactly if it takes the handshake, the fifth byte of its
    second packet is the one of an OK packet, and it was in time. -/
theorem check_ok_iff {c : Checker} {rd : Source (InputError ε)} {wr : Sink ε} {late : Bool}
    {greeting payload : Bytes} {seq seq' : UInt8} (hlt : greeting.length < 2 ^ 24)
    (hclean : rd.Clean)
    (hbytes : rd.bytes = buildMySQLPacket greeting seq ++ buildMySQLPacket payload seq') :
    c.check (.ok (rd, wr)) late = .ok () ↔
      (wr.write c.handshakeThenQuit).2.1 = none ∧ IsOk payload[4]? ∧ late = false := by
  have hsupplies := supplies_newReader hclean
  rw [hbytes] at hsupplies
  rw [← sendHandshake_ok_iff, ← expectReply_iff hlt hsupplies]
  unfold Checker.check
  cases hsend : c.sendHandshake wr with
  | error e => simp [hsend]
  | ok _ =>
    cases hreply : expectReply (newReader rd) with
    | error e b' | ok _ b' => simp [hsend, hreply]

end Samaritan.Hosts.Mysql
