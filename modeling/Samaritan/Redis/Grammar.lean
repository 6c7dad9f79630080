import Samaritan.Redis.DecodeCalls

/-!
# The Language of the Decoder

Which byte strings are words of the protocol, as a relation between bytes and values, and which
words the decoder accepts. The rules have two switches: whether an inline command may stand inside
an array, and how long the line of an integer may be. The grammar of the protocol has neither; the
decoder allows the first and has the size of its buffer as the second.

The decoder accepts exactly the words of its rules, with any bytes behind them, and stops behind the
word. The grammar is unambiguous, and where both sets of rules have a word at the start of a stream
it is the same one.
-/

namespace Samaritan.Redis

open Samaritan.Lib Program

/-! ## Integers -/

theorem btoi64Loop_eq_some_iff {n : Nat} {b : Bytes} {i : Int64} :
    btoi64Loop (Int64.ofNat n) b = some i ↔
      (∀ c ∈ b, isDigit c = true) ∧ Int64.ofNat (digitsFrom n b) = i := by
  induction b generalizing n with
  | nil => simp [btoi64Loop, digitsFrom]
  | cons c cs ih =>
    have hstep : Int64.ofNat (digitVal c) + Int64.ofNat n * 10 =
        Int64.ofNat (n * 10 + digitVal c) := by
      rw [Int64.ofNat_add, Int64.ofNat_mul, Int64.add_comm]
      rfl
    rw [btoi64Loop, hstep]
    split
    · rename_i hc
      rw [ih]
      simp [hc, digitsFrom]
    · rename_i hc
      simp [hc]

/-- The digits of a short text are read without an overflow. -/
theorem digits_of_btoi64Loop {b : Bytes} {i : Int64} (hlen : b.length < 10)
    (h : btoi64Loop (Int64.ofNat 0) b = some i) :
    (∀ c ∈ b, isDigit c = true) ∧ Int64.ofNat (digitsFrom 0 b) = i ∧ digitsFrom 0 b < 2 ^ 63 := by
  obtain ⟨hdig, hval⟩ := btoi64Loop_eq_some_iff.mp h
  refine ⟨hdig, hval, ?_⟩
  calc digitsFrom 0 b
    _ < (0 + 1) * 10 ^ b.length := digitsFrom_lt hdig
    _ ≤ 10 ^ 10 := by
      rw [Nat.zero_add, Nat.one_mul]
      exact Nat.pow_le_pow_right (by decide) hlen.le
    _ ≤ 2 ^ 63 := by decide

theorem denotes_of_btoi64Fast {b : Bytes} {i : Int64} (h : btoi64Fast b = some i) :
    Denotes b i.toInt := by
  cases b with
  | nil => cases h
  | cons c cs =>
    rw [btoi64Fast] at h
    split at h
    · cases h
    rename_i hlen
    rw [List.length_cons] at hlen
    -- a minus, a plus, or no sign
    split at h
    · subst c
      split at h
      · cases h
      · rename_i hne
        obtain ⟨j, hj, rfl⟩ := Option.map_eq_some_iff.mp h
        obtain ⟨hdig, rfl, hlt⟩ := digits_of_btoi64Loop (by omega) hj
        rw [Int64.neg_ofNat, Int64.toInt_ofInt_of_le (by omega) (by omega)]
        exact .minus hne hdig
    split at h
    · subst c
      split at h
      · cases h
      · rename_i hne
        obtain ⟨hdig, rfl, hlt⟩ := digits_of_btoi64Loop (by omega) h
        rw [Int64.toInt_ofNat_of_lt hlt]
        exact .plus hne hdig
    · obtain ⟨hdig, rfl, hlt⟩ := digits_of_btoi64Loop (by rw [List.length_cons]; omega) h
      rw [Int64.toInt_ofNat_of_lt hlt]
      exact .bare (List.cons_ne_nil c cs) hdig

/-- The short path of `btoi64` only accepts what `strconv.ParseInt` does. -/
theorem btoi64_eq_parseInt (b : Bytes) : btoi64 b = parseInt b := by
  rw [btoi64]
  split
  · rename_i n hn
    exact (parseInt_eq_ok_iff.mpr (denotes_of_btoi64Fast hn)).symm
  · rfl

/-- **What `btoi64` accepts**: the texts that denote a 64-bit integer. -/
theorem btoi64_eq_ok_iff {b : Bytes} {i : Int64} : btoi64 b = .ok i ↔ Denotes b i.toInt := by
  rw [btoi64_eq_parseInt]
  exact parseInt_eq_ok_iff

/-- **The two paths of `btoi64` agree**: every text has the value or the error that
    `strconv.ParseInt` gives it, and a value exactly if it denotes an integer within 64 bits. -/
theorem btoi64_agrees (b : Bytes) :
    btoi64 b = parseInt b ∧ ∀ n : Int, (∃ i : Int64, btoi64 b = .ok i ∧ i.toInt = n) ↔
      Denotes b n ∧ -2 ^ 63 ≤ n ∧ n < 2 ^ 63 := by
  refine ⟨btoi64_eq_parseInt b, fun n => ?_⟩
  constructor
  · rintro ⟨i, hi, rfl⟩
    exact ⟨btoi64_eq_ok_iff.mp hi, Int64.le_toInt i, Int64.toInt_lt i⟩
  · rintro ⟨hdenotes, hlo, hhi⟩
    have hvalue : (Int64.ofInt n).toInt = n := Int64.toInt_ofInt_of_le hlo hhi
    refine ⟨Int64.ofInt n, btoi64_eq_ok_iff.mpr ?_, hvalue⟩
    rwa [hvalue]

theorem LF_notMem_of_denotes {t : Bytes} {i : Int} (h : Denotes t i) : LF ∉ t := by
  intro hmem
  rcases h.mem hmem with hLF | hLF | hLF <;> cases hLF

/-! ## Words -/

/-- What the rules of a language leave open. -/
structure Rules where
  /-- an inline command may be an element of an array -/
  inlineInside : Bool
  /-- the longest line of an integer or of a length, with its CR LF -/
  lineLimit : Option Nat

/-- A text for an integer in a line of its own. -/
structure Rules.Number (r : Rules) (t : Bytes) (i : Int) : Prop where
  denotes : Denotes t i
  fits : ∀ limit ∈ r.lineLimit, t.length + 2 ≤ limit

/-- Where a word stands. -/
inductive WordPlace where
  | top
  | inside
  deriving DecidableEq

/-- The words between the spaces of a line. -/
def wordsOf (t : Bytes) : List Bytes := (t.splitOn 32).filter (· ≠ [])

/-- The words of the language, with their values. -/
inductive RespWord (r : Rules) : WordPlace → Bytes → RespValue → Prop
  | integer {p : WordPlace} {t : Bytes} {i : Int64} (ht : r.Number t i.toInt) :
      RespWord r p (RespType.integer.byte :: (t ++ CRLF)) (.integer i)
  | simpleString {p : WordPlace} {t : Bytes} (ht : LF ∉ t) :
      RespWord r p (RespType.simpleString.byte :: (t ++ CRLF)) (.simpleString t)
  | error {p : WordPlace} {t : Bytes} (ht : LF ∉ t) :
      RespWord r p (RespType.error.byte :: (t ++ CRLF)) (.error t)
  /-- `$-1` -/
  | nilBulkString {p : WordPlace} {t : Bytes} (ht : r.Number t (-1)) :
      RespWord r p (RespType.bulkString.byte :: (t ++ CRLF)) (.bulkString none)
  /-- a length, and as many bytes -/
  | bulkString {p : WordPlace} {t s : Bytes} (ht : r.Number t s.length)
      (hs : s.length ≤ maxBulkStringLen) :
      RespWord r p (RespType.bulkString.byte :: (t ++ CRLF ++ (s ++ CRLF))) (.bulkString (some s))
  /-- `*-1` -/
  | nilArray {p : WordPlace} {t : Bytes} (ht : r.Number t (-1)) :
      RespWord r p (RespType.array.byte :: (t ++ CRLF)) (.array none)
  /-- a length, and as many words -/
  | array {p : WordPlace} {t : Bytes} {parts : List (Bytes × RespValue)}
      (ht : r.Number t parts.length) (hlen : parts.length ≤ maxArrayLen)
      (hparts : ∀ e ∈ parts, RespWord r .inside e.1 e.2) :
      RespWord r p (RespType.array.byte :: (t ++ CRLF ++ parts.flatMap Prod.fst))
        (.array (some (parts.map Prod.snd)))
  /-- a line with a word in it -/
  | inline {p : WordPlace} {c : UInt8} {t : Bytes} (hp : p = .top ∨ r.inlineInside = true)
      (hc : RespType.ofByte c = none) (ht : LF ∉ c :: t) (hwords : wordsOf (c :: t) ≠ []) :
      RespWord r p (c :: (t ++ CRLF))
        (.array (some ((wordsOf (c :: t)).map fun w => .bulkString (some w))))

/-- The rules of the protocol. -/
def grammar : Rules := ⟨false, none⟩

/-- The rules of a decoder with a buffer of `size` bytes. -/
def accepted (size : Nat) : Rules := ⟨true, some size⟩

/-- The rules of the protocol with lines that fit into a buffer of `size` bytes. -/
def fitting (size : Nat) : Rules := ⟨false, some size⟩

/-! ## The pieces of the decoder -/

theorem chopCRLF_line_iff {l t : Bytes} : chopCRLF (l ++ [LF]) = .ok t ↔ l = t ++ [CR] := by
  rcases List.eq_nil_or_concat' l with rfl | ⟨l', x, rfl⟩
  · simp [chopCRLF]
  · have hlen : (l' ++ [x] ++ [LF]).length = l'.length + 2 := by simp
    have hx : (l' ++ [x] ++ [LF])[l'.length]? = some x := by simp
    have htake : (l' ++ [x] ++ [LF]).take l'.length = l' := by simp
    rw [chopCRLF, if_neg (by omega), hlen, Nat.add_sub_cancel, hx, htake]
    constructor
    · intro h
      split at h
      · rename_i hcr
        cases h
        rw [Option.some.inj hcr]
      · cases h
    · intro h
      obtain ⟨rfl, hcr⟩ := List.append_inj' h rfl
      rw [if_pos (congrArg some (List.cons.inj hcr).1)]

/-- A text with CR LF behind its first `n` bytes. -/
theorem eq_take_append_CRLF {b : Bytes} {n : Nat} (hlen : b.length = n + 2)
    (hcr : b[n]? = some CR) (hlf : b[n + 1]? = some LF) : b = b.take n ++ CRLF := by
  have hdrop : b.drop n = CRLF := by
    rw [List.drop_eq_getElem?_toList_append, hcr, List.drop_eq_getElem?_toList_append, hlf,
      List.drop_eq_nil_of_le hlen.le]
    rfl
  conv_lhs => rw [← List.take_append_drop n b, hdrop]

/-- The length of a list within the limits, as the `int64` it is sent as. -/
theorem toInt_ofNat_length {n : Nat} (hn : n ≤ maxBulkStringLen) :
    (Int64.ofNat n).toInt = n := by
  apply Int64.toInt_ofNat_of_lt
  simp only [maxBulkStringLen] at hn
  omega

theorem run_fromExcept_eq_ok_iff {α : Type} {size : Nat} {final : IoErr} {x : Except Err α}
    {input rest : Bytes} {a : α} :
    (fromExcept x).run (ReaderOp.onStream size final) input = .ok a rest ↔
      x = .ok a ∧ rest = input := by
  cases x with
  | ok b =>
    constructor
    · intro h
      cases h
      exact ⟨rfl, rfl⟩
    · rintro ⟨h, rfl⟩
      cases h
      rfl
  | error e =>
    constructor
    · intro h
      cases h
    · rintro ⟨h, -⟩
      cases h

section Pieces

variable {size : Nat} {final : IoErr} {input rest : Bytes}

theorem decodeIntCalls_iff {i : Int64} :
    decodeIntCalls.run (ReaderOp.onStream size final) input = .ok i rest ↔
      ∃ t, (accepted size).Number t i.toInt ∧ input = t ++ CRLF ++ rest := by
  unfold decodeIntCalls
  simp only [run_bind, run_perform]
  constructor
  · intro h
    obtain ⟨line, s₁, hline, hrest⟩ := bind_eq_ok h
    obtain ⟨t, s₂, htext, hnumber⟩ := bind_eq_ok hrest
    obtain ⟨l, hl, hlen, rfl, rfl⟩ := (ByteStream.readLine_eq_ok_iff size final).mp hline
    obtain ⟨hchop, rfl⟩ := run_fromExcept_eq_ok_iff.mp htext
    obtain ⟨hnum, rfl⟩ := run_fromExcept_eq_ok_iff.mp hnumber
    obtain rfl := chopCRLF_line_iff.mp hchop
    refine ⟨t, ⟨btoi64_eq_ok_iff.mp ?_, ?_⟩, by simp [CRLF]⟩
    · cases hb : btoi64 t with
      | ok j =>
        rw [hb] at hnum
        cases hnum
        rfl
      | error e =>
        rw [hb] at hnum
        cases hnum
    · rintro limit ⟨⟩
      rw [List.length_append] at hlen
      exact hlen
  · rintro ⟨t, ⟨hden, hfits⟩, rfl⟩
    -- the line ends at its first LF, so the number has none
    have hLF : LF ∉ t ++ [CR] := by
      simpa [LF_notMem_of_denotes hden] using (by decide : LF ≠ CR)
    have hline : ByteStream.readLine size final (t ++ CRLF ++ rest) =
        .ok (t ++ [CR] ++ [LF]) rest := by
      refine (ByteStream.readLine_eq_ok_iff size final).mpr ⟨t ++ [CR], hLF, ?_, rfl, ?_⟩
      · rw [List.length_append]
        exact hfits size rfl
      · simp [CRLF]
    have htext : (fromExcept (chopCRLF (t ++ [CR] ++ [LF]))).run (ReaderOp.onStream size final)
        rest = .ok t rest := run_fromExcept_eq_ok_iff.mpr ⟨chopCRLF_line_iff.mpr rfl, rfl⟩
    refine (bind_ok hline).trans ((bind_ok htext).trans ?_)
    refine run_fromExcept_eq_ok_iff.mpr ⟨?_, rfl⟩
    rw [btoi64_eq_ok_iff.mpr hden]
    rfl

theorem decodeTextCalls_iff {t : Bytes} :
    decodeTextCalls.run (ReaderOp.onStream size final) input = .ok t rest ↔
      LF ∉ t ∧ input = t ++ CRLF ++ rest := by
  unfold decodeTextCalls
  simp only [run_bind, run_perform]
  constructor
  · intro h
    obtain ⟨line, s₁, hline, htext⟩ := bind_eq_ok h
    obtain ⟨l, hl, rfl, rfl⟩ := (ByteStream.readBytes_eq_ok_iff final).mp hline
    obtain ⟨hchop, rfl⟩ := run_fromExcept_eq_ok_iff.mp htext
    obtain rfl := chopCRLF_line_iff.mp hchop
    exact ⟨fun hmem => hl (List.mem_append_left _ hmem), by simp [CRLF]⟩
  · rintro ⟨ht, rfl⟩
    have hLF : LF ∉ t ++ [CR] := by
      simpa [ht] using (by decide : LF ≠ CR)
    have hline : ByteStream.readBytes final (t ++ CRLF ++ rest) = .ok (t ++ [CR] ++ [LF]) rest :=
      (ByteStream.readBytes_eq_ok_iff final).mpr ⟨t ++ [CR], hLF, rfl, by simp [CRLF]⟩
    exact (bind_ok hline).trans (run_fromExcept_eq_ok_iff.mpr ⟨chopCRLF_line_iff.mpr rfl, rfl⟩)

/-- What bulk strings and arrays have in common: a length within its limit decides what is read
    behind it, and `-1` stands for no value. -/
def lengthCalls {γ : Type} (limit : Nat) (low high : Err)
    (body : Nat → Program ReaderOp Err (Option γ)) : Program ReaderOp Err (Option γ) := do
  let n ← decodeIntCalls
  if n.toInt < -1 then fail low
  else if limit < n.toInt then fail high
  else if n.toInt = -1 then return none
  else body n.toInt.toNat

/-- The text of a bulk string, behind its length. -/
def bulkTextCalls (n : Nat) : Program ReaderOp Err (Option Bytes) := do
  let b ← perform (.readFull (n + 2) (Nat.succ_pos _))
  if b[n]? = some CR ∧ b[n + 1]? = some LF then return some (b.take n) else fail .badCRLFEnd

theorem decodeBulkCalls_eq : decodeBulkCalls =
    lengthCalls maxBulkStringLen .badBulkStringLen .badBulkStringLenTooLong bulkTextCalls := rfl

theorem decodeArrayCalls_eq (dec : Program ReaderOp Err RespValue) : decodeArrayCalls dec =
    lengthCalls maxArrayLen .badArrayLen .badArrayLenTooLong
      fun n => some <$> decodeElemsCalls dec n := rfl

theorem lengthCalls_iff {γ : Type} {body : Nat → Program ReaderOp Err (Option γ)} {limit : Nat}
    (hlimit : limit ≤ maxBulkStringLen) {low high : Err} {o : Option γ} :
    (lengthCalls limit low high body).run (ReaderOp.onStream size final) input = .ok o rest ↔
      (o = none ∧ ∃ t, (accepted size).Number t (-1) ∧ input = t ++ CRLF ++ rest) ∨
      ∃ (t : Bytes) (n : Nat) (input' : Bytes), (accepted size).Number t n ∧ n ≤ limit ∧
        input = t ++ CRLF ++ input' ∧
        (body n).run (ReaderOp.onStream size final) input' = .ok o rest := by
  unfold lengthCalls
  simp only [run_bind, apply_ite (run _), run_fail, run_pure]
  constructor
  · intro h
    obtain ⟨n, input', hn, hrest⟩ := bind_eq_ok h
    obtain ⟨t, ht, rfl⟩ := decodeIntCalls_iff.mp hn
    -- below -1, above the limit, -1, and a length
    split at hrest
    · cases hrest
    split at hrest
    · cases hrest
    split at hrest
    · rename_i hnil
      cases hrest
      exact .inl ⟨rfl, t, hnil ▸ ht, rfl⟩
    · rename_i hlow hhigh hnil
      refine .inr ⟨t, n.toInt.toNat, input', ?_, by omega, rfl, hrest⟩
      rwa [Int.toNat_of_nonneg (by omega)]
  · rintro (⟨rfl, t, ht, rfl⟩ | ⟨t, n, input', ht, hn, rfl, hbody⟩)
    · have hint : decodeIntCalls.run (ReaderOp.onStream size final) (t ++ CRLF ++ rest) =
          .ok (-1) rest := decodeIntCalls_iff.mpr ⟨t, ht, rfl⟩
      exact bind_ok hint
    · have hval := toInt_ofNat_length (hn.trans hlimit)
      have hint : decodeIntCalls.run (ReaderOp.onStream size final) (t ++ CRLF ++ input') =
          .ok (Int64.ofNat n) input' := decodeIntCalls_iff.mpr ⟨t, hval ▸ ht, rfl⟩
      refine (bind_ok hint).trans ?_
      rwa [hval, if_neg (by omega), if_neg (by omega), if_neg (by omega), Int.toNat_natCast]

theorem bulkTextCalls_iff {n : Nat} {o : Option Bytes} :
    (bulkTextCalls n).run (ReaderOp.onStream size final) input = .ok o rest ↔
      ∃ s : Bytes, o = some s ∧ s.length = n ∧ input = s ++ CRLF ++ rest := by
  unfold bulkTextCalls
  simp only [run_bind, apply_ite (run _), run_fail, run_pure, run_perform]
  constructor
  · intro h
    obtain ⟨b, input', hb, hrest⟩ := bind_eq_ok h
    -- two bytes more than the length are read, and have to be CR and LF
    obtain ⟨hlen, rfl⟩ := (ByteStream.readFull_eq_ok_iff final).mp hb
    split at hrest
    · rename_i hend
      cases hrest
      refine ⟨b.take n, rfl, ?_, ?_⟩
      · rw [List.length_take]
        omega
      · rw [← eq_take_append_CRLF hlen hend.1 hend.2]
    · cases hrest
  · rintro ⟨s, rfl, rfl, rfl⟩
    have hfull : ByteStream.readFull final (s.length + 2) (s ++ CRLF ++ rest) =
        .ok (s ++ CRLF) rest :=
      (ByteStream.readFull_eq_ok_iff final).mpr ⟨by simp [CRLF], rfl⟩
    have hcr : (s ++ CRLF)[s.length]? = some CR := by simp [CRLF]
    have hlf : (s ++ CRLF)[s.length + 1]? = some LF := by simp [CRLF]
    refine (bind_ok hfull).trans ?_
    rw [if_pos ⟨hcr, hlf⟩, List.take_left]
    rfl

theorem decodeBulkCalls_iff {o : Option Bytes} :
    decodeBulkCalls.run (ReaderOp.onStream size final) input = .ok o rest ↔
      (o = none ∧ ∃ t, (accepted size).Number t (-1) ∧ input = t ++ CRLF ++ rest) ∨
      ∃ t s, o = some s ∧ (accepted size).Number t s.length ∧ s.length ≤ maxBulkStringLen ∧
        input = t ++ CRLF ++ (s ++ CRLF) ++ rest := by
  rw [decodeBulkCalls_eq]
  refine (lengthCalls_iff (le_refl _)).trans (or_congr_right ?_)
  constructor
  · rintro ⟨t, n, input', ht, hn, rfl, hbody⟩
    obtain ⟨s, rfl, rfl, rfl⟩ := bulkTextCalls_iff.mp hbody
    exact ⟨t, s, rfl, ht, hn, by simp⟩
  · rintro ⟨t, s, rfl, ht, hs, rfl⟩
    exact ⟨t, s.length, s ++ CRLF ++ rest, ht, hs, by simp,
      bulkTextCalls_iff.mpr ⟨s, rfl, rfl, rfl⟩⟩

theorem inlineWords_eq {cur t : Bytes} (hcur : 32 ∉ cur) :
    inlineWords cur t = ((cur ++ t).splitOn 32).filter (· ≠ []) := by
  induction t generalizing cur with
  | nil =>
    rw [List.append_nil, List.splitOn_eq_singleton hcur]
    by_cases hnil : cur = [] <;> simp [inlineWords, hnil]
  | cons c cs ih =>
    rw [inlineWords]
    split
    · rename_i hc
      rw [ih (by simp [hcur, Ne.symm hc]), List.append_assoc, List.singleton_append]
    · rename_i hc
      obtain rfl := not_not.mp hc
      rw [ih List.not_mem_nil, List.splitOn_append_cons_self_of_not_mem hcur]
      by_cases hnil : cur = [] <;> simp [hnil]

theorem decodeInlineCalls_iff {v : RespValue} :
    decodeInlineCalls.run (ReaderOp.onStream size final) input = .ok v rest ↔
      ∃ t, LF ∉ t ∧ wordsOf t ≠ [] ∧ input = t ++ CRLF ++ rest ∧
        v = .array (some ((wordsOf t).map fun w => .bulkString (some w))) := by
  have hwords : ∀ t, inlineWords [] t = wordsOf t := fun t => inlineWords_eq List.not_mem_nil
  unfold decodeInlineCalls
  simp only [run_bind, apply_ite (run _), run_fail, run_pure, hwords, List.map_eq_nil_iff]
  constructor
  · intro h
    obtain ⟨t, s₁, htext, hrest⟩ := bind_eq_ok h
    obtain ⟨ht, rfl⟩ := decodeTextCalls_iff.mp htext
    split at hrest
    · cases hrest
    · rename_i hne
      cases hrest
      exact ⟨t, ht, hne, rfl, rfl⟩
  · rintro ⟨t, ht, hne, rfl, rfl⟩
    refine (bind_ok (decodeTextCalls_iff.mpr ⟨ht, rfl⟩)).trans ?_
    rw [if_neg hne]
    rfl

end Pieces

/-! ## Arrays -/

section Arrays

variable {size : Nat} {final : IoErr} {dec : Program ReaderOp Err RespValue}

theorem decodeElemsCalls_sound {lang : Bytes → RespValue → Prop}
    (hdec : ∀ {input rest : Bytes} {v : RespValue},
      dec.run (ReaderOp.onStream size final) input = .ok v rest →
        ∃ w, lang w v ∧ input = w ++ rest)
    {n : Nat} {input rest : Bytes} {vs : List RespValue}
    (h : (decodeElemsCalls dec n).run (ReaderOp.onStream size final) input = .ok vs rest) :
    ∃ parts : List (Bytes × RespValue), parts.length = n ∧ vs = parts.map Prod.snd ∧
      input = parts.flatMap Prod.fst ++ rest ∧ ∀ e ∈ parts, lang e.1 e.2 := by
  induction n generalizing input vs with
  | zero =>
    cases h
    exact ⟨[], rfl, rfl, rfl, by simp⟩
  | succ n ih =>
    simp only [decodeElemsCalls, run_bind, run_pure] at h
    obtain ⟨v, s₁, hv, htail⟩ := bind_eq_ok h
    obtain ⟨us, s₂, hus, hlast⟩ := bind_eq_ok htail
    obtain ⟨w, hw, rfl⟩ := hdec hv
    cases hlast
    obtain ⟨parts, hn, rfl, rfl, hparts⟩ := ih hus
    refine ⟨(w, v) :: parts, by simp [hn], rfl, by simp, ?_⟩
    intro e he
    rcases List.mem_cons.mp he with rfl | he
    · exact hw
    · exact hparts e he

theorem decodeElemsCalls_complete {parts : List (Bytes × RespValue)}
    (hdec : ∀ e ∈ parts, ∀ rest,
      dec.run (ReaderOp.onStream size final) (e.1 ++ rest) = .ok e.2 rest) (rest : Bytes) :
    (decodeElemsCalls dec parts.length).run (ReaderOp.onStream size final)
      (parts.flatMap Prod.fst ++ rest) = .ok (parts.map Prod.snd) rest := by
  induction parts with
  | nil => rfl
  | cons e parts ih =>
    have hhead := hdec e (List.mem_cons_self ..) (parts.flatMap Prod.fst ++ rest)
    have htail := ih fun e' he' => hdec e' (List.mem_cons_of_mem _ he')
    rw [List.flatMap_cons, List.append_assoc, List.length_cons]
    simp only [decodeElemsCalls, run_bind, run_pure]
    exact (bind_ok hhead).trans (bind_ok htail)

theorem maxArrayLen_le : maxArrayLen ≤ maxBulkStringLen := by decide

theorem decodeArrayCalls_sound {lang : Bytes → RespValue → Prop}
    (hdec : ∀ {input rest : Bytes} {v : RespValue},
      dec.run (ReaderOp.onStream size final) input = .ok v rest →
        ∃ w, lang w v ∧ input = w ++ rest)
    {input rest : Bytes} {o : Option (List RespValue)}
    (h : (decodeArrayCalls dec).run (ReaderOp.onStream size final) input = .ok o rest) :
    (o = none ∧ ∃ t, (accepted size).Number t (-1) ∧ input = t ++ CRLF ++ rest) ∨
      ∃ (t : Bytes) (parts : List (Bytes × RespValue)), o = some (parts.map Prod.snd) ∧
        (accepted size).Number t parts.length ∧ parts.length ≤ maxArrayLen ∧
        (∀ e ∈ parts, lang e.1 e.2) ∧ input = t ++ CRLF ++ parts.flatMap Prod.fst ++ rest := by
  rw [decodeArrayCalls_eq] at h
  refine ((lengthCalls_iff maxArrayLen_le).mp h).imp_right ?_
  rintro ⟨t, n, input', ht, hn, rfl, hbody⟩
  rw [run_map] at hbody
  obtain ⟨vs, hvs, rfl⟩ := map_eq_ok hbody
  obtain ⟨parts, rfl, rfl, rfl, hparts⟩ := decodeElemsCalls_sound hdec hvs
  exact ⟨t, parts, rfl, ht, hn, hparts, by simp⟩

theorem decodeArrayCalls_nil {t : Bytes} (ht : (accepted size).Number t (-1)) (rest : Bytes) :
    (decodeArrayCalls dec).run (ReaderOp.onStream size final) (t ++ CRLF ++ rest) =
      .ok none rest := by
  rw [decodeArrayCalls_eq]
  exact (lengthCalls_iff maxArrayLen_le).mpr (.inl ⟨rfl, t, ht, rfl⟩)

theorem decodeArrayCalls_complete {t : Bytes} {parts : List (Bytes × RespValue)}
    (ht : (accepted size).Number t parts.length) (hlen : parts.length ≤ maxArrayLen)
    (hdec : ∀ e ∈ parts, ∀ rest,
      dec.run (ReaderOp.onStream size final) (e.1 ++ rest) = .ok e.2 rest) (rest : Bytes) :
    (decodeArrayCalls dec).run (ReaderOp.onStream size final)
      (t ++ CRLF ++ parts.flatMap Prod.fst ++ rest) = .ok (some (parts.map Prod.snd)) rest := by
  rw [decodeArrayCalls_eq]
  refine (lengthCalls_iff maxArrayLen_le).mpr
    (.inr ⟨t, parts.length, parts.flatMap Prod.fst ++ rest, ht, hlen, by simp, ?_⟩)
  rw [run_map]
  exact map_ok (decodeElemsCalls_complete hdec rest)

end Arrays

/-! ## The decoder and its language -/

theorem peekByte_eq_ok {final : IoErr} {input s : Bytes} {c : UInt8}
    (h : ByteStream.peekByte final input = .ok c s) : s = input ∧ ∃ tl, input = c :: tl := by
  cases input with
  | nil => cases h
  | cons d tl =>
    cases h
    exact ⟨rfl, tl, rfl⟩

theorem RespType.byte_of_ofByte {c : UInt8} {typ : RespType}
    (h : RespType.ofByte c = some typ) : c = typ.byte := by
  unfold RespType.ofByte at h
  split_ifs at h <;> cases h <;> assumption

/-- One level of the decoder, if the elements of an array are words. -/
theorem decodeRespCalls_sound {size : Nat} {final : IoErr} {dec : Program ReaderOp Err RespValue}
    {p : WordPlace} (hdec : ∀ {input rest : Bytes} {v : RespValue},
      dec.run (ReaderOp.onStream size final) input = .ok v rest →
        ∃ w, RespWord (accepted size) .inside w v ∧ input = w ++ rest)
    {typ : RespType} {input rest : Bytes} {v : RespValue}
    (h : (decodeRespCalls dec typ).run (ReaderOp.onStream size final) input = .ok v rest) :
    ∃ w, RespWord (accepted size) p (typ.byte :: w) v ∧ input = w ++ rest := by
  cases typ with
  | integer =>
    simp only [decodeRespCalls, run_map] at h
    obtain ⟨i, hi, rfl⟩ := map_eq_ok h
    obtain ⟨t, ht, rfl⟩ := decodeIntCalls_iff.mp hi
    exact ⟨t ++ CRLF, .integer ht, rfl⟩
  | simpleString =>
    simp only [decodeRespCalls, run_map] at h
    obtain ⟨t, ht, rfl⟩ := map_eq_ok h
    obtain ⟨hLF, rfl⟩ := decodeTextCalls_iff.mp ht
    exact ⟨t ++ CRLF, .simpleString hLF, rfl⟩
  | error =>
    simp only [decodeRespCalls, run_map] at h
    obtain ⟨t, ht, rfl⟩ := map_eq_ok h
    obtain ⟨hLF, rfl⟩ := decodeTextCalls_iff.mp ht
    exact ⟨t ++ CRLF, .error hLF, rfl⟩
  | bulkString =>
    simp only [decodeRespCalls, run_map] at h
    obtain ⟨o, ho, rfl⟩ := map_eq_ok h
    rcases decodeBulkCalls_iff.mp ho with ⟨rfl, t, ht, rfl⟩ | ⟨t, s, rfl, ht, hs, rfl⟩
    · exact ⟨t ++ CRLF, .nilBulkString ht, rfl⟩
    · exact ⟨t ++ CRLF ++ (s ++ CRLF), .bulkString ht hs, rfl⟩
  | array =>
    simp only [decodeRespCalls, run_map] at h
    obtain ⟨o, ho, rfl⟩ := map_eq_ok h
    rcases decodeArrayCalls_sound hdec ho with
      ⟨rfl, t, ht, rfl⟩ | ⟨t, parts, rfl, ht, hlen, hparts, rfl⟩
    · exact ⟨t ++ CRLF, .nilArray ht, rfl⟩
    · exact ⟨t ++ CRLF ++ parts.flatMap Prod.fst, .array ht hlen hparts, rfl⟩

/-- **Soundness**: what the decoder has read is a word, and the value is that of the word. -/
theorem decodeStream_sound {size depth : Nat} {final : IoErr} {input rest : Bytes}
    {v : RespValue} (h : decodeStream size final depth input = .ok v rest) (p : WordPlace) :
    ∃ w, RespWord (accepted size) p w v ∧ input = w ++ rest := by
  unfold decodeStream at h
  induction depth generalizing input rest v p with
  | zero => cases h
  | succ depth ih =>
    simp only [decodeCalls, run_bind, run_perform] at h
    obtain ⟨c, s₁, hpeek, hrest⟩ := bind_eq_ok h
    obtain ⟨rfl, tl, rfl⟩ := peekByte_eq_ok hpeek
    cases hc : RespType.ofByte c with
    | some typ =>
      simp only [hc, run_bind, run_perform] at hrest
      -- the type byte is the one that was peeked at
      have hresp : (decodeRespCalls (decodeCalls depth) typ).run
          (ReaderOp.onStream size final) tl = .ok v rest := hrest
      obtain ⟨w, hw, rfl⟩ := decodeRespCalls_sound (fun h => ih h .inside) hresp
      exact ⟨typ.byte :: w, hw, by rw [RespType.byte_of_ofByte hc]; rfl⟩
    | none =>
      simp only [hc] at hrest
      obtain ⟨t, ht, hwords, hinput, rfl⟩ := decodeInlineCalls_iff.mp hrest
      cases t with
      | nil => exact absurd rfl hwords
      | cons d t =>
        obtain ⟨rfl, rfl⟩ := List.cons.inj hinput
        exact ⟨c :: (t ++ CRLF), .inline (.inr rfl) hc ht hwords, by simp⟩

/-- A word with a type byte is read, if the level below it reads what follows the byte. -/
theorem decodeStream_typed {size depth : Nat} {final : IoErr} {typ : RespType} {w rest : Bytes}
    {v : RespValue} (hdepth : (typ.byte :: w).length ≤ depth)
    (h : ∀ d, w.length ≤ d → (decodeRespCalls (decodeCalls d) typ).run
      (ReaderOp.onStream size final) (w ++ rest) = .ok v rest) :
    decodeStream size final depth (typ.byte :: w ++ rest) = .ok v rest := by
  cases depth with
  | zero => cases hdepth
  | succ depth =>
    unfold decodeStream
    simp only [decodeCalls, run_bind, run_perform]
    have hpeek : ByteStream.peekByte final (typ.byte :: w ++ rest) =
        .ok typ.byte (typ.byte :: w ++ rest) := rfl
    refine (bind_ok hpeek).trans ?_
    simp only [RespType.ofByte_byte, run_bind, run_perform]
    exact h depth (Nat.le_of_succ_le_succ hdepth)

/-- **Completeness**: every word is read, whatever follows it. -/
theorem decodeStream_complete {size : Nat} {final : IoErr} {p : WordPlace} {w : Bytes}
    {v : RespValue} (h : RespWord (accepted size) p w v) {depth : Nat} (hdepth : w.length ≤ depth)
    (rest : Bytes) : decodeStream size final depth (w ++ rest) = .ok v rest := by
  induction h generalizing depth rest with
  | integer ht =>
    refine decodeStream_typed hdepth fun d _ => ?_
    simp only [decodeRespCalls, run_map]
    exact map_ok (decodeIntCalls_iff.mpr ⟨_, ht, rfl⟩)
  | simpleString ht | error ht =>
    refine decodeStream_typed hdepth fun d _ => ?_
    simp only [decodeRespCalls, run_map]
    exact map_ok (decodeTextCalls_iff.mpr ⟨ht, rfl⟩)
  | nilBulkString ht =>
    refine decodeStream_typed hdepth fun d _ => ?_
    simp only [decodeRespCalls, run_map]
    exact map_ok (decodeBulkCalls_iff.mpr (.inl ⟨rfl, _, ht, rfl⟩))
  | bulkString ht hs =>
    refine decodeStream_typed hdepth fun d _ => ?_
    simp only [decodeRespCalls, run_map]
    exact map_ok (decodeBulkCalls_iff.mpr (.inr ⟨_, _, rfl, ht, hs, rfl⟩))
  | nilArray ht =>
    refine decodeStream_typed hdepth fun d _ => ?_
    simp only [decodeRespCalls, run_map]
    exact map_ok (decodeArrayCalls_nil ht rest)
  | @array p t parts ht hlen hparts ih =>
    refine decodeStream_typed hdepth fun d hd => ?_
    simp only [decodeRespCalls, run_map]
    refine map_ok (decodeArrayCalls_complete ht hlen (fun e he rest => ih e he ?_ rest) rest)
    -- the budget of the next level covers each element
    have hsub : e.1.Sublist (parts.flatMap Prod.fst) :=
      List.sublist_flatten_of_mem (List.mem_map_of_mem he)
    have hle := hsub.length_le
    simp only [List.length_append] at hd
    omega
  | @inline p c t hp hc ht hwords =>
    obtain ⟨depth, rfl⟩ := Nat.exists_eq_add_of_le' (le_trans (by simp) hdepth : 1 ≤ depth)
    unfold decodeStream
    simp only [decodeCalls, run_bind, run_perform]
    have hpeek : ByteStream.peekByte final (c :: (t ++ CRLF) ++ rest) =
        .ok c (c :: (t ++ CRLF) ++ rest) := rfl
    refine (bind_ok hpeek).trans ?_
    simp only [hc]
    exact decodeInlineCalls_iff.mpr ⟨c :: t, ht, hwords, rfl, rfl⟩

/-! ## Comparing languages -/

section Compare

variable {r r' r'' : Rules} {p p' : WordPlace} {w w' : Bytes} {v v' : RespValue}

theorem length_part_le {parts : List (Bytes × RespValue)} {e : Bytes × RespValue}
    (he : e ∈ parts) : e.1.length ≤ (parts.flatMap Prod.fst).length := by
  have hsub : e.1.Sublist (parts.flatMap Prod.fst) :=
    List.sublist_flatten_of_mem (List.mem_map_of_mem he)
  exact hsub.length_le

/-- Rules that allow inline commands and the lines of the word wherever others do. -/
theorem RespWord.imp (h : RespWord r p w v) (hin : r.inlineInside = true → r'.inlineInside = true)
    (hnum : ∀ {t : Bytes} {i : Int}, t.length + 2 ≤ w.length → r.Number t i → r'.Number t i) :
    RespWord r' p w v := by
  induction h with
  | integer ht => exact .integer (hnum (by simp [CRLF]) ht)
  | simpleString ht => exact .simpleString ht
  | error ht => exact .error ht
  | nilBulkString ht => exact .nilBulkString (hnum (by simp [CRLF]) ht)
  | bulkString ht hs => exact .bulkString (hnum (by simp [CRLF]) ht) hs
  | nilArray ht => exact .nilArray (hnum (by simp [CRLF]) ht)
  | array ht hlen hparts ih =>
    refine .array (hnum (by simp [CRLF]) ht) hlen fun e he => ih e he fun ht' => hnum ?_
    have hle := length_part_le he
    simp only [List.length_cons, List.length_append]
    omega
  | inline hp hc ht hwords => exact .inline (hp.imp_right hin) hc ht hwords

/-- A word is read by a decoder with a buffer of its size. -/
theorem RespWord.accepted_of_length (h : RespWord r p w v) {n : Nat} (hn : w.length ≤ n) :
    RespWord (accepted n) p w v := by
  refine h.imp (fun _ => rfl) fun hlen ht => ⟨ht.denotes, ?_⟩
  rintro limit ⟨⟩
  exact hlen.trans hn

/-- **The grammar is unambiguous**: at the start of a stream there is at most one word, under any
    rules, and it has one value. -/
theorem RespWord.unique (h : RespWord r p w v) (h' : RespWord r' p' w' v') {rest rest' : Bytes}
    (heq : w ++ rest = w' ++ rest') : w = w' ∧ v = v' ∧ rest = rest' := by
  let n := max w.length w'.length
  have hread : decodeStream n .eof n (w ++ rest) = .ok v rest :=
    decodeStream_complete (h.accepted_of_length (le_max_left ..)) (le_max_left ..) rest
  have hread' : decodeStream n .eof n (w' ++ rest') = .ok v' rest' :=
    decodeStream_complete (h'.accepted_of_length (le_max_right ..)) (le_max_right ..) rest'
  rw [heq, hread'] at hread
  cases hread
  exact ⟨List.append_cancel_right heq, rfl, rfl⟩

theorem parts_unique {parts parts' : List (Bytes × RespValue)}
    (h : ∀ e ∈ parts, RespWord r p e.1 e.2) (h' : ∀ e ∈ parts', RespWord r' p' e.1 e.2)
    (hlen : parts.length = parts'.length) {rest rest' : Bytes}
    (heq : parts.flatMap Prod.fst ++ rest = parts'.flatMap Prod.fst ++ rest') :
    parts = parts' := by
  induction parts generalizing parts' with
  | nil => exact (List.length_eq_zero_iff.mp hlen.symm).symm
  | cons e parts ih =>
    cases parts' with
    | nil => cases hlen
    | cons e' parts' =>
      rw [List.flatMap_cons, List.flatMap_cons, List.append_assoc, List.append_assoc] at heq
      obtain ⟨hword, hvalue, htail⟩ :=
        (h e (List.mem_cons_self ..)).unique (h' e' (List.mem_cons_self ..)) heq
      rw [Prod.ext hword hvalue, ih (fun d hd => h d (List.mem_cons_of_mem _ hd))
        (fun d hd => h' d (List.mem_cons_of_mem _ hd)) (Nat.succ.inj hlen) htail]

theorem line_inj {t t' x x' : Bytes} (ht : LF ∉ t) (ht' : LF ∉ t')
    (h : t ++ CRLF ++ x = t' ++ CRLF ++ x') : t = t' ∧ x = x' := by
  have hread : decodeTextCalls.run (ReaderOp.onStream 0 .eof) (t ++ CRLF ++ x) = .ok t x :=
    decodeTextCalls_iff.mpr ⟨ht, rfl⟩
  have hread' : decodeTextCalls.run (ReaderOp.onStream 0 .eof) (t' ++ CRLF ++ x') = .ok t' x' :=
    decodeTextCalls_iff.mpr ⟨ht', rfl⟩
  rw [h, hread'] at hread
  cases hread
  exact ⟨rfl, rfl⟩

/-- What two sets of rules say of one word, they say together. -/
theorem RespWord.inter
    (hin : r.inlineInside = true → r'.inlineInside = true → r''.inlineInside = true)
    (hnum : ∀ {t : Bytes} {i : Int}, r.Number t i → r'.Number t i → r''.Number t i)
    (h : RespWord r p w v) (h' : RespWord r' p w v) : RespWord r'' p w v := by
  induction h with
  -- the bytes and the value say which rule the other derivation ends with
  | @integer p t i ht =>
    generalize hw : RespType.integer.byte :: (t ++ CRLF) = w at h'
    cases h' with
    | integer ht' =>
      obtain rfl := List.append_cancel_right (List.cons.inj hw).2
      exact .integer (hnum ht ht')
  | simpleString ht => exact .simpleString ht
  | error ht => exact .error ht
  | @nilBulkString p t ht =>
    generalize hw : RespType.bulkString.byte :: (t ++ CRLF) = w at h'
    cases h' with
    | nilBulkString ht' =>
      obtain rfl := List.append_cancel_right (List.cons.inj hw).2
      exact .nilBulkString (hnum ht ht')
  | @bulkString p t s ht hs =>
    generalize hw : RespType.bulkString.byte :: (t ++ CRLF ++ (s ++ CRLF)) = w at h'
    cases h' with
    | bulkString ht' =>
      obtain rfl := List.append_cancel_right (List.append_cancel_right (List.cons.inj hw).2)
      exact .bulkString (hnum ht ht') hs
  | @nilArray p t ht =>
    generalize hw : RespType.array.byte :: (t ++ CRLF) = w at h'
    cases h' with
    | nilArray ht' =>
      obtain rfl := List.append_cancel_right (List.cons.inj hw).2
      exact .nilArray (hnum ht ht')
  | @array p t parts ht hlen hparts ih =>
    generalize hw : RespType.array.byte :: (t ++ CRLF ++ parts.flatMap Prod.fst) = w at h'
    generalize hv : RespValue.array (some (parts.map Prod.snd)) = v at h'
    cases h' with
    | @array p t' parts' ht' hlen' hparts' =>
      injection hv with hv
      have hcount := congrArg List.length (Option.some.inj hv)
      rw [List.length_map, List.length_map] at hcount
      obtain ⟨rfl, hflat⟩ := line_inj (LF_notMem_of_denotes ht.denotes)
        (LF_notMem_of_denotes ht'.denotes) (List.cons.inj hw).2
      -- a word says where its parts end, so both have the same parts
      obtain rfl := parts_unique hparts hparts' hcount (congrArg (· ++ []) hflat)
      exact .array (hnum ht ht') hlen fun e he => ih e he (hparts' e he)
    | inline hp hc =>
      rw [← (List.cons.inj hw).1, RespType.ofByte_byte] at hc
      cases hc
    | _ => cases hv
  | @inline p c t hp hc ht hwords =>
    generalize hw : c :: (t ++ CRLF) = w at h'
    generalize hv : RespValue.array (some ((wordsOf (c :: t)).map fun w => .bulkString (some w))) =
      v at h'
    cases h' with
    | inline hp' hc' ht' hwords' =>
      refine .inline ?_ hc' ht' hwords'
      rcases hp with hp | hp
      · exact .inl hp
      · exact hp'.imp_right (hin hp)
    | array =>
      rw [(List.cons.inj hw).1, RespType.ofByte_byte] at hc
      cases hc
    | _ => cases hv

end Compare

/-! ## What `Decode` returns -/

/-- `Decode` succeeds with the value, and the bytes are left. -/
def Decoder.Parses (d : Decoder) (v : RespValue) (rest : Bytes) : Prop :=
  d.decode.1 = .ok v ∧ d.decode.2.br.unread = rest

section Decode

open Reader (Streams)

variable {size : Nat} {final : IoErr} {b : Reader} {input : Bytes}

/-- **What the decoder accepts**: the words of its rules. -/
theorem parses_iff (h : Streams size final b input) {v : RespValue} {rest : Bytes} :
    (⟨b, none⟩ : Decoder).Parses v rest ↔
      ∃ w, RespWord (accepted size) .top w v ∧ input = w ++ rest := by
  have hagree := agree_decode h (input.length + 1)
  unfold Decoder.Parses
  simp only [Decoder.decode, h.unread_eq]
  constructor
  · rintro ⟨hval, hrest⟩
    -- the decoder runs with fuel for every byte of the input
    generalize hres : decodeStream size final (input.length + 1) input = res at hagree
    generalize decode (input.length + 1) b = x at hagree hval hrest
    cases hagree with
    | ok hst =>
      cases hval
      obtain rfl := hst.unread_eq.symm.trans hrest
      exact decodeStream_sound hres .top
    | error => cases hval
  · rintro ⟨w, hw, rfl⟩
    have hread : decodeStream size final ((w ++ rest).length + 1) (w ++ rest) = .ok v rest :=
      decodeStream_complete hw (by rw [List.length_append]; omega) rest
    rw [hread] at hagree
    generalize decode ((w ++ rest).length + 1) b = x at hagree
    cases hagree with
    | ok hst => exact ⟨rfl, hst.unread_eq⟩

/-- **Decoding and the grammar**: `Decode` returns exactly the words of the protocol at the start of
    a stream, with the rest left unread, if and only if no word that it accepts there has an inline
    command inside an array, and no word of the protocol there has the line of an integer or of a
    length that does not fit into the buffer. -/
theorem decode_grammar_iff (h : Streams size final b input) :
    (∀ v rest, (⟨b, none⟩ : Decoder).Parses v rest ↔
      ∃ w, RespWord grammar .top w v ∧ input = w ++ rest) ↔
    (∀ w v, w <+: input → RespWord (accepted size) .top w v → RespWord (fitting size) .top w v) ∧
    (∀ w v, w <+: input → RespWord grammar .top w v → RespWord (fitting size) .top w v) := by
  have hnum : ∀ {t i}, (accepted size).Number t i → grammar.Number t i →
      (fitting size).Number t i := fun hfits _ => ⟨hfits.denotes, hfits.fits⟩
  -- a word of both rules is one of the rules that they share
  have hboth : ∀ {w v}, RespWord (accepted size) .top w v → RespWord grammar .top w v →
      RespWord (fitting size) .top w v := RespWord.inter (fun _ hin => hin) hnum
  constructor
  · intro hall
    constructor
    · rintro w v ⟨rest, rfl⟩ hw
      obtain ⟨w', hw', heq⟩ := (hall v rest).mp ((parses_iff h).mpr ⟨w, hw, rfl⟩)
      obtain rfl := List.append_cancel_right heq
      exact hboth hw hw'
    · rintro w v ⟨rest, rfl⟩ hw
      obtain ⟨w', hw', heq⟩ := (parses_iff h).mp ((hall v rest).mpr ⟨w, hw, rfl⟩)
      obtain rfl := List.append_cancel_right heq
      exact hboth hw' hw
  · rintro ⟨hinline, hlines⟩ v rest
    rw [parses_iff h]
    constructor
    · rintro ⟨w, hw, rfl⟩
      refine ⟨w, ?_, rfl⟩
      exact (hinline w v (List.prefix_append ..) hw).imp (fun hin => hin)
        fun _ ht => ⟨ht.denotes, by rintro limit ⟨⟩⟩
    · rintro ⟨w, hw, rfl⟩
      refine ⟨w, ?_, rfl⟩
      exact (hlines w v (List.prefix_append ..) hw).imp (fun _ => rfl)
        fun _ ht => ⟨ht.denotes, ht.fits⟩

/-- Without inline commands inside arrays, an element begins with a type byte. -/
theorem RespWord.typed_of_inside {r : Rules} {w : Bytes} {v : RespValue}
    (h : RespWord r .inside w v) (hr : r.inlineInside = false) :
    ∃ typ tl, w = RespType.byte typ :: tl := by
  cases h with
  | inline hp =>
    rcases hp with hp | hp
    · cases hp
    · cases hr.symm.trans hp
  | _ => exact ⟨_, _, rfl⟩

/-- `*1` with the inline command `foo` as its element. -/
def inlineElement : Bytes := RespType.array.byte :: ([49] ++ CRLF ++ ([102, 111, 111] ++ CRLF))

def inlineElementValue : RespValue :=
  .array (some [.array (some [.bulkString (some [102, 111, 111])])])

theorem accepted_inlineElement :
    RespWord (accepted 4096) .top inlineElement inlineElementValue := by
  have hdigits : ∀ c ∈ ([49] : Bytes), isDigit c = true := by
    intro c hc
    obtain rfl := List.mem_singleton.mp hc
    decide
  have hnumber : (accepted 4096).Number [49] 1 :=
    ⟨.bare (by decide) hdigits, by rintro limit ⟨⟩; decide⟩
  have hinline : RespWord (accepted 4096) .inside ([102, 111, 111] ++ CRLF)
      (.array (some [.bulkString (some [102, 111, 111])])) :=
    .inline (.inr rfl) (by decide) (by decide) (by decide)
  have hparts : ∀ e ∈ [([102, 111, 111] ++ CRLF, RespValue.array (some [.bulkString (some
      [102, 111, 111])]))], RespWord (accepted 4096) .inside e.1 e.2 := by
    intro e he
    obtain rfl := List.mem_singleton.mp he
    exact hinline
  exact .array hnumber (by decide) hparts

theorem not_grammar_inlineElement : ¬RespWord grammar .top inlineElement inlineElementValue := by
  intro h
  generalize hw : inlineElement = w at h
  generalize hv : inlineElementValue = v at h
  cases h with
  | @array p t parts ht hlen hparts =>
    have hLF : LF ∉ t := LF_notMem_of_denotes ht.denotes
    obtain ⟨rfl, hflat⟩ := line_inj (by decide) hLF (List.cons.inj hw).2
    injection hv with hv
    obtain ⟨e, rfl⟩ : ∃ e, parts = [e] := by
      have hcount := congrArg List.length (Option.some.inj hv)
      rw [List.length_map] at hcount
      exact List.length_eq_one_iff.mp hcount.symm
    obtain ⟨typ, tl, htyp⟩ := (hparts e (List.mem_singleton_self e)).typed_of_inside rfl
    rw [List.flatMap_singleton, htyp] at hflat
    have hbyte := RespType.ofByte_byte typ
    rw [← (List.cons.inj hflat).1] at hbyte
    cases hbyte
  | inline hp hc =>
    rw [← (List.cons.inj hw).1, RespType.ofByte_byte] at hc
    cases hc
  | _ => cases hv

/-- An array with an inline command as its element is decoded, and there is no word of the protocol
    at the start of the stream. -/
theorem decode_inlineElement :
    (newDecoder (inPieces [inlineElement] .eof) 4096).Parses inlineElementValue [] ∧
    ∀ w v, w <+: inlineElement → ¬RespWord grammar .top w v := by
  have hstreams := @streams_inPieces [inlineElement] (by decide) .eof 4096
  constructor
  · exact (parses_iff hstreams).mpr ⟨inlineElement, accepted_inlineElement, rfl⟩
  · rintro w v ⟨rest, hrest⟩ hw
    obtain ⟨rfl, rfl, -⟩ :=
      hw.unique accepted_inlineElement (hrest.trans (List.append_nil _).symm)
    exact not_grammar_inlineElement hw

theorem fitting_status :
    RespWord (fitting 4096) .top [43, 79, 75, 13, 10] (.simpleString [79, 75]) :=
  @RespWord.simpleString _ _ [79, 75] (by decide)

theorem decode_grammar_status :
    RespWord (fitting 4096) .top [43, 79, 75, 13, 10] (.simpleString [79, 75]) ∧
    ∀ v rest, (newDecoder (inPieces [[43, 79, 75, 13], [10, 58]] .eof) 4096).Parses v rest ↔
      ∃ w, RespWord grammar .top w v ∧ [43, 79, 75, 13, 10, 58] = w ++ rest := by
  have hstreams := @streams_inPieces [[43, 79, 75, 13], [10, 58]] (by decide) .eof 4096
  have honly : ∀ {r : Rules} (w v), w <+: [43, 79, 75, 13, 10, 58] → RespWord r .top w v →
      RespWord (fitting 4096) .top w v := by
    rintro r w v ⟨rest, hrest⟩ hw
    have heq : w ++ rest = [43, 79, 75, 13, 10] ++ [58] := hrest
    obtain ⟨rfl, rfl, -⟩ := hw.unique fitting_status heq
    exact fitting_status
  exact ⟨fitting_status, (decode_grammar_iff hstreams).mpr ⟨honly, honly⟩⟩

end Decode

end Samaritan.Redis
