import Mathlib.Tactic

/-!
# Decimal Text of Machine Integers

The decimal notation of integers as byte strings: the canonical text of a number,
the loop that reads a run of digits with the overflow tests of a 64-bit unsigned
accumulator, and the signed reader built on it. Bytes are ASCII.
-/

namespace Samaritan.Lib

/-- A byte string. -/
abbrev Bytes := List UInt8

/-! ## Digits -/

/-- The byte of a decimal digit. -/
def digitByte (d : Nat) : UInt8 := UInt8.ofNat (48 + d)

/-- The byte is one of `0` to `9`. -/
def isDigit (c : UInt8) : Bool := 48 ≤ c.toNat && c.toNat ≤ 57

/-- The value of a digit byte. -/
def digitVal (c : UInt8) : Nat := c.toNat - 48

theorem toNat_digitByte {d : Nat} (hd : d < 10) : (digitByte d).toNat = 48 + d := by
  simp only [digitByte, UInt8.toNat_ofNat']
  omega

theorem isDigit_digitByte {d : Nat} (hd : d < 10) : isDigit (digitByte d) = true := by
  simp only [isDigit, toNat_digitByte hd, Bool.and_eq_true, decide_eq_true_eq]
  omega

theorem digitVal_digitByte {d : Nat} (hd : d < 10) : digitVal (digitByte d) = d := by
  simp [digitVal, toNat_digitByte hd]

theorem digitByte_digitVal {c : UInt8} (hc : isDigit c = true) : digitByte (digitVal c) = c := by
  simp only [isDigit, Bool.and_eq_true, decide_eq_true_eq] at hc
  apply UInt8.toNat_inj.mp
  rw [toNat_digitByte (by rw [digitVal]; omega), digitVal]
  omega

theorem digitVal_lt_ten {c : UInt8} (hc : isDigit c = true) : digitVal c < 10 := by
  simp only [isDigit, Bool.and_eq_true, decide_eq_true_eq] at hc
  rw [digitVal]
  omega

theorem digitVal_pos {c : UInt8} (hc : isDigit c = true) (hne : c ≠ 48) : 0 < digitVal c := by
  simp only [isDigit, Bool.and_eq_true, decide_eq_true_eq] at hc
  have hne' : c.toNat ≠ 48 := fun h => hne (UInt8.toNat_inj.mp h)
  rw [digitVal]
  omega

/-! ## Texts of numbers -/

/-- The decimal digits of `n`, most significant first, without leading zeros. -/
def formatNat (n : Nat) : Bytes :=
  if n < 10 then [digitByte n] else formatNat (n / 10) ++ [digitByte (n % 10)]

/-- The canonical decimal text of `i`. -/
def formatInt (i : Int) : Bytes :=
  if i < 0 then 45 :: formatNat i.natAbs else formatNat i.natAbs

/-- The number a run of digits denotes, continuing from the accumulator `n`. -/
def digitsFrom (n : Nat) (b : Bytes) : Nat := b.foldl (fun n c => n * 10 + digitVal c) n

theorem formatNat_ne_nil (n : Nat) : formatNat n ≠ [] := by
  rw [formatNat]
  split <;> simp

theorem isDigit_of_mem_formatNat {n : Nat} {c : UInt8} (hc : c ∈ formatNat n) :
    isDigit c = true := by
  induction n using Nat.strongRecOn with
  | ind n ih =>
    rw [formatNat] at hc
    split at hc
    · rename_i hn
      obtain rfl := List.mem_singleton.mp hc
      exact isDigit_digitByte hn
    · rename_i hn
      rcases List.mem_append.mp hc with hc | hc
      · exact ih (n / 10) (by omega) hc
      · obtain rfl := List.mem_singleton.mp hc
        exact isDigit_digitByte (Nat.mod_lt _ (by omega))

theorem digitsFrom_append (n : Nat) (a b : Bytes) :
    digitsFrom n (a ++ b) = digitsFrom (digitsFrom n a) b := by
  simp [digitsFrom]

theorem digitsFrom_formatNat (n : Nat) : digitsFrom 0 (formatNat n) = n := by
  induction n using Nat.strongRecOn with
  | ind n ih =>
    rw [formatNat]
    split
    · rename_i hn
      simp [digitsFrom, digitVal_digitByte hn]
    · rename_i hn
      have hprev := ih (n / 10) (by omega)
      have hlast := digitVal_digitByte (Nat.mod_lt n (by omega : 0 < 10))
      rw [digitsFrom_append, hprev]
      simp only [digitsFrom, List.foldl_cons, List.foldl_nil, hlast]
      omega

theorem length_formatNat_le {n k : Nat} (h : n < 10 ^ (k + 1)) :
    (formatNat n).length ≤ k + 1 := by
  induction k generalizing n with
  | zero =>
    rw [formatNat, if_pos (by simpa using h)]
    simp
  | succ k ih =>
    rw [formatNat]
    split
    · simp
    · have hdiv : n / 10 < 10 ^ (k + 1) := by
        rw [Nat.div_lt_iff_lt_mul (by omega)]
        rw [pow_succ] at h
        exact h
      simpa using ih hdiv

/-! ## Reading decimal text -/

/-- Why a text is not an integer. -/
inductive NumError where
  | invalid
  | outOfRange
  deriving DecidableEq

/-- The largest 64-bit unsigned value. -/
def maxUint64 : Nat := 2 ^ 64 - 1

/-- The digit loop of `strconv.ParseUint(s, 10, 64)`: the first byte that is not a
    digit and the first overflow both stop it. -/
def parseUintLoop : Nat → Bytes → Except NumError Nat
  | n, [] => .ok n
  | n, c :: cs =>
    if isDigit c = false then .error .invalid
    -- `n * 10` would overflow
    else if maxUint64 / 10 + 1 ≤ n then .error .outOfRange
    -- adding the digit would
    else if maxUint64 < n * 10 + digitVal c then .error .outOfRange
    else parseUintLoop (n * 10 + digitVal c) cs

/-- `strconv.ParseUint(s, 10, 64)`. -/
def parseUint (b : Bytes) : Except NumError Nat :=
  if b = [] then .error .invalid else parseUintLoop 0 b

/-- The range test `strconv.ParseInt` makes on the magnitude it has read. -/
def signedOf (neg : Bool) (un : Nat) : Except NumError Int64 :=
  if neg = false ∧ 2 ^ 63 ≤ un then .error .outOfRange
  else if neg = true ∧ 2 ^ 63 < un then .error .outOfRange
  else .ok (Int64.ofInt (if neg then -(un : Int) else un))

/-- `strconv.ParseInt(s, 10, 64)`. -/
def parseInt : Bytes → Except NumError Int64
  | [] => .error .invalid
  | c :: cs =>
    if c = 43 then parseUint cs >>= signedOf false
    else if c = 45 then parseUint cs >>= signedOf true
    else parseUint (c :: cs) >>= signedOf false

theorem isDigit_of_parseUintLoop {n m : Nat} {b : Bytes} (h : parseUintLoop n b = .ok m)
    {c : UInt8} (hc : c ∈ b) : isDigit c = true := by
  induction b generalizing n with
  | nil => cases hc
  | cons d b ih =>
    rw [parseUintLoop] at h
    split at h
    · cases h
    · rename_i hd
      split at h
      · cases h
      · split at h
        · cases h
        · rcases List.mem_cons.mp hc with rfl | hc
          · simpa using hd
          · exact ih h hc

theorem digitsFrom_ge (n : Nat) (b : Bytes) : n ≤ digitsFrom n b := by
  induction b generalizing n with
  | nil => exact le_rfl
  | cons c cs ih =>
    calc n ≤ n * 10 + digitVal c := by omega
      _ ≤ digitsFrom (n * 10 + digitVal c) cs := ih _

theorem digitsFrom_lt {n : Nat} {b : Bytes} (hdig : ∀ c ∈ b, isDigit c = true) :
    digitsFrom n b < (n + 1) * 10 ^ b.length := by
  induction b generalizing n with
  | nil => simp [digitsFrom]
  | cons c cs ih =>
    have hc : digitVal c < 10 := digitVal_lt_ten (hdig c (List.mem_cons_self ..))
    calc digitsFrom (n * 10 + digitVal c) cs
      _ < (n * 10 + digitVal c + 1) * 10 ^ cs.length :=
        ih fun d hd => hdig d (List.mem_cons_of_mem _ hd)
      _ ≤ (n + 1) * 10 * 10 ^ cs.length := Nat.mul_le_mul_right _ (by omega)
      _ = (n + 1) * 10 ^ (c :: cs).length := by
        rw [List.length_cons, pow_succ, Nat.mul_assoc, Nat.mul_comm 10]

/-- On digits whose number fits, the loop computes that number. -/
theorem parseUintLoop_eq_ok {n : Nat} {b : Bytes} (hdig : ∀ c ∈ b, isDigit c = true)
    (hfit : digitsFrom n b ≤ maxUint64) : parseUintLoop n b = .ok (digitsFrom n b) := by
  induction b generalizing n with
  | nil => rfl
  | cons c cs ih =>
    have hc : isDigit c = true := hdig c (List.mem_cons_self ..)
    -- the number only grows along the digits, so no accumulator on the way overflows
    have hnext : n * 10 + digitVal c ≤ maxUint64 := le_trans (digitsFrom_ge _ cs) hfit
    have hn : ¬ maxUint64 / 10 + 1 ≤ n := by omega
    rw [parseUintLoop, if_neg (by simp [hc]), if_neg hn, if_neg (by omega)]
    exact ih (fun d hd => hdig d (List.mem_cons_of_mem _ hd)) hfit

/-- The first byte of a number's text is a digit, so it is neither sign. -/
theorem formatNat_eq_cons (n : Nat) :
    ∃ c cs, formatNat n = c :: cs ∧ isDigit c = true ∧ c ≠ 43 ∧ c ≠ 45 := by
  obtain ⟨c, cs, hcs⟩ := List.exists_cons_of_ne_nil (formatNat_ne_nil n)
  have hc : isDigit c = true := isDigit_of_mem_formatNat (hcs ▸ List.mem_cons_self ..)
  refine ⟨c, cs, hcs, hc, ?_, ?_⟩
  · rintro rfl
    simp [isDigit] at hc
  · rintro rfl
    simp [isDigit] at hc

/-! ## The integers that texts denote -/

/-- The text denotes the integer: it has an optional sign and at least one digit, and nothing
    else. -/
inductive Denotes : Bytes → Int → Prop
  | bare {b : Bytes} (hne : b ≠ []) (hdig : ∀ c ∈ b, isDigit c = true) :
      Denotes b (digitsFrom 0 b)
  | plus {b : Bytes} (hne : b ≠ []) (hdig : ∀ c ∈ b, isDigit c = true) :
      Denotes (43 :: b) (digitsFrom 0 b)
  | minus {b : Bytes} (hne : b ≠ []) (hdig : ∀ c ∈ b, isDigit c = true) :
      Denotes (45 :: b) (-(digitsFrom 0 b : Int))

theorem parseUintLoop_eq_ok_iff {n m : Nat} {b : Bytes} (hn : n ≤ maxUint64) :
    parseUintLoop n b = .ok m ↔
      (∀ c ∈ b, isDigit c = true) ∧ digitsFrom n b = m ∧ m ≤ maxUint64 := by
  constructor
  · intro h
    refine ⟨fun c hc => isDigit_of_parseUintLoop h hc, ?_⟩
    induction b generalizing n with
    | nil =>
      cases h
      exact ⟨rfl, hn⟩
    | cons c cs ih =>
      rw [parseUintLoop] at h
      split at h
      · cases h
      split at h
      · cases h
      split at h
      · cases h
      · rename_i hfit
        exact ih (not_lt.mp hfit) h
  · rintro ⟨hdig, rfl, hfit⟩
    exact parseUintLoop_eq_ok hdig hfit

theorem signedOf_eq_ok_iff {neg : Bool} {n : Nat} {i : Int64} :
    signedOf neg n = .ok i ↔ i.toInt = if neg then -(n : Int) else n := by
  have hlo := Int64.le_toInt i
  have hhi := Int64.toInt_lt i
  constructor
  · intro h
    rw [signedOf] at h
    split at h
    · cases h
    split at h
    · cases h
    · cases h
      -- the negative numbers go one further
      cases neg with
      | true =>
        have hn : n ≤ 2 ^ 63 := by simp_all
        exact Int64.toInt_ofInt_of_le (by simp only [if_true]; omega)
          (by simp only [if_true]; omega)
      | false =>
        have hn : n < 2 ^ 63 := by simp_all
        exact Int64.toInt_ofInt_of_le (by simp only [Bool.false_eq_true, if_false]; omega)
          (by simp only [Bool.false_eq_true, if_false]; omega)
  · intro h
    rw [signedOf, ← h, Int64.ofInt_toInt]
    cases neg with
    | true =>
      simp only [if_true] at h
      rw [if_neg (by simp), if_neg (by simp; omega)]
    | false =>
      simp only [Bool.false_eq_true, if_false] at h
      rw [if_neg (by simp; omega), if_neg (by simp)]

theorem parseUint_signedOf_iff {neg : Bool} {b : Bytes} {i : Int64} :
    parseUint b >>= signedOf neg = .ok i ↔ b ≠ [] ∧ (∀ c ∈ b, isDigit c = true) ∧
      i.toInt = if neg then -(digitsFrom 0 b : Int) else digitsFrom 0 b := by
  have hlo := Int64.le_toInt i
  have hhi := Int64.toInt_lt i
  rw [parseUint]
  split
  · simp [*, bind, Except.bind]
  · rename_i hne
    constructor
    · intro h
      cases hloop : parseUintLoop 0 b with
      | error e =>
        rw [hloop] at h
        cases h
      | ok n =>
        rw [hloop] at h
        obtain ⟨hdig, rfl, -⟩ := (parseUintLoop_eq_ok_iff (Nat.zero_le _)).mp hloop
        exact ⟨hne, hdig, signedOf_eq_ok_iff.mp h⟩
    · rintro ⟨-, hdig, hval⟩
      have hfit : digitsFrom 0 b ≤ maxUint64 := by
        rw [maxUint64]
        split at hval <;> omega
      rw [parseUintLoop_eq_ok hdig hfit]
      exact signedOf_eq_ok_iff.mpr hval

/-- **What the signed reader accepts**: the texts that denote a 64-bit integer. -/
theorem parseInt_eq_ok_iff {b : Bytes} {i : Int64} : parseInt b = .ok i ↔ Denotes b i.toInt := by
  constructor
  · intro h
    cases b with
    | nil => cases h
    | cons c cs =>
      rw [parseInt] at h
      split at h
      · obtain ⟨hne, hdig, hval⟩ := parseUint_signedOf_iff.mp h
        subst c
        rw [hval]
        exact .plus hne hdig
      split at h
      · obtain ⟨hne, hdig, hval⟩ := parseUint_signedOf_iff.mp h
        subst c
        rw [hval]
        exact .minus hne hdig
      · obtain ⟨hne, hdig, hval⟩ := parseUint_signedOf_iff.mp h
        rw [hval]
        exact .bare hne hdig
  · intro h
    generalize hval : i.toInt = v at h
    cases h with
    | bare hne hdig =>
      obtain ⟨c, cs, rfl⟩ := List.exists_cons_of_ne_nil hne
      have hc := hdig c (List.mem_cons_self ..)
      -- a digit is no sign
      have hplus : c ≠ 43 := by
        rintro rfl
        cases hc
      have hminus : c ≠ 45 := by
        rintro rfl
        cases hc
      rw [parseInt, if_neg hplus, if_neg hminus]
      exact parseUint_signedOf_iff.mpr ⟨hne, hdig, hval⟩
    | plus hne hdig =>
      rw [parseInt, if_pos rfl]
      exact parseUint_signedOf_iff.mpr ⟨hne, hdig, hval⟩
    | minus hne hdig =>
      rw [parseInt, if_neg (by decide), if_pos rfl]
      exact parseUint_signedOf_iff.mpr ⟨hne, hdig, hval⟩

theorem Denotes.ne_nil {b : Bytes} {i : Int} (h : Denotes b i) : b ≠ [] := by
  cases h with
  | bare hne => exact hne
  | plus | minus => exact List.cons_ne_nil _ _

/-- The bytes of such a text are digits and signs. -/
theorem Denotes.mem {b : Bytes} {i : Int} (h : Denotes b i) {c : UInt8} (hc : c ∈ b) :
    isDigit c = true ∨ c = 43 ∨ c = 45 := by
  cases h with
  | bare hne hdig => exact .inl (hdig c hc)
  | plus hne hdig =>
    rcases List.mem_cons.mp hc with rfl | hc
    · exact .inr (.inl rfl)
    · exact .inl (hdig c hc)
  | minus hne hdig =>
    rcases List.mem_cons.mp hc with rfl | hc
    · exact .inr (.inr rfl)
    · exact .inl (hdig c hc)

/-- The canonical text of an integer denotes it. -/
theorem denotes_formatInt (i : Int) : Denotes (formatInt i) i := by
  have hdig : ∀ c ∈ formatNat i.natAbs, isDigit c = true :=
    fun c hc => isDigit_of_mem_formatNat hc
  have hval := digitsFrom_formatNat i.natAbs
  rw [formatInt]
  split
  · have h := Denotes.minus (formatNat_ne_nil i.natAbs) hdig
    rwa [hval, show -(i.natAbs : Int) = i by omega] at h
  · have h := Denotes.bare (formatNat_ne_nil i.natAbs) hdig
    rwa [hval, show (i.natAbs : Int) = i by omega] at h

/-! ## Canonical texts -/

/-- The text has no plus sign, no leading zero and no sign in front of a zero. -/
inductive Canonical : Bytes → Prop
  | zero : Canonical [48]
  | positive {c : UInt8} {cs : Bytes} (hc : c ≠ 48) (hdig : ∀ d ∈ c :: cs, isDigit d = true) :
      Canonical (c :: cs)
  | negative {c : UInt8} {cs : Bytes} (hc : c ≠ 48) (hdig : ∀ d ∈ c :: cs, isDigit d = true) :
      Canonical (45 :: c :: cs)

/-- Digits without a leading zero denote a positive number. -/
theorem digitsFrom_pos {c : UInt8} {cs : Bytes} (hc : c ≠ 48) (hdig : isDigit c = true) :
    0 < digitsFrom 0 (c :: cs) :=
  calc 0 < 0 * 10 + digitVal c := by
        have := digitVal_pos hdig hc
        omega
    _ ≤ digitsFrom (0 * 10 + digitVal c) cs := digitsFrom_ge _ cs

/-- Digits without a leading zero are the text of their number. -/
theorem formatNat_digitsFrom {c : UInt8} {cs : Bytes} (hc : c ≠ 48)
    (hdig : ∀ d ∈ c :: cs, isDigit d = true) : formatNat (digitsFrom 0 (c :: cs)) = c :: cs := by
  -- from the last digit to the first, as the text is built
  induction cs using List.reverseRecOn with
  | nil =>
    have hdigit := hdig c (by simp)
    have hval : digitsFrom 0 [c] = digitVal c := by simp [digitsFrom]
    rw [hval, formatNat, if_pos (digitVal_lt_ten hdigit), digitByte_digitVal hdigit]
  | append_singleton cs d ih =>
    have hlast := hdig d (by simp)
    have hpos : 0 < digitsFrom 0 (c :: cs) := digitsFrom_pos hc (hdig c (by simp))
    have hval : digitsFrom 0 (c :: (cs ++ [d])) = digitsFrom 0 (c :: cs) * 10 + digitVal d := by
      rw [← List.cons_append, digitsFrom_append]
      rfl
    have hlt := digitVal_lt_ten hlast
    rw [hval, formatNat, if_neg (by omega),
      show (digitsFrom 0 (c :: cs) * 10 + digitVal d) / 10 = digitsFrom 0 (c :: cs) by omega,
      show (digitsFrom 0 (c :: cs) * 10 + digitVal d) % 10 = digitVal d by omega,
      ih fun e he => hdig e (by simp only [List.mem_cons, List.mem_append] at he ⊢; tauto),
      digitByte_digitVal hlast]
    rfl

theorem formatNat_head_ne_zero {n : Nat} (hn : 0 < n) :
    ∃ c cs, formatNat n = c :: cs ∧ c ≠ 48 := by
  induction n using Nat.strongRecOn with
  | ind n ih =>
    rw [formatNat]
    split
    · rename_i hlt
      refine ⟨digitByte n, [], rfl, fun h => ?_⟩
      have hval := congrArg UInt8.toNat h
      rw [toNat_digitByte hlt] at hval
      have : (48 : UInt8).toNat = 48 := rfl
      omega
    · obtain ⟨c, cs, hcs, hc⟩ := ih (n / 10) (by omega) (by omega)
      exact ⟨c, cs ++ [digitByte (n % 10)], by rw [hcs]; rfl, hc⟩

theorem formatInt_zero : formatInt 0 = [48] := by
  decide +kernel

theorem canonical_formatInt (i : Int) : Canonical (formatInt i) := by
  have hdig : ∀ c ∈ formatNat i.natAbs, isDigit c = true :=
    fun c hc => isDigit_of_mem_formatNat hc
  rcases Nat.eq_zero_or_pos i.natAbs with hzero | hpos
  · rw [Int.natAbs_eq_zero.mp hzero, formatInt_zero]
    exact .zero
  · obtain ⟨c, cs, hcs, hc⟩ := formatNat_head_ne_zero hpos
    rw [formatInt, hcs]
    rw [hcs] at hdig
    split
    · exact .negative hc hdig
    · exact .positive hc hdig

/-- **The canonical text** of an integer is the only one. -/
theorem canonical_and_denotes_iff {b : Bytes} {i : Int} :
    Canonical b ∧ Denotes b i ↔ b = formatInt i := by
  constructor
  · rintro ⟨hcanonical, hdenotes⟩
    cases hcanonical with
    | zero =>
      cases hdenotes
      exact formatInt_zero.symm
    | positive hc hdig =>
      cases hdenotes with
      | bare => rw [formatInt, if_neg (by omega), Int.natAbs_natCast, formatNat_digitsFrom hc hdig]
      | plus | minus => cases hdig _ (List.mem_cons_self ..)
    | @negative c cs hc hdig =>
      have hpos : 0 < digitsFrom 0 (c :: cs) := digitsFrom_pos hc (hdig c (List.mem_cons_self ..))
      cases hdenotes with
      | bare hne hdig' => cases hdig' 45 (List.mem_cons_self ..)
      | minus =>
        rw [formatInt, if_pos (by omega), Int.natAbs_neg, Int.natAbs_natCast,
          formatNat_digitsFrom hc hdig]
  · rintro rfl
    exact ⟨canonical_formatInt i, denotes_formatInt i⟩

/-- **Round trip** of the signed reader over all 64-bit integers. -/
theorem parseInt_formatInt (i : Int64) : parseInt (formatInt i.toInt) = .ok i :=
  parseInt_eq_ok_iff.mpr (denotes_formatInt i.toInt)

/-- A 64-bit integer takes at most twenty bytes. -/
theorem length_formatInt_le (i : Int64) : (formatInt i.toInt).length ≤ 20 := by
  have hlo := Int64.le_toInt i
  have hhi := Int64.toInt_lt i
  have habs : i.toInt.natAbs < 10 ^ (18 + 1) := by omega
  have hlen := length_formatNat_le habs
  rw [formatInt]
  split
  · rw [List.length_cons]
    omega
  · omega

end Samaritan.Lib
