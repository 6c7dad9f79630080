import Samaritan.Lib.Decimal

/-!
# Fields of a Text

The fields of a text are the longest pieces of it without white space (`strings.Fields`). White
space is what Unicode says it is; in the bytes of a text it is found by its UTF-8 encodings, since
none of them begins inside the encoding of another character.

A word is a piece of text without white space. The fields of some words with blanks between them
are these words.
-/

namespace Samaritan.Lib

/-- The encodings of the white space characters. -/
def whiteSpace : List Bytes :=
  [[9], [10], [11], [12], [13], [32], [0xC2, 0x85], [0xC2, 0xA0], [0xE1, 0x9A, 0x80],
    [0xE2, 0x80, 0x80], [0xE2, 0x80, 0x81], [0xE2, 0x80, 0x82], [0xE2, 0x80, 0x83],
    [0xE2, 0x80, 0x84], [0xE2, 0x80, 0x85], [0xE2, 0x80, 0x86], [0xE2, 0x80, 0x87],
    [0xE2, 0x80, 0x88], [0xE2, 0x80, 0x89], [0xE2, 0x80, 0x8A], [0xE2, 0x80, 0xA8],
    [0xE2, 0x80, 0xA9], [0xE2, 0x80, 0xAF], [0xE2, 0x81, 0x9F], [0xE3, 0x80, 0x80]]

/-- The white space at the beginning of a text. -/
def spaceAt (s : Bytes) : Option Bytes := whiteSpace.find? fun w => w.isPrefixOf s

/-- The field that ends here, if there is one. -/
def flush (field : Bytes) : List Bytes := if field = [] then [] else [field]

/-- The fields of a text behind the field so far; `skip` bytes of white space come first. -/
def fieldsFrom (field : Bytes) : Nat → Bytes → List Bytes
  | _, [] => flush field
  | skip + 1, _ :: rest => fieldsFrom field skip rest
  | 0, c :: rest =>
    match spaceAt (c :: rest) with
    | some w => flush field ++ fieldsFrom [] (w.length - 1) rest
    | none => fieldsFrom (field ++ [c]) 0 rest

def fields (s : Bytes) : List Bytes := fieldsFrom [] 0 s

/-- No white space begins in a text. -/
def NoSpace : Bytes → Prop
  | [] => True
  | c :: rest => spaceAt (c :: rest) = none ∧ NoSpace rest

def NoSpace.decidable : (s : Bytes) → Decidable (NoSpace s)
  | [] => isTrue trivial
  | _ :: rest => @instDecidableAnd _ _ inferInstance (NoSpace.decidable rest)

instance (s : Bytes) : Decidable (NoSpace s) := NoSpace.decidable s

/-- A text that is not empty and has no white space. -/
def IsWord (w : Bytes) : Prop := w ≠ [] ∧ NoSpace w

instance (w : Bytes) : Decidable (IsWord w) := inferInstanceAs (Decidable (_ ∧ _))

/-- A printable ASCII character other than the blank. -/
def isGraph (c : UInt8) : Bool := 33 ≤ c.toNat && c.toNat ≤ 126

variable {c : UInt8} {s t w field : Bytes} {words : List Bytes}

/-! ## White space and the bytes around it -/

theorem space_ne_nil : ∀ v ∈ whiteSpace, v ≠ [] := by decide

/-- Behind its first byte, the encoding of white space has no ASCII in it. -/
theorem not_ascii_of_mem_tail : ∀ v ∈ whiteSpace, ∀ b ∈ v.tail, 128 ≤ b.toNat := by
  decide +kernel

theorem not_graph_head : ∀ v ∈ whiteSpace, ∀ b ∈ v.head?, isGraph b = false := by
  decide +kernel

/-- There is no space where none of the encodings of a space begins. -/
theorem spaceAt_eq_none : spaceAt s = none ↔ ∀ v ∈ whiteSpace, ¬v <+: s := by
  simp [spaceAt]

/-- An ASCII character behind a text does not make white space of the end of the text. -/
theorem spaceAt_append_ascii (hs : s ≠ []) (h : spaceAt s = none) (hc : c.toNat < 128) :
    spaceAt (s ++ c :: t) = none := by
  rw [spaceAt_eq_none] at h ⊢
  intro v hv hprefix
  rcases List.prefix_or_prefix_of_prefix hprefix (List.prefix_append s (c :: t)) with hvs | hsv
  · exact h v hv hvs
  · obtain ⟨r, rfl⟩ := hsv
    rw [List.prefix_append_right_inj] at hprefix
    cases r with
    | nil => exact h s (by simpa using hv) (List.prefix_refl s)
    | cons b r =>
      -- the character would stand inside the white space
      obtain rfl : b = c := (List.cons_prefix_cons.mp hprefix).1
      obtain ⟨a, s, rfl⟩ := List.exists_cons_of_ne_nil hs
      have hb := not_ascii_of_mem_tail _ hv b (by simp)
      omega

theorem spaceAt_graph (hc : isGraph c = true) : spaceAt (c :: t) = none := by
  rw [spaceAt_eq_none]
  intro v hv hprefix
  obtain ⟨b, v, rfl⟩ := List.exists_cons_of_ne_nil (space_ne_nil v hv)
  have hb := not_graph_head _ hv b rfl
  rw [(List.cons_prefix_cons.mp hprefix).1, hc] at hb
  cases hb

theorem spaceAt_blank : spaceAt (32 :: t) = some [32] := by
  simp [spaceAt, whiteSpace]

/-- Two texts without space have none together, unless an encoding of one crosses the border. -/
theorem NoSpace.append (hs : NoSpace s) (ht : NoSpace t) (hhead : ∀ c ∈ t.head?, c.toNat < 128) :
    NoSpace (s ++ t) := by
  induction s with
  | nil => exact ht
  | cons a s ih =>
    refine ⟨?_, ih hs.2⟩
    cases t with
    | nil => simpa using hs.1
    | cons c t => exact spaceAt_append_ascii (List.cons_ne_nil a s) hs.1 (hhead c rfl)

theorem NoSpace.graph_append (hs : ∀ c ∈ s, isGraph c = true) (ht : NoSpace t) :
    NoSpace (s ++ t) := by
  induction s with
  | nil => exact ht
  | cons a s ih =>
    rw [List.forall_mem_cons] at hs
    exact ⟨spaceAt_graph hs.1, ih hs.2⟩

theorem NoSpace.of_graph (hs : ∀ c ∈ s, isGraph c = true) : NoSpace s := by
  have h : NoSpace (s ++ []) := NoSpace.graph_append hs trivial
  rwa [List.append_nil] at h

theorem isGraph_of_isDigit (hc : isDigit c = true) : isGraph c = true := by
  simp only [isDigit, isGraph, Bool.and_eq_true, decide_eq_true_eq] at hc ⊢
  omega

theorem NoSpace.newline_not_mem (hs : NoSpace s) : 10 ∉ s := by
  induction s with
  | nil => simp
  | cons a s ih =>
    rw [List.mem_cons, not_or]
    refine ⟨?_, ih hs.2⟩
    rintro rfl
    have hten := spaceAt_eq_none.mp hs.1 [10] (by decide)
    exact hten (by simp)

/-! ## Fields of joined words -/

theorem ne_nil_of_mem_flush (h : w ∈ flush field) : w ≠ [] := by
  unfold flush at h
  split at h
  · cases h
  · rename_i hfield
    rwa [List.mem_singleton.mp h]

theorem ne_nil_of_mem_fieldsFrom {skip : Nat} (h : w ∈ fieldsFrom field skip s) : w ≠ [] := by
  induction s generalizing field skip with
  | nil =>
    rw [fieldsFrom] at h
    exact ne_nil_of_mem_flush h
  | cons c s ih =>
    cases skip with
    | succ skip =>
      rw [fieldsFrom] at h
      exact ih h
    | zero =>
      rw [fieldsFrom] at h
      split at h
      · rcases List.mem_append.mp h with h | h
        · exact ne_nil_of_mem_flush h
        · exact ih h
      · exact ih h

theorem ne_nil_of_mem_fields (h : w ∈ fields s) : w ≠ [] := ne_nil_of_mem_fieldsFrom h

theorem fieldsFrom_word (hw : NoSpace w) : fieldsFrom field 0 w = flush (field ++ w) := by
  induction w generalizing field with
  | nil => rw [fieldsFrom, List.append_nil]
  | cons c w ih =>
    rw [fieldsFrom, hw.1]
    show fieldsFrom (field ++ [c]) 0 w = _
    rw [ih hw.2, List.append_assoc]
    rfl

theorem fieldsFrom_word_blank (hw : NoSpace w) :
    fieldsFrom field 0 (w ++ 32 :: t) = flush (field ++ w) ++ fields t := by
  induction w generalizing field with
  | nil =>
    rw [List.nil_append, List.append_nil, fieldsFrom, spaceAt_blank]
    rfl
  | cons c w ih =>
    have hc := spaceAt_append_ascii (c := 32) (t := t) (List.cons_ne_nil c w) hw.1 (by decide)
    rw [List.cons_append] at hc ⊢
    rw [fieldsFrom, hc]
    show fieldsFrom (field ++ [c]) 0 (w ++ 32 :: t) = _
    rw [ih hw.2, List.append_assoc]
    rfl

theorem fields_intercalate (hwords : ∀ w ∈ words, IsWord w) :
    fields ([32].intercalate words) = words := by
  induction words with
  | nil => rfl
  | cons w words ih =>
    rw [List.forall_mem_cons] at hwords
    obtain ⟨⟨hne, hw⟩, hwords⟩ := hwords
    have hflush : flush ([] ++ w) = [w] := by rw [flush, List.nil_append, if_neg hne]
    cases words with
    | nil =>
      rw [List.intercalate_singleton, fields, fieldsFrom_word hw, hflush]
    | cons w' words =>
      rw [List.intercalate_cons_cons, List.append_assoc, List.singleton_append, fields,
        fieldsFrom_word_blank hw, hflush, ih hwords]
      rfl

theorem newline_not_mem_intercalate (hwords : ∀ w ∈ words, NoSpace w) :
    10 ∉ [32].intercalate words := by
  induction words with
  | nil => simp
  | cons w words ih =>
    rw [List.forall_mem_cons] at hwords
    cases words with
    | nil =>
      rw [List.intercalate_singleton]
      exact hwords.1.newline_not_mem
    | cons w' words =>
      rw [List.intercalate_cons_cons, List.mem_append, List.mem_append]
      rintro ((hmem | hmem) | hmem)
      · exact hwords.1.newline_not_mem hmem
      · simp at hmem
      · exact ih hwords.2 hmem

end Samaritan.Lib
