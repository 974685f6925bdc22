import BVault.Lib.Bytes
import BVault.Lib.Hex
import Mathlib.Data.List.TakeWhile
import Mathlib.Tactic.Common

/-!
# Paths in URLs

The path of a URL ends at the first `?` or `#`. A reader of it takes `%` with
two hex digits for a byte and every other character for itself, and rejects
bytes that are not UTF-8. A text survives this exactly when it has none of the
three in it.
-/

namespace Percent

/-- The bytes of some characters. -/
def encode (cs : List Char) : Bytes := cs.flatMap String.utf8EncodeChar

/-- The byte that two characters spell. -/
def byte (high low : Char) : Option UInt8 :=
  (Hex.digit high).bind fun h => (Hex.digit low).map fun l => UInt8.ofNat (16 * h + l)

def decode : List Char → Bytes
  | [] => []
  | '%' :: high :: low :: cs =>
    match byte high low with
    | some b => b :: decode cs
    | none => String.utf8EncodeChar '%' ++ decode (high :: low :: cs)
  | c :: cs => String.utf8EncodeChar c ++ decode cs

/-- Somewhere stands a `%` with two hex digits. -/
def hasEscape : List Char → Bool
  | [] => false
  | '%' :: high :: low :: cs => (byte high low).isSome || hasEscape (high :: low :: cs)
  | _ :: cs => hasEscape cs

def decodeUtf8 (bytes : Bytes) : Option String := String.fromUTF8? bytes.toByteArray

/-- What comes before a query or a fragment. -/
def beforeQuery (cs : List Char) : List Char := cs.takeWhile fun c => c ≠ '?' ∧ c ≠ '#'

/-- What a reader makes of a text in the path of a URL. -/
def read (text : String) : Option String := decodeUtf8 (decode (beforeQuery text.toList))

/-- A text that a path carries as it is. -/
def Carried (text : String) : Prop :=
  '?' ∉ text.toList ∧ '#' ∉ text.toList ∧ hasEscape text.toList = false

instance (text : String) : Decidable (Carried text) := inferInstanceAs (Decidable (_ ∧ _ ∧ _))

theorem length_encode_cons (c : Char) (cs : List Char) :
    (encode (c :: cs)).length = c.utf8Size + (encode cs).length := by
  rw [encode, List.flatMap_cons, List.length_append, String.length_utf8EncodeChar]
  rfl

theorem length_decode_le (cs : List Char) : (decode cs).length ≤ (encode cs).length := by
  induction cs using decode.induct with
  | case1 => exact le_refl _
  | case2 high low cs b spelled ih =>
    simp only [decode, spelled, length_encode_cons, List.length_cons]
    have room := Char.utf8Size_pos high
    have more := Char.utf8Size_pos low
    omega
  | case3 high low cs spelled ih =>
    simp only [decode, spelled, length_encode_cons, List.length_append,
      String.length_utf8EncodeChar] at ih ⊢
    omega
  | case4 c cs other ih =>
    rw [decode, length_encode_cons, List.length_append, String.length_utf8EncodeChar]
    · omega
    · exact other

/-- Without an escape every character stands for itself. -/
theorem decode_of_plain (cs : List Char) (plain : hasEscape cs = false) :
    decode cs = encode cs := by
  induction cs using decode.induct with
  | case1 => rfl
  | case2 high low cs b spelled ih => simp [hasEscape, spelled] at plain
  | case3 high low cs spelled ih =>
    rw [hasEscape, spelled] at plain
    rw [decode, spelled]
    exact congrArg _ (ih plain)
  | case4 c cs other ih =>
    rw [hasEscape] at plain
    · rw [decode]
      · exact congrArg _ (ih plain)
      · exact other
    · exact other

/-- An escape is longer than its byte. -/
theorem length_decode_lt (cs : List Char) (escape : hasEscape cs = true) :
    (decode cs).length < (encode cs).length := by
  induction cs using decode.induct with
  | case1 => cases escape
  | case2 high low cs b spelled ih =>
    simp only [decode, spelled, length_encode_cons, List.length_cons]
    have rest := length_decode_le cs
    have room := Char.utf8Size_pos high
    have more := Char.utf8Size_pos low
    omega
  | case3 high low cs spelled ih =>
    rw [hasEscape, spelled] at escape
    have rest := ih escape
    simp only [decode, spelled, length_encode_cons, List.length_append,
      String.length_utf8EncodeChar] at rest ⊢
    omega
  | case4 c cs other ih =>
    rw [hasEscape] at escape
    · rw [decode, length_encode_cons, List.length_append, String.length_utf8EncodeChar]
      · have rest := ih escape
        omega
      · exact other
    · exact other

theorem decodeUtf8_iff {bytes : Bytes} {text : String} :
    decodeUtf8 bytes = some text ↔ bytes = encode text.toList := by
  have written : (encode text.toList).toByteArray = text.toByteArray := String.utf8Encode_toList
  unfold decodeUtf8 String.fromUTF8?
  constructor
  · intro decoded
    split at decoded
    · cases decoded
      exact List.toByteArray_inj.mp written.symm
    · cases decoded
  · rintro rfl
    have valid : (encode text.toList).toByteArray.IsValidUTF8 := ⟨text.toList, rfl⟩
    rw [dif_pos valid, Option.some.injEq, ← String.toByteArray_inj]
    exact written

theorem beforeQuery_eq_self_iff {cs : List Char} :
    beforeQuery cs = cs ↔ '?' ∉ cs ∧ '#' ∉ cs := by
  unfold beforeQuery
  rw [List.takeWhile_eq_self_iff]
  constructor
  · intro all
    constructor
    · intro mem
      simpa using all _ mem
    · intro mem
      simpa using all _ mem
  · rintro ⟨query, fragment⟩ c mem
    have first : c ≠ '?' := fun is => query (is ▸ mem)
    have second : c ≠ '#' := fun is => fragment (is ▸ mem)
    simp [first, second]

theorem length_encode_append (front rest : List Char) :
    (encode (front ++ rest)).length = (encode front).length + (encode rest).length := by
  unfold encode
  rw [List.flatMap_append, List.length_append]

/-- A query or a fragment takes something away. -/
theorem length_beforeQuery_lt {cs : List Char} (cut : beforeQuery cs ≠ cs) :
    (encode (beforeQuery cs)).length < (encode cs).length := by
  obtain ⟨rest, whole⟩ : beforeQuery cs <+: cs := List.takeWhile_prefix _
  cases rest with
  | nil => exact absurd ((List.append_nil _).symm.trans whole) cut
  | cons c rest =>
    have room := Char.utf8Size_pos c
    conv_rhs => rw [← whole, length_encode_append, length_encode_cons]
    omega

/-- A text is read back exactly when a path carries it. -/
theorem read_iff {text : String} : read text = some text ↔ Carried text := by
  unfold read Carried
  rw [decodeUtf8_iff, ← and_assoc, ← beforeQuery_eq_self_iff]
  constructor
  · intro same
    have short := length_decode_le (beforeQuery text.toList)
    have whole : beforeQuery text.toList = text.toList := by
      by_contra cut
      have shorter := length_beforeQuery_lt cut
      rw [same] at short
      omega
    refine ⟨whole, ?_⟩
    rw [whole] at same
    by_contra escape
    have shorter := length_decode_lt text.toList (by simpa using escape)
    rw [same] at shorter
    omega
  · rintro ⟨whole, plain⟩
    rw [whole]
    exact decode_of_plain _ plain

/-- A character that means nothing in a path. -/
def Ordinary (c : Char) : Prop := c ≠ '?' ∧ c ≠ '#' ∧ c ≠ '%'

instance (c : Char) : Decidable (Ordinary c) := inferInstanceAs (Decidable (_ ∧ _ ∧ _))

theorem hasEscape_append {front : List Char} (ordinary : '%' ∉ front) (rest : List Char) :
    hasEscape (front ++ rest) = hasEscape rest := by
  induction front with
  | nil => rfl
  | cons c front ih =>
    rw [List.mem_cons, not_or] at ordinary
    rw [List.cons_append, hasEscape]
    · exact ih ordinary.2
    · intro high low cs is
      exact absurd is.symm ordinary.1

/-- What stands before a text does not matter, if it has nothing special in it. -/
theorem carried_append {front : String} (ordinary : ∀ c ∈ front.toList, Ordinary c)
    (rest : String) : Carried (front ++ rest) ↔ Carried rest := by
  have query : '?' ∉ front.toList := fun mem => (ordinary _ mem).1 rfl
  have fragment : '#' ∉ front.toList := fun mem => (ordinary _ mem).2.1 rfl
  have percent : '%' ∉ front.toList := fun mem => (ordinary _ mem).2.2 rfl
  unfold Carried
  rw [String.toList_append, List.mem_append, List.mem_append, hasEscape_append percent]
  simp [query, fragment]

/-- Two hex digits come first. -/
def spells : List Char → Bool
  | high :: low :: _ => (byte high low).isSome
  | _ => false

theorem hasEscape_cons (c : Char) (cs : List Char) :
    hasEscape (c :: cs) = ((c = '%' && spells cs) || hasEscape cs) := by
  by_cases percent : c = '%'
  · subst percent
    match cs with
    | [] => rfl
    | [low] => rfl
    | high :: low :: cs => rfl
  · rw [hasEscape]
    · simp [percent]
    · intro high low cs is
      exact absurd is percent

/-- A dot is not a digit. -/
theorem spells_dot (front rest : List Char) : spells (front ++ '.' :: rest) = spells front := by
  have high (c : Char) : byte '.' c = none := rfl
  have low (c : Char) : byte c '.' = none := by
    unfold byte
    cases Hex.digit c with
    | none => rfl
    | some h => rfl
  match front with
  | [] =>
    cases rest with
    | nil => rfl
    | cons c rest => simp [spells, high]
  | [c] => simp [spells, low]
  | c :: d :: front => rfl

theorem hasEscape_dot (front rest : List Char) :
    hasEscape (front ++ '.' :: rest) = (hasEscape front || hasEscape rest) := by
  induction front with
  | nil =>
    rw [List.nil_append, hasEscape_cons]
    rfl
  | cons c front ih => rw [List.cons_append, hasEscape_cons, hasEscape_cons, spells_dot, ih,
      Bool.or_assoc]

/-- Nothing special goes across a dot. -/
theorem carried_dot (front rest : String) :
    Carried (front ++ "." ++ rest) ↔ Carried front ∧ Carried rest := by
  have chars : (front ++ "." ++ rest).toList = front.toList ++ '.' :: rest.toList := by
    simp [String.toList_append]
  unfold Carried
  rw [chars, hasEscape_dot]
  simp only [List.mem_append, List.mem_cons, Char.reduceEq, false_or, not_or, Bool.or_eq_false_iff]
  constructor
  · rintro ⟨⟨query, query'⟩, ⟨fragment, fragment'⟩, escape, escape'⟩
    exact ⟨⟨query, fragment, escape⟩, query', fragment', escape'⟩
  · rintro ⟨⟨query, fragment, escape⟩, query', fragment', escape'⟩
    exact ⟨⟨query, query'⟩, ⟨fragment, fragment'⟩, escape, escape'⟩

theorem carried_of_ordinary {text : String} (ordinary : ∀ c ∈ text.toList, Ordinary c) :
    Carried text := by
  have empty : Carried "" := by decide
  rw [← String.append_empty (s := text)]
  exact (carried_append ordinary "").mpr empty

/-- `%` and two digits in upper case. -/
def escapeByte (b : UInt8) : List Char :=
  ['%', (Nat.digitChar (b.toNat / 16)).toUpper, (Nat.digitChar (b.toNat % 16)).toUpper]

theorem decode_escapeByte (b : UInt8) (cs : List Char) :
    decode (escapeByte b ++ cs) = b :: decode cs := by
  have small := b.toNat_lt
  have high := Hex.spells_upper (b.toNat / 16) (by omega)
  have low := Hex.spells_upper (b.toNat % 16) (by omega)
  have whole : 16 * (b.toNat / 16) + b.toNat % 16 = b.toNat := by omega
  have spelled : byte (Nat.digitChar (b.toNat / 16)).toUpper
      (Nat.digitChar (b.toNat % 16)).toUpper = some b := by
    rw [byte, high, low, Option.bind_some, Option.map_some, whole, UInt8.ofNat_toNat]
  simp only [escapeByte, List.cons_append, List.nil_append, decode, spelled]

/-- A character of one byte stands for it, unless it begins an escape. -/
theorem decode_ascii {c : Char} (ascii : c.toNat < 128) (other : c ≠ '%') (cs : List Char) :
    decode (c :: cs) = UInt8.ofNat c.toNat :: decode cs := by
  have one : String.utf8EncodeChar c = [UInt8.ofNat c.toNat] := by
    simp only [String.utf8EncodeChar, Char.toNat_val]
    rw [if_pos (by omega)]
  rw [decode, one]
  · rfl
  · intro high low rest is
    exact absurd is other

/-- What is written byte by byte is read byte by byte. -/
theorem decode_flatMap {write : UInt8 → List Char}
    (each : ∀ b cs, decode (write b ++ cs) = b :: decode cs) (bytes : Bytes) :
    decode (bytes.flatMap write) = bytes := by
  induction bytes with
  | nil => rfl
  | cons b bytes ih => rw [List.flatMap_cons, each, ih]

end Percent
