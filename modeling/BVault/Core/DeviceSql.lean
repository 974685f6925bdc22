import BVault.Lib.Bytes

/-!
# DeviceSQL strings

The three encodings of `string.rs` and the reading rules of the format: an odd
first byte is a short ASCII header, `0x40` long ASCII and `0x90` UTF-16LE, the
latter two with a 16-bit total length. A string whose encoding fits that length
is read back exactly, whatever follows it.
-/

namespace BVault.Core

open Bytes

def MAX_SHORT_ASCII_LEN : Nat := 126

def FLAG_LONG_ASCII : UInt8 := 0x40

def FLAG_UTF16LE : UInt8 := 0x90

/-- `s.as_bytes()`. -/
def utf8 (s : String) : Bytes := s.toList.flatMap String.utf8EncodeChar

/-- The UTF-16 code units of one character. -/
def utf16Units (c : Char) : List Nat :=
  if c.toNat < 0x10000 then [c.toNat]
  else [0xD800 + (c.toNat - 0x10000) / 1024, 0xDC00 + (c.toNat - 0x10000) % 1024]

/-- `s.encode_utf16()`. -/
def utf16 (s : String) : List Nat := s.toList.flatMap utf16Units

/-- Header byte: `((length + 1) << 1) | 1`. -/
def encodeShortAscii (s : String) : Bytes :=
  ((UInt8.ofNat ((utf8 s).length + 1) <<< 1) ||| 1) :: utf8 s

def encodeLongAscii (s : String) : Bytes :=
  FLAG_LONG_ASCII :: leBytes 2 (4 + (utf8 s).length) ++ 0x00 :: utf8 s

def encodeUtf16le (s : String) : Bytes :=
  FLAG_UTF16LE :: leBytes 2 (4 + (utf16 s).length * 2) ++ 0x00 :: (utf16 s).flatMap (leBytes 2)

/-- Encode a string in DeviceSQL format. -/
def encodeString (s : String) : Bytes :=
  if s.isEmpty then [0x03]
  else if (utf8 s).all (· < 128) ∧ (utf8 s).length ≤ MAX_SHORT_ASCII_LEN then encodeShortAscii s
  else if (utf8 s).all (· < 128) then encodeLongAscii s
  else encodeUtf16le s

/-- ISRCs use the UTF-16 flag over ASCII data between a marker and a terminator. -/
def encodeIsrc (isrc : String) : Bytes :=
  if isrc.isEmpty then encodeString ""
  else
    FLAG_UTF16LE :: leBytes 2 (4 + (1 + (utf8 isrc).length + 1)) ++
      0x00 :: 0x03 :: utf8 isrc ++ [0x00]

def decodeAscii (bs : Bytes) : List Char := bs.map (fun b => Char.ofNat b.toNat)

def decodeUtf16 : List Nat → Option (List Char)
  | [] => some []
  | u :: units =>
    if u < 0xD800 ∨ 0xE000 ≤ u then (decodeUtf16 units).map (Char.ofNat u :: ·)
    else
      match units with
      | [] => none
      | v :: units =>
        if u < 0xDC00 ∧ 0xDC00 ≤ v ∧ v < 0xE000 then
          (decodeUtf16 units).map
            (Char.ofNat (0x10000 + (u - 0xD800) * 1024 + (v - 0xDC00)) :: ·)
        else none

/-- Pairs of bytes as 16-bit units. -/
def units16 : Bytes → List Nat
  | lo :: hi :: bs => leNat [lo, hi] :: units16 bs
  | _ => []

/-- The string at the start of some bytes, and the bytes behind it. -/
def decodeString : Bytes → Option (String × Bytes)
  | [] => none
  | b :: bs =>
    if b.toNat % 2 = 1 then
      let n := b.toNat / 2 - 1
      if n ≤ bs.length then some (String.ofList (decodeAscii (bs.take n)), bs.drop n) else none
    else
      let total := readLE bs 0 2
      let data := (bs.drop 3).take (total - 4)
      let rest := bs.drop (3 + (total - 4))
      if total < 4 ∨ bs.length < total - 1 then none
      else if b = FLAG_LONG_ASCII then some (String.ofList (decodeAscii data), rest)
      else if b = FLAG_UTF16LE then
        (decodeUtf16 (units16 data)).map (fun cs => (String.ofList cs, rest))
      else none

/-- The first byte of a character outside ASCII is not ASCII. -/
theorem utf8EncodeChar_large {c : Char} (large : ¬ c.val.toNat ≤ 0x7f) :
    ∃ b bs, String.utf8EncodeChar c = b :: bs ∧ 128 ≤ b.toNat := by
  rw [String.utf8EncodeChar, if_neg large]
  split
  · exact ⟨_, _, rfl, by simp only [UInt8.toNat_ofNat']; omega⟩
  · split
    · exact ⟨_, _, rfl, by simp only [UInt8.toNat_ofNat']; omega⟩
    · exact ⟨_, _, rfl, by simp only [UInt8.toNat_ofNat']; omega⟩

theorem utf8EncodeChar_ascii {c : Char} (ascii : ∀ b ∈ String.utf8EncodeChar c, b < 128) :
    String.utf8EncodeChar c = [UInt8.ofNat c.toNat] ∧ c.toNat < 128 := by
  have small : c.val.toNat ≤ 0x7f := by
    by_contra large
    obtain ⟨b, bs, parts, high⟩ := utf8EncodeChar_large large
    have low := ascii b (by rw [parts]; exact List.mem_cons_self)
    rw [UInt8.lt_iff_toNat_lt] at low
    simp at low
    omega
  refine ⟨?_, Nat.lt_succ_of_le small⟩
  rw [String.utf8EncodeChar, if_pos small]
  rfl

theorem decodeAscii_utf8 {cs : List Char}
    (ascii : ∀ b ∈ cs.flatMap String.utf8EncodeChar, b < 128) :
    decodeAscii (cs.flatMap String.utf8EncodeChar) = cs := by
  induction cs with
  | nil => rfl
  | cons c cs ih =>
    rw [List.flatMap_cons] at ascii ⊢
    obtain ⟨one, small⟩ := utf8EncodeChar_ascii
      (fun b hb => ascii b (List.mem_append_left _ hb))
    rw [one, decodeAscii, List.map_append, ← decodeAscii, ← decodeAscii,
      ih (fun b hb => ascii b (List.mem_append_right _ hb))]
    have same : (UInt8.ofNat c.toNat).toNat = c.toNat := by
      rw [UInt8.toNat_ofNat']
      omega
    simp only [decodeAscii, List.map_cons, List.map_nil, same, Char.ofNat_toNat,
      List.singleton_append]

theorem utf16Units_lt {c : Char} {u : Nat} (mem : u ∈ utf16Units c) : u < 65536 := by
  have valid := c.valid
  have top : c.toNat < 0x110000 := by
    rcases valid with low | ⟨_, high⟩
    · exact lt_trans low (by decide)
    · exact high
  rw [utf16Units] at mem
  split at mem
  · rw [List.mem_singleton.mp mem]
    omega
  · rcases List.mem_cons.mp mem with rfl | mem
    · omega
    · rw [List.mem_singleton.mp mem]
      omega

theorem decodeUtf16_units (c : Char) (units : List Nat) :
    decodeUtf16 (utf16Units c ++ units) = (decodeUtf16 units).map (c :: ·) := by
  have valid : c.toNat < 0xD800 ∨ (0xDFFF < c.toNat ∧ c.toNat < 0x110000) := c.valid
  rw [utf16Units]
  split
  · rename_i small
    rw [List.singleton_append, decodeUtf16.eq_def]
    simp only [Char.ofNat_toNat]
    rw [if_pos (by omega)]
  · rename_i large
    have back : 0x10000 + (0xD800 + (c.toNat - 0x10000) / 1024 - 0xD800) * 1024 +
        (0xDC00 + (c.toNat - 0x10000) % 1024 - 0xDC00) = c.toNat := by
      omega
    rw [List.cons_append, List.singleton_append, decodeUtf16.eq_def]
    simp only [back, Char.ofNat_toNat]
    rw [if_neg (by omega), if_pos (by omega)]

theorem decodeUtf16_utf16 (cs : List Char) :
    decodeUtf16 (cs.flatMap utf16Units) = some cs := by
  induction cs with
  | nil => rfl
  | cons c cs ih =>
    rw [List.flatMap_cons, decodeUtf16_units, ih]
    rfl

theorem units16_leBytes {us : List Nat} (small : ∀ u ∈ us, u < 65536) :
    units16 (us.flatMap (leBytes 2)) = us := by
  induction us with
  | nil => rfl
  | cons u us ih =>
    have word : leNat (leBytes 2 u) = u := leNat_leBytes_of_lt (small u List.mem_cons_self)
    rw [List.flatMap_cons]
    show leNat (leBytes 2 u) :: units16 (us.flatMap (leBytes 2)) = u :: us
    rw [word, ih (fun v hv => small v (List.mem_cons_of_mem _ hv))]

theorem length_flatMap_leBytes (us : List Nat) :
    (us.flatMap (leBytes 2)).length = us.length * 2 := by
  induction us with
  | nil => rfl
  | cons u us ih =>
    rw [List.flatMap_cons, List.length_append, length_leBytes, ih, List.length_cons]
    omega

theorem short_header : ∀ n < 128, ((UInt8.ofNat n <<< 1) ||| 1).toNat = 2 * n + 1 := by
  decide

/-- What the reader sees behind a flag, a total length and a zero byte. -/
theorem decodeString_long {flag : UInt8} (even : flag.toNat % 2 = 0) (data rest : Bytes)
    (fits : 4 + data.length < 65536) :
    decodeString (flag :: leBytes 2 (4 + data.length) ++ 0x00 :: data ++ rest) =
      if flag = FLAG_LONG_ASCII then some (String.ofList (decodeAscii data), rest)
      else if flag = FLAG_UTF16LE then
        (decodeUtf16 (units16 data)).map (fun cs => (String.ofList cs, rest))
      else none := by
  have body : leBytes 2 (4 + data.length) ++ 0x00 :: data ++ rest =
      (leBytes 2 (4 + data.length) ++ [0x00]) ++ (data ++ rest) := by simp
  have front : (leBytes 2 (4 + data.length) ++ [(0x00 : UInt8)]).length = 3 := by simp
  have total : readLE (leBytes 2 (4 + data.length) ++ 0x00 :: data ++ rest) 0 2 =
      4 + data.length := by
    rw [readLE, body, List.append_assoc, slice_append_left (by simp)]
    have all := slice_all (leBytes 2 (4 + data.length))
    rw [length_leBytes] at all
    rw [all, leNat_leBytes_of_lt fits]
  rw [List.cons_append, List.cons_append, decodeString, if_neg (by omega)]
  dsimp only
  rw [total, Nat.add_sub_cancel_left, body, List.drop_append_of_le_length (by omega), ← front,
    List.drop_length, List.nil_append, List.take_left', ← List.drop_drop, List.drop_left',
    List.drop_left', if_neg]
  · rw [List.length_append, front, List.length_append]
    omega
  · rfl
  · rfl
  · rfl

/-- An encoding of at most 65535 bytes is read back exactly, whatever follows. -/
theorem decodeString_encodeString {s : String} (fits : (encodeString s).length ≤ 65535)
    (rest : Bytes) : decodeString (encodeString s ++ rest) = some (s, rest) := by
  rw [encodeString] at fits ⊢
  split
  · rename_i nothing
    have empty : s = "" := by simpa using nothing
    subst empty
    rfl
  · rename_i something
    rw [if_neg something] at fits
    have chars : String.ofList s.toList = s := String.ofList_toList
    split
    · rename_i short
      obtain ⟨ascii, short⟩ := short
      have ascii : ∀ b ∈ utf8 s, b < 128 := by simpa using ascii
      have few : (utf8 s).length ≤ 126 := short
      have header := short_header ((utf8 s).length + 1) (by omega)
      rw [encodeShortAscii, List.cons_append, decodeString, header, if_pos (by omega)]
      dsimp only
      have count : (2 * ((utf8 s).length + 1) + 1) / 2 - 1 = (utf8 s).length := by omega
      rw [count, if_pos (by rw [List.length_append]; omega), List.take_left' rfl,
        List.drop_left' rfl, utf8, decodeAscii_utf8 ascii, chars]
    · rename_i long
      rw [if_neg long] at fits
      split
      · rename_i ascii
        rw [if_pos ascii] at fits
        have ascii : ∀ b ∈ utf8 s, b < 128 := by simpa using ascii
        rw [encodeLongAscii] at fits ⊢
        rw [decodeString_long (by decide) _ _ (by simp at fits; omega), if_pos rfl, utf8,
          decodeAscii_utf8 ascii, chars]
      · rename_i wide
        rw [if_neg wide] at fits
        rw [encodeUtf16le] at fits ⊢
        have data := length_flatMap_leBytes (utf16 s)
        have small : ∀ u ∈ utf16 s, u < 65536 := by
          intro u hu
          obtain ⟨c, _, mem⟩ := List.mem_flatMap.mp hu
          exact utf16Units_lt mem
        rw [← data] at fits ⊢
        rw [decodeString_long (by decide) _ _ (by simp at fits; omega), if_neg (by decide),
          if_pos rfl, units16_leBytes small, utf16, decodeUtf16_utf16]
        simp only [Option.map_some, chars]

/-- No encoding goes on as another one: they are read back apart from what follows. -/
theorem eq_of_encoding_starts {s t : String} (fits : (encodeString s).length ≤ 65535)
    (fits' : (encodeString t).length ≤ 65535) (front : encodeString s <+: encodeString t) :
    s = t := by
  obtain ⟨rest, whole⟩ := front
  have first := decodeString_encodeString fits rest
  have second := decodeString_encodeString fits' []
  rw [List.append_nil, ← whole, first] at second
  exact congrArg Prod.fst (Option.some.inj second)

/-- Every encoding says itself where it ends, so that different strings have different
encodings and none is a proper prefix of another. -/
theorem encodings_self_delimiting {s : String} (fits : (encodeString s).length ≤ 65535) :
    (∀ rest, decodeString (encodeString s ++ rest) = some (s, rest)) ∧
      ∀ t, (encodeString t).length ≤ 65535 →
        (encodeString s = encodeString t → s = t) ∧
        (encodeString s <+: encodeString t → encodeString s = encodeString t) := by
  refine ⟨decodeString_encodeString fits, ?_⟩
  intro t fits'
  constructor
  · intro same
    apply eq_of_encoding_starts fits fits'
    exact ⟨[], (List.append_nil _).trans same⟩
  · intro front
    exact congrArg encodeString (eq_of_encoding_starts fits fits' front)

/-- A string with characters outside the basic plane, in front of one byte more. -/
theorem clef_self_delimiting : (encodeString "a𝄞").length ≤ 65535 ∧
    decodeString (encodeString "a𝄞" ++ [0x05]) = some ("a𝄞", [0x05]) := by
  have fits : (encodeString "a𝄞").length ≤ 65535 := by decide
  exact ⟨fits, (encodings_self_delimiting fits).1 [0x05]⟩

end BVault.Core
