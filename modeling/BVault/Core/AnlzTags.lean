import BVault.Core.Anlz
import BVault.Lib.Records

/-!
# Reading the tags of an ANLZ file

A player starts at offset 28 and advances by each tag's `len_tag`. Every section
generator but the extended cue list writes a section that states its own length,
so the `.DAT` and `.2EX` files are read back section by section.
-/

namespace BVault.Core

open Bytes Records

def fourcc (t : Bytes) : Bytes := t.take 4

def lenHeader (t : Bytes) : Nat := readBE t 4 4

def lenTag (t : Bytes) : Nat := readBE t 8 4

/-- The tags visited from offset 28 on; each is at least its three header fields long. -/
def tagsOf (file : Bytes) : Option (List Bytes) := records 12 lenTag (file.drop 28)

/-- Entry count and entry size, for the tags that carry a count. -/
def entryShape (t : Bytes) : Option (Nat × Nat) :=
  if fourcc t = PQTZ_TAG then some (readBE t 20 4, 8)
  else if fourcc t = PWAV_TAG ∨ fourcc t = PWV2_TAG then some (readBE t 12 4, 1)
  else if fourcc t ∈ [PWV3_TAG, PWV4_TAG, PWV5_TAG, PWV6_TAG, PWV7_TAG] then
    some (readBE t 16 4, readBE t 12 4)
  else if fourcc t = PCOB_TAG then some (readBE t 18 2, 24)
  else none

/-- Header size plus count times entry size is the tag's length. -/
def CountsEntries (t : Bytes) : Prop :=
  ∀ shape, entryShape t = some shape → lenHeader t + shape.1 * shape.2 = lenTag t

/-- Pairs of bytes as big-endian 16-bit units. -/
def unitsBE : Bytes → List Nat
  | hi :: lo :: bs => beNat [hi, lo] :: unitsBE bs
  | _ => []

/-- The path of a PPTH tag, without its terminator. -/
def pathOf (t : Bytes) : Option String :=
  (decodeUtf16 (unitsBE (slice t 16 (readBE t 12 4 - 2)))).map String.ofList

/-- The beats of a PQTZ tag: number, tempo and milliseconds. -/
def beatsOf (t : Bytes) : List (Nat × Nat × Nat) :=
  (List.range (readBE t 20 4)).map
    (fun i => (readBE t (24 + 8 * i) 2, readBE t (24 + 8 * i + 2) 2, readBE t (24 + 8 * i + 4) 4))

/-- A section that begins with its name, header length and own length. -/
def IsSection (name : Bytes) (header : Nat) (s : Bytes) : Prop :=
  name.length = 4 ∧ ∃ body, s = tagHeader name header s.length ++ body

theorem length_tagHeader {name : Bytes} (four : name.length = 4) (header len : Nat) :
    (tagHeader name header len).length = 12 := by
  rw [tagHeader, List.length_append, List.length_append, length_beBytes, length_beBytes, four]

/-- Fields behind the three header fields. -/
theorem readBE_body {name : Bytes} (four : name.length = 4) (header len : Nat) (body : Bytes)
    (k w : Nat) : readBE (tagHeader name header len ++ body) (12 + k) w = readBE body k w := by
  have size := length_tagHeader four header len
  rw [readBE_skip (by omega), size, Nat.add_sub_cancel_left]

theorem readBE_next (v n : Nat) (body : Bytes) (k w : Nat) :
    readBE (beBytes v n ++ body) (v + k) w = readBE body k w := by
  rw [readBE_skip (by rw [length_beBytes]; omega), length_beBytes, Nat.add_sub_cancel_left]

theorem fourcc_tagHeader {name : Bytes} (four : name.length = 4) (header len : Nat)
    (body : Bytes) : fourcc (tagHeader name header len ++ body) = name := by
  rw [fourcc, tagHeader, List.append_assoc, List.append_assoc, ← four, List.take_left]

theorem lenHeader_tagHeader {name : Bytes} (four : name.length = 4) (header len : Nat)
    (body : Bytes) : lenHeader (tagHeader name header len ++ body) = header % 2 ^ 32 := by
  rw [lenHeader, tagHeader, List.append_assoc, List.append_assoc,
    readBE_skip (by omega), four, Nat.sub_self, readBE_front]
  rfl

theorem lenTag_tagHeader {name : Bytes} (four : name.length = 4) (header len : Nat)
    (body : Bytes) : lenTag (tagHeader name header len ++ body) = len % 2 ^ 32 := by
  rw [lenTag, tagHeader, List.append_assoc, List.append_assoc,
    readBE_skip (by omega), four]
  show readBE (beBytes 4 header ++ (beBytes 4 len ++ body)) (4 + 0) 4 = len % 2 ^ 32
  rw [readBE_next, readBE_front]
  rfl

namespace IsSection

variable {name s : Bytes} {header : Nat} (h : IsSection name header s)
include h

theorem long : 12 ≤ s.length := by
  obtain ⟨four, body, eq⟩ := h
  have size := congrArg List.length eq
  rw [List.length_append, length_tagHeader four] at size
  omega

theorem fourcc_eq : fourcc s = name := by
  obtain ⟨four, body, eq⟩ := h
  rw [eq, fourcc_tagHeader four]

/-- The length field is right as long as it does not wrap, whatever follows. -/
theorem own (fits : s.length < 2 ^ 32) (rest : Bytes) : lenTag (s ++ rest) = s.length := by
  obtain ⟨four, body, eq⟩ := h
  have field : lenTag (s ++ rest) = s.length % 2 ^ 32 := by
    conv_lhs => rw [eq, List.append_assoc]
    exact lenTag_tagHeader four header s.length (body ++ rest)
  rw [field, Nat.mod_eq_of_lt fits]

theorem lenTag_eq (fits : s.length < 2 ^ 32) : lenTag s = s.length := by
  have alone := h.own fits []
  rwa [List.append_nil] at alone

end IsSection

@[simp] theorem length_writePmaiHeader (n : Nat) : (writePmaiHeader n).length = 28 := rfl

theorem length_anlzFile (ss : List Bytes) :
    (anlzFile ss).length = 28 + (ss.map List.length).sum := by
  rw [anlzFile, List.length_append, length_writePmaiHeader, List.length_flatten]

theorem drop_anlzFile (ss : List Bytes) : (anlzFile ss).drop 28 = ss.flatten := by
  rw [anlzFile]
  exact List.drop_left' (length_writePmaiHeader _)

/-- `len_file` is the length of the file. -/
theorem lenFile_anlzFile {ss : List Bytes} (fits : (anlzFile ss).length < 2 ^ 32) :
    fourcc (anlzFile ss) = PMAI_TAG ∧ lenTag (anlzFile ss) = (anlzFile ss).length := by
  have header : anlzFile ss = tagHeader PMAI_TAG 28 (anlzFile ss).length ++
      (beBytes 4 0x00000001 ++ (beBytes 4 0x00010000 ++ (beBytes 4 0x00010000 ++
        (beBytes 4 0x00000000 ++ ss.flatten)))) := by
    rw [length_anlzFile]
    simp only [anlzFile, writePmaiHeader, List.append_assoc]
  have whole : IsSection PMAI_TAG 28 (anlzFile ss) := ⟨rfl, _, header⟩
  exact ⟨whole.fourcc_eq, whole.lenTag_eq fits⟩

theorem section_fits {ss : List Bytes} (fits : (anlzFile ss).length < 2 ^ 32) {s : Bytes}
    (mem : s ∈ ss) : s.length < 2 ^ 32 := by
  have part := (List.sublist_flatten_of_mem mem).length_le
  rw [List.length_flatten] at part
  rw [length_anlzFile] at fits
  omega

/-- The walk over a file of sections visits the sections and ends at its end. -/
theorem tagsOf_anlzFile {ss : List Bytes} (fits : (anlzFile ss).length < 2 ^ 32)
    (each : ∀ s ∈ ss, ∃ name header, IsSection name header s) : tagsOf (anlzFile ss) = some ss := by
  rw [tagsOf, drop_anlzFile]
  refine records_flatten (by decide) (fun s mem => ?_)
  obtain ⟨name, header, sec⟩ := each s mem
  exact ⟨sec.long, sec.own (section_fits fits mem)⟩

/-- The walk visits the sections in front and goes on behind them. -/
theorem tagsOf_behind {ss others ts : List Bytes}
    (fits : (anlzFile (ss ++ others)).length < 2 ^ 32)
    (each : ∀ s ∈ ss, ∃ name header, IsSection name header s)
    (read : tagsOf (anlzFile (ss ++ others)) = some ts) :
    ∃ rest, ts = ss ++ rest ∧ records 12 lenTag others.flatten = some rest := by
  have own : ∀ s ∈ ss, 12 ≤ s.length ∧ ∀ rest, lenTag (s ++ rest) = s.length := by
    intro s mem
    obtain ⟨name, header, sec⟩ := each s mem
    exact ⟨sec.long, sec.own (section_fits fits (List.mem_append_left _ mem))⟩
  rw [tagsOf, drop_anlzFile, List.flatten_append] at read
  exact records_behind (by decide) own read

theorem length_flatMap_of_const {α : Type*} {f : α → Bytes} {xs : List α} {n : Nat}
    (each : ∀ x ∈ xs, (f x).length = n) : (xs.flatMap f).length = xs.length * n := by
  induction xs with
  | nil => simp
  | cons x xs ih =>
    rw [List.flatMap_cons, List.length_append, each x List.mem_cons_self,
      ih (fun y mem => each y (List.mem_cons_of_mem x mem)), List.length_cons, Nat.succ_mul]
    omega

/-- What a section is, from its fields and the count of its bytes. -/
theorem isSection_of {name : Bytes} {header len : Nat} {body : Bytes} (four : name.length = 4)
    (total : 12 + body.length = len) : IsSection name header (tagHeader name header len ++ body) := by
  refine ⟨four, body, ?_⟩
  rw [List.length_append, length_tagHeader four, total]

theorem ppth_section (filePath : String) :
    IsSection PPTH_TAG 16 (generatePpthSection filePath) := by
  have data : ((utf16 filePath ++ [0]).flatMap (beBytes 2)).length =
      (utf16 filePath ++ [0]).length * 2 :=
    length_flatMap_of_const (fun _ _ => length_beBytes 2 _)
  rw [generatePpthSection, List.append_assoc]
  refine isSection_of rfl ?_
  rw [List.length_append, length_beBytes, data]
  omega

/-- Numbers written in words of four bytes. -/
theorem length_words (f : Nat → Nat) (n : Nat) :
    ((List.range n).flatMap fun i => beBytes 4 (f i)).length = n * 4 := by
  rw [length_flatMap_of_const (fun _ _ => length_beBytes 4 _), List.length_range]

theorem pvbr_section (fileSizeBytes totalSamples : UInt64) :
    IsSection PVBR_TAG 16 (generatePvbrSection fileSizeBytes totalSamples) := by
  rw [generatePvbrSection, List.append_assoc, List.append_assoc]
  refine isSection_of rfl ?_
  rw [List.length_append, List.length_append, length_words, length_beBytes, length_beBytes]

theorem length_beatEntry (beat : Beat) : (beatEntry beat).length = 8 := by
  simp [beatEntry]

theorem pqtz_section (beatGrid : BeatGrid) :
    IsSection PQTZ_TAG 24 (generatePqtzSection beatGrid) := by
  have data : (beatGrid.beats.flatMap beatEntry).length = beatGrid.beats.length * 8 :=
    length_flatMap_of_const (fun _ _ => length_beatEntry _)
  rw [generatePqtzSection, List.append_assoc, List.append_assoc, List.append_assoc]
  refine isSection_of rfl ?_
  simp only [List.length_append, length_beBytes, data]
  omega

theorem pwav_section (preview : List WaveformColumn) :
    IsSection PWAV_TAG 20 (generatePwavSection preview) := by
  rw [generatePwavSection, List.append_assoc, List.append_assoc]
  refine isSection_of rfl ?_
  simp only [List.length_append, length_beBytes, List.length_map, List.length_range]

theorem pwv2_section (preview : List WaveformColumn) :
    IsSection PWV2_TAG 20 (generatePwv2Section preview) := by
  rw [generatePwv2Section, List.append_assoc, List.append_assoc]
  refine isSection_of rfl ?_
  simp only [List.length_append, length_beBytes, List.length_map, List.length_range]

theorem length_scaled (detail : List WaveformColorEntry) :
    (detail.flatMap
      (fun e => [scaleBand e e.red, scaleBand e e.green, scaleBand e e.blue])).length =
      detail.length * 3 :=
  length_flatMap_of_const (fun _ _ => rfl)

theorem pwv7_section (detail : List WaveformColorEntry) :
    IsSection PWV7_TAG 24 (generatePwv7Section detail) := by
  have data := length_scaled detail
  rw [generatePwv7Section, List.append_assoc, List.append_assoc, List.append_assoc]
  refine isSection_of rfl ?_
  simp only [List.length_append, length_beBytes, data]
  omega

theorem length_bands (colorPreview : List WaveformColorPreviewColumn) :
    ((List.range 1200).flatMap (bandBytes colorPreview)).length = 1200 * 3 := by
  have column : ∀ i, (bandBytes colorPreview i).length = 3 := by
    intro i
    rw [bandBytes]
    split <;> rfl
  rw [length_flatMap_of_const (fun i _ => column i), List.length_range]

theorem pwv6_section (colorPreview : List WaveformColorPreviewColumn) :
    IsSection PWV6_TAG 20 (generatePwv6Section colorPreview) := by
  rw [generatePwv6Section, List.append_assoc, List.append_assoc]
  refine isSection_of rfl ?_
  simp only [List.length_append, length_beBytes, length_bands]

theorem pwvc_section : IsSection PWVC_TAG 14 generatePwvcSection := by
  rw [generatePwvcSection, List.append_assoc, List.append_assoc, List.append_assoc]
  exact isSection_of rfl rfl

theorem pcobEmpty_section (cueType : Nat) :
    IsSection PCOB_TAG 24 (generatePcobEmpty cueType) := by
  rw [generatePcobEmpty, List.append_assoc, List.append_assoc, List.append_assoc]
  refine isSection_of rfl ?_
  simp only [List.length_append, length_beBytes]

end BVault.Core
