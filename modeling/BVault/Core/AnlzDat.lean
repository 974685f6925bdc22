import BVault.Core.AnlzTags

/-!
# The `.DAT` and `.2EX` files read back

Walking either file by `len_tag` visits the sections in the documented order,
every count agrees with the length beside it, and the path and the beat list are
read back from their tags.
-/

namespace BVault.Core

open Bytes Records

theorem countsEntries_of {name t body : Bytes} {header len count size : Nat}
    (four : name.length = 4) (written : t = tagHeader name header len ++ body)
    (headerFits : header < 2 ^ 32) (lenFits : len < 2 ^ 32)
    (shape : entryShape t = some (count, size)) (total : len = header + count * size) :
    CountsEntries t := by
  intro other same
  obtain rfl := Option.some.inj (shape.symm.trans same)
  rw [written, lenHeader_tagHeader four, lenTag_tagHeader four, Nat.mod_eq_of_lt headerFits,
    Nat.mod_eq_of_lt lenFits, total]

theorem countsEntries_none {t : Bytes} (shape : entryShape t = none) : CountsEntries t := by
  intro other same
  rw [shape] at same
  cases same

/-- The first word behind the three header fields. -/
theorem word_at_12 {name : Bytes} (four : name.length = 4) (header len n : Nat) (body : Bytes) :
    readBE (tagHeader name header len ++ (beBytes 4 n ++ body)) 12 4 = n % 2 ^ 32 :=
  (readBE_body four header len _ 0 4).trans (readBE_front 4 n body)

theorem word_at_16 {name : Bytes} (four : name.length = 4) (header len m n : Nat) (body : Bytes) :
    readBE (tagHeader name header len ++ (beBytes 4 m ++ (beBytes 4 n ++ body))) 16 4 =
      n % 2 ^ 32 :=
  (readBE_body four header len _ (4 + 0) 4).trans
    ((readBE_next 4 m _ 0 4).trans (readBE_front 4 n body))

theorem word_at_20 {name : Bytes} (four : name.length = 4) (header len k m n : Nat)
    (body : Bytes) :
    readBE (tagHeader name header len ++ (beBytes 4 k ++ (beBytes 4 m ++ (beBytes 4 n ++ body))))
      20 4 = n % 2 ^ 32 :=
  (readBE_body four header len _ (4 + (4 + 0)) 4).trans
    ((readBE_next 4 k _ (4 + 0) 4).trans
      ((readBE_next 4 m _ 0 4).trans (readBE_front 4 n body)))

/-- Tags with one byte an entry and the count behind the length. -/
theorem preview_counts {name t body : Bytes} {count : Nat}
    (named : name = PWAV_TAG ∨ name = PWV2_TAG)
    (written : t = tagHeader name 20 (20 + count) ++ (beBytes 4 count ++ body))
    (fits : 20 + count < 2 ^ 32) : CountsEntries t := by
  have four : name.length = 4 := by
    rcases named with rfl | rfl <;> rfl
  have field : readBE t 12 4 = count := by
    rw [written, word_at_12 four, Nat.mod_eq_of_lt (by omega)]
  have shape : entryShape t = some (count, 1) := by
    rw [entryShape, field, written, fourcc_tagHeader four]
    rcases named with rfl | rfl <;> rfl
  exact countsEntries_of four written (by decide) fits shape (by rw [Nat.mul_one])

/-- Tags with the entry size and the count behind the length. -/
theorem waveform_counts {name t body : Bytes} {header size count : Nat}
    (named : name ∈ [PWV3_TAG, PWV4_TAG, PWV5_TAG, PWV6_TAG, PWV7_TAG])
    (written : t = tagHeader name header (header + count * size) ++
      (beBytes 4 size ++ (beBytes 4 count ++ body)))
    (sizeFits : size < 2 ^ 32) (countFits : count < 2 ^ 32)
    (fits : header + count * size < 2 ^ 32) : CountsEntries t := by
  have table : ∀ n ∈ [PWV3_TAG, PWV4_TAG, PWV5_TAG, PWV6_TAG, PWV7_TAG],
      n.length = 4 ∧ n ≠ PQTZ_TAG ∧ ¬ (n = PWAV_TAG ∨ n = PWV2_TAG) := by
    decide
  obtain ⟨four, notGrid, notPreview⟩ := table name named
  have sizeField : readBE t 12 4 = size := by
    rw [written, word_at_12 four, Nat.mod_eq_of_lt sizeFits]
  have countField : readBE t 16 4 = count := by
    rw [written, word_at_16 four, Nat.mod_eq_of_lt countFits]
  have shape : entryShape t = some (count, size) := by
    rw [entryShape, sizeField, countField, written, fourcc_tagHeader four]
    rw [if_neg notGrid, if_neg notPreview, if_pos named]
  exact countsEntries_of four written (by omega) fits shape rfl

theorem length_generatePqtzSection (beatGrid : BeatGrid) :
    (generatePqtzSection beatGrid).length = 24 + beatGrid.beats.length * 8 := by
  have data : (beatGrid.beats.flatMap beatEntry).length = beatGrid.beats.length * 8 :=
    length_flatMap_of_const (fun _ _ => length_beatEntry _)
  have header := fun len => @length_tagHeader PQTZ_TAG rfl 24 len
  simp only [generatePqtzSection, List.length_append, length_beBytes, data, header]

theorem pqtz_written (beatGrid : BeatGrid) :
    generatePqtzSection beatGrid = tagHeader PQTZ_TAG 24 (24 + beatGrid.beats.length * 8) ++
      (beBytes 4 0 ++ (beBytes 4 0x00080000 ++ (beBytes 4 beatGrid.beats.length ++
        beatGrid.beats.flatMap beatEntry))) := by
  rw [generatePqtzSection, List.append_assoc, List.append_assoc, List.append_assoc]

theorem pqtz_count {beatGrid : BeatGrid} (fits : (generatePqtzSection beatGrid).length < 2 ^ 32) :
    readBE (generatePqtzSection beatGrid) 20 4 = beatGrid.beats.length := by
  rw [length_generatePqtzSection] at fits
  rw [pqtz_written, word_at_20 rfl, Nat.mod_eq_of_lt (by omega)]

theorem pqtz_counts {beatGrid : BeatGrid} (fits : (generatePqtzSection beatGrid).length < 2 ^ 32) :
    CountsEntries (generatePqtzSection beatGrid) := by
  have shape : entryShape (generatePqtzSection beatGrid) = some (beatGrid.beats.length, 8) := by
    rw [entryShape, if_pos (pqtz_section beatGrid).fourcc_eq, pqtz_count fits]
  rw [length_generatePqtzSection] at fits
  exact countsEntries_of rfl (pqtz_written beatGrid) (by decide) fits shape rfl

theorem pwav_counts (preview : List WaveformColumn) :
    CountsEntries (generatePwavSection preview) := by
  rw [generatePwavSection, List.append_assoc, List.append_assoc]
  exact preview_counts (Or.inl rfl) rfl (by decide)

theorem pwv2_counts (preview : List WaveformColumn) :
    CountsEntries (generatePwv2Section preview) := by
  rw [generatePwv2Section, List.append_assoc, List.append_assoc]
  exact preview_counts (Or.inr rfl) rfl (by decide)

theorem pcobEmpty_counts (cueType : Nat) : CountsEntries (generatePcobEmpty cueType) := by
  have name := (pcobEmpty_section cueType).fourcc_eq
  have written : generatePcobEmpty cueType = tagHeader PCOB_TAG 24 24 ++
      (beBytes 4 cueType ++ (beBytes 2 0 ++ (beBytes 2 0 ++ beBytes 4 0xffffffff))) := by
    rw [generatePcobEmpty, List.append_assoc, List.append_assoc, List.append_assoc]
  have count : readBE (generatePcobEmpty cueType) 18 2 = 0 := by
    rw [written]
    exact (readBE_body rfl 24 24 _ (4 + (2 + 0)) 2).trans
      ((readBE_next 4 cueType _ (2 + 0) 2).trans
        ((readBE_next 2 0 _ 0 2).trans (readBE_front 2 0 _)))
  have shape : entryShape (generatePcobEmpty cueType) = some (0, 24) := by
    rw [entryShape, name, count]
    rfl
  exact countsEntries_of rfl written (by decide) (by decide) shape rfl

theorem pwv7_counts {detail : List WaveformColorEntry}
    (fits : (generatePwv7Section detail).length < 2 ^ 32) :
    CountsEntries (generatePwv7Section detail) := by
  have total : (generatePwv7Section detail).length = 24 + detail.length * 3 := by
    have header := fun len => @length_tagHeader PWV7_TAG rfl 24 len
    simp only [generatePwv7Section, List.length_append, length_beBytes, header, length_scaled]
  rw [total] at fits
  rw [generatePwv7Section, List.append_assoc, List.append_assoc, List.append_assoc]
  exact waveform_counts (by decide) rfl (by decide) (by omega) fits

theorem pwv6_counts (colorPreview : List WaveformColorPreviewColumn) :
    CountsEntries (generatePwv6Section colorPreview) := by
  rw [generatePwv6Section, List.append_assoc, List.append_assoc]
  exact waveform_counts (by decide) rfl (by decide) (by decide) (by decide)

theorem ppth_counts (filePath : String) : CountsEntries (generatePpthSection filePath) := by
  refine countsEntries_none ?_
  rw [entryShape, (ppth_section filePath).fourcc_eq]
  rfl

theorem pvbr_counts (fileSizeBytes totalSamples : UInt64) :
    CountsEntries (generatePvbrSection fileSizeBytes totalSamples) := by
  refine countsEntries_none ?_
  rw [entryShape, (pvbr_section fileSizeBytes totalSamples).fourcc_eq]
  rfl

theorem pwvc_counts : CountsEntries generatePwvcSection := by
  refine countsEntries_none ?_
  rw [entryShape, pwvc_section.fourcc_eq]
  rfl

theorem unitsBE_beBytes {us : List Nat} (small : ∀ u ∈ us, u < 65536) :
    unitsBE (us.flatMap (beBytes 2)) = us := by
  induction us with
  | nil => rfl
  | cons u us ih =>
    have word : beNat (beBytes 2 u) = u := by
      rw [beNat_beBytes]
      exact Nat.mod_eq_of_lt (small u List.mem_cons_self)
    rw [List.flatMap_cons]
    show beNat (beBytes 2 u) :: unitsBE (us.flatMap (beBytes 2)) = u :: us
    rw [word, ih (fun v mem => small v (List.mem_cons_of_mem _ mem))]

theorem utf16_small {s : String} {u : Nat} (mem : u ∈ utf16 s) : u < 65536 := by
  obtain ⟨c, _, unit⟩ := List.mem_flatMap.mp mem
  exact utf16Units_lt unit

/-- The path is read back from its tag, whatever follows. -/
theorem pathOf_ppth_append {filePath : String}
    (fits : (generatePpthSection filePath).length < 2 ^ 32) (rest : Bytes) :
    pathOf (generatePpthSection filePath ++ rest) = some filePath := by
  have units : ((utf16 filePath).flatMap (beBytes 2)).length = (utf16 filePath).length * 2 :=
    length_flatMap_of_const (fun _ _ => length_beBytes 2 _)
  have written : generatePpthSection filePath ++ rest =
      tagHeader PPTH_TAG 16 (16 + ((utf16 filePath).length + 1) * 2) ++
        (beBytes 4 (((utf16 filePath).length + 1) * 2) ++
          ((utf16 filePath).flatMap (beBytes 2) ++ (beBytes 2 0 ++ rest))) := by
    simp only [generatePpthSection, List.length_append, List.length_cons, List.length_nil,
      List.flatMap_append, List.flatMap_cons, List.flatMap_nil, List.append_nil,
      List.append_assoc]
  have header := fun len => @length_tagHeader PPTH_TAG rfl 16 len
  have total := congrArg List.length written
  simp only [List.length_append, length_beBytes, header, units] at total
  have count : readBE (generatePpthSection filePath ++ rest) 12 4 =
      ((utf16 filePath).length + 1) * 2 := by
    rw [written, word_at_12 rfl, Nat.mod_eq_of_lt (by omega)]
  have data : slice (generatePpthSection filePath ++ rest) 16
      (((utf16 filePath).length + 1) * 2 - 2) = (utf16 filePath).flatMap (beBytes 2) := by
    have span : ((utf16 filePath).length + 1) * 2 - 2 =
        ((utf16 filePath).flatMap (beBytes 2)).length := by
      rw [units]
      omega
    rw [written, slice_append_right (by rw [header]; decide), header,
      slice_append_right (by rw [length_beBytes]), length_beBytes, span,
      slice_append_left (by omega), slice_all]
  rw [pathOf, count, data, unitsBE_beBytes (fun u mem => utf16_small mem), utf16,
    decodeUtf16_utf16, Option.map_some, String.ofList_toList]

theorem pathOf_ppth {filePath : String} (fits : (generatePpthSection filePath).length < 2 ^ 32) :
    pathOf (generatePpthSection filePath) = some filePath := by
  have alone := pathOf_ppth_append fits []
  rwa [List.append_nil] at alone

/-- The words of one beat. -/
theorem beatEntry_words (beat : Beat) :
    readBE (beatEntry beat) 0 2 = beat.beatNumber.toNat ∧
      readBE (beatEntry beat) 2 2 = beat.tempo100.toNat ∧
      readBE (beatEntry beat) 4 4 = beat.timeMs.toUInt32.toNat := by
  have number : beat.beatNumber.toNat < 256 ^ 2 := lt_trans beat.beatNumber.toNat_lt (by decide)
  have tempo : beat.tempo100.toNat < 256 ^ 2 := beat.tempo100.toNat_lt
  have time : beat.timeMs.toUInt32.toNat < 256 ^ 4 := beat.timeMs.toUInt32.toNat_lt
  have alone := readBE_front 4 beat.timeMs.toUInt32.toNat []
  rw [List.append_nil, Nat.mod_eq_of_lt time] at alone
  rw [beatEntry, List.append_assoc]
  refine ⟨?_, ?_, ?_⟩
  · rw [readBE_front, Nat.mod_eq_of_lt number]
  · exact (readBE_next 2 _ _ 0 2).trans (by rw [readBE_front, Nat.mod_eq_of_lt tempo])
  · exact (readBE_next 2 _ _ (2 + 0) 4).trans ((readBE_next 2 _ _ 0 4).trans alone)

theorem pqtz_entry {beatGrid : BeatGrid} {i : Nat} {beat : Beat}
    (here : beatGrid.beats[i]? = some beat) {j w : Nat} (inside : j + w ≤ 8) :
    readBE (generatePqtzSection beatGrid) (24 + 8 * i + j) w = readBE (beatEntry beat) j w := by
  have entry : slice (beatGrid.beats.flatMap beatEntry) (i * 8) 8 = beatEntry beat := by
    refine slice_pages ?_ ?_
    · intro p mem
      obtain ⟨b, _, rfl⟩ := List.mem_map.mp mem
      exact length_beatEntry b
    · rw [List.getElem?_map, here, Option.map_some]
  have header := @length_tagHeader PQTZ_TAG rfl 24 (24 + beatGrid.beats.length * 8)
  have place : slice (generatePqtzSection beatGrid) (24 + 8 * i + j) w =
      slice (beatGrid.beats.flatMap beatEntry) (i * 8 + j) w := by
    rw [pqtz_written, slice_append_right (by omega), slice_append_right (by simp; omega),
      slice_append_right (by simp; omega), slice_append_right (by simp; omega)]
    simp only [header, length_beBytes]
    congr 1
    omega
  rw [readBE, place, readBE, ← entry, slice_slice inside]

/-- The beats are read back from their tag, in order. -/
theorem beatsOf_pqtz {beatGrid : BeatGrid} (fits : (generatePqtzSection beatGrid).length < 2 ^ 32) :
    beatsOf (generatePqtzSection beatGrid) = beatGrid.beats.map
      (fun b => (b.beatNumber.toNat, b.tempo100.toNat, b.timeMs.toUInt32.toNat)) := by
  rw [beatsOf, pqtz_count fits]
  refine List.ext_getElem? (fun i => ?_)
  rcases Nat.lt_or_ge i beatGrid.beats.length with inside | outside
  · have here := List.getElem?_eq_getElem inside
    obtain ⟨number, tempo, time⟩ := beatEntry_words beatGrid.beats[i]
    have first := (pqtz_entry here (j := 0) (w := 2) (by decide)).trans number
    have second := (pqtz_entry here (j := 2) (w := 2) (by decide)).trans tempo
    have third := (pqtz_entry here (j := 4) (w := 4) (by decide)).trans time
    rw [Nat.add_zero] at first
    rw [List.getElem?_map, List.getElem?_map, List.getElem?_range inside, here, Option.map_some,
      Option.map_some, first, second, third]
  · rw [List.getElem?_eq_none (by simpa using outside), List.getElem?_eq_none (by simpa using outside)]

/-- What reading a `.DAT` file back gives. -/
structure DatReadsBack (beatGrid : BeatGrid) (filePath : String) (file : Bytes) : Prop where
  lenFile : fourcc file = PMAI_TAG ∧ lenTag file = file.length
  walk : ∃ ppth pvbr pqtz pwav pwv2 pcobHot pcobMem,
    tagsOf file = some [ppth, pvbr, pqtz, pwav, pwv2, pcobHot, pcobMem] ∧
    [ppth, pvbr, pqtz, pwav, pwv2, pcobHot, pcobMem].map fourcc =
      [PPTH_TAG, PVBR_TAG, PQTZ_TAG, PWAV_TAG, PWV2_TAG, PCOB_TAG, PCOB_TAG] ∧
    (∀ t ∈ [ppth, pvbr, pqtz, pwav, pwv2, pcobHot, pcobMem], CountsEntries t) ∧
    pathOf ppth = some filePath ∧
    beatsOf pqtz = beatGrid.beats.map
      (fun b => (b.beatNumber.toNat, b.tempo100.toNat, b.timeMs.toUInt32.toNat))

/-- What reading a `.2EX` file back gives. -/
structure TwoExReadsBack (filePath : String) (file : Bytes) : Prop where
  lenFile : fourcc file = PMAI_TAG ∧ lenTag file = file.length
  walk : ∃ ppth pwv7 pwv6 pwvc,
    tagsOf file = some [ppth, pwv7, pwv6, pwvc] ∧
    [ppth, pwv7, pwv6, pwvc].map fourcc = [PPTH_TAG, PWV7_TAG, PWV6_TAG, PWVC_TAG] ∧
    (∀ t ∈ [ppth, pwv7, pwv6, pwvc], CountsEntries t) ∧
    pathOf ppth = some filePath

theorem datFile_reads_back {beatGrid : BeatGrid} {waveform : Waveform} {filePath : String}
    {audioFileSize totalSamples : UInt64}
    (fits : (generateDatFile beatGrid waveform filePath audioFileSize totalSamples).length <
      2 ^ 32) :
    DatReadsBack beatGrid filePath
      (generateDatFile beatGrid waveform filePath audioFileSize totalSamples) := by
  rw [generateDatFile] at fits ⊢
  have ppthFits := section_fits fits (s := generatePpthSection filePath) (by simp)
  have pqtzFits := section_fits fits (s := generatePqtzSection beatGrid) (by simp)
  refine ⟨lenFile_anlzFile fits, _, _, _, _, _, _, _, tagsOf_anlzFile fits ?_, ?_, ?_,
    pathOf_ppth ppthFits, beatsOf_pqtz pqtzFits⟩
  · intro s mem
    simp only [List.mem_cons, List.not_mem_nil, or_false] at mem
    rcases mem with rfl | rfl | rfl | rfl | rfl | rfl | rfl
    · exact ⟨_, _, ppth_section filePath⟩
    · exact ⟨_, _, pvbr_section audioFileSize totalSamples⟩
    · exact ⟨_, _, pqtz_section beatGrid⟩
    · exact ⟨_, _, pwav_section waveform.preview⟩
    · exact ⟨_, _, pwv2_section waveform.preview⟩
    · exact ⟨_, _, pcobEmpty_section 1⟩
    · exact ⟨_, _, pcobEmpty_section 0⟩
  · simp only [List.map_cons, List.map_nil, (ppth_section _).fourcc_eq,
      (pvbr_section _ _).fourcc_eq, (pqtz_section _).fourcc_eq, (pwav_section _).fourcc_eq,
      (pwv2_section _).fourcc_eq, (pcobEmpty_section _).fourcc_eq]
  · intro t mem
    simp only [List.mem_cons, List.not_mem_nil, or_false] at mem
    rcases mem with rfl | rfl | rfl | rfl | rfl | rfl | rfl
    · exact ppth_counts filePath
    · exact pvbr_counts audioFileSize totalSamples
    · exact pqtz_counts pqtzFits
    · exact pwav_counts waveform.preview
    · exact pwv2_counts waveform.preview
    · exact pcobEmpty_counts 1
    · exact pcobEmpty_counts 0

theorem twoExFile_reads_back {waveform : Waveform} {filePath : String}
    (fits : (generate2exFile waveform filePath).length < 2 ^ 32) :
    TwoExReadsBack filePath (generate2exFile waveform filePath) := by
  rw [generate2exFile] at fits ⊢
  have ppthFits := section_fits fits (s := generatePpthSection filePath) (by simp)
  have pwv7Fits := section_fits fits (s := generatePwv7Section waveform.detail) (by simp)
  refine ⟨lenFile_anlzFile fits, _, _, _, _, tagsOf_anlzFile fits ?_, ?_, ?_,
    pathOf_ppth ppthFits⟩
  · intro s mem
    simp only [List.mem_cons, List.not_mem_nil, or_false] at mem
    rcases mem with rfl | rfl | rfl | rfl
    · exact ⟨_, _, ppth_section filePath⟩
    · exact ⟨_, _, pwv7_section waveform.detail⟩
    · exact ⟨_, _, pwv6_section waveform.colorPreview⟩
    · exact ⟨_, _, pwvc_section⟩
  · simp only [List.map_cons, List.map_nil, (ppth_section _).fourcc_eq,
      (pwv7_section _).fourcc_eq, (pwv6_section _).fourcc_eq, pwvc_section.fourcc_eq]
  · intro t mem
    simp only [List.mem_cons, List.not_mem_nil, or_false] at mem
    rcases mem with rfl | rfl | rfl | rfl
    · exact ppth_counts filePath
    · exact pwv7_counts pwv7Fits
    · exact pwv6_counts waveform.colorPreview
    · exact pwvc_counts

/-- Both files below the 32-bit limit read back. -/
theorem dat_and_2ex_read_back (beatGrid : BeatGrid) (waveform : Waveform) (filePath : String)
    (audioFileSize totalSamples : UInt64) :
    ((generateDatFile beatGrid waveform filePath audioFileSize totalSamples).length < 2 ^ 32 →
      DatReadsBack beatGrid filePath
        (generateDatFile beatGrid waveform filePath audioFileSize totalSamples)) ∧
    ((generate2exFile waveform filePath).length < 2 ^ 32 →
      TwoExReadsBack filePath (generate2exFile waveform filePath)) :=
  ⟨datFile_reads_back, twoExFile_reads_back⟩

/-- Two beats at 128 BPM. -/
def twoBeats : BeatGrid := ⟨[⟨1, 0.0, 12800⟩, ⟨2, 468.75, 12800⟩]⟩

/-- One column in each waveform. -/
def oneColumn : Waveform := ⟨[⟨15, 3⟩], [⟨1, 2, 3, 4, 5, 6⟩], [⟨5, 3, 7, 20⟩]⟩

theorem twoBeats_read_back :
    DatReadsBack twoBeats "/Contents/test.mp3"
        (generateDatFile twoBeats oneColumn "/Contents/test.mp3" 5000000 220500) ∧
      TwoExReadsBack "/Contents/test.mp3" (generate2exFile oneColumn "/Contents/test.mp3") := by
  obtain ⟨dat, twoEx⟩ := dat_and_2ex_read_back twoBeats oneColumn "/Contents/test.mp3" 5000000 220500
  exact ⟨dat (by decide +kernel), twoEx (by decide +kernel)⟩

end BVault.Core
