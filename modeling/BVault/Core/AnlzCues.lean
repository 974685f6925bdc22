import Mathlib.Data.List.Forall2
import BVault.Core.AnlzTags

/-!
# The cue lists of the `.EXT` file

The extended cue list writes entries that are shorter than the length beside
them: 12 or 11 bytes for a hot cue, 4 or 3 for a memory cue. A walk by length
therefore survives no cue at all. The basic list puts every cue under type 1, so
the two kinds are told apart only where there are no memory cues.
-/

namespace BVault.Core

open Bytes Records

def knownTags : List Bytes :=
  [PPTH_TAG, PVBR_TAG, PQTZ_TAG, PWAV_TAG, PWV2_TAG, PWV3_TAG, PWV4_TAG, PWV5_TAG, PWV6_TAG,
    PWV7_TAG, PWVC_TAG, PCOB_TAG, PCO2_TAG]

/-- An entry declares its length after the marker. -/
def entryLen (e : Bytes) : Nat := 4 + readBE e 4 4

/-- Behind the header of a cue tag stand as many entries as it counts, up to its end. -/
def EntriesWalk (header : Nat) (marker t : Bytes) : Prop :=
  header ≤ t.length ∧ ∃ es, records 8 entryLen (t.drop header) = some es ∧
    es.length = readBE t 18 2 ∧ ∀ e ∈ es, fourcc e = marker

/-- Walking a file tag by tag and its cue tags entry by entry. -/
structure ExtWalks (file : Bytes) : Prop where
  lenFile : fourcc file = PMAI_TAG ∧ lenTag file = file.length
  walk : ∃ ts, tagsOf file = some ts ∧ (∀ t ∈ ts, fourcc t ∈ knownTags) ∧
    (∀ t ∈ ts, fourcc t = PCOB_TAG → EntriesWalk 24 PCP1_TAG t) ∧
    ∀ t ∈ ts, fourcc t = PCO2_TAG → EntriesWalk 20 PCP2_TAG t

theorem pwv3_section (detail : List WaveformColorEntry) :
    IsSection PWV3_TAG 24 (generatePwv3Section detail) := by
  rw [generatePwv3Section, List.append_assoc, List.append_assoc, List.append_assoc]
  refine isSection_of rfl ?_
  simp only [List.length_append, length_beBytes, List.length_map]
  omega

theorem pwv5_section (detail : List WaveformColorEntry) :
    IsSection PWV5_TAG 24 (generatePwv5Section detail) := by
  have data : (detail.flatMap WaveformColorEntry.toBytes).length = detail.length * 2 :=
    length_flatMap_of_const (fun _ _ => length_beBytes 2 _)
  rw [generatePwv5Section, List.append_assoc, List.append_assoc, List.append_assoc]
  refine isSection_of rfl ?_
  simp only [List.length_append, length_beBytes, data]
  omega

theorem pwv4_section (colorPreview : List WaveformColorPreviewColumn) :
    IsSection PWV4_TAG 24 (generatePwv4Section colorPreview) := by
  have column : ∀ i, (colorBytes colorPreview i).length = 6 := by
    intro i
    rw [colorBytes]
    split <;> rfl
  have data : ((List.range 1200).flatMap (colorBytes colorPreview)).length = 1200 * 6 := by
    rw [length_flatMap_of_const (fun i _ => column i), List.length_range]
  rw [generatePwv4Section, List.append_assoc, List.append_assoc, List.append_assoc]
  refine isSection_of rfl ?_
  simp only [List.length_append, length_beBytes, data]

theorem pco2Empty_section (cueType : Nat) :
    IsSection PCO2_TAG 20 (generatePco2Empty cueType) := by
  rw [generatePco2Empty, List.append_assoc, List.append_assoc]
  refine isSection_of rfl ?_
  simp only [List.length_append, length_beBytes]

theorem length_pcobEntry (cue : CuePoint) : (pcobEntry cue).length = 24 := by
  simp [pcobEntry, PCP1_TAG]

theorem pcob_section (cuePoints : List CuePoint) :
    IsSection PCOB_TAG 24 (generatePcobSection cuePoints) := by
  have data : (cuePoints.flatMap pcobEntry).length = cuePoints.length * 24 :=
    length_flatMap_of_const (fun _ _ => length_pcobEntry _)
  rw [generatePcobSection, List.append_assoc, List.append_assoc, List.append_assoc,
    List.append_assoc]
  refine isSection_of rfl ?_
  simp only [List.length_append, length_beBytes, data, pcobEntrySize]
  omega

theorem emptyEntries {header : Nat} {marker t : Bytes} (size : t.length = header)
    (count : readBE t 18 2 = 0) : EntriesWalk header marker t := by
  refine ⟨by omega, [], ?_, ?_, fun e mem => nomatch mem⟩
  · rw [List.drop_eq_nil_of_le (by omega), records_nil]
  · rw [count, List.length_nil]

/-- What an extended entry's declared length has too much. -/
def overshoot (isHotCue : Bool) (cue : CuePoint) : Nat :=
  (if isHotCue then 12 else 4) - (if cue.comment.isSome then 1 else 0)

theorem length_pco2Entry (isHotCue : Bool) (cue : CuePoint) :
    pco2EntryLen isHotCue cue = (pco2Entry isHotCue cue).length + overshoot isHotCue cue := by
  cases isHotCue <;> cases h : cue.comment <;>
    simp [pco2EntryLen, pco2Entry, commentBytes, colorData, overshoot, h, PCP2_TAG] <;> omega

/-- Neither a tag nor an entry begins here. -/
def Misread (w : Bytes) : Prop :=
  (∀ marker ∈ PCP2_TAG :: knownTags, fourcc w ≠ marker) ∨ (lenTag w < 12 ∧ entryLen w < 8)

theorem markers_begin : ∀ marker ∈ PCP2_TAG :: knownTags,
    marker[0]? = some 0x50 ∧ marker[1]? ≠ some 0 := by
  decide

theorem misread_first {b : UInt8} {w : Bytes} (other : b ≠ 0x50) : Misread (b :: w) := by
  refine Or.inl (fun marker mem same => ?_)
  have first := (markers_begin marker mem).1
  rw [← same] at first
  exact other (Option.some.inj first)

theorem misread_second {b : UInt8} {w : Bytes} : Misread (b :: 0 :: w) := by
  refine Or.inl (fun marker mem same => ?_)
  have second := (markers_begin marker mem).2
  rw [← same] at second
  exact second rfl

theorem beBytes_four (n : Nat) : beBytes 4 n =
    [UInt8.ofNat (n / 256 / 256 / 256), UInt8.ofNat (n / 256 / 256), UInt8.ofNat (n / 256),
      UInt8.ofNat n] :=
  rfl

theorem beBytes_small {n : Nat} (small : n < 256) : beBytes 4 n = [0, 0, 0, UInt8.ofNat n] := by
  have zero : n / 256 = 0 := Nat.div_eq_of_lt small
  rw [beBytes_four, zero]
  rfl

/-- The first sixteen bytes of an extended entry. -/
theorem entry_front (isHotCue : Bool) (cue : CuePoint) : ∃ d₃ d₂ d₁ d₀ tail,
    pco2Entry isHotCue cue = [0x50, 0x43, 0x50, 0x32, d₃, d₂, d₁, d₀, 0, 0, 0, cue.hotCue,
      0, 0, 0, UInt8.ofNat (cueTypeByte cue.cueType)] ++ tail := by
  have kind : cueTypeByte cue.cueType < 256 := by
    cases cue.cueType <;> decide
  have slot : UInt8.ofNat cue.hotCue.toNat = cue.hotCue := UInt8.ofNat_toNat
  obtain ⟨d₃, d₂, d₁, d₀, word⟩ : ∃ d₃ d₂ d₁ d₀,
      beBytes 4 (pco2EntryLen isHotCue cue - 4) = [d₃, d₂, d₁, d₀] := ⟨_, _, _, _, beBytes_four _⟩
  refine ⟨d₃, d₂, d₁, d₀, beBytes 4 cue.timeMs.toUInt32.toNat ++ (beBytes 4 (loopEnd cue) ++
    (beBytes 4 0 ++ (List.replicate 8 0 ++ (commentBytes cue ++
      (if isHotCue then colorData cue else []))))), ?_⟩
  simp only [pco2Entry, beBytes_small kind, beBytes_small cue.hotCue.toNat_lt, slot, word, PCP2_TAG,
    List.append_assoc]
  rfl

/-- Overshooting into an entry of the same list. -/
theorem misread_entry {isHotCue : Bool} {cue other : CuePoint} (rest : Bytes)
    (memory : isHotCue = false → cue.hotCue = 0) :
    Misread ((pco2Entry isHotCue cue ++ rest).drop (overshoot isHotCue other)) := by
  obtain ⟨d₃, d₂, d₁, d₀, tail, front⟩ := entry_front isHotCue cue
  rw [front]
  cases isHotCue with
  | true =>
    cases commented : other.comment with
    | none =>
      simp only [overshoot, commented]
      exact misread_first (by decide)
    | some comment =>
      simp only [overshoot, commented]
      exact misread_second
  | false =>
    cases commented : other.comment with
    | none =>
      -- The declared length stands where a marker should, and may spell one.
      simp only [overshoot, commented]
      rw [memory rfl]
      refine Or.inr ⟨?_, ?_⟩
      · show beNat [0, 0, 0, UInt8.ofNat (cueTypeByte cue.cueType)] < 12
        cases cue.cueType <;> decide
      · show 4 + beNat [0, 0, 0, 0] < 8
        decide
    | some comment =>
      simp only [overshoot, commented]
      exact misread_first (by decide)

/-- The extended list or empty tag that follows a list is of type 0. -/
def BeginsMemoryList (w : Bytes) : Prop :=
  ∃ h l₃ l₂ l₁ l₀ tail, w = [0x50, 0x43, 0x4F, 0x32, 0, 0, 0, h, l₃, l₂, l₁, l₀, 0, 0, 0, 0] ++ tail

/-- Overshooting into the following tag. -/
theorem misread_next {isHotCue : Bool} {other : CuePoint} {w : Bytes} (next : BeginsMemoryList w) :
    Misread (w.drop (overshoot isHotCue other)) := by
  obtain ⟨h, l₃, l₂, l₁, l₀, tail, rfl⟩ := next
  cases isHotCue <;> cases commented : other.comment <;> simp only [overshoot, commented]
  · exact misread_first (by decide)
  · exact misread_first (by decide)
  · exact misread_first (by decide)
  · exact misread_second

theorem beginsMemoryList_empty (rest : Bytes) :
    BeginsMemoryList (generatePco2Empty 0 ++ rest) :=
  ⟨20, 0, 0, 0, 20, [0, 0, 0, 0] ++ rest, rfl⟩

theorem beginsMemoryList_entries (cues : List CuePoint) (rest : Bytes) :
    BeginsMemoryList (generatePco2Entries cues false ++ rest) := by
  obtain ⟨l₃, l₂, l₁, l₀, word⟩ : ∃ l₃ l₂ l₁ l₀,
      beBytes 4 (20 + (cues.map (pco2EntryLen false)).sum) = [l₃, l₂, l₁, l₀] :=
    ⟨_, _, _, _, beBytes_four _⟩
  refine ⟨16, l₃, l₂, l₁, l₀, beBytes 2 0 ++ (beBytes 2 cues.length ++
    (cues.flatMap (pco2Entry false) ++ rest)), ?_⟩
  simp only [generatePco2Entries, tagHeader, word, List.append_assoc]
  rfl

theorem slice_take {w : Bytes} {k off n : Nat} (inside : off + n ≤ k) :
    slice (w.take k) off n = slice w off n := by
  have whole := @slice_slice w 0 k off n inside
  rwa [Nat.zero_add] at whole

theorem fourcc_take {w : Bytes} {k : Nat} (long : 4 ≤ k) : fourcc (w.take k) = fourcc w := by
  rw [fourcc, List.take_take, Nat.min_eq_left long, fourcc]

/-- The walk over tags stops where no tag begins. -/
theorem tags_stop {w : Bytes} {ts : List Bytes} (more : w ≠ [])
    (wrong : fourcc w ∉ knownTags ∨ lenTag w < 12) (read : records 12 lenTag w = some ts)
    (known : ∀ t ∈ ts, fourcc t ∈ knownTags) : False := by
  obtain ⟨rest, rfl, long, _, _⟩ := records_first (by decide) more read
  rcases wrong with unknown | short
  · have first := known _ List.mem_cons_self
    rw [fourcc_take (by omega)] at first
    exact unknown first
  · omega

/-- The walk over entries stops where no entry begins. -/
theorem entries_stop {w : Bytes} {k : Nat} {es : List Bytes} (more : w.take k ≠ [])
    (misread : Misread w) (read : records 8 entryLen (w.take k) = some es)
    (marked : ∀ e ∈ es, fourcc e = PCP2_TAG) : False := by
  obtain ⟨rest, rfl, long, fits, _⟩ := records_first (by decide) more read
  have room : 8 ≤ k := by
    rw [List.length_take] at fits
    omega
  have len : entryLen (w.take k) = entryLen w := by
    rw [entryLen, entryLen, readBE, readBE, slice_take room]
  rcases misread with unknown | ⟨_, short⟩
  · have first := marked _ List.mem_cons_self
    rw [fourcc_take (by omega), fourcc_take (by omega)] at first
    exact unknown PCP2_TAG List.mem_cons_self first
  · omega

theorem Misread.no_tag {w : Bytes} (misread : Misread w) :
    fourcc w ∉ knownTags ∨ lenTag w < 12 := by
  rcases misread with unknown | ⟨short, _⟩
  · exact Or.inl (fun mem => unknown _ (List.mem_cons_of_mem _ mem) rfl)
  · exact Or.inr short

/-- The twenty bytes in front of the entries of a list. -/
theorem pco2Entries_written (cues : List CuePoint) (isHotCue : Bool) : ∃ front,
    front.length = 20 ∧ fourcc front = PCO2_TAG ∧
      generatePco2Entries cues isHotCue = front ++ cues.flatMap (pco2Entry isHotCue) := by
  refine ⟨_, ?_, ?_, rfl⟩
  · have header := fun len => @length_tagHeader PCO2_TAG rfl 16 len
    simp only [List.length_append, length_beBytes, header]
  · rw [List.append_assoc, List.append_assoc, fourcc_tagHeader rfl]

theorem overshoot_le (isHotCue : Bool) (cue : CuePoint) : overshoot isHotCue cue ≤ 12 := by
  rw [overshoot]
  split <;> omega

/-- The length field of an entry, whatever follows. -/
theorem entryLen_pco2Entry {isHotCue : Bool} {cue : CuePoint} {rest : Bytes}
    (fits : (pco2Entry isHotCue cue).length + 12 < 2 ^ 32) :
    entryLen (pco2Entry isHotCue cue ++ rest) =
      (pco2Entry isHotCue cue).length + overshoot isHotCue cue := by
  have declared := length_pco2Entry isHotCue cue
  have bound := overshoot_le isHotCue cue
  have four : 4 ≤ pco2EntryLen isHotCue cue := by
    cases isHotCue with
    | true => exact Nat.le_trans (by decide) (Nat.le_add_right 56 _)
    | false => exact Nat.le_trans (by decide) (Nat.le_add_right 40 _)
  have field : readBE (pco2Entry isHotCue cue ++ rest) 4 4 = pco2EntryLen isHotCue cue - 4 := by
    simp only [pco2Entry, List.append_assoc]
    rw [readBE_skip (by decide)]
    show readBE (beBytes 4 (pco2EntryLen isHotCue cue - 4) ++ _) 0 4 = _
    rw [readBE_front, Nat.mod_eq_of_lt (by omega)]
  rw [entryLen, field]
  omega

/-- What stands behind an entry by its own length field. -/
theorem drop_entry (isHotCue : Bool) (cue : CuePoint) (text : Bytes) :
    (pco2Entry isHotCue cue ++ text).drop
      ((pco2Entry isHotCue cue).length + overshoot isHotCue cue) =
      text.drop (overshoot isHotCue cue) := by
  rw [← List.drop_drop, List.drop_left]

/-- A walk over entries from the first one on ends behind it, where no entry begins. -/
theorem entries_end {isHotCue : Bool} {cue : CuePoint} {text : Bytes} {k : Nat} {es : List Bytes}
    (fits : (pco2Entry isHotCue cue).length + 12 < 2 ^ 32) (more : 0 < k)
    (remains : text.drop (overshoot isHotCue cue) ≠ [])
    (misread : Misread (text.drop (overshoot isHotCue cue)))
    (read : records 8 entryLen ((pco2Entry isHotCue cue ++ text).take k) = some es)
    (marked : ∀ e ∈ es, fourcc e = PCP2_TAG) :
    k = (pco2Entry isHotCue cue).length + overshoot isHotCue cue := by
  obtain ⟨d₃, d₂, d₁, d₀, tail, begin⟩ := entry_front isHotCue cue
  have some_entry : (pco2Entry isHotCue cue ++ text).take k ≠ [] := by
    rw [begin]
    apply List.ne_nil_of_length_pos
    simp
    omega
  obtain ⟨rest, rfl, eight, ends, left⟩ := records_first (by decide) some_entry read
  have eightRoom : 8 ≤ k := by
    rw [List.length_take] at ends
    omega
  have sameLen : entryLen ((pco2Entry isHotCue cue ++ text).take k) =
      (pco2Entry isHotCue cue).length + overshoot isHotCue cue := by
    rw [entryLen, readBE, slice_take eightRoom, ← readBE, ← entryLen, entryLen_pco2Entry fits]
  rw [sameLen] at ends
  rw [sameLen, List.drop_take, drop_entry] at left
  rw [List.length_take] at ends
  by_contra further
  refine entries_stop ?_ misread left (fun e mem => marked e (List.mem_cons_of_mem _ mem))
  apply List.ne_nil_of_length_pos
  have behind := List.length_pos_of_ne_nil remains
  rw [List.length_take]
  omega

/-- What stands behind the first entry is misread where the entry overshoots to. -/
theorem misread_behind_first {cues : List CuePoint} {isHotCue : Bool} {next : Bytes}
    (memory : isHotCue = false → ∀ c ∈ cues, c.hotCue = 0) (follows : BeginsMemoryList next)
    (cue : CuePoint) :
    16 ≤ (cues.flatMap (pco2Entry isHotCue) ++ next).length ∧
      Misread ((cues.flatMap (pco2Entry isHotCue) ++ next).drop (overshoot isHotCue cue)) := by
  constructor
  · obtain ⟨h, l₃, l₂, l₁, l₀, tail, rfl⟩ := follows
    simp
    omega
  · cases cues with
    | nil => exact misread_next follows
    | cons second others =>
      rw [List.flatMap_cons, List.append_assoc]
      exact misread_entry _ (fun kind => memory kind second List.mem_cons_self)

theorem entries_break_walk {cues : List CuePoint} {isHotCue : Bool} {next : Bytes}
    {ts : List Bytes} (nonempty : cues ≠ [])
    (memory : isHotCue = false → ∀ c ∈ cues, c.hotCue = 0) (follows : BeginsMemoryList next)
    (fits : (generatePco2Entries cues isHotCue ++ next).length < 2 ^ 32)
    (read : records 12 lenTag (generatePco2Entries cues isHotCue ++ next) = some ts)
    (known : ∀ t ∈ ts, fourcc t ∈ knownTags)
    (inner : ∀ t ∈ ts, fourcc t = PCO2_TAG → EntriesWalk 20 PCP2_TAG t) : False := by
  obtain ⟨cue, cues, rfl⟩ := List.exists_cons_of_ne_nil nonempty
  obtain ⟨front, twenty, name, written⟩ := pco2Entries_written (cue :: cues) isHotCue
  obtain ⟨long, misread⟩ := misread_behind_first
    (fun kind c mem => memory kind c (List.mem_cons_of_mem _ mem)) follows cue
  -- Behind the header stands the first entry, and behind it the text that is overshot.
  generalize overshot : cues.flatMap (pco2Entry isHotCue) ++ next = text at long misread
  have whole : generatePco2Entries (cue :: cues) isHotCue ++ next =
      front ++ (pco2Entry isHotCue cue ++ text) := by
    rw [written, List.flatMap_cons, ← overshot, List.append_assoc, List.append_assoc]
  have bound := overshoot_le isHotCue cue
  have remains : text.drop (overshoot isHotCue cue) ≠ [] := by
    apply List.ne_nil_of_length_pos
    rw [List.length_drop]
    omega
  rw [whole] at fits read
  simp only [List.length_append, twenty] at fits
  have some_tag : front ++ (pco2Entry isHotCue cue ++ text) ≠ [] := by
    apply List.ne_nil_of_length_pos
    rw [List.length_append]
    omega
  obtain ⟨rest, rfl, minimum, inside, behind⟩ := records_first (by decide) some_tag read
  generalize lenTag (front ++ (pco2Entry isHotCue cue ++ text)) = n
    at minimum inside behind known inner
  have shown : fourcc ((front ++ (pco2Entry isHotCue cue ++ text)).take n) = PCO2_TAG := by
    rw [fourcc_take (by omega), fourcc, List.take_append_of_le_length (by omega)]
    exact name
  obtain ⟨header, es, entries, _, marked⟩ := inner _ List.mem_cons_self shown
  have room : 20 ≤ n := by
    rw [List.length_take] at header
    omega
  have afterHeader : ∀ k, 20 ≤ k → (front ++ (pco2Entry isHotCue cue ++ text)).drop k =
      (pco2Entry isHotCue cue ++ text).drop (k - 20) := by
    intro k large
    rw [List.drop_append, List.drop_eq_nil_of_le (by omega), List.nil_append, twenty]
  have others := fun t mem => known t (List.mem_cons_of_mem _ mem)
  rw [List.drop_take, afterHeader 20 (by omega), Nat.sub_self, List.drop_zero] at entries
  rw [afterHeader n room] at behind
  by_cases bare : n = 20
  · -- A length that wrapped to the header's: the next tag would be an entry marker.
    rw [bare, Nat.sub_self, List.drop_zero] at behind
    obtain ⟨d₃, d₂, d₁, d₀, tail, begin⟩ := entry_front isHotCue cue
    rw [begin] at behind
    have marker : PCP2_TAG ∉ knownTags := by decide
    refine tags_stop (by simp) (Or.inl ?_) behind others
    exact marker
  · have last := entries_end (by omega) (by omega : 0 < n - 20) remains misread entries marked
    rw [last, drop_entry] at behind
    exact tags_stop remains misread.no_tag behind others

theorem mem_memoryCues {cuePoints : List CuePoint} {cue : CuePoint}
    (mem : cue ∈ memoryCues cuePoints) : cue.hotCue = 0 := by
  simpa using (List.mem_filter.mp mem).2

/-- Every cue is a hot cue or a memory cue. -/
theorem some_kind {cuePoints : List CuePoint} (some_cue : cuePoints ≠ [])
    (cold : hotCues cuePoints = []) : memoryCues cuePoints ≠ [] := by
  intro none
  obtain ⟨cue, cues, rfl⟩ := List.exists_cons_of_ne_nil some_cue
  have notHot := List.filter_eq_nil_iff.mp cold cue List.mem_cons_self
  have notMemory := List.filter_eq_nil_iff.mp none cue List.mem_cons_self
  simp only [decide_eq_true_eq] at notHot notMemory
  have zero : ¬ 0 < cue.hotCue.toNat := fun pos => notHot (UInt8.lt_iff_toNat_lt.mpr pos)
  exact notMemory (UInt8.toNat_inj.mp (by simpa using zero))

/-- Some cues put a list in front of a tag of type 0. -/
theorem pco2Section_parts {cuePoints : List CuePoint} (some_cue : cuePoints ≠ []) (rest : Bytes) :
    ∃ cues isHotCue next, cues ≠ [] ∧ (isHotCue = false → ∀ c ∈ cues, c.hotCue = 0) ∧
      BeginsMemoryList next ∧ generatePco2Section cuePoints ++ (generatePco2Empty 0 ++ rest) =
        generatePco2Entries cues isHotCue ++ next := by
  by_cases cold : hotCues cuePoints = []
  · refine ⟨memoryCues cuePoints, false, generatePco2Empty 0 ++ rest, some_kind some_cue cold,
      fun _ c mem => mem_memoryCues mem, beginsMemoryList_empty rest, ?_⟩
    rw [generatePco2Section, if_pos cold, if_neg (some_kind some_cue cold), List.nil_append]
  · by_cases only : memoryCues cuePoints = []
    · refine ⟨hotCues cuePoints, true, generatePco2Empty 0 ++ rest, cold,
        fun kind => Bool.noConfusion kind, beginsMemoryList_empty rest, ?_⟩
      rw [generatePco2Section, if_neg cold, if_pos only, List.append_nil]
    · refine ⟨hotCues cuePoints, true, generatePco2Entries (memoryCues cuePoints) false ++
        (generatePco2Empty 0 ++ rest), cold, fun kind => Bool.noConfusion kind,
        beginsMemoryList_entries _ _, ?_⟩
      rw [generatePco2Section, if_neg cold, if_neg only, List.append_assoc]

/-- The sections behind the file header when there are cues. -/
theorem extFile_written {waveform : Waveform} {filePath : String} {cuePoints : List CuePoint}
    (some_cue : cuePoints ≠ []) : generateExtFile waveform filePath cuePoints =
      anlzFile ([generatePpthSection filePath, generatePwv3Section waveform.detail,
        generatePcobSection cuePoints, generatePcobEmpty 0] ++
          [generatePco2Section cuePoints, generatePco2Empty 0,
            generatePwv5Section waveform.detail, generatePwv4Section waveform.colorPreview]) := by
  have shown : cuePoints.isEmpty = false := by
    simpa using some_cue
  simp only [generateExtFile, shown, Bool.false_eq_true, if_false, List.cons_append,
    List.nil_append]

theorem not_extWalks {waveform : Waveform} {filePath : String} {cuePoints : List CuePoint}
    (fits : (generateExtFile waveform filePath cuePoints).length < 2 ^ 32)
    (some_cue : cuePoints ≠ []) : ¬ ExtWalks (generateExtFile waveform filePath cuePoints) := by
  rintro ⟨_, ts, read, known, _, inner⟩
  obtain ⟨cues, isHotCue, next, nonempty, memory, follows, parts⟩ := pco2Section_parts some_cue
    (generatePwv5Section waveform.detail ++ generatePwv4Section waveform.colorPreview)
  rw [extFile_written some_cue] at fits read
  -- The walk gets past the path, the waveform and both basic lists.
  obtain ⟨rest, rfl, left⟩ := tagsOf_behind fits (by
    simp only [List.forall_mem_cons]
    exact ⟨⟨_, _, ppth_section filePath⟩, ⟨_, _, pwv3_section waveform.detail⟩,
      ⟨_, _, pcob_section cuePoints⟩, ⟨_, _, pcobEmpty_section 0⟩, fun t none => nomatch none⟩) read
  have tail : [generatePco2Section cuePoints, generatePco2Empty 0,
      generatePwv5Section waveform.detail, generatePwv4Section waveform.colorPreview].flatten =
      generatePco2Entries cues isHotCue ++ next := by
    rw [← parts]
    simp only [List.flatten_cons, List.flatten_nil, List.append_nil]
  have total := congrArg List.length (drop_anlzFile ([generatePpthSection filePath,
    generatePwv3Section waveform.detail, generatePcobSection cuePoints, generatePcobEmpty 0] ++
      [generatePco2Section cuePoints, generatePco2Empty 0,
        generatePwv5Section waveform.detail, generatePwv4Section waveform.colorPreview]))
  rw [List.flatten_append, tail, List.length_drop, List.length_append] at total
  rw [tail] at left
  exact entries_break_walk nonempty memory follows (by omega) left
    (fun t mem => known t (List.mem_append_right _ mem))
    (fun t mem => inner t (List.mem_append_right _ mem))

theorem extWalks_without_cues {waveform : Waveform} {filePath : String}
    (fits : (generateExtFile waveform filePath []).length < 2 ^ 32) :
    ExtWalks (generateExtFile waveform filePath []) := by
  have ppth := (ppth_section filePath).fourcc_eq
  have pwv3 := (pwv3_section waveform.detail).fourcc_eq
  have pcob := fun kind => (pcobEmpty_section kind).fourcc_eq
  have pco2 := fun kind => (pco2Empty_section kind).fourcc_eq
  have pwv5 := (pwv5_section waveform.detail).fourcc_eq
  have pwv4 := (pwv4_section waveform.colorPreview).fourcc_eq
  simp only [generateExtFile, List.isEmpty_nil, if_true] at fits ⊢
  refine ⟨lenFile_anlzFile fits, _, tagsOf_anlzFile fits ?_, ?_, ?_, ?_⟩
  · intro s mem
    simp only [List.mem_cons, List.not_mem_nil, or_false] at mem
    rcases mem with rfl | rfl | rfl | rfl | rfl | rfl | rfl | rfl
    · exact ⟨_, _, ppth_section filePath⟩
    · exact ⟨_, _, pwv3_section waveform.detail⟩
    · exact ⟨_, _, pcobEmpty_section 1⟩
    · exact ⟨_, _, pcobEmpty_section 0⟩
    · exact ⟨_, _, pco2Empty_section 1⟩
    · exact ⟨_, _, pco2Empty_section 0⟩
    · exact ⟨_, _, pwv5_section waveform.detail⟩
    · exact ⟨_, _, pwv4_section waveform.colorPreview⟩
  · simp only [List.forall_mem_cons, ppth, pwv3, pcob, pco2, pwv5, pwv4]
    decide
  · simp only [List.forall_mem_cons, ppth, pwv3, pcob, pco2, pwv5, pwv4]
    exact ⟨fun other => absurd other (by decide), fun other => absurd other (by decide),
      fun _ => emptyEntries rfl rfl, fun _ => emptyEntries rfl rfl,
      fun other => absurd other (by decide), fun other => absurd other (by decide),
      fun other => absurd other (by decide), fun other => absurd other (by decide),
      fun t none => nomatch none⟩
  · simp only [List.forall_mem_cons, ppth, pwv3, pcob, pco2, pwv5, pwv4]
    exact ⟨fun other => absurd other (by decide), fun other => absurd other (by decide),
      fun other => absurd other (by decide), fun other => absurd other (by decide),
      fun _ => emptyEntries rfl rfl, fun _ => emptyEntries rfl rfl,
      fun other => absurd other (by decide), fun other => absurd other (by decide),
      fun t none => nomatch none⟩

/-- The file can be walked by its lengths exactly when there is no cue. -/
theorem ext_walks_iff_no_cues {waveform : Waveform} {filePath : String}
    {cuePoints : List CuePoint}
    (fits : (generateExtFile waveform filePath cuePoints).length < 2 ^ 32) :
    ExtWalks (generateExtFile waveform filePath cuePoints) ↔ cuePoints = [] := by
  constructor
  · intro walks
    by_contra some_cue
    exact not_extWalks fits some_cue walks
  · rintro rfl
    exact extWalks_without_cues fits

/-- A hot cue and the default waveform, as in the test of the generator. -/
def hotCueA : CuePoint := ⟨1, .cue, 1000.0, 0.0, none, none⟩

def noWaveform : Waveform := ⟨[], [], []⟩

theorem noCues_walks : ExtWalks (generateExtFile noWaveform "/Contents/test.mp3" []) := by
  refine (ext_walks_iff_no_cues ?_).mpr rfl
  decide +kernel

theorem hotCueA_breaks_walk :
    ¬ ((generateExtFile noWaveform "/Contents/test.mp3" [hotCueA]).length < 2 ^ 32 →
      ExtWalks (generateExtFile noWaveform "/Contents/test.mp3" [hotCueA])) := by
  have fits : (generateExtFile noWaveform "/Contents/test.mp3" [hotCueA]).length < 2 ^ 32 := by
    decide +kernel
  intro walks
  exact not_extWalks fits (by simp) (walks fits)

/-- The kinds of a basic entry. -/
def basicKind : Nat → Option CueType
  | 0 => some .cue
  | 1 => some .fadeIn
  | 2 => some .fadeOut
  | 3 => some .load
  | 4 => some .loop
  | _ => none

/-- The kinds of an extended entry. -/
def extendedKind : Nat → Option CueType
  | 1 => some .cue
  | 2 => some .loop
  | 3 => some .fadeIn
  | 4 => some .fadeOut
  | 5 => some .load
  | _ => none

/-- An entry that reads as a cue: behind its marker and a length stand the number, the kind, the
time in milliseconds and the end of the loop, `0xFFFFFFFF` if there is none. -/
structure ReadsAs (marker : Bytes) (kindOf : Nat → Option CueType) (cue : CuePoint) (e : Bytes) :
    Prop where
  marker : fourcc e = marker
  hotCue : readBE e 8 4 = cue.hotCue.toNat
  kind : kindOf (readBE e 12 4) = some cue.cueType
  time : readBE e 16 4 = cue.timeMs.toUInt32.toNat
  loop : cue.loopMs > 0.0 → readBE e 20 4 = (cue.timeMs + cue.loopMs).toUInt32.toNat
  single : ¬ cue.loopMs > 0.0 → readBE e 20 4 = 0xFFFFFFFF

/-- A basic entry takes up 24 bytes. -/
structure BasicEntry (cue : CuePoint) (e : Bytes) : Prop extends
    ReadsAs PCP1_TAG basicKind cue e where
  size : e.length = 24

/-- An extended entry goes on with the colour of a memory cue, padding, the comment with its
length and its terminator, and the eight bytes of a hot cue's colour. -/
structure ExtendedEntry (hot : Bool) (cue : CuePoint) (e : Bytes) : Prop extends
    ReadsAs PCP2_TAG extendedKind cue e where
  size : e.length = 36 + (cue.comment.elim 0 (fun text => 4 + (utf8 text).length + 1)) +
    if hot then 8 else 0
  comment : ∀ text, cue.comment = some text → slice e 40 (utf8 text).length = utf8 text

/-- A basic list of one type that is read as exactly these cues, in order. -/
structure BasicList (cueType : Nat) (cues : List CuePoint) (t : Bytes) : Prop where
  name : fourcc t = PCOB_TAG
  long : 24 ≤ t.length
  typeField : readBE t 12 4 = cueType
  count : readBE t 18 2 = cues.length
  entries : ∃ es : List Bytes, t.drop 24 = es.flatten ∧ List.Forall₂ BasicEntry cues es

/-- An extended list of one type that is read as exactly these cues, in order. The source gives
two places for the count: at 16 in an empty list, at 18 in front of entries. -/
structure ExtendedList (cueType : Nat) (cues : List CuePoint) (t : Bytes) : Prop where
  name : fourcc t = PCO2_TAG
  long : 20 ≤ t.length
  typeField : readBE t 12 4 = cueType
  count : readBE t 16 2 = cues.length ∨ readBE t 18 2 = cues.length
  entries : ∃ es : List Bytes, t.drop 20 = es.flatten ∧
    List.Forall₂ (ExtendedEntry (cueType = 1)) cues es

/-- The tags behind the file header. -/
def extSequence : List Bytes :=
  [PPTH_TAG, PWV3_TAG, PCOB_TAG, PCOB_TAG, PCO2_TAG, PCO2_TAG, PWV5_TAG, PWV4_TAG]

/-- The documented sequence PPTH PWV3 PCOB PCOB PCO2 PCO2 PWV5 PWV4 behind the file header, with
the hot cues and then the memory cues in either pair. -/
def DocumentedSequence (waveform : Waveform) (filePath : String) (cuePoints : List CuePoint)
    (file : Bytes) : Prop :=
  ∃ header pcobHot pcobMem pco2Hot pco2Mem sections, header.length = 28 ∧
    fourcc header = PMAI_TAG ∧ file = header ++ sections.flatten ∧
    sections = [generatePpthSection filePath, generatePwv3Section waveform.detail, pcobHot,
      pcobMem, pco2Hot, pco2Mem, generatePwv5Section waveform.detail,
      generatePwv4Section waveform.colorPreview] ∧ sections.map fourcc = extSequence ∧
    BasicList 1 (hotCues cuePoints) pcobHot ∧ BasicList 0 (memoryCues cuePoints) pcobMem ∧
    ExtendedList 1 (hotCues cuePoints) pco2Hot ∧ ExtendedList 0 (memoryCues cuePoints) pco2Mem

theorem basicList_empty : ∀ cueType < 2, BasicList cueType [] (generatePcobEmpty cueType) := by
  intro cueType small
  obtain rfl | rfl : cueType = 0 ∨ cueType = 1 := by omega
  · exact ⟨rfl, by decide, by decide, rfl, [], rfl, .nil⟩
  · exact ⟨rfl, by decide, by decide, rfl, [], rfl, .nil⟩

theorem extendedList_empty : ∀ cueType < 2,
    ExtendedList cueType [] (generatePco2Empty cueType) := by
  intro cueType small
  obtain rfl | rfl : cueType = 0 ∨ cueType = 1 := by omega
  · exact ⟨rfl, by decide, by decide, Or.inl rfl, [], rfl, .nil⟩
  · exact ⟨rfl, by decide, by decide, Or.inl rfl, [], rfl, .nil⟩

theorem basicKind_pcobStatus (kind : CueType) : basicKind (pcobStatus kind) = some kind := by
  cases kind <;> rfl

theorem extendedKind_cueTypeByte (kind : CueType) :
    extendedKind (cueTypeByte kind) = some kind := by
  cases kind <;> rfl

/-- Words of four bytes behind a marker are read back, whatever follows. -/
theorem readsAs_words {marker rest : Bytes} {kindOf : Nat → Option CueType} {len kind : Nat}
    {cue : CuePoint} (four : marker.length = 4) (small : kind < 256 ^ 4)
    (decoded : kindOf kind = some cue.cueType) :
    ReadsAs marker kindOf cue (marker ++ (beBytes 4 len ++ (beBytes 4 cue.hotCue.toNat ++
      (beBytes 4 kind ++ (beBytes 4 cue.timeMs.toUInt32.toNat ++
        (beBytes 4 (loopEnd cue) ++ rest)))))) := by
  have behind : ∀ (k : Nat) (body : Bytes), readBE (marker ++ body) (4 + k) 4 = readBE body k 4 := by
    intro k body
    rw [readBE_skip (by omega), four, Nat.add_sub_cancel_left]
  have number : cue.hotCue.toNat < 256 ^ 4 := by
    have byte := cue.hotCue.toNat_lt
    omega
  have time : cue.timeMs.toUInt32.toNat < 256 ^ 4 := cue.timeMs.toUInt32.toNat_lt
  have loop : loopEnd cue < 256 ^ 4 := by
    rw [loopEnd]
    split
    · exact (cue.timeMs + cue.loopMs).toUInt32.toNat_lt
    · decide
  have word : ∀ (n : Nat) (body : Bytes), n < 256 ^ 4 → readBE (beBytes 4 n ++ body) 0 4 = n := by
    intro n body fits
    rw [readBE_front, Nat.mod_eq_of_lt fits]
  have loopWord : readBE (marker ++ (beBytes 4 len ++ (beBytes 4 cue.hotCue.toNat ++
      (beBytes 4 kind ++ (beBytes 4 cue.timeMs.toUInt32.toNat ++
        (beBytes 4 (loopEnd cue) ++ rest)))))) 20 4 = loopEnd cue :=
    (behind 16 _).trans ((readBE_next 4 _ _ 12 4).trans ((readBE_next 4 _ _ 8 4).trans
      ((readBE_next 4 _ _ 4 4).trans ((readBE_next 4 _ _ 0 4).trans (word _ _ loop)))))
  constructor
  · rw [fourcc, ← four, List.take_left]
  · exact (behind 4 _).trans ((readBE_next 4 _ _ 0 4).trans (word _ _ number))
  · rw [show readBE _ 12 4 = kind from (behind 8 _).trans ((readBE_next 4 _ _ 4 4).trans
      ((readBE_next 4 _ _ 0 4).trans (word _ _ small)))]
    exact decoded
  · exact (behind 12 _).trans ((readBE_next 4 _ _ 8 4).trans ((readBE_next 4 _ _ 4 4).trans
      ((readBE_next 4 _ _ 0 4).trans (word _ _ time))))
  · intro looped
    rw [loopWord, loopEnd, if_pos looped]
  · intro single
    rw [loopWord, loopEnd, if_neg single]

theorem basicEntry_pcobEntry (cue : CuePoint) : BasicEntry cue (pcobEntry cue) := by
  have small : pcobStatus cue.cueType < 256 ^ 4 := by
    cases cue.cueType <;> decide
  have words := @readsAs_words PCP1_TAG [] basicKind (pcobEntrySize - 4) _ cue rfl small
    (basicKind_pcobStatus cue.cueType)
  refine ⟨?_, length_pcobEntry cue⟩
  simpa only [pcobEntry, List.append_assoc, List.append_nil] using words

theorem extendedEntry_pco2Entry (hot : Bool) (cue : CuePoint) :
    ExtendedEntry hot cue (pco2Entry hot cue) := by
  have small : cueTypeByte cue.cueType < 256 ^ 4 := by
    cases cue.cueType <;> decide
  have words := @readsAs_words PCP2_TAG (beBytes 4 0 ++ (List.replicate 8 0 ++ (commentBytes cue ++
    (if hot then colorData cue else [])))) extendedKind (pco2EntryLen hot cue - 4) _ cue rfl small
    (extendedKind_cueTypeByte cue.cueType)
  refine ⟨?_, ?_, ?_⟩
  · simpa only [pco2Entry, List.append_assoc] using words
  · cases hot <;> cases commented : cue.comment <;>
      simp [pco2Entry, commentBytes, colorData, commented, PCP2_TAG] <;> omega
  · intro text commented
    have front : (PCP2_TAG ++ beBytes 4 (pco2EntryLen hot cue - 4) ++ beBytes 4 cue.hotCue.toNat ++
        beBytes 4 (cueTypeByte cue.cueType) ++ beBytes 4 cue.timeMs.toUInt32.toNat ++
        beBytes 4 (loopEnd cue) ++ beBytes 4 0 ++ List.replicate 8 0 ++
        beBytes 4 ((utf8 text).length + 1)).length = 40 := by
      simp [PCP2_TAG]
    have parts : pco2Entry hot cue = (PCP2_TAG ++ beBytes 4 (pco2EntryLen hot cue - 4) ++
        beBytes 4 cue.hotCue.toNat ++ beBytes 4 (cueTypeByte cue.cueType) ++
        beBytes 4 cue.timeMs.toUInt32.toNat ++ beBytes 4 (loopEnd cue) ++ beBytes 4 0 ++
        List.replicate 8 0 ++ beBytes 4 ((utf8 text).length + 1)) ++
        (utf8 text ++ ([0] ++ (if hot then colorData cue else []))) := by
      simp only [pco2Entry, commentBytes, commented, List.append_assoc]
    rw [parts, slice_append_right (by omega), front]
    exact (slice_append_left (by omega)).trans (slice_all _)

/-- The entries of a list, each for its cue. -/
theorem entries_of_each {R : CuePoint → Bytes → Prop} {entry : CuePoint → Bytes}
    (each : ∀ cue, R cue (entry cue)) (cues : List CuePoint) :
    ∃ es : List Bytes, cues.flatMap entry = es.flatten ∧ List.Forall₂ R cues es := by
  refine ⟨cues.map entry, List.flatMap_def, ?_⟩
  rw [List.forall₂_map_right_iff, List.forall₂_same]
  exact fun cue _ => each cue

/-- The count of a basic list is that of all cues. -/
theorem pcobSection_count {cuePoints : List CuePoint} (few : cuePoints.length < 65536)
    (rest : Bytes) : readBE (generatePcobSection cuePoints ++ rest) 18 2 = cuePoints.length := by
  have word := readBE_front 2 cuePoints.length
    (beBytes 4 0xffffffff ++ (cuePoints.flatMap pcobEntry ++ rest))
  rw [Nat.mod_eq_of_lt (show _ < 256 ^ 2 from few)] at word
  simp only [generatePcobSection, List.append_assoc]
  exact (readBE_body rfl 24 _ _ (4 + (2 + 0)) 2).trans
    ((readBE_next 4 1 _ (2 + 0) 2).trans ((readBE_next 2 0 _ 0 2).trans word))

theorem basicList_section {cuePoints : List CuePoint} (few : cuePoints.length < 65536) :
    BasicList 1 cuePoints (generatePcobSection cuePoints) := by
  have count := pcobSection_count few []
  have header := fun len => @length_tagHeader PCOB_TAG rfl 24 len
  have size : (generatePcobSection cuePoints).length =
      24 + (cuePoints.flatMap pcobEntry).length := by
    simp only [generatePcobSection, List.length_append, length_beBytes, header]
  rw [List.append_nil] at count
  obtain ⟨es, entries, each⟩ := entries_of_each basicEntry_pcobEntry cuePoints
  refine ⟨(pcob_section cuePoints).fourcc_eq, by omega, ?_, count, es, ?_, each⟩
  · simp only [generatePcobSection, List.append_assoc]
    exact (readBE_body rfl 24 _ _ 0 4).trans (readBE_front 4 1 _)
  · rw [generatePcobSection, ← entries]
    refine List.drop_left' ?_
    simp only [List.length_append, length_beBytes, header]

theorem extendedList_entries {cues : List CuePoint} (few : cues.length < 65536) :
    ExtendedList 1 cues (generatePco2Entries cues true) := by
  have word := readBE_front 2 cues.length (cues.flatMap (pco2Entry true))
  rw [Nat.mod_eq_of_lt (show _ < 256 ^ 2 from few)] at word
  obtain ⟨front, twenty, name, written⟩ := pco2Entries_written cues true
  obtain ⟨es, entries, each⟩ := entries_of_each (extendedEntry_pco2Entry true) cues
  refine ⟨?_, ?_, ?_, Or.inr ?_, es, ?_, each⟩
  · rw [written, fourcc, List.take_append_of_le_length (by omega)]
    exact name
  · rw [written, List.length_append]
    omega
  · simp only [generatePco2Entries, List.append_assoc]
    exact (readBE_body rfl 16 _ _ 0 4).trans (readBE_front 4 1 _)
  · simp only [generatePco2Entries, List.append_assoc]
    exact (readBE_body rfl 16 _ _ (4 + (2 + 0)) 2).trans
      ((readBE_next 4 1 _ (2 + 0) 2).trans ((readBE_next 2 0 _ 0 2).trans word))
  · rw [written, ← entries]
    exact List.drop_left' twenty

/-- Without memory cues the lists are told apart. -/
theorem documentedSequence_of_hot {waveform : Waveform} {filePath : String}
    {cuePoints : List CuePoint} (few : cuePoints.length < 65536)
    (hot : ∀ c ∈ cuePoints, 0 < c.hotCue) :
    DocumentedSequence waveform filePath cuePoints
      (generateExtFile waveform filePath cuePoints) := by
  have same : hotCues cuePoints = cuePoints :=
    List.filter_eq_self.mpr (fun c mem => decide_eq_true (hot c mem))
  have none : memoryCues cuePoints = [] := by
    refine List.filter_eq_nil_iff.mpr (fun c mem zero => ?_)
    have pos := hot c mem
    rw [of_decide_eq_true zero] at pos
    exact absurd pos (by decide)
  have names : ∀ {pcobHot pco2Hot : Bytes}, BasicList 1 cuePoints pcobHot →
      ExtendedList 1 cuePoints pco2Hot → [generatePpthSection filePath,
        generatePwv3Section waveform.detail, pcobHot, generatePcobEmpty 0, pco2Hot,
        generatePco2Empty 0, generatePwv5Section waveform.detail,
        generatePwv4Section waveform.colorPreview].map fourcc = extSequence := by
    intro pcobHot pco2Hot basic extended
    simp only [List.map_cons, List.map_nil, (ppth_section filePath).fourcc_eq,
      (pwv3_section waveform.detail).fourcc_eq, basic.name, (pcobEmpty_section 0).fourcc_eq,
      extended.name, (pco2Empty_section 0).fourcc_eq, (pwv5_section waveform.detail).fourcc_eq,
      (pwv4_section waveform.colorPreview).fourcc_eq, extSequence]
  by_cases some_cue : cuePoints = []
  · subst some_cue
    exact ⟨_, _, _, _, _, _, length_writePmaiHeader _, rfl, rfl, rfl,
      names (basicList_empty 1 (by decide)) (extendedList_empty 1 (by decide)),
      basicList_empty 1 (by decide), basicList_empty 0 (by decide),
      extendedList_empty 1 (by decide), extendedList_empty 0 (by decide)⟩
  · have extended : generatePco2Section cuePoints = generatePco2Entries cuePoints true := by
      rw [generatePco2Section, same, none, if_neg some_cue, if_pos rfl, List.append_nil]
    rw [DocumentedSequence, same, none, extFile_written some_cue, extended]
    exact ⟨_, _, _, _, _, _, length_writePmaiHeader _, rfl, rfl, rfl,
      names (basicList_section few) (extendedList_entries few), basicList_section few,
      basicList_empty 0 (by decide), extendedList_entries few, extendedList_empty 0 (by decide)⟩

/-- A memory cue is counted under type 1. -/
theorem not_documentedSequence {waveform : Waveform} {filePath : String}
    {cuePoints : List CuePoint} (few : cuePoints.length < 65536) {cue : CuePoint}
    (mem : cue ∈ cuePoints) (memory : ¬ 0 < cue.hotCue) :
    ¬ DocumentedSequence waveform filePath cuePoints
      (generateExtFile waveform filePath cuePoints) := by
  rintro ⟨header, pcobHot, pcobMem, pco2Hot, pco2Mem, _, size, _, parts, rfl, _, basic, _⟩
  have some_cue : cuePoints ≠ [] := List.ne_nil_of_mem mem
  have less : (hotCues cuePoints).length < cuePoints.length := by
    refine List.length_filter_lt_length_iff_exists.mpr ⟨cue, mem, ?_⟩
    simpa using memory
  rw [extFile_written some_cue, anlzFile] at parts
  obtain ⟨_, sections⟩ := List.append_inj parts (by rw [length_writePmaiHeader, size])
  simp only [List.cons_append, List.nil_append, List.flatten_cons] at sections
  have lists := List.append_cancel_left (List.append_cancel_left sections)
  have count := pcobSection_count few (generatePcobEmpty 0 ++ (generatePco2Section cuePoints ++
    (generatePco2Empty 0 ++ (generatePwv5Section waveform.detail ++
      (generatePwv4Section waveform.colorPreview ++ ([] : List Bytes).flatten)))))
  have long := basic.long
  rw [lists, readBE_inside (by omega), basic.count] at count
  omega

/-- The documented sequence, list by list, exactly when no cue is a memory cue. -/
theorem documented_sequence_iff_all_hot {waveform : Waveform} {filePath : String}
    {cuePoints : List CuePoint} (few : cuePoints.length < 65536) :
    DocumentedSequence waveform filePath cuePoints (generateExtFile waveform filePath cuePoints) ↔
      ∀ c ∈ cuePoints, 0 < c.hotCue := by
  constructor
  · intro documented cue mem
    by_contra memory
    exact not_documentedSequence few mem memory documented
  · exact documentedSequence_of_hot few

theorem hotCueA_documented : DocumentedSequence noWaveform "/Contents/test.mp3" [hotCueA]
    (generateExtFile noWaveform "/Contents/test.mp3" [hotCueA]) := by
  refine (documented_sequence_iff_all_hot (by decide)).mpr (fun c mem => ?_)
  rw [List.mem_singleton.mp mem]
  decide

/-- A memory cue at one second. -/
def memoryCue : CuePoint := ⟨0, .cue, 1000.0, 0.0, none, none⟩

theorem memoryCue_undocumented :
    ¬ DocumentedSequence noWaveform "/Contents/test.mp3" [hotCueA, memoryCue]
      (generateExtFile noWaveform "/Contents/test.mp3" [hotCueA, memoryCue]) := by
  refine not_documentedSequence (by decide) (List.mem_cons_of_mem _ List.mem_cons_self) ?_
  show ¬ (0 : UInt8) < 0
  decide

end BVault.Core
