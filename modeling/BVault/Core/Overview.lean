import BVault.Core.Anlz

/-!
# The overview strip and the peaks of the preview

PWV2 keeps one of every four preview columns: the one whose packed byte is the
largest. Whiteness sits in the high bits, so the column kept is the tallest of
the whitest, which is the tallest of all only when some column is both.
-/

namespace BVault.Core

open Bytes

/-- Decode from a PWAV byte. -/
def WaveformColumn.fromByte (byte : UInt8) : WaveformColumn where
  height := byte &&& 0x1F
  whiteness := (byte >>> 5) &&& 0x07

/-- Heights 0 to 31 and whiteness 0 to 7. -/
def WaveformColumn.InRange (c : WaveformColumn) : Prop :=
  c.height.toNat < 32 ∧ c.whiteness.toNat < 8

theorem toByte_bits : ∀ w < 8, ∀ h < 32,
    (((UInt8.ofNat w &&& 0x07) <<< 5) ||| (UInt8.ofNat h &&& 0x1F)).toNat = 32 * w + h := by
  decide

/-- In range, the packed byte orders columns by whiteness first. -/
theorem WaveformColumn.InRange.toNat_toByte {c : WaveformColumn} (range : c.InRange) :
    c.toByte.toNat = 32 * c.whiteness.toNat + c.height.toNat := by
  have bits := toByte_bits c.whiteness.toNat range.2 c.height.toNat range.1
  rw [UInt8.ofNat_toNat, UInt8.ofNat_toNat] at bits
  exact bits

theorem toNat_and_height (byte : UInt8) : (byte &&& 0x1F).toNat = byte.toNat % 32 := by
  rw [UInt8.toNat_and]
  exact Nat.and_two_pow_sub_one_eq_mod byte.toNat 5

theorem WaveformColumn.InRange.height_fromByte {c : WaveformColumn} (range : c.InRange) :
    (fromByte c.toByte).height = c.height := by
  apply UInt8.toNat_inj.mp
  have short := range.1
  calc (fromByte c.toByte).height.toNat
      = (32 * c.whiteness.toNat + c.height.toNat) % 32 := by
        rw [← range.toNat_toByte]
        exact toNat_and_height c.toByte
    _ = c.height.toNat := by omega

/-- The running maximum of the downsampling loop. -/
theorem foldl_peak (f : Nat → UInt8) (js : List Nat) (start : UInt8) :
    let peak := js.foldl (fun peak j => if peak < f j then f j else peak) start
    start ≤ peak ∧ (∀ j ∈ js, f j ≤ peak) ∧ (peak = start ∨ ∃ j ∈ js, peak = f j) := by
  induction js generalizing start with
  | nil => exact ⟨UInt8.le_refl start, by simp, .inl rfl⟩
  | cons j js ih =>
    obtain ⟨above, bounds, attained⟩ := ih (if start < f j then f j else start)
    simp only [List.foldl_cons, List.mem_cons, forall_eq_or_imp, exists_eq_or_imp]
    by_cases larger : start < f j
    · rw [if_pos larger] at above bounds attained ⊢
      refine ⟨UInt8.le_trans (UInt8.le_of_lt larger) above, ⟨above, bounds⟩, ?_⟩
      rcases attained with same | later
      · exact .inr (.inl same)
      · exact .inr (.inr later)
    · rw [if_neg larger] at above bounds attained ⊢
      refine ⟨above, ⟨UInt8.le_trans (UInt8.not_lt.mp larger) above, bounds⟩, ?_⟩
      rcases attained with same | later
      · exact .inl same
      · exact .inr (.inr later)

/-- The four source columns behind byte `i` of the strip. -/
def sourceColumns (preview : List WaveformColumn) (i : Nat) : List WaveformColumn :=
  (preview.drop (4 * i)).take 4

theorem mem_sourceColumns {preview : List WaveformColumn} {i : Nat} {c : WaveformColumn} :
    c ∈ sourceColumns preview i ↔ ∃ j < 4, preview[i * 4 + j]? = some c := by
  simp only [List.mem_iff_getElem?, sourceColumns, List.getElem?_take, List.getElem?_drop,
    Nat.mul_comm 4 i]
  constructor
  · rintro ⟨j, found⟩
    by_cases inside : j < 4
    · exact ⟨j, inside, by rwa [if_pos inside] at found⟩
    · rw [if_neg inside] at found
      cases found
  · rintro ⟨j, inside, found⟩
    exact ⟨j, by rwa [if_pos inside]⟩

/-- The byte kept is that of a column whose packed byte no other column of the
group exceeds. -/
theorem peakOf_spec {preview : List WaveformColumn} (full : preview.length = 400) {i : Nat}
    (shown : i < 100) :
    ∃ c ∈ sourceColumns preview i, peakOf preview i = c.toByte ∧
      ∀ d ∈ sourceColumns preview i, d.toByte ≤ c.toByte := by
  have here : ∀ j < 4, ∃ c ∈ sourceColumns preview i, previewByte preview (i * 4 + j) = c.toByte := by
    intro j inside
    have found := List.getElem?_eq_getElem (l := preview) (i := i * 4 + j) (by omega)
    exact ⟨_, mem_sourceColumns.mpr ⟨j, inside, found⟩, by rw [previewByte, found]⟩
  obtain ⟨-, bounds, attained⟩ :=
    foldl_peak (fun j => previewByte preview (i * 4 + j)) (List.range 4) 0
  have bounded : ∀ d ∈ sourceColumns preview i, d.toByte ≤ peakOf preview i := by
    intro d mem
    obtain ⟨j, inside, found⟩ := mem_sourceColumns.mp mem
    have bound := bounds j (List.mem_range.mpr inside)
    rwa [previewByte, found] at bound
  rcases attained with zero | ⟨j, mem, same⟩
  · -- A silent group: every byte is 0, so the first column will do.
    obtain ⟨c, mem, -⟩ := here 0 (by omega)
    have least : c.toByte = peakOf preview i := by
      apply UInt8.le_antisymm (bounded c mem)
      have zero : peakOf preview i = 0 := zero
      rw [zero]
      exact UInt8.le_iff_toNat_le.mpr (Nat.zero_le _)
    exact ⟨c, mem, least.symm, by rwa [least]⟩
  · obtain ⟨c, mem, byte⟩ := here j (List.mem_range.mp mem)
    have same : peakOf preview i = c.toByte := same.trans byte
    exact ⟨c, mem, same, by rwa [← same]⟩

/-- `height` is the greatest of the heights of `columns`. -/
def IsPeak (columns : List WaveformColumn) (height : UInt8) : Prop :=
  (∃ c ∈ columns, c.height = height) ∧ ∀ c ∈ columns, c.height ≤ height

/-- Some column of the group is at once the whitest and the tallest. -/
def TallestIsWhitest (columns : List WaveformColumn) : Prop :=
  ∃ c ∈ columns, (∀ d ∈ columns, d.whiteness ≤ c.whiteness) ∧ ∀ d ∈ columns, d.height ≤ c.height

/-- A greatest packed byte decodes to the peak of its group exactly when the
group has a column that is both whitest and tallest. -/
theorem isPeak_of_greatest_iff {columns : List WaveformColumn}
    (range : ∀ c ∈ columns, c.InRange) {c : WaveformColumn} (mem : c ∈ columns)
    (greatest : ∀ d ∈ columns, d.toByte ≤ c.toByte) :
    IsPeak columns c.height ↔ TallestIsWhitest columns := by
  have order : ∀ d ∈ columns, 32 * d.whiteness.toNat + d.height.toNat ≤
      32 * c.whiteness.toNat + c.height.toNat := by
    intro d other
    rw [← (range d other).toNat_toByte, ← (range c mem).toNat_toByte]
    exact UInt8.le_iff_toNat_le.mp (greatest d other)
  have short := (range c mem).1
  constructor
  · rintro ⟨-, tallest⟩
    refine ⟨c, mem, ?_, tallest⟩
    intro d other
    apply UInt8.le_iff_toNat_le.mpr
    have := order d other
    omega
  · rintro ⟨b, best, whitest, tallest⟩
    refine ⟨⟨c, mem, rfl⟩, ?_⟩
    intro d other
    apply UInt8.le_iff_toNat_le.mpr
    have byte := order b best
    have white := UInt8.le_iff_toNat_le.mp (whitest c mem)
    have tall := UInt8.le_iff_toNat_le.mp (tallest d other)
    omega

theorem generatePwv2Section_byte (preview : List WaveformColumn) {i : Nat} (shown : i < 100) :
    (generatePwv2Section preview)[20 + i]? = some (peakOf preview i) := by
  have header : (tagHeader PWV2_TAG 20 (20 + 100) ++ beBytes 4 100 ++
      beBytes 4 0x00010000).length = 20 := rfl
  rw [generatePwv2Section, List.getElem?_append_right (by omega), header,
    Nat.add_sub_cancel_left, List.getElem?_map, List.getElem?_range shown]
  rfl

/-- The height decoded from byte `i` of the strip is the maximum over the four
source columns exactly when one of them is at once the whitest and the tallest. -/
theorem overview_keeps_peak_iff (preview : List WaveformColumn) (full : preview.length = 400)
    (range : ∀ c ∈ preview, c.InRange) (i : Nat) (shown : i < 100) :
    ∃ byte, (generatePwv2Section preview)[20 + i]? = some byte ∧
      (IsPeak (sourceColumns preview i) (WaveformColumn.fromByte byte).height ↔
        TallestIsWhitest (sourceColumns preview i)) := by
  have ranges : ∀ c ∈ sourceColumns preview i, c.InRange := by
    intro c mem
    exact range c (List.mem_of_mem_drop (List.mem_of_mem_take mem))
  obtain ⟨c, mem, same, greatest⟩ := peakOf_spec full shown
  refine ⟨peakOf preview i, generatePwv2Section_byte preview shown, ?_⟩
  rw [same, (ranges c mem).height_fromByte]
  exact isPeak_of_greatest_iff ranges mem greatest

/-- Two columns, and silence behind them, are a preview. -/
theorem length_two (a b : WaveformColumn) : (a :: b :: List.replicate 398 ⟨0, 0⟩).length = 400 := by
  rw [List.length_cons, List.length_cons, List.length_replicate]

theorem inRange_two {a b : WaveformColumn} (first : a.InRange) (second : b.InRange) :
    ∀ c ∈ a :: b :: List.replicate 398 ⟨0, 0⟩, c.InRange := by
  intro c mem
  simp only [List.mem_cons, List.mem_replicate] at mem
  rcases mem with rfl | rfl | ⟨-, rfl⟩
  · exact first
  · exact second
  · exact ⟨by decide, by decide⟩

/-- A tall white column beside a lower and darker one. -/
def openPeak : List WaveformColumn :=
  ⟨12, 3⟩ :: ⟨31, 5⟩ :: List.replicate 398 ⟨0, 0⟩

theorem overview_of_openPeak :
    ∃ byte, (generatePwv2Section openPeak)[20 + 0]? = some byte ∧
      IsPeak (sourceColumns openPeak 0) (WaveformColumn.fromByte byte).height := by
  obtain ⟨byte, found, kept⟩ := overview_keeps_peak_iff openPeak (length_two _ _)
    (inRange_two ⟨by decide, by decide⟩ ⟨by decide, by decide⟩) 0 (by decide)
  have first : sourceColumns openPeak 0 = [⟨12, 3⟩, ⟨31, 5⟩, ⟨0, 0⟩, ⟨0, 0⟩] := rfl
  refine ⟨byte, found, kept.mpr ?_⟩
  rw [first]
  exact ⟨⟨31, 5⟩, List.mem_cons_of_mem _ List.mem_cons_self, by decide, by decide⟩

/-- A quiet tall column beside a white flat one. -/
def hiddenPeak : List WaveformColumn :=
  ⟨31, 0⟩ :: ⟨0, 1⟩ :: List.replicate 398 ⟨0, 0⟩

theorem overview_loses_peak :
    ¬ ∀ preview : List WaveformColumn, preview.length = 400 → (∀ c ∈ preview, c.InRange) →
      ∀ i < 100, ∃ byte, (generatePwv2Section preview)[20 + i]? = some byte ∧
        IsPeak (sourceColumns preview i) (WaveformColumn.fromByte byte).height := by
  intro always
  obtain ⟨byte, found, -, tallest⟩ := always hiddenPeak (length_two _ _)
    (inRange_two ⟨by decide, by decide⟩ ⟨by decide, by decide⟩) 0 (by decide)
  rw [generatePwv2Section_byte hiddenPeak (by decide)] at found
  cases found
  have first : (⟨31, 0⟩ : WaveformColumn) ∈ sourceColumns hiddenPeak 0 := List.mem_cons_self
  have seen : (WaveformColumn.fromByte (peakOf hiddenPeak 0)).height = 0 := by decide
  have under := tallest _ first
  rw [seen] at under
  exact absurd under (by decide)

end BVault.Core
