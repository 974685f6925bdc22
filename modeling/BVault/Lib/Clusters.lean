import Mathlib.Data.List.Basic

/-!
# Clusters of marked places

The marked numbers below a bound, gathered into ranges: two of them with at most
`gap` unmarked ones between them share a range. A wider gap gathers them into the
same ranges exactly if no gap has the width between.
-/

namespace Clusters

variable {p : Nat → Prop} {gap lo n a b c : Nat}

/-- Of `gap + 1` places in a row from `a` to `b` one is marked. -/
def Dense (p : Nat → Prop) (gap a b : Nat) : Prop :=
  ∀ i, a ≤ i → i + gap ≤ b → ∃ j, i ≤ j ∧ j ≤ i + gap ∧ p j

theorem dense_single (marked : p a) : Dense p gap a a := by
  intro i low high
  exact ⟨a, by omega, by omega, marked⟩

/-- The next marked place may be `gap + 1` further on. -/
theorem Dense.extend (dense : Dense p gap a b) (last : p b) (next : p c) (near : c ≤ b + gap + 1) : Dense p gap a c := by
  intro i low high
  by_cases inside : i + gap ≤ b
  · exact dense i low inside
  · by_cases before : i ≤ b
    · exact ⟨b, before, by omega, last⟩
    · exact ⟨c, by omega, by omega, next⟩

theorem Dense.succ (dense : Dense p gap a b) : Dense p (gap + 1) a b := by
  intro i low high
  obtain ⟨j, after, upTo, marked⟩ := dense i low (by omega)
  exact ⟨j, after, by omega, marked⟩

/-- The ranges gather the marked places from `lo` to below `n`. -/
structure Clustered (p : Nat → Prop) (gap lo n : Nat) (ranges : List (Nat × Nat)) : Prop where
  ends : ∀ r ∈ ranges, lo ≤ r.1 ∧ r.1 ≤ r.2 ∧ r.2 < n ∧ p r.1 ∧ p r.2
  covers : ∀ i, lo ≤ i → i < n → p i → ∃ r ∈ ranges, r.1 ≤ i ∧ i ≤ r.2
  dense : ∀ r ∈ ranges, Dense p gap r.1 r.2
  apart : ranges.Pairwise (fun r s => r.2 + gap + 1 < s.1)

theorem clustered_nil (past : n ≤ lo) : Clustered p gap lo n [] :=
  ⟨nofun, fun _ _ _ _ => by omega, nofun, .nil⟩

theorem Clustered.skip {ranges : List (Nat × Nat)} (rest : Clustered p gap (lo + 1) n ranges)
    (unmarked : ¬ p lo) : Clustered p gap lo n ranges := by
  refine ⟨?_, ?_, rest.dense, rest.apart⟩
  · intro r mem
    obtain ⟨low, order⟩ := rest.ends r mem
    exact ⟨by omega, order⟩
  · intro i low below marked
    have other : i ≠ lo := by
      rintro rfl
      exact unmarked marked
    exact rest.covers i (by omega) below marked

/-- A range that starts here, with no marked place near behind it. -/
theorem Clustered.cons {ranges : List (Nat × Nat)} {last : Nat}
    (rest : Clustered p gap (last + 1) n ranges) (order : lo ≤ last) (below : last < n)
    (first : p lo) (marked : p last) (dense : Dense p gap lo last)
    (behind : ∀ i, last < i → i ≤ last + gap + 1 → i < n → ¬ p i) :
    Clustered p gap lo n ((lo, last) :: ranges) := by
  constructor
  · intro r mem
    rcases List.mem_cons.mp mem with rfl | mem
    · exact ⟨Nat.le_refl _, order, below, first, marked⟩
    · obtain ⟨low, inside⟩ := rest.ends r mem
      exact ⟨by omega, inside⟩
  · intro i low inside here
    by_cases past : last < i
    · obtain ⟨r, mem, within⟩ := rest.covers i past inside here
      exact ⟨r, List.mem_cons_of_mem _ mem, within⟩
    · exact ⟨(lo, last), List.mem_cons_self, low, by omega⟩
  · intro r mem
    rcases List.mem_cons.mp mem with rfl | mem
    · exact dense
    · exact rest.dense r mem
  · refine List.Pairwise.cons ?_ rest.apart
    intro s mem
    obtain ⟨low, order', inside, here, -⟩ := rest.ends s mem
    by_contra near
    exact behind s.1 (by omega) (by omega) (by omega) here

section
variable {ranges : List (Nat × Nat)}

/-- Of two ranges one lies before the other one. -/
theorem Clustered.order (clustered : Clustered p gap lo n ranges) {r s : Nat × Nat}
    (hr : r ∈ ranges) (hs : s ∈ ranges) :
    r = s ∨ r.2 + gap + 1 < s.1 ∨ s.2 + gap + 1 < r.1 := by
  obtain ⟨i, hi, rfl⟩ := List.mem_iff_getElem.mp hr
  obtain ⟨j, hj, rfl⟩ := List.mem_iff_getElem.mp hs
  have apart := List.pairwise_iff_getElem.mp clustered.apart
  rcases Nat.lt_trichotomy i j with before | rfl | behind
  · exact .inr (.inl (apart i j hi hj before))
  · exact .inl rfl
  · exact .inr (.inr (apart j i hj hi behind))

/-- Between two ranges that follow each other nothing is marked. -/
theorem Clustered.between (clustered : Clustered p gap lo n ranges) {k : Nat} {r s : Nat × Nat}
    (hr : ranges[k]? = some r) (hs : ranges[k + 1]? = some s) {i : Nat} (behind : r.2 < i)
    (before : i < s.1) : ¬ p i := by
  intro marked
  obtain ⟨hk, rfl⟩ := List.getElem?_eq_some_iff.mp hr
  obtain ⟨hk', rfl⟩ := List.getElem?_eq_some_iff.mp hs
  have first := clustered.ends _ (List.getElem_mem hk)
  have second := clustered.ends _ (List.getElem_mem hk')
  obtain ⟨t, mem, low, high⟩ := clustered.covers i (by omega) (by omega) marked
  obtain ⟨j, hj, rfl⟩ := List.mem_iff_getElem.mp mem
  have apart := List.pairwise_iff_getElem.mp clustered.apart
  rcases Nat.lt_trichotomy j k with earlier | rfl | later
  · have := apart j k hj hk earlier
    omega
  · omega
  · rcases Nat.lt_or_ge (k + 1) j with beyond | upTo
    · have := apart (k + 1) j hk' hj beyond
      have := clustered.ends _ (List.getElem_mem hj)
      omega
    · obtain rfl : j = k + 1 := by omega
      omega

/-- It is enough to look at ranges that follow each other. -/
theorem Clustered.wider_of_next (clustered : Clustered p gap lo n ranges)
    (next : ∀ k r s, ranges[k]? = some r → ranges[k + 1]? = some s → r.2 + gap + 2 < s.1) :
    Clustered p (gap + 1) lo n ranges := by
  refine ⟨clustered.ends, clustered.covers, fun r hr => (clustered.dense r hr).succ, ?_⟩
  have apart := List.pairwise_iff_getElem.mp clustered.apart
  apply List.pairwise_iff_getElem.mpr
  intro k l hk hl before
  have hk' : k + 1 < ranges.length := by omega
  rcases Nat.eq_or_lt_of_le before with rfl | later
  · exact next k _ _ (List.getElem?_eq_getElem hk) (List.getElem?_eq_getElem hk')
  · -- the range behind the first one is itself before the second one
    have first := apart k (k + 1) hk hk' (by omega)
    have second := apart (k + 1) l hk' hl later
    have order := (clustered.ends _ (List.getElem_mem hk')).2.1
    omega

/-- The ranges are those of the next wider gap exactly if no two marked places have just
`gap + 1` unmarked ones between them. -/
theorem Clustered.wider_iff (clustered : Clustered p gap lo n ranges) :
    Clustered p (gap + 1) lo n ranges ↔
      ∀ i, lo ≤ i → i + gap + 2 < n → p i → p (i + gap + 2) →
        ∃ j, i < j ∧ j < i + gap + 2 ∧ p j := by
  constructor
  · intro wider i low below first second
    obtain ⟨r, hr, lowR, highR⟩ := clustered.covers i low (by omega) first
    obtain ⟨s, hs, lowS, highS⟩ := clustered.covers (i + gap + 2) (by omega) below second
    rcases wider.order hr hs with rfl | before | behind
    · obtain ⟨j, after, upTo, marked⟩ := clustered.dense r hr (i + 1) (by omega) (by omega)
      exact ⟨j, by omega, by omega, marked⟩
    · omega
    · omega
  · intro none
    refine ⟨clustered.ends, clustered.covers, fun r hr => (clustered.dense r hr).succ, ?_⟩
    refine clustered.apart.imp_of_mem ?_
    intro r s hr hs apart
    obtain ⟨lowR, orderR, -, -, endR⟩ := clustered.ends r hr
    obtain ⟨-, orderS, belowS, startS, -⟩ := clustered.ends s hs
    by_contra near
    have exact_ : s.1 = r.2 + gap + 2 := by omega
    rw [exact_] at startS
    obtain ⟨j, behind, before, marked⟩ := none r.2 (by omega) (by omega) endR startS
    -- the place between them is in a range, and that one overlaps neither
    obtain ⟨t, ht, lowT, highT⟩ := clustered.covers j (by omega) (by omega) marked
    rcases clustered.order hr ht with rfl | after | ahead <;> omega

end

end Clusters
