import Mathlib.Data.List.Basic
import Mathlib.Data.List.Induction
import Mathlib.Data.Nat.Bitwise

/-!
# Little-endian words in byte strings

Byte strings are lists. A field of a binary format is written by overwriting a
range and read by slicing one out; writes to disjoint ranges do not see each
other, and a word that fits its width is read back.
-/

abbrev Bytes := List UInt8

namespace Bytes

/-- The `w` low bytes of `n`, least significant first. -/
def leBytes : Nat → Nat → Bytes
  | 0, _ => []
  | w + 1, n => UInt8.ofNat n :: leBytes w (n / 256)

/-- The number a byte string spells, least significant first. -/
def leNat : Bytes → Nat
  | [] => 0
  | b :: bs => b.toNat + 256 * leNat bs

/-- `bs[off..off + n]`. -/
def slice (bs : Bytes) (off n : Nat) : Bytes := (bs.drop off).take n

/-- The little-endian word of `w` bytes at `off`. -/
def readLE (bs : Bytes) (off w : Nat) : Nat := leNat (slice bs off w)

/-- `page[off..off + bs.len()].copy_from_slice(bs)`. -/
def patch (page : Bytes) (off : Nat) (bs : Bytes) : Bytes :=
  page.take off ++ bs ++ page.drop (off + bs.length)

/-- Overwrites in order. -/
def patchAll (page : Bytes) (ps : List (Nat × Bytes)) : Bytes :=
  ps.foldl (fun page p => patch page p.1 p.2) page

/-- An element of a list with a new last one. -/
theorem getElem?_snoc {α : Type*} {xs : List α} {x y : α} {i : Nat}
    (found : (xs ++ [x])[i]? = some y) :
    (i < xs.length ∧ xs[i]? = some y) ∨ (i = xs.length ∧ y = x) := by
  rw [List.getElem?_append] at found
  split at found
  · exact Or.inl ⟨‹_›, found⟩
  · have zero : i - xs.length = 0 := by
      by_contra other
      rw [List.getElem?_eq_none (by simp; omega)] at found
      cases found
    rw [zero] at found
    exact Or.inr ⟨by omega, (Option.some.inj found).symm⟩

/-- The same place in two lists of one length that both got a new last element. -/
theorem getElem?_snoc_both {α β : Type*} {xs : List α} {ys : List β} {x a : α} {y b : β} {i : Nat}
    (same : xs.length = ys.length) (left : (xs ++ [x])[i]? = some a)
    (right : (ys ++ [y])[i]? = some b) :
    (i < ys.length ∧ xs[i]? = some a ∧ ys[i]? = some b) ∨ (i = ys.length ∧ a = x ∧ b = y) := by
  rcases getElem?_snoc left with ⟨inside, old⟩ | ⟨last, new⟩
  · rcases getElem?_snoc right with ⟨inside', old'⟩ | ⟨last', _⟩
    · exact Or.inl ⟨inside', old, old'⟩
    · omega
  · rcases getElem?_snoc right with ⟨inside', _⟩ | ⟨last', new'⟩
    · omega
    · exact Or.inr ⟨last', new, new'⟩

@[simp] theorem length_leBytes (w n : Nat) : (leBytes w n).length = w := by
  induction w generalizing n with
  | zero => rfl
  | succ w ih => simp [leBytes, ih]

theorem leNat_leBytes (w n : Nat) : leNat (leBytes w n) = n % 256 ^ w := by
  induction w generalizing n with
  | zero => simp [leBytes, leNat, Nat.mod_one]
  | succ w ih =>
    rw [leBytes, leNat, ih, Nat.pow_succ', Nat.mod_mul]
    simp

theorem leNat_leBytes_of_lt {w n : Nat} (fits : n < 256 ^ w) : leNat (leBytes w n) = n := by
  rw [leNat_leBytes, Nat.mod_eq_of_lt fits]

/-- Only the number modulo the word size is written. -/
theorem leBytes_mod (w n : Nat) : leBytes w (n % 256 ^ w) = leBytes w n := by
  induction w generalizing n with
  | zero => rfl
  | succ w ih =>
    have low : UInt8.ofNat (n % 256 ^ (w + 1)) = UInt8.ofNat n := by
      rw [← UInt8.toNat_inj, UInt8.toNat_ofNat', UInt8.toNat_ofNat', Nat.pow_succ']
      exact Nat.mod_mul_right_mod n 256 (256 ^ w)
    have high : n % 256 ^ (w + 1) / 256 = n / 256 % 256 ^ w := by
      rw [Nat.pow_succ', Nat.mod_mul_right_div_self]
    rw [leBytes, leBytes, low, high, ih]

theorem leBytes_congr {w n m : Nat} (same : n % 256 ^ w = m % 256 ^ w) :
    leBytes w n = leBytes w m := by
  rw [← leBytes_mod w n, same, leBytes_mod]

theorem slice_getElem? (bs : Bytes) (off n i : Nat) :
    (slice bs off n)[i]? = if i < n then bs[off + i]? else none := by
  rw [slice, List.getElem?_take]
  split
  · rw [List.getElem?_drop]
  · rfl

theorem slice_add (bs : Bytes) (off n m : Nat) :
    slice bs off (n + m) = slice bs off n ++ slice bs (off + n) m := by
  rw [slice, slice, slice, List.take_add, List.drop_drop]

theorem slice_append_left {xs ys : Bytes} {off n : Nat} (inside : off + n ≤ xs.length) :
    slice (xs ++ ys) off n = slice xs off n := by
  rw [slice, slice, List.drop_append_of_le_length (by omega), List.take_append_of_le_length]
  rw [List.length_drop]
  omega

theorem slice_append_right {xs ys : Bytes} {off n : Nat} (after : xs.length ≤ off) :
    slice (xs ++ ys) off n = slice ys (off - xs.length) n := by
  rw [slice, slice, List.drop_append, List.drop_eq_nil_of_le after, List.nil_append]

theorem slice_drop (bs : Bytes) (k off n : Nat) :
    slice (bs.drop k) off n = slice bs (k + off) n := by
  rw [slice, slice, List.drop_drop]

theorem slice_all (bs : Bytes) : slice bs 0 bs.length = bs := by
  rw [slice, List.drop_zero, List.take_length]

/-- A field of a row is found behind the fields before it. -/
theorem slice_flatten {fields : List Bytes} {i : Nat} {field : Bytes}
    (here : fields[i]? = some field) :
    slice fields.flatten ((fields.take i).map List.length).sum field.length = field := by
  induction fields generalizing i with
  | nil => cases here
  | cons f fields ih =>
    cases i with
    | zero =>
      obtain rfl : f = field := Option.some.inj here
      rw [List.flatten_cons, List.take_zero, List.map_nil, List.sum_nil,
        slice_append_left (by omega), slice_all]
    | succ i =>
      rw [List.flatten_cons, List.take_succ_cons, List.map_cons, List.sum_cons,
        slice_append_right (by omega), Nat.add_sub_cancel_left]
      exact ih here

theorem slice_slice {bs : Bytes} {off n a m : Nat} (inside : a + m ≤ n) :
    slice (slice bs off n) a m = slice bs (off + a) m := by
  rw [slice, slice, slice, List.drop_take, List.take_take, Nat.min_eq_left (by omega),
    List.drop_drop]

/-- Pages of one size are found at multiples of it. -/
theorem slice_pages {pages : List Bytes} {size k : Nat} {page : Bytes}
    (sizes : ∀ p ∈ pages, p.length = size) (here : pages[k]? = some page) :
    slice pages.flatten (k * size) size = page := by
  have whole := slice_flatten here
  rw [sizes page (List.mem_of_getElem? here)] at whole
  have inside : k < pages.length := (List.getElem?_eq_some_iff.mp here).1
  have front : (pages.take k).map List.length = List.replicate k size := by
    rw [List.eq_replicate_iff]
    refine ⟨by rw [List.length_map, List.length_take]; omega, ?_⟩
    intro n mem
    obtain ⟨p, taken, rfl⟩ := List.mem_map.mp mem
    exact sizes p (List.mem_of_mem_take taken)
  rwa [front, List.sum_replicate_nat] at whole

theorem length_pages {pages : List Bytes} {size : Nat} (sizes : ∀ p ∈ pages, p.length = size) :
    pages.flatten.length = pages.length * size := by
  have all : pages.map List.length = List.replicate pages.length size := by
    rw [List.eq_replicate_iff, List.length_map]
    refine ⟨rfl, ?_⟩
    intro n mem
    obtain ⟨p, taken, rfl⟩ := List.mem_map.mp mem
    exact sizes p taken
  rw [List.length_flatten, all, List.sum_replicate_nat]

theorem length_patch {page : Bytes} {off : Nat} {bs : Bytes}
    (inside : off + bs.length ≤ page.length) :
    (patch page off bs).length = page.length := by
  simp only [patch, List.length_append, List.length_take, List.length_drop]
  omega

theorem slice_patch_self {page : Bytes} {off : Nat} {bs : Bytes}
    (inside : off + bs.length ≤ page.length) : slice (patch page off bs) off bs.length = bs := by
  have front : (page.take off).length = off := by
    rw [List.length_take]
    omega
  rw [patch, List.append_assoc, slice_append_right (by omega), front, Nat.sub_self,
    slice_append_left (by omega), slice_all]

/-- An overwrite is not seen outside its range. -/
theorem slice_patch_of_disjoint {page : Bytes} {off a n : Nat} {bs : Bytes}
    (inside : off + bs.length ≤ page.length) (apart : a + n ≤ off ∨ off + bs.length ≤ a) :
    slice (patch page off bs) a n = slice page a n := by
  have front : (page.take off).length = off := by
    rw [List.length_take]
    omega
  rcases apart with before | after
  · rw [patch, List.append_assoc, slice_append_left (by omega), slice, slice, List.drop_take,
      List.take_take, Nat.min_eq_left (by omega)]
  · have both : (page.take off ++ bs).length = off + bs.length := by
      rw [List.length_append, front]
    rw [patch, slice_append_right (by omega), both, slice_drop]
    congr 1
    omega

/-- The ranges of all overwrites lie within the page. -/
def Within (length : Nat) (ps : List (Nat × Bytes)) : Prop :=
  ∀ p ∈ ps, p.1 + p.2.length ≤ length

theorem Within.append {length : Nat} {ps qs : List (Nat × Bytes)} (hp : Within length ps)
    (hq : Within length qs) : Within length (ps ++ qs) := by
  intro p mem
  rcases List.mem_append.mp mem with mem | mem
  · exact hp p mem
  · exact hq p mem

theorem patchAll_append (page : Bytes) (ps qs : List (Nat × Bytes)) :
    patchAll page (ps ++ qs) = patchAll (patchAll page ps) qs :=
  List.foldl_append

theorem length_patchAll {page : Bytes} {ps : List (Nat × Bytes)} (within : Within page.length ps) :
    (patchAll page ps).length = page.length := by
  induction ps using List.reverseRecOn with
  | nil => rfl
  | append_singleton ps p ih =>
    have before := ih (fun q hq => within q (List.mem_append_left _ hq))
    rw [patchAll_append]
    show (patch (patchAll page ps) p.1 p.2).length = page.length
    rw [length_patch, before]
    rw [before]
    exact within p (by simp)

/-- Overwrites elsewhere leave a range as it is. -/
theorem slice_patchAll_of_disjoint {page : Bytes} {ps : List (Nat × Bytes)} {a n : Nat}
    (within : Within page.length ps)
    (apart : ∀ p ∈ ps, a + n ≤ p.1 ∨ p.1 + p.2.length ≤ a) :
    slice (patchAll page ps) a n = slice page a n := by
  induction ps using List.reverseRecOn with
  | nil => rfl
  | append_singleton ps p ih =>
    have inner : Within page.length ps := fun q hq => within q (List.mem_append_left _ hq)
    rw [patchAll_append]
    show slice (patch (patchAll page ps) p.1 p.2) a n = slice page a n
    rw [slice_patch_of_disjoint _ (apart p (by simp)),
      ih inner (fun q hq => apart q (List.mem_append_left _ hq))]
    rw [length_patchAll inner]
    exact within p (by simp)

/-- What is written to a range is read from it, when the other overwrites are elsewhere or
write the same. -/
theorem slice_patchAll_of_mem {page : Bytes} {ps : List (Nat × Bytes)} {off : Nat} {bs : Bytes}
    (within : Within page.length ps) (mem : (off, bs) ∈ ps)
    (apart : ∀ p ∈ ps, off + bs.length ≤ p.1 ∨ p.1 + p.2.length ≤ off ∨ p = (off, bs)) :
    slice (patchAll page ps) off bs.length = bs := by
  induction ps using List.reverseRecOn with
  | nil => cases mem
  | append_singleton ps p ih =>
    have inner : Within page.length ps := fun q hq => within q (List.mem_append_left _ hq)
    have last : p.1 + p.2.length ≤ (patchAll page ps).length := by
      rw [length_patchAll inner]
      exact within p (by simp)
    rw [patchAll_append]
    show slice (patch (patchAll page ps) p.1 p.2) off bs.length = bs
    by_cases same : p = (off, bs)
    · subst same
      exact slice_patch_self last
    · have earlier : (off, bs) ∈ ps := by
        rcases List.mem_append.mp mem with mem | mem
        · exact mem
        · exact absurd (List.mem_singleton.mp mem).symm same
      rw [slice_patch_of_disjoint last,
        ih inner earlier (fun q hq => apart q (List.mem_append_left _ hq))]
      rcases apart p (by simp) with before | after | equal
      · exact Or.inl before
      · exact Or.inr after
      · exact absurd equal same

/-- Overwrites at growing places. -/
def Ascending (ps : List (Nat × Bytes)) : Prop :=
  ps.Pairwise (fun p q => p.1 + p.2.length ≤ q.1)

theorem Ascending.apart {ps : List (Nat × Bytes)} (ascending : Ascending ps) {p q : Nat × Bytes}
    (hp : p ∈ ps) (hq : q ∈ ps) : p.1 + p.2.length ≤ q.1 ∨ q.1 + q.2.length ≤ p.1 ∨ q = p := by
  induction ps with
  | nil => cases hp
  | cons r ps ih =>
    obtain ⟨first, rest⟩ := List.pairwise_cons.mp ascending
    rcases List.mem_cons.mp hp with rfl | inP
    · rcases List.mem_cons.mp hq with rfl | inQ
      · exact Or.inr (Or.inr rfl)
      · exact Or.inl (first q inQ)
    · rcases List.mem_cons.mp hq with rfl | inQ
      · exact Or.inr (Or.inl (first p inP))
      · exact ih rest inP inQ

/-- Overwrites at growing places are all read back, also when others follow elsewhere. -/
theorem slice_patchAll_ascending {page : Bytes} {ps qs : List (Nat × Bytes)} {off : Nat}
    {bs : Bytes} (within : Within page.length (ps ++ qs)) (ascending : Ascending ps)
    (mem : (off, bs) ∈ ps)
    (elsewhere : ∀ q ∈ qs, off + bs.length ≤ q.1 ∨ q.1 + q.2.length ≤ off) :
    slice (patchAll page (ps ++ qs)) off bs.length = bs := by
  refine slice_patchAll_of_mem within (List.mem_append_left _ mem) ?_
  intro p hp
  rcases List.mem_append.mp hp with hp | hp
  · exact ascending.apart mem hp
  · rcases elsewhere p hp with before | after
    · exact Or.inl before
    · exact Or.inr (Or.inl after)

/-- The `w` low bytes of `n`, most significant first. -/
def beBytes (w n : Nat) : Bytes := (leBytes w n).reverse

/-- The number a byte string spells, most significant first. -/
def beNat (bs : Bytes) : Nat := leNat bs.reverse

/-- The big-endian word of `w` bytes at `off`. -/
def readBE (bs : Bytes) (off w : Nat) : Nat := beNat (slice bs off w)

@[simp] theorem length_beBytes (w n : Nat) : (beBytes w n).length = w := by
  rw [beBytes, List.length_reverse, length_leBytes]

theorem beNat_beBytes (w n : Nat) : beNat (beBytes w n) = n % 256 ^ w := by
  rw [beNat, beBytes, List.reverse_reverse, leNat_leBytes]

/-- A word at the start of some bytes. -/
theorem readBE_front (w n : Nat) (rest : Bytes) :
    readBE (beBytes w n ++ rest) 0 w = n % 256 ^ w := by
  have whole := slice_all (beBytes w n)
  rw [length_beBytes] at whole
  rw [readBE, slice_append_left (by simp), whole, beNat_beBytes]

/-- A word behind some bytes. -/
theorem readBE_skip {front rest : Bytes} {off w : Nat} (behind : front.length ≤ off) :
    readBE (front ++ rest) off w = readBE rest (off - front.length) w := by
  rw [readBE, slice_append_right behind, readBE]

/-- A word that lies within the first bytes. -/
theorem readBE_inside {front rest : Bytes} {off w : Nat} (inside : off + w ≤ front.length) :
    readBE (front ++ rest) off w = readBE front off w := by
  rw [readBE, slice_append_left inside, readBE]

end Bytes
