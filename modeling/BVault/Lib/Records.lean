import Mathlib.Data.List.Basic

/-!
# Records that carry their own length

A string of records is read by asking the front of what is left how long its
first record is and cutting that much off. A record is never shorter than the
header its length stands in, so the reading ends.
-/

namespace Records

universe u
variable {α : Type u} (header : Nat) (size : List α → Nat)

/-- Cuts off records, at most as many as there is fuel. -/
def cut : Nat → List α → Option (List (List α))
  | _, [] => some []
  | 0, _ :: _ => none
  | fuel + 1, x :: xs =>
    if header ≤ size (x :: xs) ∧ size (x :: xs) ≤ (x :: xs).length then
      (cut fuel ((x :: xs).drop (size (x :: xs)))).map ((x :: xs).take (size (x :: xs)) :: ·)
    else none

/-- The records of a string; `none` where a length is too short or too long. -/
def records (xs : List α) : Option (List (List α)) := cut header size xs.length xs

variable {header size}

@[simp] theorem records_nil : records header size [] = some [] := rfl

/-- More fuel than items changes nothing. -/
theorem cut_eq_records (some_header : 0 < header) {fuel : Nat} {xs : List α}
    (enough : xs.length ≤ fuel) : cut header size fuel xs = records header size xs := by
  have general : ∀ (n : Nat) (xs : List α) (fuel fuel' : Nat), xs.length ≤ n →
      xs.length ≤ fuel → xs.length ≤ fuel' →
      cut header size fuel xs = cut header size fuel' xs := by
    intro n
    induction n with
    | zero =>
      intro xs fuel fuel' short _ _
      rw [List.eq_nil_of_length_eq_zero (Nat.le_zero.mp short)]
      cases fuel <;> cases fuel' <;> rfl
    | succ n ih =>
      intro xs fuel fuel' short le le'
      cases xs with
      | nil => cases fuel <;> cases fuel' <;> rfl
      | cons x xs =>
        rw [List.length_cons] at short le le'
        obtain ⟨fuel, rfl⟩ : ∃ k, fuel = k + 1 := ⟨fuel - 1, by omega⟩
        obtain ⟨fuel', rfl⟩ : ∃ k, fuel' = k + 1 := ⟨fuel' - 1, by omega⟩
        rw [cut, cut]
        split
        · rename_i fits
          have left : ((x :: xs).drop (size (x :: xs))).length ≤ xs.length := by
            rw [List.length_drop, List.length_cons]
            omega
          rw [ih _ fuel fuel' (by omega) (by omega) (by omega)]
        · rfl
  exact general xs.length xs fuel xs.length (Nat.le_refl _) enough (Nat.le_refl _)

/-- One step of the reading. -/
theorem records_of_ne_nil (some_header : 0 < header) {xs : List α} (more : xs ≠ []) :
    records header size xs =
      if header ≤ size xs ∧ size xs ≤ xs.length then
        (records header size (xs.drop (size xs))).map (xs.take (size xs) :: ·)
      else none := by
  cases xs with
  | nil => exact absurd rfl more
  | cons x xs =>
    rw [records, List.length_cons, cut, List.length_cons]
    split
    · rename_i fits
      rw [cut_eq_records some_header]
      rw [List.length_drop, List.length_cons]
      omega
    · rfl

/-- A record that says its own length is cut off whole. -/
theorem records_append (some_header : 0 < header) {r rest : List α} (long : header ≤ r.length)
    (own : size (r ++ rest) = r.length) :
    records header size (r ++ rest) = (records header size rest).map (r :: ·) := by
  have more : r ++ rest ≠ [] := by
    intro none
    rw [(List.append_eq_nil_iff.mp none).1, List.length_nil] at long
    omega
  rw [records_of_ne_nil some_header more, own,
    if_pos ⟨long, by rw [List.length_append]; omega⟩, List.drop_left, List.take_left]

/-- Records that each say their own length are read back. -/
theorem records_flatten (some_header : 0 < header) {rs : List (List α)}
    (each : ∀ r ∈ rs, header ≤ r.length ∧ ∀ rest, size (r ++ rest) = r.length) :
    records header size rs.flatten = some rs := by
  induction rs with
  | nil => rfl
  | cons r rs ih =>
    obtain ⟨long, own⟩ := each r List.mem_cons_self
    rw [List.flatten_cons, records_append some_header long (own _),
      ih (fun s mem => each s (List.mem_cons_of_mem r mem)), Option.map_some]

/-- What a successful reading says about the first record. -/
theorem records_first (some_header : 0 < header) {xs : List α} {rs : List (List α)}
    (more : xs ≠ []) (read : records header size xs = some rs) :
    ∃ rest, rs = xs.take (size xs) :: rest ∧ header ≤ size xs ∧ size xs ≤ xs.length ∧
      records header size (xs.drop (size xs)) = some rest := by
  rw [records_of_ne_nil some_header more] at read
  split at read
  · rename_i fits
    obtain ⟨rest, tail, rfl⟩ := Option.map_eq_some_iff.mp read
    exact ⟨rest, rfl, fits.1, fits.2, tail⟩
  · cases read

/-- A reading past records that each say their own length. -/
theorem records_behind (some_header : 0 < header) {rs : List (List α)} {xs : List α}
    {ts : List (List α)}
    (each : ∀ r ∈ rs, header ≤ r.length ∧ ∀ rest, size (r ++ rest) = r.length)
    (read : records header size (rs.flatten ++ xs) = some ts) :
    ∃ rest, ts = rs ++ rest ∧ records header size xs = some rest := by
  induction rs generalizing ts with
  | nil => exact ⟨ts, rfl, read⟩
  | cons r rs ih =>
    obtain ⟨long, own⟩ := each r List.mem_cons_self
    rw [List.flatten_cons, List.append_assoc, records_append some_header long (own _)] at read
    obtain ⟨next, tail, rfl⟩ := Option.map_eq_some_iff.mp read
    obtain ⟨rest, rfl, left⟩ := ih (fun s mem => each s (List.mem_cons_of_mem r mem)) tail
    exact ⟨rest, rfl, left⟩

end Records
