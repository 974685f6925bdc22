import BVault.Lib.Folders

/-!
# Walking names with `..`

A walk goes down under a name and up under `up`, and stays at the top. One that
never rises above its start ends below it wherever it starts; any other one
leaves some start behind for good.
-/

namespace Walks

variable {α : Type*} [DecidableEq α] (up : α)

/-- The place where the names lead. -/
def walk (place : List α) : List α → List α
  | [] => place
  | c :: cs => if c = up then walk place.dropLast cs else walk (place ++ [c]) cs

/-- At this depth below the start, the names never rise above it. -/
def Stays (depth : Nat) : List α → Prop
  | [] => True
  | c :: cs => if c = up then 0 < depth ∧ Stays (depth - 1) cs else Stays (depth + 1) cs

instance decidableStays (depth : Nat) (cs : List α) : Decidable (Stays up depth cs) :=
  match cs with
  | [] => isTrue trivial
  | c :: cs =>
    have := decidableStays (depth - 1) cs
    have := decidableStays (depth + 1) cs
    inferInstanceAs (Decidable (if c = up then 0 < depth ∧ Stays up (depth - 1) cs
      else Stays up (depth + 1) cs))

variable {up}

theorem walk_append (place cs ds : List α) :
    walk up place (cs ++ ds) = walk up (walk up place cs) ds := by
  induction cs generalizing place with
  | nil => rfl
  | cons c cs ih =>
    simp only [List.cons_append, walk]
    split
    · exact ih place.dropLast
    · exact ih (place ++ [c])

theorem walk_names (place cs : List α) (plain : up ∉ cs) : walk up place cs = place ++ cs := by
  induction cs generalizing place with
  | nil => simp [walk]
  | cons c cs ih =>
    obtain ⟨other, plain⟩ := not_or.mp (mt List.mem_cons.mpr plain)
    simp only [walk]
    rw [if_neg (Ne.symm other), ih _ plain, List.append_assoc, List.singleton_append]

/-- A walk that stays below its start carries the start along. -/
theorem walk_of_stays (start place : List α) {cs : List α} (stays : Stays up place.length cs) :
    walk up (start ++ place) cs = start ++ walk up place cs := by
  induction cs generalizing place with
  | nil => rfl
  | cons c cs ih =>
    simp only [walk, Stays] at stays ⊢
    by_cases back : c = up
    · rw [if_pos back] at stays ⊢
      have inside : place ≠ [] := List.ne_nil_of_length_pos stays.1
      rw [if_pos back, List.dropLast_append_of_ne_nil inside]
      apply ih
      rw [List.length_dropLast]
      exact stays.2
    · rw [if_neg back] at stays ⊢
      rw [if_neg back, List.append_assoc]
      apply ih
      rw [List.length_append]
      exact stays

/-- The end of a walk may be exchanged for one that stays wherever the old one does. -/
theorem Stays.exchange {depth : Nat} {cs ds es : List α} (stays : Stays up depth (cs ++ ds))
    (imp : ∀ depth, Stays up depth ds → Stays up depth es) : Stays up depth (cs ++ es) := by
  induction cs generalizing depth with
  | nil => exact imp depth stays
  | cons c cs ih =>
    simp only [List.cons_append, Stays] at stays ⊢
    split at stays
    · rename_i back
      rw [if_pos back]
      exact ⟨stays.1, ih stays.2⟩
    · rename_i on
      rw [if_neg on]
      exact ih stays

theorem Stays.front {depth : Nat} {cs ds : List α} (stays : Stays up depth (cs ++ ds)) :
    Stays up depth cs := by
  rw [← List.append_nil cs]
  exact stays.exchange (fun _ _ => trivial)

theorem stays_names {depth : Nat} {cs : List α} (plain : up ∉ cs) : Stays up depth cs := by
  induction cs generalizing depth with
  | nil => trivial
  | cons c cs ih =>
    obtain ⟨other, plain⟩ := not_or.mp (mt List.mem_cons.mpr plain)
    simp only [Stays]
    rw [if_neg (Ne.symm other)]
    exact ih plain

/-- Names behind a walk that stays do not lead out of it. -/
theorem Stays.snoc {depth : Nat} {cs : List α} (stays : Stays up depth cs) {ds : List α}
    (plain : up ∉ ds) : Stays up depth (cs ++ ds) := by
  rw [← List.append_nil cs] at stays
  exact stays.exchange (fun _ _ => stays_names plain)

theorem mem_walk {place cs : List α} {c : α} (mem : c ∈ walk up place cs) : c ∈ place ∨ c ∈ cs := by
  induction cs generalizing place with
  | nil => exact Or.inl mem
  | cons d cs ih =>
    simp only [walk] at mem
    split at mem
    · rcases ih mem with before | later
      · exact Or.inl (List.dropLast_subset _ before)
      · exact Or.inr (List.mem_cons_of_mem d later)
    · rcases ih mem with before | later
      · rcases List.mem_append.mp before with old | new
        · exact Or.inl old
        · exact Or.inr (List.mem_cons.mpr (Or.inl (List.mem_singleton.mp new)))
      · exact Or.inr (List.mem_cons_of_mem d later)

/-- A walk that rises above its start never comes back to a name of its own. -/
theorem not_mem_walk_of_not_stays {place cs : List α} {fresh : α} (new : fresh ∉ place ∧ fresh ∉ cs)
    (leaves : ¬ Stays up place.length cs) : fresh ∉ walk up (fresh :: place) cs := by
  induction cs generalizing place with
  | nil => exact absurd trivial leaves
  | cons c cs ih =>
    obtain ⟨newPlace, newNames⟩ := new
    obtain ⟨other, newRest⟩ := not_or.mp (mt List.mem_cons.mpr newNames)
    simp only [walk, Stays] at leaves ⊢
    by_cases back : c = up
    · rw [if_pos back] at leaves ⊢
      cases place with
      | nil =>
        intro mem
        rcases mem_walk mem with before | later
        · cases before
        · exact newRest later
      | cons d place =>
        have shorter : (fresh :: d :: place).dropLast = fresh :: (d :: place).dropLast := rfl
        rw [shorter]
        apply ih ⟨fun mem => newPlace (List.dropLast_subset _ mem), newRest⟩
        intro stays
        rw [List.length_dropLast] at stays
        exact leaves ⟨Nat.succ_pos _, stays⟩
    · rw [if_neg back] at leaves ⊢
      rw [List.cons_append]
      apply ih
      · refine ⟨?_, newRest⟩
        intro mem
        rcases List.mem_append.mp mem with before | same
        · exact newPlace before
        · exact other (List.mem_singleton.mp same)
      · rwa [List.length_append]

/-- In a tree of folders the names lead to the place of their walk, or nowhere. -/
theorem walk_of_follow {κ : Type*} {t : Folders α κ} {place found : List α} {cs : List α}
    (reached : t.follow place (cs.map fun c => if c = up then .up else .name c) = some found) :
    walk up place cs = found := by
  induction cs generalizing place with
  | nil =>
    simp only [List.map_nil, Folders.follow] at reached
    split at reached
    · exact Option.some.inj reached
    · cases reached
  | cons c cs ih =>
    simp only [List.map_cons, Folders.follow] at reached
    split at reached
    · simp only [walk]
      by_cases back : c = up
      · rw [if_pos back] at reached ⊢
        exact ih reached
      · rw [if_neg back] at reached ⊢
        exact ih reached
    · cases reached

end Walks
