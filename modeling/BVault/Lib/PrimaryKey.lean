import Mathlib.Data.List.Nodup

/-!
# Tables with a primary key

A table takes a row unless its key is there. Rows inserted one after the other
are all taken if and only if their keys are distinct, from each other and from
those of the table.
-/

namespace PrimaryKey

variable {ρ κ : Type*}

structure Table (key : ρ → κ) where
  rows : List ρ
  distinct : (rows.map key).Nodup

namespace Table

variable {key : ρ → κ}

@[ext] theorem ext {t t' : Table key} (same : t.rows = t'.rows) : t = t' := by
  cases t
  cases t'
  cases same
  rfl

def empty : Table key := ⟨[], List.nodup_nil⟩

@[simp] theorem rows_empty : (empty : Table key).rows = [] := rfl

theorem nodup_snoc {rows : List ρ} {row : ρ} (distinct : (rows.map key).Nodup)
    (fresh : key row ∉ rows.map key) : ((rows ++ [row]).map key).Nodup := by
  rw [List.map_append, List.nodup_append]
  refine ⟨distinct, List.nodup_singleton _, ?_⟩
  intro k mem k' last same
  rw [List.map_singleton, List.mem_singleton] at last
  exact fresh (last ▸ same ▸ mem)

variable [DecidableEq κ]

/-- A key that is there already is a conflict. -/
def insert (t : Table key) (row : ρ) : Option (Table key) :=
  if there : key row ∈ t.rows.map key then none
  else some ⟨t.rows ++ [row], nodup_snoc t.distinct there⟩

def insertAll (t : Table key) (rows : List ρ) : Option (Table key) := rows.foldlM insert t

theorem insert_eq_some_iff {t t' : Table key} {row : ρ} :
    t.insert row = some t' ↔ key row ∉ t.rows.map key ∧ t'.rows = t.rows ++ [row] := by
  rw [insert]
  split
  · rename_i there
    constructor
    · intro taken
      cases taken
    · rintro ⟨fresh, -⟩
      exact absurd there fresh
  · rename_i fresh
    constructor
    · rintro ⟨⟩
      exact ⟨fresh, rfl⟩
    · rintro ⟨-, rows⟩
      exact congrArg some (ext rows.symm)

theorem insertAll_eq_some_iff {t t' : Table key} {rows : List ρ} :
    t.insertAll rows = some t' ↔
      ((t.rows ++ rows).map key).Nodup ∧ t'.rows = t.rows ++ rows := by
  induction rows generalizing t with
  | nil =>
    rw [insertAll, List.foldlM_nil, List.append_nil]
    constructor
    · intro is
      obtain rfl := Option.some.inj is
      exact ⟨t.distinct, rfl⟩
    · rintro ⟨-, same⟩
      exact congrArg some (ext same.symm)
  | cons row rows ih =>
    rw [insertAll, List.foldlM_cons, Option.bind_eq_bind, Option.bind_eq_some_iff]
    constructor
    · rintro ⟨next, inserted, later⟩
      obtain ⟨-, is⟩ := insert_eq_some_iff.mp inserted
      obtain ⟨distinct, same⟩ := ih.mp later
      rw [is, List.append_assoc, List.singleton_append] at distinct same
      exact ⟨distinct, same⟩
    · rintro ⟨distinct, same⟩
      rw [← List.singleton_append, ← List.append_assoc] at distinct same
      have front : ((t.rows ++ [row]).map key).Nodup := by
        rw [List.map_append] at distinct
        exact (List.nodup_append.mp distinct).1
      have fresh : key row ∉ t.rows.map key := by
        rw [List.map_append, List.nodup_append] at front
        intro mem
        exact front.2.2 _ mem _ List.mem_cons_self rfl
      exact ⟨⟨t.rows ++ [row], front⟩, insert_eq_some_iff.mpr ⟨fresh, rfl⟩, ih.mpr ⟨distinct, same⟩⟩

end Table

end PrimaryKey
