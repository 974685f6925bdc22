import BVault.Jobs.Rows

/-!
# The index on active rows

`jobs_active_dedup` is unique: in every run no two pending or running rows have
the same kind and dedup key. `enqueue` adds no row beside an active one, and a
`claim` that would make a second row active is stopped by the index.
-/

namespace BVault.Jobs.Queue

/-- Active rows of one key are one row. -/
def ActiveRowsAgree (q : Queue) : Prop :=
  ∀ i ∈ q.jobs, ∀ j ∈ q.jobs, i.status.active = true → j.status.active = true →
    i.sameKey j → i.id = j.id

/-- The row that a statement makes active, past the index. -/
def activated (q : Queue) : Op → Option Job
  | .claim now kind _ locked tie => (q.pick now kind locked tie).filter (fun p => !q.indexBlocked p)
  | _ => none

/-- A row is active after a statement only if it was active, or a `claim` picked it. -/
theorem effect_active {q : Queue} {op : Op} {j : Job}
    (isActive : (q.effect op j).status.active = true) :
    j.status.active = true ∨ ∃ p, q.activated op = some p ∧ p.id = j.id := by
  have made := q.effect_rewrites op j
  generalize q.effect op j = after at made isActive
  cases made with
  | kept => exact Or.inl isActive
  | @leased _ _ _ _ _ p picked free same =>
    refine Or.inr ⟨p, ?_, same.symm⟩
    simp [activated, picked, free]
  | extended => exact Or.inl isActive
  | completed => cases isActive
  | failed => cases isActive
  | spent => cases isActive
  | parked => cases isActive

theorem activated_spec {q : Queue} {op : Op} {p : Job} (made : q.activated op = some p) :
    p ∈ q.jobs ∧ q.indexBlocked p = false := by
  cases op with
  | claim now kind lease locked tie =>
    obtain ⟨picked, free⟩ := Option.filter_eq_some_iff.mp made
    exact ⟨(pick_spec picked).1.1, by simpa using free⟩
  | enqueue => cases made
  | heartbeat => cases made
  | complete => cases made
  | fail => cases made
  | markDead => cases made

/-- A row the index does not block has no active row of its key beside it. -/
theorem alone_of_not_blocked {q : Queue} {i j : Job} (free : q.indexBlocked j = false)
    (hi : i ∈ q.jobs) (isActive : i.status.active = true) (same : i.sameKey j) : i.id = j.id := by
  by_contra other
  have clash : q.indexBlocked j = true :=
    List.any_eq_true.mpr ⟨i, hi, by simp [other, isActive, same]⟩
  rw [free] at clash
  cases clash

theorem activeRow_eq_none {q : Queue} {kind : JobKind} {key : String} {j : Job}
    (free : q.activeRow kind key = none) (hj : j ∈ q.jobs) (sameKind : j.kind = kind)
    (sameKey : j.dedupKey = key) : j.status.active = false := by
  have inactive := List.find?_eq_none.mp free j hj
  simpa [sameKind, sameKey] using inactive

theorem activeRow_spec {q : Queue} {kind : JobKind} {key : String} {j : Job}
    (found : q.activeRow kind key = some j) :
    j ∈ q.jobs ∧ j.status.active = true ∧ j.kind = kind ∧ j.dedupKey = key := by
  have spec := List.find?_some found
  simp only [Bool.and_eq_true, decide_eq_true_eq] at spec
  exact ⟨List.mem_of_find?_eq_some found, spec.1.1, spec.1.2, spec.2⟩

theorem activeRowsAgree_step {q : Queue} {op : Op} (keyed : q.Keyed) (agree : q.ActiveRowsAgree) :
    (q.step op).ActiveRowsAgree := by
  refine oneOfKey_step (P := fun j => j.status.active = true)
    (E := fun j => ∃ p, q.activated op = some p ∧ p.id = j.id)
    agree (fun _ _ => effect_active) ?joined ?single ?fresh
  case joined =>
    rintro i hi j hj isActive ⟨p, made, same⟩ sameKey
    obtain ⟨hp, free⟩ := activated_spec made
    obtain rfl := keyed.same_row hp hj same
    exact alone_of_not_blocked free hi isActive sameKey
  case single =>
    rintro i j ⟨p, made, first⟩ ⟨p', made', second⟩
    rw [made] at made'
    obtain rfl := Option.some.inj made'
    exact first.symm.trans second
  case fresh =>
    intro i hi j hj isActive same
    obtain ⟨now, payload, m, tp, rfl, free, _, _⟩ := mem_inserted hj
    have inactive := activeRow_eq_none free hi same.1 same.2
    rcases effect_active isActive with before | ⟨p, made, _⟩
    · rw [inactive] at before
      cases before
    · cases made

/-- What the database keeps in every run: distinct ids and the index. -/
structure Indexed (q : Queue) : Prop where
  keyed : q.Keyed
  agree : q.ActiveRowsAgree

theorem indexed_step {q : Queue} (op : Op) (indexed : q.Indexed) : (q.step op).Indexed :=
  ⟨keyed_step op indexed.keyed, activeRowsAgree_step indexed.keyed indexed.agree⟩

theorem indexed_empty : Indexed empty := ⟨keyed_empty, fun _ hi => absurd hi List.not_mem_nil⟩

theorem indexed_run (ops : List Op) : (runQueue ops).Indexed :=
  Runs.run_invariant (fun _ op => indexed_step op) indexed_empty ops

end BVault.Jobs.Queue
