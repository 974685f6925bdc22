import Mathlib.Data.List.Basic

/-!
# Loops with early exit

`for` loops that leave with `?` are monadic folds over `Except`. An invariant
that mentions the items already consumed holds at the end of every run that
returns, and a loop whose every step can be taken under the invariant returns.
-/

namespace Loops

universe u v w

variable {ε : Type u} {α : Type v} {σ τ : Type w}

/-- `x?` followed by a continuation returns only through both. -/
theorem of_bind {x : Except ε σ} {f : σ → Except ε τ} {b : τ} (ran : x >>= f = .ok b) :
    ∃ a, x = .ok a ∧ f a = .ok b := by
  cases x with
  | error fault => cases ran
  | ok a => exact ⟨a, rfl, ran⟩

theorem ok_bind (a : σ) (f : σ → Except ε τ) : (Except.ok a >>= f) = f a := rfl

theorem bind_ok {x : Except ε σ} {f : σ → Except ε τ} {a : σ} {b : τ} (first : x = .ok a)
    (second : f a = .ok b) : x >>= f = .ok b := by
  rw [first]
  exact second

theorem bind_ok_iff {x : Except ε σ} {f : σ → Except ε τ} {b : τ} :
    x >>= f = .ok b ↔ ∃ a, x = .ok a ∧ f a = .ok b := by
  constructor
  · exact of_bind
  · rintro ⟨a, first, rest⟩
    exact bind_ok first rest

variable {f : σ → α → Except ε σ}

/-- What every step preserves holds after a loop that returns. -/
theorem foldlM_invariant {P : List α → σ → Prop} {xs : List α} {s s' : σ} (start : P [] s)
    (step : ∀ done x s s', P done s → done ++ [x] <+: xs → f s x = .ok s' → P (done ++ [x]) s')
    (ran : xs.foldlM f s = .ok s') : P xs s' := by
  have general : ∀ (todo done : List α) (s : σ), done ++ todo = xs → P done s →
      todo.foldlM f s = .ok s' → P xs s' := by
    intro todo
    induction todo with
    | nil =>
      intro done s all holds ran
      cases ran
      rw [List.append_nil] at all
      rwa [← all]
    | cons x todo ih =>
      intro done s all holds ran
      have here : done ++ [x] <+: xs := ⟨todo, by rw [List.append_assoc]; exact all⟩
      rw [List.foldlM_cons] at ran
      obtain ⟨next, stepped, ran⟩ := of_bind ran
      exact ih (done ++ [x]) next (by rw [List.append_assoc]; exact all)
        (step done x s next holds here stepped) ran
  exact general xs [] s rfl start ran

theorem mem_of_consumed {xs done : List α} {x : α} (here : done ++ [x] <+: xs) : x ∈ xs :=
  here.subset (List.mem_append_right _ List.mem_cons_self)

theorem getElem?_of_consumed {xs done : List α} {x : α} (here : done ++ [x] <+: xs) :
    xs[done.length]? = some x := by
  obtain ⟨todo, rfl⟩ := here
  simp

/-- A loop returns, or fails at an item, when each step leads on or fails at its item. -/
theorem foldlM_cases {P : List α → σ → Prop} {Q : α → ε → Prop} (xs : List α) {s : σ}
    (start : P [] s) (step : ∀ done x s, P done s → done ++ [x] <+: xs →
      (∃ s', f s x = .ok s' ∧ P (done ++ [x]) s') ∨ ∃ e, f s x = .error e ∧ Q x e) :
    (∃ s', xs.foldlM f s = .ok s' ∧ P xs s') ∨
      ∃ x ∈ xs, ∃ e, xs.foldlM f s = .error e ∧ Q x e := by
  have general : ∀ (todo done : List α) (s : σ), done ++ todo = xs → P done s →
      (∃ s', todo.foldlM f s = .ok s' ∧ P xs s') ∨
        ∃ x ∈ todo, ∃ e, todo.foldlM f s = .error e ∧ Q x e := by
    intro todo
    induction todo with
    | nil =>
      intro done s all holds
      rw [List.append_nil] at all
      subst all
      exact .inl ⟨s, rfl, holds⟩
    | cons x todo ih =>
      intro done s all holds
      have here : done ++ [x] <+: xs := ⟨todo, by rw [List.append_assoc]; exact all⟩
      rw [List.foldlM_cons]
      rcases step done x s holds here with ⟨next, stepped, after⟩ | ⟨e, failed, why⟩
      · rcases ih (done ++ [x]) next (by rw [List.append_assoc]; exact all) after with
          ⟨final, ran, result⟩ | ⟨y, mem, e, failed, why⟩
        · exact .inl ⟨final, bind_ok stepped ran, result⟩
        · refine .inr ⟨y, List.mem_cons_of_mem x mem, e, ?_, why⟩
          rw [stepped]
          exact failed
      · refine .inr ⟨x, List.mem_cons_self, e, ?_, why⟩
        rw [failed]
        rfl
  exact general xs [] s rfl start

/-- A loop returns when each step can be taken and leads on. -/
theorem foldlM_returns {P : List α → σ → Prop} (xs : List α) {s : σ} (start : P [] s)
    (step : ∀ done x s, P done s → done ++ [x] <+: xs → ∃ s', f s x = .ok s' ∧ P (done ++ [x]) s') :
    ∃ s', xs.foldlM f s = .ok s' ∧ P xs s' := by
  have returned := foldlM_cases (Q := fun _ _ => False) xs start
    (fun done x s holds here => .inl (step done x s holds here))
  rcases returned with returned | ⟨_, _, _, _, impossible⟩
  · exact returned
  · exact impossible.elim

/-- A loop whose steps return what those of another loop return does so as a whole. -/
theorem foldlM_of_ok {g : σ → α → Except ε σ}
    (follows : ∀ s x s', f s x = .ok s' → g s x = .ok s') {xs : List α} {s s' : σ}
    (ran : xs.foldlM f s = .ok s') : xs.foldlM g s = .ok s' := by
  induction xs generalizing s with
  | nil => exact ran
  | cons x xs ih =>
    rw [List.foldlM_cons] at ran ⊢
    obtain ⟨next, here, tail⟩ := of_bind ran
    exact bind_ok (follows s x next here) (ih tail)

/-- Each step of a loop that returns has returned. -/
theorem foldlM_each {xs : List α} {s s' : σ} {x : α} (ran : xs.foldlM f s = .ok s')
    (mem : x ∈ xs) : ∃ t t', f t x = .ok t' := by
  induction xs generalizing s with
  | nil => cases mem
  | cons y ys ih =>
    rw [List.foldlM_cons] at ran
    obtain ⟨next, here, tail⟩ := of_bind ran
    rcases List.mem_cons.mp mem with rfl | later
    · exact ⟨s, next, here⟩
    · exact ih tail later

/-- A mapping loop that returns is a map, where each step returns what the map does. -/
theorem mapM_eq_map {β : Type w} {g : α → Except ε β} {h : α → β} {xs : List α} {ys : List β}
    (each : ∀ x ∈ xs, ∀ y, g x = .ok y → y = h x) (ran : xs.mapM g = .ok ys) : ys = xs.map h := by
  induction xs generalizing ys with
  | nil =>
    cases ran
    rfl
  | cons x xs ih =>
    rw [List.mapM_cons] at ran
    obtain ⟨y, first, ran⟩ := of_bind ran
    obtain ⟨rest, tail, ran⟩ := of_bind ran
    cases ran
    rw [each x List.mem_cons_self y first,
      ih (fun z mem => each z (List.mem_cons_of_mem x mem)) tail, List.map_cons]

/-- What a mapping loop returns, some step has returned. -/
theorem mapM_mem {β : Type w} {g : α → Except ε β} {xs : List α} {ys : List β} {y : β}
    (ran : xs.mapM g = .ok ys) (mem : y ∈ ys) : ∃ x ∈ xs, g x = .ok y := by
  induction xs generalizing ys with
  | nil =>
    cases ran
    cases mem
  | cons x xs ih =>
    rw [List.mapM_cons] at ran
    obtain ⟨first, here, ran⟩ := of_bind ran
    obtain ⟨rest, tail, ran⟩ := of_bind ran
    cases ran
    rcases List.mem_cons.mp mem with rfl | later
    · exact ⟨x, List.mem_cons_self, here⟩
    · obtain ⟨z, there, made⟩ := ih tail later
      exact ⟨z, List.mem_cons_of_mem x there, made⟩

/-- Each step of a mapping loop that returns has returned. -/
theorem mapM_each {β : Type w} {g : α → Except ε β} {xs : List α} {ys : List β} {x : α}
    (ran : xs.mapM g = .ok ys) (mem : x ∈ xs) : ∃ y, g x = .ok y := by
  induction xs generalizing ys with
  | nil => cases mem
  | cons z zs ih =>
    rw [List.mapM_cons] at ran
    obtain ⟨first, here, ran⟩ := of_bind ran
    obtain ⟨rest, tail, _⟩ := of_bind ran
    rcases List.mem_cons.mp mem with rfl | later
    · exact ⟨first, here⟩
    · exact ih tail later

theorem mapM_returns {β : Type w} {g : α → Except ε β} {h : α → β} {xs : List α}
    (each : ∀ x ∈ xs, g x = .ok (h x)) : xs.mapM g = .ok (xs.map h) := by
  induction xs with
  | nil => rfl
  | cons x xs ih =>
    rw [List.mapM_cons]
    refine bind_ok (each x List.mem_cons_self) ?_
    exact bind_ok (ih (fun z mem => each z (List.mem_cons_of_mem x mem))) rfl

end Loops
