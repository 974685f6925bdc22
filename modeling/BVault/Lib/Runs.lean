import Mathlib.Data.List.Induction

/-!
# Runs of a deterministic machine

A machine is a total step function and a run is the list of labels taken.
The module turns facts about one step into facts about every state of a run,
in both directions: a guard met at each step keeps a property throughout, and
a property that fails as soon as the guard fails forces the guard.
-/

namespace Runs

universe u v
variable {S : Type u} {L : Type v}

/-- The state a run ends in. -/
def run (step : S → L → S) (s : S) (ls : List L) : S := ls.foldl step s

/-- The property holds in every state the run passes through, both ends included. -/
def Throughout (step : S → L → S) (s : S) (ls : List L) (P : S → Prop) : Prop :=
  ∀ pre post, ls = pre ++ post → P (run step s pre)

/-- Every label of the run is taken under the guard; the guard sees the labels before it. -/
def EachStep (ls : List L) (G : List L → L → Prop) : Prop :=
  ∀ pre l post, ls = pre ++ l :: post → G pre l

@[simp] theorem run_nil (step : S → L → S) (s : S) : run step s [] = s := rfl

@[simp] theorem run_append (step : S → L → S) (s : S) (xs ys : List L) :
    run step s (xs ++ ys) = run step (run step s xs) ys :=
  List.foldl_append

@[simp] theorem run_cons (step : S → L → S) (s : S) (l : L) (ls : List L) :
    run step s (l :: ls) = run step (step s l) ls := rfl

theorem run_snoc (step : S → L → S) (s : S) (ls : List L) (l : L) :
    run step s (ls ++ [l]) = step (run step s ls) l := by
  rw [run_append, run_cons, run_nil]

/-- Invariants of single steps are invariants of runs. -/
theorem run_invariant {step : S → L → S} {Inv : S → Prop}
    (keep : ∀ s l, Inv s → Inv (step s l)) {s : S} (init : Inv s) (ls : List L) :
    Inv (run step s ls) := by
  induction ls generalizing s with
  | nil => exact init
  | cons l ls ih => exact ih (keep s l init)

theorem Throughout.start {step : S → L → S} {s : S} {ls : List L} {P : S → Prop}
    (h : Throughout step s ls P) : P s :=
  h [] ls rfl

theorem EachStep.initial {ls ms : List L} {G : List L → L → Prop}
    (h : EachStep (ls ++ ms) G) : EachStep ls G := by
  intro pre l post split
  exact h pre l (post ++ ms) (by rw [split, List.append_assoc, List.cons_append])

/-- A label of a run with one more label is that one, or one from before. -/
theorem split_snoc {pre post ls : List L} {m l : L} (split : ls ++ [l] = pre ++ m :: post) :
    (pre = ls ∧ m = l ∧ post = []) ∨ ∃ mid, post = mid ++ [l] ∧ ls = pre ++ m :: mid := by
  rcases List.eq_nil_or_concat post with rfl | ⟨mid, last, rfl⟩
  · obtain ⟨same, label⟩ := List.append_inj' split rfl
    exact Or.inl ⟨same.symm, (List.singleton_inj.mp label).symm, rfl⟩
  · rw [List.concat_eq_append, ← List.cons_append, ← List.append_assoc] at split
    obtain ⟨before, label⟩ := List.append_inj' split rfl
    obtain rfl := List.singleton_inj.mp label
    exact Or.inr ⟨mid, List.concat_eq_append, before⟩

theorem EachStep.last {ls : List L} {l : L} {G : List L → L → Prop}
    (h : EachStep (ls ++ [l]) G) : G ls l :=
  h ls l [] rfl

@[simp] theorem eachStep_nil {G : List L → L → Prop} : EachStep [] G := by
  intro pre l post split
  exact absurd split.symm (by simp)

@[simp] theorem eachStep_cons {l : L} {ls : List L} {G : List L → L → Prop} :
    EachStep (l :: ls) G ↔ G [] l ∧ EachStep ls (fun pre => G (l :: pre)) := by
  constructor
  · intro h
    exact ⟨h [] l ls rfl, fun pre m post split => h (l :: pre) m post (by rw [split]; rfl)⟩
  · rintro ⟨first, rest⟩ pre m post split
    cases pre with
    | nil =>
      obtain ⟨rfl, _⟩ := List.cons.inj split
      exact first
    | cons k pre =>
      obtain ⟨rfl, tail⟩ := List.cons.inj split
      exact rest pre m post tail

/-- Guarded induction over the labels of a run, for properties of the whole history. -/
theorem history_induction {G : List L → L → Prop} {P : List L → Prop} (ls : List L)
    (guarded : EachStep ls G) (init : P [])
    (keep : ∀ pre l, P pre → G pre l → P (pre ++ [l])) : P ls := by
  induction ls using List.reverseRecOn with
  | nil => exact init
  | append_singleton pre l ih => exact keep pre l (ih guarded.initial) guarded.last

theorem throughout_of_eachStep {step : S → L → S} {s : S} {ls : List L}
    {P : S → Prop} {G : List L → L → Prop} (init : P s)
    (keep : ∀ pre l, P (run step s pre) → G pre l → P (run step s (pre ++ [l])))
    (guarded : EachStep ls G) : Throughout step s ls P := by
  intro pre post split
  subst split
  exact history_induction (P := fun pre => P (run step s pre)) pre guarded.initial init keep

theorem eachStep_of_throughout {step : S → L → S} {s : S} {ls : List L}
    {P : S → Prop} {G : List L → L → Prop}
    (back : ∀ pre l, P (run step s pre) → P (run step s (pre ++ [l])) → G pre l)
    (h : Throughout step s ls P) : EachStep ls G := by
  intro pre l post split
  refine back pre l (h pre (l :: post) split) (h (pre ++ [l]) post ?_)
  rw [split, List.append_assoc, List.singleton_append]

/-- With an invariant of all steps at hand, a property survives a step exactly under its
guard if and only if it holds throughout exactly the runs that meet the guard. -/
theorem throughout_iff_eachStep {step : S → L → S} {P : S → Prop} {G : S → L → Prop}
    (Inv : S → Prop) (keepInv : ∀ s l, Inv s → Inv (step s l))
    (sharp : ∀ s l, Inv s → P s → (P (step s l) ↔ G s l))
    {s : S} (inv : Inv s) (init : P s) (ls : List L) :
    Throughout step s ls P ↔ EachStep ls (fun pre l => G (run step s pre) l) := by
  have reached : ∀ pre, Inv (run step s pre) := run_invariant keepInv inv
  constructor
  · refine eachStep_of_throughout (fun pre l before after => ?_)
    rw [run_snoc] at after
    exact (sharp _ l (reached pre) before).mp after
  · refine throughout_of_eachStep init (fun pre l before guard => ?_)
    rw [run_snoc]
    exact (sharp _ l (reached pre) before).mpr guard

theorem EachStep.snoc {ls : List L} {l : L} {G : List L → L → Prop} (h : EachStep ls G)
    (last : G ls l) : EachStep (ls ++ [l]) G := by
  intro pre m post split
  rcases split_snoc split with ⟨rfl, rfl, _⟩ | ⟨mid, _, split⟩
  · exact last
  · exact h pre m mid split

/-- A property of histories holds of every prefix of exactly the runs that meet the guard, if
the guard keeps a stronger property and is forced by the weaker one after the step. -/
theorem each_prefix_iff_eachStep {P Q : List L → Prop} {N G : List L → L → Prop} {ls : List L}
    (new : EachStep ls N) (init : P []) (weaker : ∀ pre, P pre → Q pre)
    (keep : ∀ pre l, P pre → N pre l → G pre l → P (pre ++ [l]))
    (sharp : ∀ pre l, P pre → N pre l → Q (pre ++ [l]) → G pre l) :
    (∀ pre post, ls = pre ++ post → Q pre) ↔ EachStep ls G := by
  constructor
  · intro all
    have both : EachStep ls G ∧ P ls := by
      induction ls using List.reverseRecOn with
      | nil => exact ⟨eachStep_nil, init⟩
      | append_singleton pre l ih =>
        obtain ⟨steps, holds⟩ := ih new.initial (fun before after split =>
          all before (after ++ [l]) (by rw [split, List.append_assoc]))
        have guard := sharp pre l holds new.last (all (pre ++ [l]) [] (by simp))
        exact ⟨steps.snoc guard, keep pre l holds new.last guard⟩
    exact both.1
  · rintro steps pre post rfl
    refine weaker pre ?_
    have both : EachStep pre (fun before l => N before l ∧ G before l) :=
      fun before l after split => ⟨new.initial before l after split, steps.initial before l after split⟩
    exact history_induction pre both init (fun before l holds guard =>
      keep before l holds guard.1 guard.2)

/-- A property of a step's label and the state after it holds at every step of exactly the
runs that meet the guard, if it restores the invariant under which the two are equivalent. -/
theorem eachStep_after_iff {step : S → L → S} {P G : S → L → Prop} (Inv : S → Prop)
    (keep : ∀ s l, Inv s → P (step s l) l → Inv (step s l))
    (sharp : ∀ s l, Inv s → (P (step s l) l ↔ G s l)) {s : S} (init : Inv s) (ls : List L) :
    EachStep ls (fun pre l => P (run step s (pre ++ [l])) l) ↔
      EachStep ls (fun pre l => G (run step s pre) l) := by
  simp only [run_snoc]
  constructor
  · intro after pre l post split
    have inv : Inv (run step s pre) := by
      refine history_induction (P := fun pre => Inv (run step s pre)) pre
        (split ▸ after).initial init (fun before m holds kept => ?_)
      rw [run_snoc]
      exact keep _ m holds kept
    exact (sharp _ l inv).mp (after pre l post split)
  · intro guarded pre l post split
    have inv : Inv (run step s pre) := by
      refine history_induction (P := fun pre => Inv (run step s pre)) pre
        (split ▸ guarded).initial init (fun before m holds guard => ?_)
      rw [run_snoc]
      exact keep _ m holds ((sharp _ m holds).mpr guard)
    exact (sharp _ l inv).mpr (guarded pre l post split)

end Runs
