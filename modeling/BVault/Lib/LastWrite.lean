import BVault.Lib.Runs

/-!
# The last write of a run

A place in the state of a machine is left alone, written or cleared by a step.
What it holds in the end was written by the last step that touched it, so a
value read after a run has a step of the run to account for it.
-/

namespace LastWrite

universe u v w
variable {S : Type u} {L : Type v} {V : Type w}

/-- What a step does to a place. -/
inductive Effect (V : Type w) where
  | keep
  | put (v : V)
  | clear

/-- The place after the step. -/
def Effect.on (e : Effect V) (old : Option V) : Option V :=
  match e with
  | .keep => old
  | .put v => some v
  | .clear => none

/-- The run has a step that writes `v`, and none behind it touches the place. -/
def LastPut (effect : List L → L → Effect V) (ls : List L) (v : V) : Prop :=
  ∃ pre l post, ls = pre ++ l :: post ∧ effect pre l = .put v ∧
    ∀ mid m rest, post = mid ++ m :: rest → effect (pre ++ l :: mid) m = .keep

section
variable {effect : List L → L → Effect V} {ls : List L} {l : L} {v : V}

theorem not_lastPut_nil : ¬ LastPut effect [] v := by
  rintro ⟨pre, l, post, split, -⟩
  exact absurd split (by simp)

theorem LastPut.keep (last : LastPut effect ls v) (kept : effect ls l = .keep) :
    LastPut effect (ls ++ [l]) v := by
  obtain ⟨pre, m, post, rfl, wrote, quiet⟩ := last
  refine ⟨pre, m, post ++ [l], by simp, wrote, ?_⟩
  intro mid k rest split
  rcases Runs.split_snoc split with ⟨rfl, rfl, -⟩ | ⟨rest', -, earlier⟩
  · exact kept
  · exact quiet mid k rest' earlier

theorem LastPut.put (wrote : effect ls l = .put v) : LastPut effect (ls ++ [l]) v := by
  refine ⟨ls, l, [], rfl, wrote, ?_⟩
  intro mid m rest split
  exact absurd split (by simp)

/-- The last write of a longer run is its last step, or was one before a step that keeps. -/
theorem LastPut.of_snoc (last : LastPut effect (ls ++ [l]) v) :
    effect ls l = .put v ∨ (effect ls l = .keep ∧ LastPut effect ls v) := by
  obtain ⟨pre, m, post, split, wrote, quiet⟩ := last
  rcases Runs.split_snoc split with ⟨rfl, rfl, -⟩ | ⟨mid, rfl, rfl⟩
  · exact Or.inl wrote
  · refine Or.inr ⟨quiet mid l [] rfl, pre, m, mid, rfl, wrote, ?_⟩
    rintro mid' k rest rfl
    exact quiet mid' k (rest ++ [l]) (by simp)

theorem lastPut_snoc_iff :
    LastPut effect (ls ++ [l]) v ↔
      effect ls l = .put v ∨ (effect ls l = .keep ∧ LastPut effect ls v) := by
  constructor
  · exact LastPut.of_snoc
  · rintro (wrote | ⟨kept, last⟩)
    · exact LastPut.put wrote
    · exact last.keep kept

end

/-- A place that is empty at first holds what the last write put there. -/
theorem look_run_iff {step : S → L → S} (look : S → Option V) {effect : S → L → Effect V} {s : S}
    (reads : ∀ s l, look (step s l) = (effect s l).on (look s)) (empty : look s = none)
    (ls : List L) (v : V) :
    look (Runs.run step s ls) = some v ↔
      LastPut (fun pre l => effect (Runs.run step s pre) l) ls v := by
  induction ls using List.reverseRecOn with
  | nil =>
    rw [Runs.run_nil, empty]
    exact iff_of_false (Option.some_ne_none v).symm not_lastPut_nil
  | append_singleton ls l ih =>
    rw [Runs.run_snoc, reads, lastPut_snoc_iff, ← ih]
    cases effect (Runs.run step s ls) l with
    | keep => simp [Effect.on]
    | put v' => simp [Effect.on]
    | clear => simp [Effect.on]

end LastWrite
