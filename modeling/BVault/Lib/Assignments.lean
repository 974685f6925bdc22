import Mathlib.Logic.Equiv.Basic

/-!
# Places for things

Things are assigned places that hold what they should, different things
different places. Where some of the things have places of their own, an
assignment can be changed to give them those; so what is assigned after new
places were filled is a question of the things they were not filled for, and of
the places from before.
-/

namespace Assignments

variable {τ π β : Type*}

/-- Each thing of the list is at a place of its own that holds its content. -/
structure Assigns (holds : π → Option β) (content : τ → β) (things : List τ) (place : τ → π) :
    Prop where
  apart : ∀ s ∈ things, ∀ t ∈ things, place s = place t → s = t
  held : ∀ t ∈ things, holds (place t) = some (content t)

variable [DecidableEq π] {holds : π → Option β} {content : τ → β} {things : List τ} {place : τ → π}

/-- A thing whose own place holds its content can be put there, by exchange. -/
theorem Assigns.exchange (assigns : Assigns holds content things place) {w : τ}
    (mem : w ∈ things) {own : π} (held : holds own = some (content w)) :
    Assigns holds content things (fun t => Equiv.swap own (place w) (place t)) where
  apart s hs t ht same := assigns.apart s hs t ht ((Equiv.swap own (place w)).injective same)
  held := by
    intro t ht
    by_cases at_ : place t = place w
    · obtain rfl := assigns.apart t ht w mem at_
      simpa using held
    · by_cases there : place t = own
      · have same : some (content t) = some (content w) := by
          rw [← assigns.held t ht, there, held]
        simp [there, assigns.held w mem, same]
      · rw [Equiv.swap_apply_of_ne_of_ne there at_]
        exact assigns.held t ht

/-- All things with places of their own can be put there. -/
theorem Assigns.exists_fixing (assigns : Assigns holds content things place) (own : τ → π)
    {fixed : List τ} (sub : ∀ w ∈ fixed, w ∈ things)
    (apart : ∀ v ∈ fixed, ∀ w ∈ fixed, own v = own w → v = w)
    (held : ∀ w ∈ fixed, holds (own w) = some (content w)) :
    ∃ place', Assigns holds content things place' ∧ ∀ w ∈ fixed, place' w = own w := by
  induction fixed with
  | nil => exact ⟨place, assigns, fun w mem => absurd mem List.not_mem_nil⟩
  | cons w fixed ih =>
    have later : ∀ v ∈ fixed, v ∈ w :: fixed := fun v mem => List.mem_cons_of_mem w mem
    obtain ⟨place₁, assigns₁, fixes⟩ := ih (fun v mem => sub v (later v mem))
      (fun v hv u hu => apart v (later v hv) u (later u hu)) (fun v mem => held v (later v mem))
    have first := List.mem_cons_self (a := w) (l := fixed)
    refine ⟨_, assigns₁.exchange (sub w first) (held w first), ?_⟩
    intro v mem
    by_cases same : v = w
    · rw [same, Equiv.swap_apply_right]
    · have inner : v ∈ fixed := (List.mem_cons.mp mem).resolve_left same
      -- the exchange moves neither the place of another thing nor what was put there
      have apart₁ : place₁ v ≠ place₁ w :=
        fun is => same (assigns₁.apart v (sub v mem) w (sub w first) is)
      have apart₂ : place₁ v ≠ own w := by
        rw [fixes v inner]
        exact fun is => same (apart v mem w first is)
      rw [Equiv.swap_apply_of_ne_of_ne apart₂ apart₁, fixes v inner]

/-- New places were filled for some of the things. All have places if and only if the rest had
places before. -/
theorem exists_assigns_iff {old : π → Option β} {own : τ → π} {filled rest : List τ}
    (split : ∀ t, t ∈ rest ↔ t ∈ things ∧ t ∉ filled) (sub : ∀ w ∈ filled, w ∈ things)
    (apart : ∀ v ∈ filled, ∀ w ∈ filled, own v = own w → v = w)
    (new : ∀ w ∈ filled, old (own w) = none)
    (now : ∀ p b, holds p = some b ↔ old p = some b ∨ ∃ w ∈ filled, own w = p ∧ content w = b) :
    (∃ place, Assigns holds content things place) ↔
      ∃ place, Assigns old content rest place := by
  classical
  constructor
  · rintro ⟨place, assigns⟩
    obtain ⟨place', assigns', fixes⟩ := assigns.exists_fixing own sub apart
      (fun w mem => (now _ _).mpr (.inr ⟨w, mem, rfl, rfl⟩))
    refine ⟨place', ?_, ?_⟩
    · intro s hs t ht
      exact assigns'.apart s ((split s).mp hs).1 t ((split t).mp ht).1
    · intro t ht
      obtain ⟨mem, out⟩ := (split t).mp ht
      rcases (now _ _).mp (assigns'.held t mem) with before | ⟨w, inside, is, -⟩
      · exact before
      · rw [← fixes w inside] at is
        obtain rfl := assigns'.apart w (sub w inside) t mem is
        exact absurd inside out
  · rintro ⟨place, assigns⟩
    -- a place filled anew is none from before
    have mixed : ∀ w ∈ filled, ∀ t ∈ things, t ∉ filled → own w ≠ place t := by
      intro w inside t mem out is
      have held := assigns.held t ((split t).mpr ⟨mem, out⟩)
      rw [← is, new w inside] at held
      cases held
    refine ⟨fun t => if t ∈ filled then own t else place t, ?_, ?_⟩
    · intro s hs t ht same
      by_cases inS : s ∈ filled <;> by_cases inT : t ∈ filled
      · exact apart s inS t inT (by simpa [inS, inT] using same)
      · exact absurd (by simpa [inS, inT] using same) (mixed s inS t ht inT)
      · exact absurd (by simpa [inS, inT] using same.symm) (mixed t inT s hs inS)
      · exact assigns.apart s ((split s).mpr ⟨hs, inS⟩) t ((split t).mpr ⟨ht, inT⟩)
          (by simpa [inS, inT] using same)
    · intro t ht
      by_cases inT : t ∈ filled
      · exact (now _ _).mpr (.inr ⟨t, inT, by simp [inT], rfl⟩)
      · simpa [inT] using (now _ _).mpr (.inl (assigns.held t ((split t).mpr ⟨ht, inT⟩)))

end Assignments
