import Mathlib.Data.List.Nodup
import Mathlib.Logic.Function.Basic

/-!
# Files published by a marker

A writer puts files on a shelf one after the other, and each is there in part
before it is there in full. Files are taken away in any order. Whoever has found
the last file, or a part of it, finds each of the others in full or not at all
from then on. Until something is taken away, all that was written is there.
-/

namespace Publication

structure Shelf (ν κ : Type*) where
  done : List (ν × κ)
  left : List (ν × κ)
  /-- The next file exists, and is being written. -/
  opened : Bool
  files : ν → Option κ

namespace Shelf

variable {ν κ : Type*}

def plan (s : Shelf ν κ) : List (ν × κ) := s.done ++ s.left

def start (plan : List (ν × κ)) : Shelf ν κ := ⟨[], plan, false, fun _ => none⟩

/-- Files that were written are there in full or not at all, of the others only the opened one
can be there, and nothing else is. -/
structure Sound (s : Shelf ν κ) : Prop where
  distinct : (s.plan.map Prod.fst).Nodup
  whole : ∀ f ∈ s.done, s.files f.1 = none ∨ s.files f.1 = some f.2
  ahead : ∀ f ∈ s.left, s.files f.1 ≠ none → s.opened = true ∧ s.left.head? = some f
  known : ∀ name, s.files name ≠ none → name ∈ s.plan.map Prod.fst

/-- Nothing is missing. -/
structure Kept (s : Shelf ν κ) : Prop where
  whole : ∀ f ∈ s.done, s.files f.1 = some f.2
  current : s.opened = true → ∀ f, s.left.head? = some f → s.files f.1 ≠ none

theorem sound_start {plan : List (ν × κ)} (distinct : (plan.map Prod.fst).Nodup) :
    Sound (start plan) :=
  ⟨distinct, nofun, fun _ _ there => absurd rfl there, fun _ there => absurd rfl there⟩

theorem kept_start (plan : List (ν × κ)) : Kept (start plan) := ⟨nofun, nofun⟩

variable {s : Shelf ν κ}

theorem ne_of_done {f next : ν × κ} {left : List (ν × κ)} (sound : Sound s)
    (is : s.left = next :: left) (mem : f ∈ s.done) : f.1 ≠ next.1 := by
  have distinct := sound.distinct
  rw [plan, is, List.map_append, List.nodup_append] at distinct
  exact distinct.2.2 _ (List.mem_map_of_mem mem) _ (List.mem_map_of_mem List.mem_cons_self)

theorem ne_of_left {f next : ν × κ} {left : List (ν × κ)} (sound : Sound s)
    (is : s.left = next :: left) (mem : f ∈ left) : f.1 ≠ next.1 := by
  have distinct := sound.distinct
  rw [plan, is, List.map_append, List.nodup_append, List.map_cons, List.nodup_cons] at distinct
  intro same
  exact distinct.2.1.1 (same ▸ List.mem_map_of_mem mem)

/-- Only the last file can be left. -/
def Published (s : Shelf ν κ) : Prop := s.left.length ≤ 1

theorem published_of_marker {front : List (ν × κ)} {marker : ν × κ} (sound : Sound s)
    (is : s.plan = front ++ [marker]) (there : s.files marker.1 ≠ none) : Published s := by
  rcases List.eq_nil_or_concat s.left with none_ | ⟨before, last, left⟩
  · rw [Published, none_]
    exact Nat.zero_le 1
  · rw [List.concat_eq_append] at left
    rw [plan, left, ← List.append_assoc] at is
    obtain ⟨-, same⟩ := List.append_inj' is rfl
    obtain rfl := List.singleton_inj.mp same
    have first := (sound.ahead last (left ▸ List.mem_append_right _ List.mem_cons_self) there).2
    rw [Published, left]
    cases before with
    | nil => exact Nat.le_refl 1
    | cons f before =>
      rw [left] at first
      obtain rfl : f = last := Option.some.inj first
      have distinct := sound.distinct
      rw [plan, left, List.cons_append, List.map_append, List.nodup_append, List.map_cons,
        List.nodup_cons, List.map_append] at distinct
      exact absurd (List.mem_append_right _ List.mem_cons_self) distinct.2.1.1

theorem whole_of_published {front : List (ν × κ)} {marker f : ν × κ} (sound : Sound s)
    (published : Published s) (is : s.plan = front ++ [marker]) (mem : f ∈ front) :
    s.files f.1 = none ∨ s.files f.1 = some f.2 := by
  refine sound.whole f ?_
  rcases List.eq_nil_or_concat s.left with none_ | ⟨before, last, left⟩
  · rw [plan, none_, List.append_nil] at is
    exact is ▸ List.mem_append_left _ mem
  · rw [List.concat_eq_append] at left
    have short : before = [] := by
      rw [Published, left, List.length_append, List.length_singleton] at published
      exact List.eq_nil_of_length_eq_zero (by omega)
    rw [plan, left, short] at is
    obtain ⟨same, -⟩ := List.append_inj' is rfl
    exact same ▸ mem

section
variable [DecidableEq ν]

/-- What is written to a file that was taken away is seen by nobody. -/
def rewrite (files : ν → Option κ) (name : ν) (content : κ) : ν → Option κ :=
  if (files name).isSome then Function.update files name (some content) else files

def openNext (s : Shelf ν κ) (empty : κ) : Shelf ν κ :=
  match s.left with
  | [] => s
  | (name, _) :: _ =>
    if s.opened then s
    else { s with opened := true, files := Function.update s.files name (some empty) }

def fill (s : Shelf ν κ) (part : κ) : Shelf ν κ :=
  match s.left with
  | [] => s
  | (name, _) :: _ => if s.opened then { s with files := rewrite s.files name part } else s

def close (s : Shelf ν κ) : Shelf ν κ :=
  match s.left with
  | [] => s
  | (name, content) :: left =>
    if s.opened then
      { done := s.done ++ [(name, content)]
        left := left
        opened := false
        files := rewrite s.files name content }
    else s

def unlink (s : Shelf ν κ) (name : ν) : Shelf ν κ :=
  { s with files := Function.update s.files name none }

@[simp] theorem files_unlink_self (s : Shelf ν κ) (name : ν) : (s.unlink name).files name = none :=
  Function.update_self _ _ _

theorem files_unlink_of_ne {name other : ν} (apart : other ≠ name) :
    (s.unlink name).files other = s.files other :=
  Function.update_of_ne apart _ _

theorem rewrite_other {files : ν → Option κ} {name other : ν} {content : κ} (apart : other ≠ name) :
    rewrite files name content other = files other := by
  rw [rewrite]
  split
  · exact Function.update_of_ne apart _ _
  · rfl

theorem rewrite_same (files : ν → Option κ) (name : ν) (content : κ) :
    rewrite files name content name = none ∨ rewrite files name content name = some content := by
  rw [rewrite]
  split
  · exact Or.inr (Function.update_self _ _ _)
  · rename_i missing
    exact Or.inl (Option.not_isSome_iff_eq_none.mp missing)

theorem sound_openNext (sound : Sound s) (empty : κ) : Sound (s.openNext empty) := by
  rw [openNext]
  split
  · exact sound
  · rename_i name content left is
    split
    · exact sound
    · refine ⟨sound.distinct, ?_, ?_, ?_⟩
      · intro f mem
        dsimp only
        rw [Function.update_of_ne (ne_of_done sound is mem)]
        exact sound.whole f mem
      · intro f mem there
        refine ⟨rfl, ?_⟩
        dsimp only at mem there ⊢
        rw [is] at mem ⊢
        rcases List.mem_cons.mp mem with rfl | later
        · rfl
        · rw [Function.update_of_ne (ne_of_left sound is later)] at there
          have first := (sound.ahead f (is ▸ mem) there).2
          rwa [is] at first
      · intro other there
        by_cases same : other = name
        · rw [same]
          exact List.mem_map.mpr ⟨(name, content), by simp [plan, is], rfl⟩
        · dsimp only at there
          rw [Function.update_of_ne same] at there
          exact sound.known other there

theorem known_rewrite {next : ν × κ} {left : List (ν × κ)} (sound : Sound s)
    (is : s.left = next :: left) {content : κ} {name : ν}
    (there : rewrite s.files next.1 content name ≠ none) : name ∈ s.plan.map Prod.fst := by
  by_cases same : name = next.1
  · rw [same]
    exact List.mem_map_of_mem (by simp [plan, is])
  · rw [rewrite_other same] at there
    exact sound.known name there

theorem sound_fill (sound : Sound s) (part : κ) : Sound (s.fill part) := by
  rw [fill]
  split
  · exact sound
  · rename_i name content left is
    split
    · rename_i opened
      refine ⟨sound.distinct, ?_, ?_, fun _ => known_rewrite sound is⟩
      · intro f mem
        dsimp only
        rw [rewrite_other (ne_of_done sound is mem)]
        exact sound.whole f mem
      · intro f mem there
        refine ⟨opened, ?_⟩
        dsimp only at mem there ⊢
        rw [is] at mem ⊢
        rcases List.mem_cons.mp mem with rfl | later
        · rfl
        · rw [rewrite_other (ne_of_left sound is later)] at there
          have first := (sound.ahead f (is ▸ mem) there).2
          rwa [is] at first
    · exact sound

@[simp] theorem plan_close (s : Shelf ν κ) : s.close.plan = s.plan := by
  rw [close]
  split
  · rfl
  · rename_i name content left is
    split
    · simp only [plan, is, List.append_assoc, List.singleton_append]
    · rfl

theorem sound_close (sound : Sound s) : Sound s.close := by
  refine ⟨(plan_close s).symm ▸ sound.distinct, ?_, ?_, ?_⟩
  · rw [close]
    split
    · exact sound.whole
    · rename_i name content left is
      split
      · intro f mem
        rcases List.mem_append.mp mem with before | last
        · dsimp only
          rw [rewrite_other (ne_of_done sound is before)]
          exact sound.whole f before
        · obtain rfl := List.mem_singleton.mp last
          exact rewrite_same s.files name content
      · exact sound.whole
  · rw [close]
    split
    · exact sound.ahead
    · rename_i name content left is
      split
      · intro f mem there
        dsimp only at mem there
        have apart := ne_of_left sound is mem
        rw [rewrite_other apart] at there
        have first := (sound.ahead f (is ▸ List.mem_cons_of_mem _ mem) there).2
        rw [is] at first
        exact absurd (congrArg Prod.fst (Option.some.inj first)).symm apart
      · exact sound.ahead
  · intro other there
    rw [plan_close]
    rw [close] at there
    split at there
    · exact sound.known other there
    · rename_i name content left is
      split at there
      · exact known_rewrite sound is there
      · exact sound.known other there

theorem sound_unlink (sound : Sound s) (name : ν) : Sound (s.unlink name) := by
  have less {other : ν} (there : (s.unlink name).files other ≠ none) : s.files other ≠ none := by
    by_cases same : other = name
    · rw [same, files_unlink_self] at there
      exact absurd rfl there
    · rwa [files_unlink_of_ne same] at there
  refine ⟨sound.distinct, ?_, fun f mem there => sound.ahead f mem (less there),
    fun other there => sound.known other (less there)⟩
  intro f mem
  by_cases same : f.1 = name
  · rw [same, files_unlink_self]
    exact Or.inl rfl
  · rw [files_unlink_of_ne same]
    exact sound.whole f mem

theorem kept_openNext (sound : Sound s) (kept : Kept s) (empty : κ) : Kept (s.openNext empty) := by
  rw [openNext]
  split
  · exact kept
  · rename_i name content left is
    split
    · exact kept
    · refine ⟨?_, ?_⟩
      · intro f mem
        dsimp only
        rw [Function.update_of_ne (ne_of_done sound is mem)]
        exact kept.whole f mem
      · intro _ f first
        dsimp only at first ⊢
        rw [is] at first
        obtain rfl := Option.some.inj first
        rw [Function.update_self]
        exact Option.some_ne_none _

theorem rewrite_there {files : ν → Option κ} {name : ν} {content : κ} (there : files name ≠ none) :
    rewrite files name content name = some content := by
  rw [rewrite, if_pos (Option.isSome_iff_ne_none.mpr there), Function.update_self]

theorem kept_fill (sound : Sound s) (kept : Kept s) (part : κ) : Kept (s.fill part) := by
  rw [fill]
  split
  · exact kept
  · rename_i name content left is
    split
    · rename_i opened
      have there : s.files name ≠ none := kept.current opened _ (by rw [is]; rfl)
      refine ⟨?_, ?_⟩
      · intro f mem
        dsimp only
        rw [rewrite_other (ne_of_done sound is mem)]
        exact kept.whole f mem
      · intro _ f first
        dsimp only at first ⊢
        rw [is] at first
        obtain rfl := Option.some.inj first
        rw [rewrite_there there]
        exact Option.some_ne_none _
    · exact kept

theorem kept_close (sound : Sound s) (kept : Kept s) : Kept s.close := by
  rw [close]
  split
  · exact kept
  · rename_i name content left is
    split
    · rename_i opened
      have there : s.files name ≠ none := kept.current opened _ (by rw [is]; rfl)
      refine ⟨?_, nofun⟩
      intro f mem
      rcases List.mem_append.mp mem with before | last
      · dsimp only
        rw [rewrite_other (ne_of_done sound is before)]
        exact kept.whole f before
      · obtain rfl := List.mem_singleton.mp last
        exact rewrite_there there
    · exact kept

inductive Op (ν κ : Type*) where
  | openNext (empty : κ)
  | fill (part : κ)
  | close
  | unlink (name : ν)

def apply (s : Shelf ν κ) : Op ν κ → Shelf ν κ
  | .openNext empty => s.openNext empty
  | .fill part => s.fill part
  | .close => s.close
  | .unlink name => s.unlink name

theorem plan_openNext (s : Shelf ν κ) (empty : κ) : (s.openNext empty).plan = s.plan := by
  rw [openNext]
  split
  · rfl
  · split <;> rfl

theorem plan_fill (s : Shelf ν κ) (part : κ) : (s.fill part).plan = s.plan := by
  rw [fill]
  split
  · rfl
  · split <;> rfl

@[simp] theorem plan_apply (s : Shelf ν κ) (op : Op ν κ) : (s.apply op).plan = s.plan := by
  cases op with
  | openNext empty => exact plan_openNext s empty
  | fill part => exact plan_fill s part
  | close => exact plan_close s
  | unlink name => rfl

theorem sound_apply (sound : Sound s) (op : Op ν κ) : Sound (s.apply op) := by
  cases op with
  | openNext empty => exact sound_openNext sound empty
  | fill part => exact sound_fill sound part
  | close => exact sound_close sound
  | unlink name => exact sound_unlink sound name

/-- What has been written stays written. -/
theorem left_apply (s : Shelf ν κ) (op : Op ν κ) : (s.apply op).left <:+ s.left := by
  cases op with
  | openNext empty =>
    rw [apply, openNext]
    split
    · exact List.suffix_refl _
    · split <;> exact List.suffix_refl _
  | fill part =>
    rw [apply, fill]
    split
    · exact List.suffix_refl _
    · split <;> exact List.suffix_refl _
  | close =>
    rw [apply, close]
    split
    · exact List.suffix_refl _
    · rename_i f left is
      split
      · rw [is]
        exact List.suffix_cons _ _
      · exact List.suffix_refl _
  | unlink name => exact List.suffix_refl _

/-- A property of names and contents that the written contents have. -/
theorem forall_apply {P : ν → κ → Prop} (all : ∀ name content, s.files name = some content → P name content)
    (op : Op ν κ)
    (writes : ∀ f, s.left.head? = some f →
      P f.1 f.2 ∧ (∀ empty, op = .openNext empty → P f.1 empty) ∧ ∀ part, op = .fill part → P f.1 part) :
    ∀ name content, (s.apply op).files name = some content → P name content := by
  have rewritten {f : ν × κ} {written : κ} (fits : P f.1 written) :
      ∀ name content, rewrite s.files f.1 written name = some content → P name content := by
    intro name content there
    by_cases same : name = f.1
    · subst same
      rcases rewrite_same s.files f.1 written with missing | is
      · rw [missing] at there
        cases there
      · rw [is] at there
        cases there
        exact fits
    · rw [rewrite_other same] at there
      exact all name content there
  intro name content
  cases op with
  | openNext empty =>
    rw [apply, openNext]
    split
    · exact all name content
    · rename_i next written left is
      split
      · exact all name content
      · intro there
        have fits := (writes (next, written) (by rw [is]; rfl)).2.1 empty rfl
        by_cases same : name = next
        · subst same
          dsimp only at there
          rw [Function.update_self] at there
          cases there
          exact fits
        · dsimp only at there
          rw [Function.update_of_ne same] at there
          exact all name content there
  | fill part =>
    rw [apply, fill]
    split
    · exact all name content
    · rename_i next written left is
      split
      · exact rewritten ((writes (next, written) (by rw [is]; rfl)).2.2 part rfl) name content
      · exact all name content
  | close =>
    rw [apply, close]
    split
    · exact all name content
    · rename_i next written left is
      split
      · exact rewritten (writes (next, written) (by rw [is]; rfl)).1 name content
      · exact all name content
  | unlink gone =>
    intro there
    by_cases same : name = gone
    · rw [apply, same, files_unlink_self] at there
      cases there
    · rw [apply, files_unlink_of_ne same] at there
      exact all name content there

end

end Shelf

end Publication
