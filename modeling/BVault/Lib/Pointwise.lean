import Mathlib.Data.List.Forall2
import Mathlib.Data.List.Nodup

/-!
# Lists related element by element

Chains, images and members of `List.Forall₂`, and when exactly one element of
the second list stands in a relation of its own.
-/

namespace Pointwise

universe u v w
variable {α : Type u} {β : Type v} {γ : Type w}

theorem chain {R : α → β → Prop} {S : β → γ → Prop} {T : α → γ → Prop} {xs : List α} {ys : List β}
    {zs : List γ} (first : List.Forall₂ R xs ys) (second : List.Forall₂ S ys zs)
    (both : ∀ x y z, R x y → S y z → T x z) : List.Forall₂ T xs zs := by
  induction first generalizing zs with
  | nil =>
    cases second
    exact List.Forall₂.nil
  | cons here _ rest =>
    cases second with
    | cons there others => exact List.Forall₂.cons (both _ _ _ here there) (rest others)

theorem map_eq {R : α → β → Prop} {xs : List α} {ys : List β} {f : α → γ} {g : β → γ}
    (each : List.Forall₂ R xs ys) (same : ∀ x y, R x y → f x = g y) : xs.map f = ys.map g := by
  induction each with
  | nil => rfl
  | cons here _ ih => rw [List.map_cons, List.map_cons, same _ _ here, ih]

theorem exists_of_mem {R : α → β → Prop} {xs : List α} {ys : List β} {x : α}
    (each : List.Forall₂ R xs ys) (mem : x ∈ xs) : ∃ y ∈ ys, R x y := by
  induction each with
  | nil => cases mem
  | cons here _ ih =>
    rcases List.mem_cons.mp mem with rfl | later
    · exact ⟨_, List.mem_cons_self, here⟩
    · obtain ⟨y, there, related⟩ := ih later
      exact ⟨y, List.mem_cons_of_mem _ there, related⟩

theorem mapM_eq_some_iff {f : α → Option β} {xs : List α} {ys : List β} :
    xs.mapM f = some ys ↔ List.Forall₂ (fun x y => f x = some y) xs ys := by
  induction xs generalizing ys with
  | nil =>
    rw [List.mapM_nil, List.forall₂_nil_left_iff]
    exact Option.some_inj.trans eq_comm
  | cons x xs ih =>
    rw [List.mapM_cons, List.forall₂_cons_left_iff]
    simp only [Option.bind_eq_bind, Option.bind_eq_some_iff, Option.pure_def, Option.some_inj, ih]
    constructor
    · rintro ⟨y, here, zs, rest, rfl⟩
      exact ⟨y, zs, here, rest, rfl⟩
    · rintro ⟨y, zs, here, rest, rfl⟩
      exact ⟨y, here, zs, rest, rfl⟩

theorem exists_mapM_iff {f : α → Option β} {xs : List α} :
    (∃ ys, xs.mapM f = some ys) ↔ ∀ x ∈ xs, ∃ y, f x = some y := by
  constructor
  · rintro ⟨ys, each⟩ x mem
    obtain ⟨y, _, here⟩ := exists_of_mem (mapM_eq_some_iff.mp each) mem
    exact ⟨y, here⟩
  · intro each
    induction xs with
    | nil => exact ⟨[], rfl⟩
    | cons x xs ih =>
      obtain ⟨⟨y, here⟩, rest⟩ := List.forall_mem_cons.mp each
      obtain ⟨ys, others⟩ := ih rest
      exact ⟨y :: ys, mapM_eq_some_iff.mpr (.cons here (mapM_eq_some_iff.mp others))⟩

/-- Both lists are related with what is known of the first one's members. -/
theorem with_mem {R : α → β → Prop} {xs : List α} {ys : List β} (each : List.Forall₂ R xs ys) :
    List.Forall₂ (fun x y => x ∈ xs ∧ R x y) xs ys :=
  (List.forall₂_and_left xs ys).mpr ⟨fun _ mem => mem, each⟩

/-- Exactly one element of a list has the property. -/
def ByOne (ys : List β) (p : β → Prop) : Prop := ∃! i : Nat, ∃ y, ys[i]? = some y ∧ p y

/-- One element has the property where each has it by a key of its own. -/
theorem byOne {R : α → β → Prop} {xs : List α} {ys : List β} {key : α → γ} {k : γ} {p : β → Prop}
    (each : List.Forall₂ R xs ys) (apart : (xs.map key).Nodup) (mem : k ∈ xs.map key)
    (only : ∀ x y, R x y → (p y ↔ key x = k)) : ByOne ys p := by
  rw [List.forall₂_iff_get] at each
  obtain ⟨same, each⟩ := each
  have back {i : Nat} {y : β} (there : ys[i]? = some y) : ∃ x, xs[i]? = some x ∧ R x y := by
    obtain ⟨inside, rfl⟩ := List.getElem?_eq_some_iff.mp there
    have first : i < xs.length := by omega
    exact ⟨xs[i], List.getElem?_eq_getElem first, each i first inside⟩
  obtain ⟨x, here, rfl⟩ := List.mem_map.mp mem
  obtain ⟨i, first, rfl⟩ := List.getElem_of_mem here
  have inside : i < ys.length := by omega
  refine ⟨i, ⟨ys[i], List.getElem?_eq_getElem inside, ?_⟩, ?_⟩
  · exact (only _ _ (each i first inside)).mpr rfl
  · rintro j ⟨y, there, holds⟩
    obtain ⟨x, item, related⟩ := back there
    have second := (List.getElem?_eq_some_iff.mp item).1
    have keys := (only _ _ related).mp holds
    have spot : (xs.map key)[j]? = (xs.map key)[i]? := by
      rw [List.getElem?_map, List.getElem?_map, item, List.getElem?_eq_getElem first,
        Option.map_some, Option.map_some, keys]
    exact (List.getElem?_inj (by rw [List.length_map]; exact second) apart).mp spot

/-- Groups that stand behind one another, each with a key of its own: a key picks its group. -/
theorem filter_groups [DecidableEq γ] {xs : List α} {group : α → List β} {key : α → γ}
    {keyOf : β → γ} (apart : (xs.map key).Nodup) (own : ∀ x ∈ xs, ∀ y ∈ group x, keyOf y = key x)
    {x : α} (mem : x ∈ xs) : (xs.flatMap group).filter (fun y => keyOf y = key x) = group x := by
  have all {z : α} (there : z ∈ xs) (same : key z = key x) :
      (group z).filter (fun y => keyOf y = key x) = group z := by
    rw [List.filter_eq_self]
    intro y inside
    exact decide_eq_true ((own z there y inside).trans same)
  have none_ {z : α} (there : z ∈ xs) (other : key z ≠ key x) :
      (group z).filter (fun y => keyOf y = key x) = [] := by
    rw [List.filter_eq_nil_iff]
    intro y inside same
    exact other ((own z there y inside).symm.trans (of_decide_eq_true same))
  induction xs with
  | nil => cases mem
  | cons z zs ih =>
    rw [List.map_cons, List.nodup_cons] at apart
    rw [List.flatMap_cons, List.filter_append]
    rcases List.mem_cons.mp mem with rfl | later
    · have rest : (zs.flatMap group).filter (fun y => keyOf y = key x) = [] := by
        rw [List.filter_flatMap, List.flatMap_eq_nil_iff]
        intro w there
        apply none_ (List.mem_cons_of_mem x there)
        intro same
        exact apart.1 (same ▸ List.mem_map_of_mem there)
      rw [all mem rfl, rest, List.append_nil]
    · have other : key z ≠ key x := fun same => apart.1 (same ▸ List.mem_map_of_mem later)
      rw [none_ List.mem_cons_self other, List.nil_append]
      exact ih apart.2 (fun w there => own w (List.mem_cons_of_mem z there)) later
        (fun there => all (List.mem_cons_of_mem z there))
        (fun there => none_ (List.mem_cons_of_mem z there))

section
variable {κ : Type u} {ν : Type v} {xs : List (κ × ν)} {k : κ} {v : ν}

theorem find?_key [DecidableEq κ] (xs : List (κ × ν)) (k : κ) :
    (xs.find? (fun e => e.1 = k)).map Prod.snd = xs.lookup k := by
  induction xs with
  | nil => rfl
  | cons e xs ih =>
    obtain ⟨key, value⟩ := e
    by_cases same : key = k
    · subst same
      simp
    · have other : (k == key) = false := beq_eq_false_iff_ne.mpr (Ne.symm same)
      rw [List.find?_cons_of_neg (by simpa using same), ih, List.lookup_cons, other]

/-- Among distinct keys a look-up finds whatever is listed. -/
theorem lookup_iff_mem [BEq κ] [LawfulBEq κ] (distinct : (xs.map Prod.fst).Nodup) :
    xs.lookup k = some v ↔ (k, v) ∈ xs := by
  constructor
  · intro found
    obtain ⟨before, behind, rfl, _⟩ := List.lookup_eq_some_iff.mp found
    simp
  · intro mem
    obtain ⟨before, behind, rfl⟩ := List.append_of_mem mem
    refine List.lookup_eq_some_iff.mpr ⟨before, behind, rfl, ?_⟩
    intro e earlier
    rw [List.map_append, List.map_cons] at distinct
    have apart := (List.nodup_append.mp distinct).2.2 e.1 (List.mem_map_of_mem earlier) k
      List.mem_cons_self
    exact bne_iff_ne.mpr (Ne.symm apart)

theorem lookup_reverse_iff_mem [BEq κ] [LawfulBEq κ] (distinct : (xs.map Prod.fst).Nodup) :
    xs.reverse.lookup k = some v ↔ (k, v) ∈ xs := by
  rw [lookup_iff_mem, List.mem_reverse]
  rw [List.map_reverse]
  exact List.nodup_reverse.mpr distinct

end

end Pointwise
