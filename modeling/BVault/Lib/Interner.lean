import Mathlib.Data.List.Nodup
import Mathlib.Data.List.Sort
import Mathlib.Order.Basic

/-!
# Interning dictionaries

A map from keys to the numbers 1, 2, 3, … in the order of first use, with the
next free number, which stays below a bound. What makes it one is part of the
type: the numbers are consecutive and no key occurs twice.
-/

universe u

structure Interner (K : Type u) (bound : Nat) where
  entries : List (K × Nat)
  next : Nat
  numbered : entries.map Prod.snd = List.range' 1 entries.length
  counted : next = entries.length + 1
  distinct : (entries.map Prod.fst).Nodup
  small : next < bound

namespace Interner

variable {K : Type u} {bound : Nat}

def empty (room : 1 < bound) : Interner K bound where
  entries := []
  next := 1
  numbered := rfl
  counted := rfl
  distinct := List.nodup_nil
  small := room

variable [DecidableEq K]

def get? (d : Interner K bound) (k : K) : Option Nat :=
  (d.entries.find? (fun e => e.1 = k)).map Prod.snd

theorem not_mem_of_get? {d : Interner K bound} {k : K} (absent : d.get? k = none) :
    k ∉ d.entries.map Prod.fst := by
  intro mem
  obtain ⟨e, he, same⟩ := List.mem_map.mp mem
  rw [get?, Option.map_eq_none_iff, List.find?_eq_none] at absent
  exact absent e he (decide_eq_true same)

/-- A new key takes the next number. -/
def push (d : Interner K bound) (k : K) (absent : d.get? k = none) (room : d.next + 1 < bound) :
    Interner K bound where
  entries := d.entries ++ [(k, d.next)]
  next := d.next + 1
  numbered := by
    rw [List.map_append, d.numbered, d.counted, List.length_append, List.length_singleton,
      List.range'_concat]
    simp [Nat.add_comm]
  counted := by rw [List.length_append, d.counted, List.length_singleton]
  distinct := by
    rw [List.map_append, List.nodup_append]
    refine ⟨d.distinct, by simp, ?_⟩
    intro a ha b hb same
    have fresh := not_mem_of_get? absent
    simp only [List.map_cons, List.map_nil, List.mem_singleton] at hb
    rw [same, hb] at ha
    exact fresh ha
  small := room

/-- The number of a key, given out on first use; `none` where the counter would reach the
bound. -/
def intern (d : Interner K bound) (k : K) : Option (Nat × Interner K bound) :=
  match found : d.get? k with
  | some id => some (id, d)
  | none => if room : d.next + 1 < bound then some (d.next, d.push k found room) else none

theorem mem_of_get? {d : Interner K bound} {k : K} {id : Nat} (found : d.get? k = some id) :
    (k, id) ∈ d.entries := by
  obtain ⟨e, he, rfl⟩ := Option.map_eq_some_iff.mp found
  have same := List.find?_some he
  rw [decide_eq_true_eq] at same
  rw [← same]
  exact List.mem_of_find?_eq_some he

/-- Interning only appends, and it appends at most the key with its number. -/
theorem intern_spec {d d' : Interner K bound} {k : K} {id : Nat}
    (interned : d.intern k = some (id, d')) :
    (k, id) ∈ d'.entries ∧ (d'.entries = d.entries ∨ d'.entries = d.entries ++ [(k, id)]) := by
  rw [intern] at interned
  split at interned
  · rename_i found
    cases interned
    exact ⟨mem_of_get? found, Or.inl rfl⟩
  · split at interned
    · cases interned
      exact ⟨List.mem_append_right _ List.mem_cons_self, Or.inr rfl⟩
    · cases interned

omit [DecidableEq K]

/-- The numbers in use are 1 to the number of keys. -/
theorem mem_ids {d : Interner K bound} {id : Nat} :
    id ∈ d.entries.map Prod.snd ↔ 1 ≤ id ∧ id ≤ d.entries.length := by
  rw [d.numbered, List.mem_range'_1]
  omega

theorem id_bounds {d : Interner K bound} {e : K × Nat} (mem : e ∈ d.entries) :
    1 ≤ e.2 ∧ e.2 < bound := by
  have inside := mem_ids.mp (List.mem_map_of_mem mem)
  have counted := d.counted
  have small := d.small
  omega

theorem nodup_ids (d : Interner K bound) : (d.entries.map Prod.snd).Nodup := by
  rw [d.numbered]
  exact List.nodup_range'

/-- One number, one key. -/
theorem key_of_id {d : Interner K bound} {e f : K × Nat} (he : e ∈ d.entries)
    (hf : f ∈ d.entries) (same : e.2 = f.2) : e = f :=
  List.inj_on_of_nodup_map d.nodup_ids he hf same

/-- The entry with a number is the only one. -/
theorem filter_id {d : Interner K bound} {k : K} {id : Nat} (mem : (k, id) ∈ d.entries) :
    d.entries.filter (fun e => e.2 = id) = [(k, id)] := by
  have general : ∀ entries : List (K × Nat), (entries.map Prod.snd).Nodup → (k, id) ∈ entries →
      entries.filter (fun e => e.2 = id) = [(k, id)] := by
    intro entries
    induction entries with
    | nil =>
      intro _ mem
      cases mem
    | cons e entries ih =>
      intro distinct mem
      obtain ⟨fresh, distinct⟩ := List.nodup_cons.mp distinct
      rcases List.mem_cons.mp mem with rfl | mem
      · have others : entries.filter (fun e => e.2 = id) = [] := by
          rw [List.filter_eq_nil_iff]
          intro f hf same
          rw [decide_eq_true_eq] at same
          exact fresh (List.mem_map.mpr ⟨f, hf, same⟩)
        rw [List.filter_cons_of_pos (by simp), others]
      · have other : e.2 ≠ id := by
          intro same
          exact fresh (List.mem_map.mpr ⟨_, mem, same.symm⟩)
        rw [List.filter_cons_of_neg (by simp [other])]
        exact ih distinct mem
  exact general d.entries d.nodup_ids mem

/-- One key, one number. -/
theorem id_of_key {d : Interner K bound} {e f : K × Nat} (he : e ∈ d.entries)
    (hf : f ∈ d.entries) (same : e.1 = f.1) : e = f :=
  List.inj_on_of_nodup_map d.distinct he hf same

/-- Sorting by number, from any order in which the map is iterated. -/
def sortById (entries : List (K × Nat)) : List (K × Nat) :=
  entries.mergeSort (fun a b => decide (a.2 ≤ b.2))

/-- Whatever the order of iteration, sorting gives the order of first use. -/
theorem sortById_of_perm (d : Interner K bound) {iterated : List (K × Nat)}
    (iteration : iterated.Perm d.entries) : sortById iterated = d.entries := by
  have sorted : (sortById iterated).Pairwise (fun a b => a.2 ≤ b.2) := by
    have byId : (sortById iterated).Pairwise (fun a b => decide (a.2 ≤ b.2) = true) := by
      apply List.pairwise_mergeSort
      · intro a b c below above
        exact decide_eq_true (le_trans (of_decide_eq_true below) (of_decide_eq_true above))
      · intro a b
        rw [Bool.or_eq_true, decide_eq_true_eq, decide_eq_true_eq]
        exact le_total a.2 b.2
    exact byId.imp of_decide_eq_true
  have ordered : d.entries.Pairwise (fun a b => a.2 ≤ b.2) := by
    have ids : (d.entries.map Prod.snd).Pairwise (· ≤ ·) := by
      rw [d.numbered]
      exact (List.pairwise_lt_range').imp le_of_lt
    exact List.pairwise_map.mp ids
  have same : (sortById iterated).Perm d.entries :=
    (List.mergeSort_perm iterated _).trans iteration
  refine List.Perm.eq_of_pairwise ?_ sorted ordered same
  intro a b ha hb below above
  exact d.key_of_id (same.mem_iff.mp ha) hb (le_antisymm below above)

end Interner
