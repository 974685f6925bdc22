import Mathlib.Data.List.Induction
import Mathlib.Data.List.Nodup

/-!
# Folders addressed by identifiers

Every folder lists its entries, a name with an identifier each, and names are
followed from folder to folder. In a tree every document has one place, so a
folder is reached by one path, what is added elsewhere leaves a path alone, and
removing an entry cuts the paths through it and no others. The identifier of a
document that is gone may be given to a new one.
-/

/-- A file has no entries. -/
structure NamedTree (ν ι : Type*) where
  entries : ι → Option (List (ν × ι))

namespace NamedTree

variable {ν ι : Type*} [DecidableEq ν]

def IsFolder (t : NamedTree ν ι) (i : ι) : Prop := (t.entries i).isSome

/-- The entry of a name. -/
def child (t : NamedTree ν ι) (i : ι) (name : ν) : Option ι :=
  (t.entries i).bind (fun es => (es.find? (fun e => e.1 = name)).map Prod.snd)

/-- The folder that names lead to. -/
def follow (t : NamedTree ν ι) (i : ι) : List ν → Option ι
  | [] => if (t.entries i).isSome then some i else none
  | name :: names => (t.child i name).bind (fun j => t.follow j names)

/-- A new entry of a folder: an empty folder or a file. -/
def add [DecidableEq ι] (t : NamedTree ν ι) (i : ι) (name : ν) (new : ι) (folder : Bool) :
    NamedTree ν ι :=
  match t.entries i with
  | some es =>
    { entries := fun j =>
        if j = new then (if folder then some [] else none)
        else if j = i then some (es ++ [(name, new)])
        else t.entries j }
  | none => t

/-- An entry goes, with what is below it. -/
def remove [DecidableEq ι] (t : NamedTree ν ι) (i : ι) (name : ν) : NamedTree ν ι :=
  match t.entries i with
  | some es =>
    { entries := fun j => if j = i then some (es.filter (fun e => e.1 ≠ name)) else t.entries j }
  | none => t

/-- The documents of the tree under `root`, each at its path. -/
inductive Document (t : NamedTree ν ι) (root : ι) : List ν → ι → Prop
  | root : Document t root [] root
  | entry {names : List ν} {i j : ι} {es : List (ν × ι)} {name : ν} :
      t.follow root names = some i → t.entries i = some es → (name, j) ∈ es →
      Document t root (names ++ [name]) j

/-- Names are unique in a folder, and every document has one place. -/
structure WellFormed (t : NamedTree ν ι) (root : ι) : Prop where
  names : ∀ p i es, t.follow root p = some i → t.entries i = some es → (es.map Prod.fst).Nodup
  place : ∀ p q u, t.Document root p u → t.Document root q u → p = q
  folder : t.IsFolder root

variable {t : NamedTree ν ι} {root : ι}

theorem child_eq_some {i j : ι} {name : ν} (is : t.child i name = some j) :
    ∃ es, t.entries i = some es ∧ (name, j) ∈ es := by
  obtain ⟨es, folder, found⟩ := Option.bind_eq_some_iff.mp is
  obtain ⟨e, here, rfl⟩ := Option.map_eq_some_iff.mp found
  obtain rfl : e.1 = name := by simpa using List.find?_some here
  exact ⟨es, folder, List.mem_of_find?_eq_some here⟩

theorem child_of_mem {i j : ι} {name : ν} {es : List (ν × ι)}
    (unique : (es.map Prod.fst).Nodup) (folder : t.entries i = some es) (mem : (name, j) ∈ es) :
    t.child i name = some j := by
  have found : (es.find? (fun e => e.1 = name)).isSome := by
    rw [List.find?_isSome]
    exact ⟨(name, j), mem, by simp⟩
  obtain ⟨e, here⟩ := Option.isSome_iff_exists.mp found
  have same : e.1 = name := by simpa using List.find?_some here
  have entry := List.inj_on_of_nodup_map unique (List.mem_of_find?_eq_some here) mem same
  simp [child, folder, here, entry]

omit [DecidableEq ν] in
theorem isFolder_of_entries {i : ι} {es : List (ν × ι)} (here : t.entries i = some es) :
    t.IsFolder i := by
  simp [IsFolder, here]

theorem follow_nil {i : ι} (folder : t.IsFolder i) : t.follow i [] = some i := if_pos folder

theorem follow_nil_iff {i j : ι} : t.follow i [] = some j ↔ i = j ∧ t.IsFolder i := by
  simp [follow, IsFolder, and_comm]

theorem folder_of_follow {i j : ι} {names : List ν} (is : t.follow i names = some j) :
    t.IsFolder j := by
  induction names generalizing i with
  | nil =>
    obtain ⟨rfl, folder⟩ := follow_nil_iff.mp is
    exact folder
  | cons name names ih =>
    obtain ⟨k, -, rest⟩ := Option.bind_eq_some_iff.mp is
    exact ih rest

/-- The last name of a path leads from a folder to a folder. -/
theorem follow_snoc_iff {i j : ι} {names : List ν} {name : ν} :
    t.follow i (names ++ [name]) = some j ↔
      ∃ k, t.follow i names = some k ∧ t.child k name = some j ∧ t.IsFolder j := by
  induction names generalizing i with
  | nil =>
    rw [List.nil_append]
    constructor
    · intro is
      obtain ⟨k, here, rest⟩ := Option.bind_eq_some_iff.mp is
      obtain ⟨rfl, folder⟩ := follow_nil_iff.mp rest
      obtain ⟨es, some_, -⟩ := child_eq_some here
      exact ⟨i, follow_nil (isFolder_of_entries some_), here, folder⟩
    · rintro ⟨k, start, here, folder⟩
      obtain ⟨rfl, -⟩ := follow_nil_iff.mp start
      exact Option.bind_eq_some_iff.mpr ⟨j, here, follow_nil folder⟩
  | cons first names ih =>
    rw [List.cons_append]
    constructor
    · intro is
      obtain ⟨k, here, rest⟩ := Option.bind_eq_some_iff.mp is
      obtain ⟨l, before, last⟩ := ih.mp rest
      exact ⟨l, Option.bind_eq_some_iff.mpr ⟨k, here, before⟩, last⟩
    · rintro ⟨l, before, last⟩
      obtain ⟨k, here, rest⟩ := Option.bind_eq_some_iff.mp before
      exact Option.bind_eq_some_iff.mpr ⟨k, here, ih.mpr ⟨l, rest, last⟩⟩

/-- A folder that is reached is a document. -/
theorem document_of_follow {p : List ν} {i : ι} (is : t.follow root p = some i) :
    t.Document root p i := by
  rcases List.eq_nil_or_concat p with rfl | ⟨names, name, rfl⟩
  · obtain ⟨rfl, -⟩ := follow_nil_iff.mp is
    exact .root
  · rw [List.concat_eq_append] at is ⊢
    obtain ⟨k, before, here, -⟩ := follow_snoc_iff.mp is
    obtain ⟨es, folder, mem⟩ := child_eq_some here
    exact .entry before folder mem

theorem document_snoc {p : List ν} {name : ν} {u : ι} (doc : t.Document root (p ++ [name]) u) :
    ∃ i es, t.follow root p = some i ∧ t.entries i = some es ∧ (name, u) ∈ es := by
  generalize whole : p ++ [name] = q at doc
  cases doc with
  | root => simp at whole
  | entry before there mem =>
    obtain ⟨rfl, last⟩ := List.append_inj' whole rfl
    obtain rfl := List.singleton_inj.mp last
    exact ⟨_, _, before, there, mem⟩

theorem follow_of_document (wf : t.WellFormed root) {p : List ν} {u : ι}
    (doc : t.Document root p u) (folder : t.IsFolder u) : t.follow root p = some u := by
  cases doc with
  | root => exact follow_nil folder
  | entry before there mem =>
    have here := child_of_mem (wf.names _ _ _ before there) there mem
    exact follow_snoc_iff.mpr ⟨_, before, here, folder⟩

/-- A folder is reached by one path. -/
theorem follow_injective (wf : t.WellFormed root) {p q : List ν} {i : ι}
    (hp : t.follow root p = some i) (hq : t.follow root q = some i) : p = q :=
  wf.place p q i (document_of_follow hp) (document_of_follow hq)

/-- A tree with nothing in it. -/
def single [DecidableEq ι] (root : ι) : NamedTree ν ι where
  entries i := if i = root then some [] else none

theorem document_single [DecidableEq ι] {p : List ν} {u : ι}
    (doc : (single root : NamedTree ν ι).Document root p u) : p = [] ∧ u = root := by
  cases doc with
  | root => exact ⟨rfl, rfl⟩
  | entry before there mem =>
    simp only [single] at there
    split at there
    · obtain rfl := Option.some.inj there
      cases mem
    · cases there

theorem wellFormed_single [DecidableEq ι] :
    (single root : NamedTree ν ι).WellFormed root := by
  constructor
  · intro p i es before there
    simp only [single] at there
    split at there
    · obtain rfl := Option.some.inj there
      exact List.nodup_nil
    · cases there
  · intro p q u hp hq
    rw [(document_single hp).1, (document_single hq).1]
  · simp [IsFolder, single]

section
variable [DecidableEq ι]

omit [DecidableEq ν] in
theorem entries_add {i new : ι} {es : List (ν × ι)} (here : t.entries i = some es) (name : ν)
    (folder : Bool) (j : ι) :
    (t.add i name new folder).entries j =
      if j = new then (if folder then some [] else none)
      else if j = i then some (es ++ [(name, new)]) else t.entries j := by
  simp [add, here]

theorem entries_remove {i : ι} {es : List (ν × ι)} (here : t.entries i = some es) (name : ν)
    (j : ι) : (t.remove i name).entries j =
      if j = i then some (es.filter (fun e => e.1 ≠ name)) else t.entries j := by
  simp [remove, here]

section
variable {i new : ι} {place : List ν} {es : List (ν × ι)}
  (at_ : t.follow root place = some i) (here : t.entries i = some es)
  (fresh : ∀ p, ¬ t.Document root p new)
include at_ here fresh

omit at_ in
/-- A folder of the tree keeps its entries, and one gets the new entry. -/
theorem entries_add_of_follow {p : List ν} {j : ι} (is : t.follow root p = some j) (name : ν)
    (folder : Bool) : (t.add i name new folder).entries j =
      if j = i then some (es ++ [(name, new)]) else t.entries j := by
  have old : j ≠ new := by
    rintro rfl
    exact fresh p (document_of_follow is)
  rw [entries_add here, if_neg old]

omit at_ in
theorem isFolder_add {p : List ν} {j : ι} (is : t.follow root p = some j) (name : ν)
    (folder : Bool) : (t.add i name new folder).IsFolder j := by
  rw [IsFolder, entries_add_of_follow here fresh is]
  split
  · rfl
  · exact folder_of_follow is

/-- What is added leaves every path as it is. -/
theorem follow_add (name : ν) (folder : Bool) {p : List ν} {j : ι}
    (is : t.follow root p = some j) : (t.add i name new folder).follow root p = some j := by
  have isFolder := isFolder_add here fresh is name folder
  induction p using List.reverseRecOn generalizing j with
  | nil =>
    obtain ⟨rfl, -⟩ := follow_nil_iff.mp is
    exact follow_nil isFolder
  | append_singleton p last ih =>
    obtain ⟨k, before, found, -⟩ := follow_snoc_iff.mp is
    have kept := ih before (isFolder_add here fresh before name folder)
    refine follow_snoc_iff.mpr ⟨k, kept, ?_, isFolder⟩
    rw [child, entries_add_of_follow here fresh before]
    split
    · rename_i same
      subst same
      rw [child, here, Option.bind_some] at found
      obtain ⟨e, first, rfl⟩ := Option.map_eq_some_iff.mp found
      rw [Option.bind_some, List.find?_append, first]
      rfl
    · exact found

/-- The folders after an addition: those from before, and the new one. -/
theorem follow_of_add (wf : t.WellFormed root) {name : ν} {folder : Bool} {p : List ν} {j : ι}
    (is : (t.add i name new folder).follow root p = some j) :
    t.follow root p = some j ∨ (folder ∧ p = place ++ [name] ∧ j = new) := by
  induction p using List.reverseRecOn generalizing j with
  | nil =>
    obtain ⟨rfl, -⟩ := follow_nil_iff.mp is
    exact .inl (follow_nil wf.folder)
  | append_singleton p last ih =>
    obtain ⟨k, before, found, isFolder⟩ := follow_snoc_iff.mp is
    obtain ⟨gs, there, mem⟩ := child_eq_some found
    rcases ih before with old | ⟨isNew, -, rfl⟩
    · have entries := entries_add_of_follow here fresh old name folder
      rw [there] at entries
      -- an entry from before is no new document, so what it was it still is
      have stays : ∀ fs, t.entries k = some fs → (last, j) ∈ fs →
          t.follow root (p ++ [last]) = some j := by
        intro fs some_ inside
        have notNew : j ≠ new := by
          rintro rfl
          exact fresh _ (.entry old some_ inside)
        have child := child_of_mem (wf.names p k fs old some_) some_ inside
        refine follow_snoc_iff.mpr ⟨k, old, child, ?_⟩
        rw [IsFolder, entries_add here, if_neg notNew] at isFolder
        split at isFolder
        · rename_i same
          rw [IsFolder, same, here]
          rfl
        · exact isFolder
      split at entries
      · rename_i same
        subst same
        obtain rfl := Option.some.inj entries
        rcases List.mem_append.mp mem with inside | added
        · exact .inl (stays es here inside)
        · obtain ⟨rfl, rfl⟩ := Prod.mk.inj (List.mem_singleton.mp added)
          obtain rfl := follow_injective wf at_ old
          rw [IsFolder, entries_add here, if_pos rfl] at isFolder
          refine .inr ⟨?_, rfl, rfl⟩
          cases folder
          · cases isFolder
          · rfl
      · exact .inl (stays gs entries.symm mem)
    · rw [entries_add here, if_pos rfl, if_pos isNew] at there
      obtain rfl := Option.some.inj there
      cases mem

/-- The documents after an addition: those from before, and the new one. -/
theorem document_of_add (wf : t.WellFormed root) {name : ν} {folder : Bool} {p : List ν} {u : ι}
    (is : (t.add i name new folder).Document root p u) :
    t.Document root p u ∨ (p = place ++ [name] ∧ u = new) := by
  cases is with
  | root => exact .inl .root
  | entry before there mem =>
    rename_i names k gs last
    rcases follow_of_add at_ here fresh wf before with old | ⟨isNew, -, rfl⟩
    · rw [entries_add_of_follow here fresh old] at there
      split at there
      · rename_i same
        subst same
        obtain rfl := Option.some.inj there
        rcases List.mem_append.mp mem with inside | added
        · exact .inl (.entry old here inside)
        · obtain ⟨rfl, rfl⟩ := Prod.mk.inj (List.mem_singleton.mp added)
          obtain rfl := follow_injective wf at_ old
          exact .inr ⟨rfl, rfl⟩
      · exact .inl (.entry old there mem)
    · rw [entries_add here, if_pos rfl, if_pos isNew] at there
      obtain rfl := Option.some.inj there
      cases mem

theorem WellFormed.add (wf : t.WellFormed root) {name : ν} (free : ∀ e ∈ es, e.1 ≠ name)
    (folder : Bool) : (t.add i name new folder).WellFormed root := by
  constructor
  · intro p j gs reached there
    rcases follow_of_add at_ here fresh wf reached with old | ⟨isNew, -, rfl⟩
    · rw [entries_add_of_follow here fresh old] at there
      split at there
      · obtain rfl := Option.some.inj there
        rw [List.map_append, List.map_singleton]
        refine (wf.names place i es at_ here).append (List.nodup_singleton name) ?_
        intro a before added
        obtain ⟨e, mem, rfl⟩ := List.mem_map.mp before
        exact free e mem (List.mem_singleton.mp added)
      · exact wf.names p j gs old there
    · rw [entries_add here, if_pos rfl, if_pos isNew] at there
      obtain rfl := Option.some.inj there
      exact List.nodup_nil
  · intro p q u hp hq
    rcases document_of_add at_ here fresh wf hp with old | ⟨rfl, rfl⟩ <;>
      rcases document_of_add at_ here fresh wf hq with old' | ⟨rfl, is⟩
    · exact wf.place p q u old old'
    · exact absurd (is ▸ old) (fresh p)
    · exact absurd old' (fresh q)
    · rfl
  · exact folder_of_follow (follow_add at_ here fresh name folder (follow_nil wf.folder))

/-- A new folder is where it was added. -/
theorem follow_new_folder (wf : t.WellFormed root) {name : ν} (free : ∀ e ∈ es, e.1 ≠ name) :
    (t.add i name new true).follow root (place ++ [name]) = some new := by
  have wf' := wf.add at_ here fresh free true
  have reached := follow_add at_ here fresh name true at_
  have there : (t.add i name new true).entries i = some (es ++ [(name, new)]) := by
    rw [entries_add_of_follow here fresh at_, if_pos rfl]
  refine follow_snoc_iff.mpr ⟨i, reached, ?_, ?_⟩
  · exact child_of_mem (wf'.names place i _ reached there) there
      (List.mem_append_right es List.mem_cons_self)
  · rw [IsFolder, entries_add here, if_pos rfl]
    rfl

end

theorem isFolder_remove {i j : ι} {name : ν} :
    (t.remove i name).IsFolder j ↔ t.IsFolder j := by
  cases here : t.entries i with
  | none => rw [NamedTree.remove, here]
  | some es =>
    rw [IsFolder, entries_remove here]
    split
    · rename_i same
      rw [IsFolder, same, here]
      rfl
    · rfl

/-- After a removal every folder has entries that it had before. -/
theorem follow_of_remove {i : ι} {name : ν} {p : List ν} {j : ι} (wf : t.WellFormed root)
    (is : (t.remove i name).follow root p = some j) : t.follow root p = some j := by
  cases here : t.entries i with
  | none => rwa [NamedTree.remove, here] at is
  | some es =>
    induction p using List.reverseRecOn generalizing j with
    | nil =>
      obtain ⟨rfl, -⟩ := follow_nil_iff.mp is
      exact follow_nil wf.folder
    | append_singleton p last ih =>
      obtain ⟨k, before, found, isFolder⟩ := follow_snoc_iff.mp is
      obtain ⟨gs, there, mem⟩ := child_eq_some found
      have old := ih before
      refine follow_snoc_iff.mpr ⟨k, old, ?_, ?_⟩
      · rw [entries_remove here] at there
        split at there
        · rename_i same
          subst same
          obtain rfl := Option.some.inj there
          exact child_of_mem (wf.names p k es old here) here (List.mem_filter.mp mem).1
        · exact child_of_mem (wf.names p k gs old there) there mem
      · exact isFolder_remove.mp isFolder

theorem sublist_of_remove {i j : ι} {name : ν} {gs : List (ν × ι)}
    (there : (t.remove i name).entries j = some gs) :
    ∃ fs, t.entries j = some fs ∧ gs.Sublist fs := by
  cases here : t.entries i with
  | none =>
    rw [NamedTree.remove, here] at there
    exact ⟨gs, there, List.Sublist.refl gs⟩
  | some es =>
    rw [entries_remove here] at there
    split at there
    · rename_i same
      subst same
      obtain rfl := Option.some.inj there
      exact ⟨es, here, List.filter_sublist⟩
    · exact ⟨gs, there, List.Sublist.refl gs⟩

theorem document_of_remove {i : ι} {name : ν} {p : List ν} {u : ι} (wf : t.WellFormed root)
    (is : (t.remove i name).Document root p u) : t.Document root p u := by
  cases is with
  | root => exact .root
  | entry before there mem =>
    obtain ⟨fs, there', part⟩ := sublist_of_remove there
    exact .entry (follow_of_remove wf before) there' (part.subset mem)

theorem WellFormed.remove (wf : t.WellFormed root) (i : ι) (name : ν) :
    (t.remove i name).WellFormed root := by
  constructor
  · intro p j gs reached there
    obtain ⟨fs, there', part⟩ := sublist_of_remove there
    exact (wf.names p j fs (follow_of_remove wf reached) there').sublist (part.map Prod.fst)
  · intro p q u hp hq
    exact wf.place p q u (document_of_remove wf hp) (document_of_remove wf hq)
  · exact isFolder_remove.mpr wf.folder

/-- Removing an entry cuts the paths through it and no others. -/
theorem follow_remove (wf : t.WellFormed root) {i : ι} {name : ν} {place : List ν}
    (at_ : t.follow root place = some i) {names : List ν} {j : ι}
    (is : t.follow root names = some j) (apart : ¬ place ++ [name] <+: names) :
    (t.remove i name).follow root names = some j := by
  obtain ⟨es, here⟩ := Option.isSome_iff_exists.mp (folder_of_follow at_)
  induction names using List.reverseRecOn generalizing j with
  | nil =>
    obtain ⟨rfl, folder⟩ := follow_nil_iff.mp is
    exact follow_nil (isFolder_remove.mpr folder)
  | append_singleton names last ih =>
    obtain ⟨k, before, found, folder⟩ := follow_snoc_iff.mp is
    have shorter : ¬ place ++ [name] <+: names :=
      fun front => apart (front.trans (List.prefix_append names [last]))
    have reached := ih before shorter
    refine follow_snoc_iff.mpr ⟨k, reached, ?_, isFolder_remove.mpr folder⟩
    by_cases same : k = i
    · subst same
      obtain rfl := follow_injective wf at_ before
      have other : last ≠ name := by
        rintro rfl
        exact apart (List.prefix_refl _)
      obtain ⟨fs, there, mem⟩ := child_eq_some found
      obtain rfl : es = fs := Option.some.inj (here.symm.trans there)
      have kept : (t.remove k name).entries k = some (es.filter (fun e => e.1 ≠ name)) := by
        rw [entries_remove here, if_pos rfl]
      refine child_of_mem ((wf.remove k name).names _ k _ reached kept) kept ?_
      exact List.mem_filter.mpr ⟨mem, by simpa using other⟩
    · rw [child, entries_remove here, if_neg same]
      exact found

end

end NamedTree
