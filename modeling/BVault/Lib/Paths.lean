import Mathlib.Data.List.TakeWhile

/-!
# File names

`Path::file_name`, `Path::extension` and `Path::file_stem` on `/`-separated
paths: the last component, cut at its last dot.
-/

namespace Paths

/-- The components between slashes, without empty ones and `.`. -/
def components (path : String) : List (List Char) :=
  (path.toList.splitOn '/').filter (fun c => c ≠ [] ∧ c ≠ ['.'])

/-- The last component, unless it is `..`. -/
def fileName (path : String) : Option (List Char) :=
  (components path).getLast?.filter (fun c => c ≠ ['.', '.'])

/-- What stands before and behind the last dot of a name, if that is not its first character. -/
def splitDot (name : List Char) : List Char × Option (List Char) :=
  let after := (name.reverse.takeWhile (· ≠ '.')).reverse
  let before := (name.reverse.dropWhile (· ≠ '.')).drop 1 |>.reverse
  if before = [] then (name, none) else (before, some after)

def extension (path : String) : Option String :=
  (fileName path).bind (fun name => (splitDot name).2.map String.ofList)

def fileStem (path : String) : Option String :=
  (fileName path).map (fun name => String.ofList (splitDot name).1)

/-- `Path::with_extension`, for a path that ends in a file name. -/
def withExtension (path ext : String) : String :=
  let front := (path.toList.reverse.dropWhile (· ≠ '/')).reverse
  let name := (path.toList.reverse.takeWhile (· ≠ '/')).reverse
  String.ofList (front ++ (splitDot name).1 ++ '.' :: ext.toList)

/-- An extension is what stands behind the last dot of the file name. -/
theorem extension_chars {path ext : String} (is : extension path = some ext) :
    ∃ name, fileName path = some name ∧
      ext.toList = (name.reverse.takeWhile (· ≠ '.')).reverse := by
  obtain ⟨name, there, is⟩ := Option.bind_eq_some_iff.mp is
  obtain ⟨chars, cut, rfl⟩ := Option.map_eq_some_iff.mp is
  refine ⟨name, there, ?_⟩
  rw [splitDot] at cut
  split at cut
  · cases cut
  · cases cut
    exact String.toList_ofList

/-- An extension has no dot. -/
theorem dot_not_mem_extension {path ext : String} (is : extension path = some ext) :
    '.' ∉ ext.toList := by
  obtain ⟨name, _, chars⟩ := extension_chars is
  rw [chars, List.mem_reverse]
  intro mem
  have kept := List.mem_takeWhile_imp mem
  simp at kept

/-- A component has no slash. -/
theorem sep_not_mem_of_mem_splitOn {α : Type*} [DecidableEq α] {sep : α} {xs part : List α}
    (mem : part ∈ xs.splitOn sep) : sep ∉ part := by
  induction xs generalizing part with
  | nil =>
    obtain rfl := List.mem_singleton.mp mem
    exact List.not_mem_nil
  | cons x xs ih =>
    rw [List.splitOn_cons_eq_if_modifyHead] at mem
    split at mem
    · rcases List.mem_cons.mp mem with rfl | later
      · exact List.not_mem_nil
      · exact ih later
    · rename_i other
      cases parts : xs.splitOn sep with
      | nil => exact absurd parts (List.splitOn_ne_nil sep xs)
      | cons first rest =>
        rw [parts] at mem ih
        rcases List.mem_cons.mp mem with rfl | later
        · intro inside
          rcases List.mem_cons.mp inside with same | inner
          · exact other (beq_iff_eq.mpr same.symm)
          · exact ih List.mem_cons_self inner
        · exact ih (List.mem_cons_of_mem first later)

/-- What is not a separator is in a component. -/
theorem mem_splitOn_of_mem {α : Type*} [DecidableEq α] {sep x : α} {xs : List α} (mem : x ∈ xs)
    (other : x ≠ sep) : ∃ part ∈ xs.splitOn sep, x ∈ part := by
  induction xs with
  | nil => cases mem
  | cons y xs ih =>
    rw [List.splitOn_cons_eq_if_modifyHead]
    split
    · rename_i is
      rcases List.mem_cons.mp mem with rfl | later
      · exact absurd (eq_of_beq is) other
      · obtain ⟨part, inside, here⟩ := ih later
        exact ⟨part, List.mem_cons_of_mem _ inside, here⟩
    · cases parts : xs.splitOn sep with
      | nil => exact absurd parts (List.splitOn_ne_nil sep xs)
      | cons first rest =>
        rw [parts] at ih
        rcases List.mem_cons.mp mem with rfl | later
        · exact ⟨x :: first, List.mem_cons_self, List.mem_cons_self⟩
        · obtain ⟨part, inside, here⟩ := ih later
          rcases List.mem_cons.mp inside with rfl | further
          · exact ⟨y :: part, List.mem_cons_self, List.mem_cons_of_mem y here⟩
          · exact ⟨part, List.mem_cons_of_mem _ further, here⟩

/-- An extension has no slash. -/
theorem slash_not_mem_extension {path ext : String} (is : extension path = some ext) :
    '/' ∉ ext.toList := by
  obtain ⟨name, there, chars⟩ := extension_chars is
  have component : name ∈ components path :=
    List.mem_of_mem_getLast? (Option.mem_def.mpr (Option.filter_eq_some_iff.mp there).1)
  have flat := sep_not_mem_of_mem_splitOn (List.mem_filter.mp component).1
  rw [chars, List.mem_reverse]
  intro mem
  exact flat (List.mem_reverse.mp ((List.takeWhile_prefix _).subset mem))

theorem splitDot_append {stem ext : List Char} (dotless : '.' ∉ ext) (nonempty : stem ≠ []) :
    splitDot (stem ++ '.' :: ext) = (stem, some ext) := by
  have plain : ∀ c ∈ ext.reverse, (decide (c ≠ '.')) = true := by
    intro c mem
    exact decide_eq_true (fun is => dotless (is ▸ List.mem_reverse.mp mem))
  have turned : (stem ++ '.' :: ext).reverse = ext.reverse ++ '.' :: stem.reverse := by simp
  unfold splitDot
  rw [turned, List.takeWhile_append_of_pos plain, List.dropWhile_append_of_pos plain]
  simp [nonempty]

/-- The extension of a file in a folder. -/
theorem extension_of_file {folder stem ext : String} (flat : '/' ∉ stem.toList ∧ '/' ∉ ext.toList)
    (dotless : '.' ∉ stem.toList ∧ '.' ∉ ext.toList) (nonempty : stem.toList ≠ []) :
    extension (folder ++ "/" ++ stem ++ "." ++ ext) = some ext := by
  obtain ⟨first, rest, split⟩ := List.exists_cons_of_ne_nil nonempty
  have letter : first ≠ '.' := by
    rintro rfl
    exact dotless.1 (by rw [split]; exact List.mem_cons_self)
  have chars : (folder ++ "/" ++ stem ++ "." ++ ext).toList =
      folder.toList ++ '/' :: (stem.toList ++ '.' :: ext.toList) := by
    have slash : "/".toList = ['/'] := rfl
    have dot : ".".toList = ['.'] := rfl
    simp only [String.toList_append, slash, dot, List.append_assoc, List.cons_append,
      List.nil_append]
  have whole : '/' ∉ stem.toList ++ '.' :: ext.toList := by
    simp [flat.1, flat.2]
  have last : (components (folder ++ "/" ++ stem ++ "." ++ ext)).getLast? =
      some (stem.toList ++ '.' :: ext.toList) := by
    unfold components
    rw [chars, List.splitOn_append_cons_self, List.splitOn_eq_singleton whole, List.filter_append,
      List.filter_cons_of_pos (by simp [split, letter]), List.filter_nil, List.getLast?_concat]
  have named : fileName (folder ++ "/" ++ stem ++ "." ++ ext) =
      some (stem.toList ++ '.' :: ext.toList) := by
    unfold fileName
    rw [last, Option.filter_some_pos]
    simp [split, letter]
  unfold extension
  rw [named, Option.bind_some, splitDot_append dotless.2 nonempty, Option.map_some,
    String.ofList_toList]

/-- A name is cut at its last dot in one way. -/
theorem append_dot_inj {name name' ext ext' : List Char} (dotless : '.' ∉ ext)
    (dotless' : '.' ∉ ext')
    (same : name ++ '.' :: ext = name' ++ '.' :: ext') : name = name' := by
  rcases List.append_eq_append_iff.mp same with ⟨mid, rfl, rest⟩ | ⟨mid, rfl, rest⟩
  · cases mid with
    | nil => exact (List.append_nil _).symm
    | cons c mid =>
      obtain ⟨_, rfl⟩ := List.cons.inj rest
      exact absurd (List.mem_append_right mid List.mem_cons_self) dotless
  · cases mid with
    | nil => exact List.append_nil _
    | cons c mid =>
      obtain ⟨_, rfl⟩ := List.cons.inj rest
      exact absurd (List.mem_append_right mid List.mem_cons_self) dotless'

example : extension "a1/a1b2.mp3" = some "mp3" ∧ fileStem "Sets/My.Song.flac" = some "My.Song" ∧
    extension ".hidden" = none ∧ extension "a.b/.." = none := by decide

/-- A path begins with these characters. -/
def Under (front path : String) : Prop := front.toList <+: path.toList

instance (front path : String) : Decidable (Under front path) :=
  inferInstanceAs (Decidable (_ <+: _))

theorem under_append (front rest : String) : Under front (front ++ rest) := by
  unfold Under
  rw [String.toList_append]
  exact List.prefix_append _ _

theorem Under.trans {folder front path : String} (outer : Under folder front)
    (inner : Under front path) : Under folder path :=
  List.IsPrefix.trans outer inner

/-- Different folders hold different paths. -/
theorem ne_of_under {front front' path path' : String} (h : Under front path)
    (h' : Under front' path') (apart : ¬ Under front front' ∧ ¬ Under front' front) :
    path ≠ path' := by
  rintro rfl
  exact (List.prefix_or_prefix_of_prefix h h').elim apart.1 apart.2

end Paths
