import BVault.Export.Links
import BVault.Export.Serve

/-!
# The paths of an export's tree

What a build writes has a path of folders without a dot and a file name with
one. Such paths pass the guard of the server, none of them leads through another
one, and they need no escaping anywhere.
-/

namespace BVault.Export

open BVault.Core BVault.Transfer

/-- Letters, digits and what else stands in a rendered path. -/
def isPlain (c : Char) : Bool := c.isAlphanum || c = '_' || c = '.'

def IsFolderName (name : Name) : Prop := name ≠ [] ∧ ∀ c ∈ name, isPlain c ∧ c ≠ '.'

def IsFileName (name : Name) : Prop := '.' ∈ name ∧ (∃ c ∈ name, c ≠ '.') ∧ ∀ c ∈ name, isPlain c

-- both go through the characters of the name, not through all characters
instance (name : Name) : Decidable (IsFolderName name) :=
  decidable_of_iff (name ≠ [] ∧ name.all (fun c => isPlain c && c ≠ '.') = true)
    (by simp [IsFolderName])

instance (name : Name) : Decidable (IsFileName name) :=
  decidable_of_iff ('.' ∈ name ∧ name.any (· ≠ '.') = true ∧ name.all isPlain = true)
    (by simp [IsFileName])

/-- The path of a rendered file. -/
def Rendered (path : String) : Prop :=
  ∃ folders name, names path = folders ++ [name] ∧ (∀ f ∈ folders, IsFolderName f) ∧ IsFileName name

theorem names_append (front rest : String) : names (front ++ "/" ++ rest) =
    names front ++ names rest := by
  have slash : "/".toList = ['/'] := rfl
  unfold names
  rw [String.toList_append, String.toList_append, slash, List.append_assoc, List.singleton_append,
    List.splitOn_append_cons_self]

theorem names_flat {name : String} (flat : '/' ∉ name.toList) : names name = [name.toList] :=
  List.splitOn_eq_singleton flat

/-- A file in a rendered folder. -/
theorem rendered_append {front name : String} (folders : ∀ f ∈ names front, IsFolderName f)
    (file : IsFileName name.toList) : Rendered (front ++ "/" ++ name) := by
  have flat : '/' ∉ name.toList := by
    intro mem
    have plain := file.2.2 '/' mem
    revert plain
    decide
  refine ⟨names front, name.toList, ?_, folders, file⟩
  rw [names_append, names_flat flat]

theorem isPlain_of_isAlphanum {c : Char} (is : c.isAlphanum) : isPlain c ∧ c ≠ '.' := by
  constructor
  · simp [isPlain, is]
  · rintro rfl
    revert is
    decide

theorem isFolderName_of_isAlphanum {name : String} (nonempty : name.toList ≠ [])
    (all : ∀ c ∈ name.toList, c.isAlphanum) : IsFolderName name.toList :=
  ⟨nonempty, fun c mem => isPlain_of_isAlphanum (all c mem)⟩

/-- The folders of analysis files. -/
theorem anlz_folders {name : Name} {hundreds number : String}
    (first : IsFolderName ("P" ++ hundreds).toList) (second : IsFolderName number.toList)
    (mem : name ∈ names ("PIONEER/USBANLZ" ++ "/" ++ ("P" ++ hundreds) ++ "/" ++ number)) :
    IsFolderName name := by
  have flat {s : String} (folder : IsFolderName s.toList) : '/' ∉ s.toList := by
    intro mem
    have plain := (folder.2 '/' mem).1
    revert plain
    decide
  have fixed : ∀ name ∈ names "PIONEER/USBANLZ", IsFolderName name := by
    decide
  rw [names_append, names_append, names_flat (flat first), names_flat (flat second)] at mem
  simp only [List.mem_append, List.mem_singleton] at mem
  rcases mem with (front | rfl) | rfl
  · exact fixed name front
  · exact first
  · exact second

theorem rendered_anlz (trackId : UInt32) {ext : String} (is : ext ∈ anlzExts) :
    Rendered (anlzStem trackId ++ ext) := by
  have split : anlzStem trackId ++ ext =
      "PIONEER/USBANLZ" ++ "/" ++ ("P" ++ padded 10 3 (trackId.toNat / 256 % 1000)) ++ "/" ++
        padded 16 8 trackId.toNat ++ "/" ++ ("ANLZ0000" ++ ext) := by
    have first : "PIONEER/USBANLZ/P" = "PIONEER/USBANLZ" ++ "/" ++ "P" := by decide
    have last : "/ANLZ0000" = "/" ++ "ANLZ0000" := by decide
    unfold anlzStem
    rw [first, last]
    simp only [String.append_assoc]
  rw [split]
  have hundreds : IsFolderName ("P" ++ padded 10 3 (trackId.toNat / 256 % 1000)).toList := by
    apply isFolderName_of_isAlphanum
    · rw [String.toList_append]
      exact List.append_ne_nil_of_left_ne_nil (by decide) _
    · intro c mem
      rw [String.toList_append, List.mem_append] at mem
      rcases mem with letter | digit
      · obtain rfl : c = 'P' := List.mem_singleton.mp letter
        decide
      · exact isAlphanum_of_mem_padded (by decide) (by decide) digit
  have number : IsFolderName (padded 16 8 trackId.toNat).toList := by
    apply isFolderName_of_isAlphanum
    · exact List.ne_nil_of_length_pos (by rw [length_number]; decide)
    · intro c digit
      exact isAlphanum_of_mem_padded (by decide) (by decide) digit
  have file : ∀ ext ∈ anlzExts, IsFileName ("ANLZ0000" ++ ext).toList := by
    decide
  exact rendered_append (fun name mem => anlz_folders hundreds number mem) (file ext is)

theorem rendered_backup (opts : DeviceLibraryOptions) :
    Rendered ("PIONEER/DeviceLibBackup/" ++ devlibBackupFilename opts) := by
  have split : "PIONEER/DeviceLibBackup/" ++ devlibBackupFilename opts =
      "PIONEER/DeviceLibBackup" ++ "/" ++ devlibBackupFilename opts := by
    have front : "PIONEER/DeviceLibBackup/" = "PIONEER/DeviceLibBackup" ++ "/" := by decide
    rw [front]
  rw [split]
  apply rendered_append
  · decide
  · have fixed : ∀ c ∈ "rbDevLibBaInfo_.json".toList, isPlain c :=
      List.all_eq_true.mp (by decide)
    unfold devlibBackupFilename
    simp only [String.toList_append]
    refine ⟨?_, ⟨'r', ?_, by decide⟩, ?_⟩
    · exact List.mem_append_right _ (by decide)
    · exact List.mem_append_left _ (List.mem_append_left _ (by decide))
    · intro c mem
      rcases List.mem_append.mp mem with front | last
      · rcases List.mem_append.mp front with first | digit
        · exact fixed c (List.mem_append_left ".json".toList first)
        · exact (isPlain_of_isAlphanum (Hex.isAlphanum_of_mem_toString digit)).1
      · exact fixed c (List.mem_append_right "rbDevLibBaInfo_".toList last)

theorem rendered_fixed {opts : DeviceLibraryOptions} {path : String} (mem : path ∈ fixedPaths opts) :
    Rendered path := by
  have folder : ∀ f ∈ ["PIONEER".toList], IsFolderName f := by decide
  have folders : ∀ f ∈ ["PIONEER".toList, "rekordbox".toList], IsFolderName f := by decide
  simp only [fixedPaths, List.mem_cons, List.not_mem_nil, or_false] at mem
  rcases mem with rfl | rfl | rfl | rfl | rfl
  · exact ⟨["PIONEER".toList, "rekordbox".toList], "export.pdb".toList, by decide, folders,
      by decide⟩
  · exact ⟨["PIONEER".toList, "rekordbox".toList], "exportLibrary.db".toList, by decide, folders,
      by decide⟩
  · exact rendered_backup opts
  · exact ⟨["PIONEER".toList], "DEVSETTING.DAT".toList, by decide, folder, by decide⟩
  · exact ⟨["PIONEER".toList], "djprofile.nxs".toList, by decide, folder, by decide⟩

/-- Everything that a build stages has such a path. -/
theorem rendered_of_mem {env : Environment} {input : ExportInput}
    {staging : String → Option Bytes} {s : Staging} {analyses : List StoredAnalysis}
    {fixed : List (String × Bytes)} {audio : List ManifestEntry} {pdb : Bytes}
    (assembled : Assembled env input staging s analyses fixed audio pdb) {file : String × Bytes}
    (mem : file ∈ fixed ++ analyses.flatMap anlzFiles) : Rendered file.1 := by
  rcases List.mem_append.mp mem with one | anlz
  · obtain ⟨opts, paths⟩ := assembled.fixed_paths
    apply rendered_fixed
    rw [← paths]
    exact List.mem_map_of_mem one
  · obtain ⟨a, _, ext, is, path⟩ := mem_anlzPaths (List.mem_map_of_mem anlz)
    rw [path]
    exact rendered_anlz a.id is

theorem nil_mem_of_absolute {path : String} (root : path.toList.head? = some '/') :
    [] ∈ names path := by
  obtain ⟨rest, chars⟩ := List.head?_eq_some_iff.mp root
  rw [names, chars, List.splitOn_cons_eq_if_modifyHead]
  exact List.mem_cons_self

/-- The segments decide whether a path passes the guard. -/
theorem guardRelative_iff {path : String} : guardRelative path = .ok () ↔
    ∀ c ∈ names path, c ≠ [] ∧ c ≠ ['.', '.'] ∧ c ≠ ['.'] := by
  have empty : path.isEmpty → [] ∈ names path := by
    intro is
    obtain rfl := String.isEmpty_iff.mp is
    decide
  unfold guardRelative
  constructor
  · intro passes c mem
    dsimp only at passes
    split at passes
    · cases passes
    · rename_i good
      simp only [Bool.or_eq_true, List.any_eq_true, decide_eq_true_eq, not_or, not_exists,
        not_and] at good
      obtain ⟨⟨kept, other⟩, dot⟩ := good.2 c mem
      exact ⟨kept, other, dot⟩
  · intro each
    dsimp only
    rw [if_neg]
    simp only [Bool.or_eq_true, List.any_eq_true, decide_eq_true_eq]
    rintro ((none_ | root) | ⟨c, mem, (bad | bad) | bad⟩)
    · exact (each [] (empty none_)).1 rfl
    · exact (each [] (nil_mem_of_absolute root)).1 rfl
    · exact (each c mem).1 bad
    · exact (each c mem).2.1 bad
    · exact (each c mem).2.2 bad

/-- A rendered path passes the guard. -/
theorem guard_of_rendered {path : String} (rendered : Rendered path) :
    guardRelative path = .ok () := by
  obtain ⟨folders, name, split, inner, file⟩ := rendered
  rw [guardRelative_iff, split]
  intro c mem
  rcases List.mem_append.mp mem with folder | last
  · obtain ⟨nonempty, plain⟩ := inner c folder
    refine ⟨nonempty, ?_, ?_⟩
    · rintro rfl
      exact (plain '.' (by decide)).2 rfl
    · rintro rfl
      exact (plain '.' (by decide)).2 rfl
  · obtain rfl := List.mem_singleton.mp last
    obtain ⟨d, inside, other⟩ := file.2.1
    refine ⟨List.ne_nil_of_mem inside, ?_, ?_⟩
    · rintro rfl
      simp [other] at inside
    · rintro rfl
      simp [other] at inside

theorem ne_empty_of_rendered {path : String} (rendered : Rendered path) : path ≠ "" := by
  rintro rfl
  have each := guardRelative_iff.mp (guard_of_rendered rendered)
  exact (each [] (by decide)).1 rfl

/-- What passes the guard is relative, and the kernel follows it name by name. -/
theorem segments_of_guard {path : String} (passes : guardRelative path = .ok ()) :
    path.toList.head? ≠ some '/' ∧ (names path).map segment = (names path).map Segment.name := by
  rw [guardRelative_iff] at passes
  constructor
  · intro root
    exact (passes [] (nil_mem_of_absolute root)).1 rfl
  · apply List.map_congr_left
    intro c mem
    obtain ⟨nonempty, other, dot⟩ := passes c mem
    rw [segment, if_neg (not_or.mpr ⟨nonempty, dot⟩), if_neg other]

theorem intercalate_names (path : String) : ['/'].intercalate (names path) = path.toList :=
  List.intercalate_splitOn '/'

theorem names_injective {path path' : String} (same : names path = names path') : path = path' := by
  rw [← String.toList_inj, ← intercalate_names path, same, intercalate_names]

/-- No rendered path leads through the file of another one. -/
theorem eq_of_names_prefix {path path' : String} (rendered : Rendered path)
    (rendered' : Rendered path') (through : names path <+: names path') : path = path' := by
  apply names_injective
  obtain ⟨folders, name, split, _, file⟩ := rendered
  obtain ⟨folders', name', split', inner, _⟩ := rendered'
  obtain ⟨rest, whole⟩ := through
  rw [split, split'] at whole
  rw [split, split']
  cases rest using List.reverseRecOn with
  | nil => simpa using whole
  | append_singleton rest last =>
    -- the file would be one of the folders, which have no dot
    rw [← List.append_assoc] at whole
    have front := (List.append_inj' whole rfl).1
    have mem : name ∈ folders' := by
      rw [← front]
      simp
    exact absurd rfl ((inner name mem).2 '.' file.1).2

end BVault.Export
