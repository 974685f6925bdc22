import BVault.Lib.Paths
import BVault.Lib.TreeWalk
import Mathlib.Data.Char

/-!
# Ingesting a folder

`bvault ingest` of a folder uploads the audio files below it, either all of them
without grouping, or with a playlist for each of its subfolders. Both upload the
same files. Symbolic links count as what they lead to, and a folder that cannot
be read as one without entries.
-/

namespace BVault.Cli

open TreeWalk

abbrev FileName := List Char

/-- Something in a folder that is no folder: a file, or neither. -/
inductive LeafKind where
  | file
  | other
  deriving DecidableEq, Repr

abbrev DirEntry := Tree FileName LeafKind

/-- A path by its components. -/
abbrev PathBuf := List FileName

def AUDIO_EXTS : List String := ["mp3", "flac", "wav", "aiff", "aif", "m4a", "aac"]

def isAudioFile (name : FileName) (kind : LeafKind) : Bool :=
  kind = .file &&
    (Paths.splitDot name).2.any (fun ext => AUDIO_EXTS.contains (String.ofList (ext.map Char.toLower)))

def collectAudioRecursive (dir : PathBuf) (entries : List DirEntry) : List PathBuf :=
  walk isAudioFile dir entries

def audioChild (dir : PathBuf) : DirEntry → Option PathBuf
  | .leaf name kind => if isAudioFile name kind then some (dir ++ [name]) else none
  | .folder _ _ => none

/-- Audio files directly inside a folder, sorted. -/
def directAudioChildren (dir : PathBuf) (entries : List DirEntry) : List PathBuf :=
  (entries.filterMap (audioChild dir)).insertionSort (· ≤ ·)

def subdir : DirEntry → Option (FileName × List DirEntry)
  | .leaf _ _ => none
  | .folder name below => some (name, below)

/-- Immediate subfolders, sorted. -/
def subdirs (entries : List DirEntry) : List (FileName × List DirEntry) :=
  (entries.filterMap subdir).insertionSort (fun a b => a.1 ≤ b.1)

/-- What the gateway makes of the calls: the hash of an upload, if it succeeds, and whether a
playlist is created. -/
structure Gateway where
  uploadOne : PathBuf → Option String
  createPlaylist : FileName → List String → Bool

/-- The successful hashes and the failed count. -/
def Gateway.uploadAll (g : Gateway) (files : List PathBuf) : List String × Nat :=
  (files.filterMap g.uploadOne, (files.filter fun f => g.uploadOne f = none).length)

/-- The uploads tried and the playlists created, in their order. -/
structure Ingest where
  uploaded : List PathBuf
  created : List (FileName × List String)
  madeAny : Bool
  deriving DecidableEq, Repr

/-- The loop over the subfolders; a playlist that is not created ends it. -/
def Gateway.ingestSubdirs (g : Gateway) (root : PathBuf) :
    List (FileName × List DirEntry) → Ingest → Ingest × Bool
  | [], s => (s, true)
  | (name, below) :: rest, s =>
    let files := collectAudioRecursive (root ++ [name]) below
    if files = [] then g.ingestSubdirs root rest s
    else
      let hashes := (g.uploadAll files).1
      let s := { s with uploaded := s.uploaded ++ files }
      if hashes = [] then g.ingestSubdirs root rest s
      else if g.createPlaylist name hashes then
        g.ingestSubdirs root rest
          { s with created := s.created ++ [(name, hashes)], madeAny := true }
      else (s, false)

/-- `run_local_ingest` of a folder without `--playlists`, and whether it returns without an
error. -/
def runFlat (root : PathBuf) (entries : List DirEntry) : Ingest × Bool :=
  let files := collectAudioRecursive root entries
  if files = [] then (⟨[], [], false⟩, false) else (⟨files, [], true⟩, true)

/-- With `--playlists`. -/
def Gateway.runPlaylists (g : Gateway) (root : PathBuf) (entries : List DirEntry) : Ingest × Bool :=
  let loose := directAudioChildren root entries
  let s : Ingest := if loose = [] then ⟨[], [], false⟩ else ⟨loose, [], true⟩
  let (s, finished) := g.ingestSubdirs root (subdirs entries) s
  (s, finished && s.madeAny)

/-- The files of the loop over the subfolders. -/
def filesOf (root : PathBuf) (dirs : List (FileName × List DirEntry)) : List PathBuf :=
  dirs.flatMap fun d => collectAudioRecursive (root ++ [d.1]) d.2

/-- The playlist that a subfolder is due. -/
def Gateway.playlistOf (g : Gateway) (root : PathBuf) (d : FileName × List DirEntry) :
    Option (FileName × List String) :=
  let hashes := (collectAudioRecursive (root ++ [d.1]) d.2).filterMap g.uploadOne
  if hashes = [] then none else some (d.1, hashes)

/-- Loose files and subfolders are all there is below a folder. -/
theorem perm_collect (root : PathBuf) (entries : List DirEntry) :
    (directAudioChildren root entries ++ filesOf root (subdirs entries)).Perm
      (collectAudioRecursive root entries) := by
  have loose : (directAudioChildren root entries).Perm (entries.filterMap (audioChild root)) :=
    List.perm_insertionSort _ _
  have deep : (filesOf root (subdirs entries)).Perm (filesOf root (entries.filterMap subdir)) :=
    (List.perm_insertionSort _ _).flatMap_right _
  refine ((loose.append deep).trans ?_).trans (perm_walk root entries).symm
  clear loose deep
  induction entries with
  | nil => exact List.Perm.refl _
  | cons e entries ih =>
    rw [leaves]
    cases e with
    | leaf name kind =>
      have same : filesOf root ((Tree.leaf name kind :: entries).filterMap subdir) =
          filesOf root (entries.filterMap subdir) := rfl
      rw [same, leavesOf]
      by_cases audio : isAudioFile name kind = true
      · have first : (Tree.leaf name kind :: entries).filterMap (audioChild root) =
            (root ++ [name]) :: entries.filterMap (audioChild root) :=
          List.filterMap_cons_some (by rw [audioChild, if_pos audio])
        rw [first, if_pos audio]
        exact ih.cons _
      · have first : (Tree.leaf name kind :: entries).filterMap (audioChild root) =
            entries.filterMap (audioChild root) :=
          List.filterMap_cons_none (by rw [audioChild, if_neg audio])
        rw [first, if_neg audio]
        exact ih
    | folder name below =>
      have first : filesOf root ((Tree.folder name below :: entries).filterMap subdir) =
          collectAudioRecursive (root ++ [name]) below ++ filesOf root (entries.filterMap subdir) :=
        rfl
      have same : (Tree.folder name below :: entries).filterMap (audioChild root) =
          entries.filterMap (audioChild root) := rfl
      rw [first, same, leavesOf, ← List.append_assoc]
      refine (List.perm_append_comm.append_right _).trans ?_
      rw [List.append_assoc]
      exact (perm_walk (root ++ [name]) below).append ih

/-- The loop goes through all subfolders. -/
structure Finished (g : Gateway) (root : PathBuf) (dirs : List (FileName × List DirEntry))
    (s : Ingest) (r : Ingest × Bool) : Prop where
  finished : r.2 = true
  uploaded : r.1.uploaded = s.uploaded ++ filesOf root dirs
  created : r.1.created = s.created ++ dirs.filterMap (g.playlistOf root)
  madeAny : r.1.madeAny = (s.madeAny || !(dirs.filterMap (g.playlistOf root)).isEmpty)

/-- The loop ends behind the uploads of `d`, whose playlist is not created. -/
structure Stopped (g : Gateway) (root : PathBuf) (before : List (FileName × List DirEntry))
    (d : FileName × List DirEntry) (s : Ingest) (r : Ingest × Bool) : Prop where
  stopped : r.2 = false
  refused : ∃ p, g.playlistOf root d = some p ∧ g.createPlaylist p.1 p.2 = false
  uploaded : r.1.uploaded = s.uploaded ++ filesOf root (before ++ [d])
  created : r.1.created = s.created ++ before.filterMap (g.playlistOf root)

/-- A subfolder of which nothing is uploaded gets no playlist. -/
theorem playlistOf_eq_none {g : Gateway} {root : PathBuf} {d : FileName × List DirEntry}
    (none : (collectAudioRecursive (root ++ [d.1]) d.2).filterMap g.uploadOne = []) :
    g.playlistOf root d = Option.none := by
  rw [Gateway.playlistOf, if_pos none]

theorem playlistOf_eq_some {g : Gateway} {root : PathBuf} {d : FileName × List DirEntry}
    (some : (collectAudioRecursive (root ++ [d.1]) d.2).filterMap g.uploadOne ≠ []) :
    g.playlistOf root d =
      Option.some (d.1, (collectAudioRecursive (root ++ [d.1]) d.2).filterMap g.uploadOne) := by
  rw [Gateway.playlistOf, if_neg some]

theorem ingestSubdirs_spec (g : Gateway) (root : PathBuf) (dirs : List (FileName × List DirEntry))
    (s : Ingest) :
    Finished g root dirs s (g.ingestSubdirs root dirs s) ∨
      ∃ before d after, dirs = before ++ d :: after ∧
        Stopped g root before d s (g.ingestSubdirs root dirs s) := by
  induction dirs generalizing s with
  | nil =>
    refine Or.inl ⟨rfl, ?_, ?_, ?_⟩
    · exact (List.append_nil _).symm
    · exact (List.append_nil _).symm
    · exact (Bool.or_false _).symm
  | cons d rest ih =>
    obtain ⟨name, below⟩ := d
    have files : filesOf root ((name, below) :: rest) =
        collectAudioRecursive (root ++ [name]) below ++ filesOf root rest := rfl
    by_cases empty : collectAudioRecursive (root ++ [name]) below = []
    · have skipped : g.playlistOf root (name, below) = none :=
        playlistOf_eq_none (by rw [empty]; rfl)
      simp only [Gateway.ingestSubdirs, if_pos empty]
      rcases ih s with done | ⟨before, d, after, rfl, stop⟩
      · refine Or.inl ⟨done.finished, ?_, ?_, ?_⟩
        · rw [done.uploaded, files, empty, List.nil_append]
        · rw [done.created, List.filterMap_cons_none skipped]
        · rw [done.madeAny, List.filterMap_cons_none skipped]
      · refine Or.inr ⟨(name, below) :: before, d, after, rfl, stop.stopped, stop.refused, ?_, ?_⟩
        · rw [stop.uploaded, List.cons_append]
          simp only [filesOf, List.flatMap_cons, empty, List.nil_append]
        · rw [stop.created, List.filterMap_cons_none skipped]
    · simp only [Gateway.ingestSubdirs, if_neg empty]
      by_cases failed : (g.uploadAll (collectAudioRecursive (root ++ [name]) below)).1 = []
      · have skipped : g.playlistOf root (name, below) = none := playlistOf_eq_none failed
        rw [if_pos failed]
        rcases ih { s with uploaded := s.uploaded ++ collectAudioRecursive (root ++ [name]) below } with
          done | ⟨before, d, after, rfl, stop⟩
        · refine Or.inl ⟨done.finished, ?_, ?_, ?_⟩
          · rw [done.uploaded, files, List.append_assoc]
          · rw [done.created, List.filterMap_cons_none skipped]
          · rw [done.madeAny, List.filterMap_cons_none skipped]
        · refine Or.inr ⟨(name, below) :: before, d, after, rfl, stop.stopped, stop.refused, ?_, ?_⟩
          · rw [stop.uploaded, List.cons_append, List.append_assoc]
            rfl
          · rw [stop.created, List.filterMap_cons_none skipped]
      · have due := playlistOf_eq_some (g := g) (d := (name, below)) failed
        rw [if_neg failed]
        by_cases creates : g.createPlaylist name
            (g.uploadAll (collectAudioRecursive (root ++ [name]) below)).1 = true
        · rw [if_pos creates]
          rcases ih
              { uploaded := s.uploaded ++ collectAudioRecursive (root ++ [name]) below
                created := s.created ++
                  [(name, (g.uploadAll (collectAudioRecursive (root ++ [name]) below)).1)]
                madeAny := true } with done | ⟨before, d, after, rfl, stop⟩
          · refine Or.inl ⟨done.finished, ?_, ?_, ?_⟩
            · rw [done.uploaded, files, List.append_assoc]
            · rw [done.created, List.filterMap_cons_some due, List.append_assoc]
              rfl
            · rw [done.madeAny, List.filterMap_cons_some due]
              exact (Bool.or_true _).symm
          · refine Or.inr ⟨(name, below) :: before, d, after, rfl, stop.stopped, stop.refused, ?_, ?_⟩
            · rw [stop.uploaded, List.cons_append, List.append_assoc]
              rfl
            · rw [stop.created, List.filterMap_cons_some due, List.append_assoc]
              rfl
        · rw [if_neg creates]
          refine Or.inr ⟨[], (name, below), rest, rfl, rfl, ⟨_, due, ?_⟩, ?_, ?_⟩
          · exact Bool.eq_false_iff.mpr creates
          · exact congrArg (s.uploaded ++ ·) (List.append_nil _).symm
          · exact (List.append_nil _).symm

/-- A folder as the file system has it. -/
abbrev Folder := { entries : List DirEntry // Distinct entries }

/-- The audio files below a folder in the order of their paths. -/
def audioFiles (root : PathBuf) (folder : Folder) : List PathBuf :=
  (leaves isAudioFile root folder.val).insertionSort (· ≤ ·)

theorem collect_eq (root : PathBuf) (folder : Folder) :
    collectAudioRecursive root folder.val = audioFiles root folder :=
  walk_eq_insertionSort folder.property root

theorem nodup_audioFiles (root : PathBuf) (folder : Folder) : (audioFiles root folder).Nodup := by
  rw [← collect_eq]
  exact (sorted_walk folder.property root).imp fun less => ne_of_lt less

end BVault.Cli
