import BVault.Transfer.Reexport
import Mathlib.Data.List.TakeWhile

/-!
# Exporting onto a target without the export's files

Where the disk and the server answer every request, a run completes as long as no
entry meets a file where it needs a directory or a directory where it needs a
file. On a target that holds none of the export's files this is so, and the run
puts every served file at its path and leaves the rest of the target alone.
-/

namespace BVault.Transfer

open BVault.Hash

/-- The disk takes the file of an entry, and the server sends these bytes. -/
structure Works (bytes : Bytes) (w : World) : Prop where
  dirs : w.mkdirFails = none
  stat : w.stat = true
  sent : w.sent = true
  status : w.status.isSuccess = true
  opened : w.opened = true
  body : ∃ chunks : List Bytes, w.body = chunks.map (fun chunk => Recv.chunk chunk true) ∧
    chunks.flatten = bytes
  committed : w.committed = .ok

/-- Every entry is sent in its size, and raw audio with its identity. -/
structure Working (xxh3_64 : Bytes → UInt64) (serve : String → Bytes)
    (run : List (ManifestEntry × World)) : Prop where
  works : ∀ ew ∈ run, Works (serve ew.1.usbPath) ew.2
  size : ∀ ew ∈ run, (serve ew.1.usbPath).length = ew.1.size
  identity : ∀ ew ∈ run, ∀ hash, ew.1.source = .raw hash →
    hashHex (hashBytes xxh3_64 (serve ew.1.usbPath)) = hash

/-- No error is reported. -/
def NoError (effects : List Effect) : Prop :=
  ∀ path text, Effect.report (.error path text) ∉ effects

theorem NoError.append {effects later : List Effect} (first : NoError effects)
    (second : NoError later) : NoError (effects ++ later) := by
  intro path text reported
  rcases List.mem_append.mp reported with here | there
  · exact first path text here
  · exact second path text there

theorem noError_ops (ops : List FsOp) : NoError (ops.map Effect.fs) := by
  intro path text reported
  obtain ⟨op, _, same⟩ := List.mem_map.mp reported
  cases same

/-- A body without errors is received as one update of the hasher for each chunk. -/
theorem receive_chunks (usbPath : String) (chunks : List Bytes) (hasher : ContentHasher) :
    ∃ effects, receive usbPath (chunks.map (fun chunk => Recv.chunk chunk true)) hasher =
      (effects, some (chunks.foldl ContentHasher.update hasher)) ∧ NoError effects := by
  induction chunks generalizing hasher with
  | nil => exact ⟨[], rfl, fun _ _ => List.not_mem_nil⟩
  | cons chunk chunks ih =>
    obtain ⟨later, rest, silent⟩ := ih (hasher.update chunk)
    refine ⟨_, by rw [List.map_cons, receive, rest]; rfl, ?_⟩
    intro path text reported
    rcases List.mem_cons.mp reported with same | reported
    · cases same
    · rcases List.mem_cons.mp reported with same | reported
      · cases same
      · exact silent path text reported

section
variable {xxh3_64 : Bytes → UInt64} {sink : FsSink} {serve : String → Bytes} {t : Target}
  {e : ManifestEntry} {w : World}

/-- What is received whole is verified and moved to its path. -/
theorem download_works {bytes : Bytes} (works : Works bytes w)
    (identity : ∀ hash, e.source = .raw hash → hashHex (hashBytes xxh3_64 bytes) = hash)
    (dest : t e.usbPath ≠ some .dir) (tmp : t (tmpOf e.usbPath) ≠ some .dir) :
    NoError (download xxh3_64 sink t e w) := by
  obtain ⟨chunks, body, whole⟩ := works.body
  obtain ⟨effects, received, silent⟩ := receive_chunks e.usbPath chunks ContentHasher.new
  have checked : verified xxh3_64 e.source (chunks.foldl ContentHasher.update .new) = true := by
    unfold verified
    cases source : e.source with
    | staging => rfl
    | raw hash =>
      dsimp only
      rw [ContentHasher.finalize_updates, whole]
      exact decide_eq_true (identity hash source)
  have open_ : ¬ (t (tmpOf e.usbPath) = some .dir ∨ ¬ w.opened = true) := by
    rintro (dir | fails)
    · exact tmp dir
    · exact fails works.opened
  unfold download
  rw [if_neg (fun fails => fails works.status), if_neg open_]
  unfold writeFile
  rw [body, received]
  dsimp only
  rw [if_pos checked]
  have written : NoError (commit t e.usbPath w) := by
    unfold commit
    rw [works.committed]
    dsimp only
    rw [if_neg dest]
    intro path text reported
    simp at reported
  intro path text reported
  rcases List.mem_cons.mp reported with same | reported
  · cases same
  · exact silent.append written path text reported

/-- An entry that meets no file for a directory and no directory for a file is handled. -/
theorem reconcileEntry_works {bytes : Bytes} (works : Works bytes w)
    (identity : ∀ hash, e.source = .raw hash → hashHex (hashBytes xxh3_64 bytes) = hash)
    (dirs : ∀ d ∈ parentDirs e, withDirs t e d = some .dir)
    (free : sameSize sink (withDirs t e) e = false →
      withDirs t e e.usbPath ≠ some .dir ∧ withDirs t e (tmpOf e.usbPath) ≠ some .dir) :
    ∃ effects, reconcileEntry xxh3_64 sink t e w = (effects, .ok ()) ∧ NoError effects := by
  have open_ : ¬ (createDirAllDirs (parentOf e.usbPath)).any
      (fun d => t d ≠ none ∧ t d ≠ some .dir) = true := by
    intro blocked
    obtain ⟨d, mem, is⟩ := List.any_eq_true.mp blocked
    obtain ⟨there, other⟩ := of_decide_eq_true is
    have made := dirs d mem
    rw [withDirs, if_neg (fun both => there both.1)] at made
    exact other made
  obtain ⟨ops, ensured⟩ : ∃ ops,
      FsSink.ensureDir t (parentOf e.usbPath) w.mkdirFails = (ops, true) := by
    rw [works.dirs, FsSink.ensureDir, if_neg open_]
    exact ⟨_, rfl⟩
  have after := (ensureDir_spec ensured).1
  unfold reconcileEntry
  rw [ensured]
  dsimp only
  rw [after, works.stat, works.sent, if_neg (by decide), if_neg (by decide)]
  by_cases skip : sink.fileLen (withDirs t e) e.usbPath = some e.size
  · rw [if_pos skip]
    refine ⟨_, rfl, (noError_ops ops).append ?_⟩
    intro path text reported
    simp at reported
  · rw [if_neg skip, if_neg (by decide)]
    obtain ⟨dest, tmp⟩ := free (decide_eq_false skip)
    refine ⟨_, rfl, (noError_ops ops).append ?_⟩
    intro path text reported
    rcases List.mem_cons.mp reported with same | reported
    · cases same
    · exact download_works works identity dest tmp path text reported

/-- What an entry handled in silence does is what `handle` says. -/
theorem applyAll_handled {effects : List Effect}
    (handled : reconcileEntry xxh3_64 sink t e w = (effects, .ok ())) (silent : NoError effects)
    (served : (∀ text, Recv.networkError text ∉ w.body) → bodyBytes w.body = serve e.usbPath) :
    applyAll t effects = handle sink serve t e := by
  rcases (reconcileEntry_spec handled silent served).2 with ⟨skip, same⟩ | ⟨fetch, _, _, same⟩
  · rw [same, handle, if_pos skip]
  · rw [same, handle, if_neg (by simp [fetch])]

end

theorem bodyBytes_chunks (chunks : List Bytes) :
    bodyBytes (chunks.map (fun chunk => Recv.chunk chunk true)) = chunks.flatten := by
  induction chunks with
  | nil => rfl
  | cons chunk chunks ih => rw [List.map_cons, bodyBytes, ih, List.flatten_cons]

theorem Works.served {bytes : Bytes} {w : World} (works : Works bytes w) :
    bodyBytes w.body = bytes := by
  obtain ⟨chunks, body, whole⟩ := works.body
  rw [body, bodyBytes_chunks, whole]

section
variable {xxh3_64 : Bytes → UInt64} {sink : FsSink} {serve : String → Bytes}

theorem Working.serves {run : List (ManifestEntry × World)} (working : Working xxh3_64 serve run) :
    Serves serve run :=
  fun ew mem => ⟨working.size ew mem, fun _ => (working.works ew mem).served⟩

theorem reconcileEntries_works {t : Target} {run : List (ManifestEntry × World)}
    (working : Working xxh3_64 serve run) (smooth : Smooth sink serve t (run.map Prod.fst)) :
    ∃ effects, reconcileEntries xxh3_64 sink t run = (effects, .ok ()) ∧ NoError effects := by
  induction run generalizing t with
  | nil => exact ⟨[], rfl, fun _ _ => List.not_mem_nil⟩
  | cons ew run ih =>
    obtain ⟨e, w⟩ := ew
    obtain ⟨dirs, free, smooth⟩ := smooth
    have works := working.works (e, w) List.mem_cons_self
    have identity := working.identity (e, w) List.mem_cons_self
    obtain ⟨effects, handled, silent⟩ := reconcileEntry_works works identity dirs free
    have step := applyAll_handled handled silent (fun _ => works.served)
    have rest : Working xxh3_64 serve run :=
      { works := fun ew mem => working.works ew (List.mem_cons_of_mem _ mem)
        size := fun ew mem => working.size ew (List.mem_cons_of_mem _ mem)
        identity := fun ew mem => working.identity ew (List.mem_cons_of_mem _ mem) }
    obtain ⟨later, completed, quiet⟩ := ih rest smooth
    refine ⟨effects ++ later, ?_, silent.append quiet⟩
    rw [reconcileEntries_cons, handled]
    dsimp only
    rw [step, completed]

/-- The target after a run over the entries that meets no error. -/
theorem reconcileExport_smooth {t : Target} {status : Status} {m : Manifest}
    {answers : Nat → World} (accepted : status.isSuccess = true)
    (working : Working xxh3_64 serve (m.answered answers))
    (smooth : Smooth sink serve t m.entries) :
    Completed (reconcileExport xxh3_64 sink t (.response status (some m)) answers) ∧
      applyAll t (reconcileExport xxh3_64 sink t (.response status (some m)) answers).1 =
        handleAll sink serve t m.entries := by
  rw [← answered_entries m answers] at smooth
  obtain ⟨effects, loop, silent⟩ := reconcileEntries_works working smooth
  have final := (reconcileEntries_spec sink serve xxh3_64 loop silent working.serves).2
  rw [answered_entries] at final
  simp only [reconcileExport]
  rw [if_neg (fun refused => refused accepted), loop]
  refine ⟨⟨rfl, ?_⟩, ?_⟩
  · intro x mem
    simp only [List.cons_append, List.mem_cons, List.mem_append, List.not_mem_nil, or_false] at mem
    rcases mem with rfl | mem | rfl | rfl
    · rfl
    · cases x with
      | report callback =>
        cases callback with
        | error path text => exact absurd mem (silent path text)
        | _ => rfl
      | _ => rfl
    · rfl
    · rfl
  · simp only [List.cons_append, applyAll_cons, applyAll_append, applyAll_nil, Effect.apply, final]

end

theorem answer_works (bytes : Bytes) : Works bytes (answer bytes) where
  dirs := rfl
  stat := rfl
  sent := rfl
  status := rfl
  opened := rfl
  body := ⟨[bytes], rfl, List.flatten_singleton⟩
  committed := rfl

theorem twoFiles_working (xxh3_64 : Bytes → UInt64) :
    Working xxh3_64 served (twoFiles.answered twoAnswers) := by
  refine ⟨?_, fun ew mem => (twoFiles_served ew mem).1, ?_⟩
  · intro ew mem
    rcases List.mem_cons.mp mem with rfl | mem
    · exact answer_works _
    · obtain rfl := List.mem_singleton.mp mem
      exact answer_works _
  · intro ew mem hash source
    rcases List.mem_cons.mp mem with rfl | mem
    · cases source
    · obtain rfl := List.mem_singleton.mp mem
      cases source

/-- A path is its parent and a name, or only a name. -/
theorem parentOf_cases (usbPath : String) : parentOf usbPath = "" ∧ '/' ∉ usbPath.toList ∨
    ∃ name, '/' ∉ name.toList ∧ usbPath = parentOf usbPath ++ "/" ++ name := by
  have split := List.takeWhile_append_dropWhile (p := fun c => decide (c ≠ '/'))
    (l := usbPath.toList.reverse)
  have flat : '/' ∉ usbPath.toList.reverse.takeWhile (fun c => decide (c ≠ '/')) := by
    intro mem
    have kept := List.mem_takeWhile_imp mem
    simp at kept
  cases front : usbPath.toList.reverse.dropWhile (fun c => decide (c ≠ '/')) with
  | nil =>
    left
    rw [front, List.append_nil] at split
    rw [split, List.mem_reverse] at flat
    exact ⟨by rw [parentOf, front]; rfl, flat⟩
  | cons c rest =>
    right
    have slash : c = '/' := by
      have stop := List.head?_dropWhile_not (fun c => decide (c ≠ '/')) usbPath.toList.reverse
      rw [front] at stop
      simpa using stop
    refine ⟨String.ofList (usbPath.toList.reverse.takeWhile (fun c => decide (c ≠ '/'))).reverse,
      ?_, ?_⟩
    · rw [String.toList_ofList, List.mem_reverse]
      exact flat
    · rw [front, slash] at split
      rw [← String.toList_inj, parentOf, front]
      simp only [String.toList_append, String.toList_ofList, List.drop_succ_cons, List.drop_zero]
      have whole := congrArg List.reverse split
      rw [List.reverse_reverse, List.reverse_append, List.reverse_cons] at whole
      exact whole.symm

/-- A directory on the way is a front of the path. -/
theorem dirsAlong_prefix {passed chars : List Char} {d : String}
    (mem : d ∈ dirsAlong passed chars) : d.toList <+: passed.reverse ++ chars := by
  induction chars generalizing passed with
  | nil =>
    rw [dirsAlong] at mem
    split at mem
    · cases mem
    · obtain rfl := List.mem_singleton.mp mem
      have whole : (String.ofList passed.reverse).toList = passed.reverse ++ [] := by
        rw [String.toList_ofList, List.append_nil]
      exact ⟨[], (List.append_nil _).trans whole⟩
  | cons c rest ih =>
    have further (mem : d ∈ dirsAlong (c :: passed) rest) :
        d.toList <+: passed.reverse ++ c :: rest := by
      have front := ih mem
      rwa [List.reverse_cons, List.append_assoc] at front
    rw [dirsAlong] at mem
    split at mem
    · rcases List.mem_cons.mp mem with rfl | mem
      · rw [String.toList_ofList]
        exact List.prefix_append _ _
      · exact further mem
    · exact further mem

theorem mem_parentOf {e : ManifestEntry} {d : String} (mem : d ∈ parentDirs e) {c : Char}
    (inside : c ∈ d.toList) : c ∈ (parentOf e.usbPath).toList := by
  have along : d ∈ dirsAlong [] (parentOf e.usbPath).toList := mem
  have front := dirsAlong_prefix along
  rw [List.reverse_nil, List.nil_append] at front
  exact front.subset inside

/-- Nothing is at a path of an entry or at its temporary name, and no file where it needs a
directory. -/
structure Vacant (t : Target) (entries : List ManifestEntry) : Prop where
  dest : ∀ e ∈ entries, t e.usbPath = none
  tmp : ∀ e ∈ entries, t (tmpOf e.usbPath) = none
  dirs : ∀ e ∈ entries, ∀ d ∈ parentDirs e, t d = none ∨ t d = some .dir

/-- The paths of the entries, their temporary names and their directories are all apart. -/
structure Tidy (entries : List ManifestEntry) : Prop where
  distinct : (entries.map ManifestEntry.usbPath).Nodup
  tmp : ∀ e ∈ entries, ∀ d ∈ entries, tmpOf e.usbPath ≠ d.usbPath
  dirs : ∀ e ∈ entries, ∀ d ∈ entries, e.usbPath ∉ parentDirs d ∧ tmpOf e.usbPath ∉ parentDirs d

/-- Paths with a dot, in directories without one. -/
theorem tidy_of_dots {entries : List ManifestEntry}
    (distinct : (entries.map ManifestEntry.usbPath).Nodup)
    (tmp : ∀ e ∈ entries, ∀ d ∈ entries, tmpOf e.usbPath ≠ d.usbPath)
    (dotted : ∀ e ∈ entries, '.' ∈ e.usbPath.toList)
    (dotless : ∀ e ∈ entries, '.' ∉ (parentOf e.usbPath).toList) : Tidy entries where
  distinct := distinct
  tmp := tmp
  dirs := by
    intro e mem d mem'
    refine ⟨fun dir => dotless d mem' (mem_parentOf dir (dotted e mem)),
      fun dir => dotless d mem' (mem_parentOf dir ?_)⟩
    rw [tmpOf, String.toList_append]
    exact List.mem_append_left _ (dotted e mem)

section
variable {sink : FsSink} {serve : String → Bytes} {t : Target}

/-- The directories of an entry are there or can be made. -/
theorem withDirs_made {e : ManifestEntry}
    (dirs : ∀ d ∈ parentDirs e, t d = none ∨ t d = some .dir) {d : String}
    (mem : d ∈ parentDirs e) : withDirs t e d = some .dir := by
  rcases dirs d mem with absent | there
  · exact if_pos ⟨absent, mem⟩
  · simp [withDirs, there]

theorem withDirs_other {e : ManifestEntry} {p : String} (other : p ∉ parentDirs e) :
    withDirs t e p = t p :=
  if_neg (fun both => other both.2)

/-- A fresh entry is downloaded, and only its own path and its directories change. -/
theorem handle_fresh {e : ManifestEntry} {entries : List ManifestEntry}
    (fresh : Vacant t (e :: entries)) (tidy : Tidy (e :: entries)) :
    handle sink serve t e = delivered (withDirs t e) serve e := by
  have own := (tidy.dirs e List.mem_cons_self e List.mem_cons_self).1
  have absent : withDirs t e e.usbPath = none :=
    (withDirs_other own).trans (fresh.dest e List.mem_cons_self)
  rw [handle, if_neg]
  rw [sameSize_absent absent]
  exact Bool.false_ne_true

theorem handle_away {e : ManifestEntry} {entries : List ManifestEntry}
    (fresh : Vacant t (e :: entries)) (tidy : Tidy (e :: entries)) {p : String}
    (dest : p ≠ e.usbPath) : handle sink serve t e p = withDirs t e p := by
  rw [handle_fresh fresh tidy, delivered, if_neg dest]
  by_cases tmp : p = tmpOf e.usbPath
  · have outside := (tidy.dirs e List.mem_cons_self e List.mem_cons_self).2
    rw [if_pos tmp, tmp, withDirs_other outside, fresh.tmp e List.mem_cons_self]
  · rw [if_neg tmp]

/-- What is fresh for the entries is fresh for the later ones when the first is done. -/
theorem Vacant.step {e : ManifestEntry} {entries : List ManifestEntry}
    (fresh : Vacant t (e :: entries)) (tidy : Tidy (e :: entries)) :
    Vacant (handle sink serve t e) entries := by
  have first : ∀ d ∈ entries, d.usbPath ≠ e.usbPath := by
    intro d mem same
    exact (List.nodup_cons.mp tidy.distinct).1 (same ▸ List.mem_map_of_mem mem)
  constructor
  · intro d mem
    have outside := (tidy.dirs d (List.mem_cons_of_mem _ mem) e List.mem_cons_self).1
    rw [handle_away fresh tidy (first d mem), withDirs_other outside]
    exact fresh.dest d (List.mem_cons_of_mem _ mem)
  · intro d mem
    have outside := (tidy.dirs d (List.mem_cons_of_mem _ mem) e List.mem_cons_self).2
    have apart := tidy.tmp d (List.mem_cons_of_mem _ mem) e List.mem_cons_self
    rw [handle_away fresh tidy apart, withDirs_other outside]
    exact fresh.tmp d (List.mem_cons_of_mem _ mem)
  · intro d mem dir inside
    have apart : dir ≠ e.usbPath := by
      rintro rfl
      exact (tidy.dirs e List.mem_cons_self d (List.mem_cons_of_mem _ mem)).1 inside
    rw [handle_away fresh tidy apart]
    by_cases needed : dir ∈ parentDirs e
    · exact Or.inr (withDirs_made (fresh.dirs e List.mem_cons_self) needed)
    · rw [withDirs_other needed]
      exact fresh.dirs d (List.mem_cons_of_mem _ mem) dir inside

theorem Tidy.tail {e : ManifestEntry} {entries : List ManifestEntry} (tidy : Tidy (e :: entries)) :
    Tidy entries where
  distinct := (List.nodup_cons.mp tidy.distinct).2
  tmp := fun d mem d' mem' =>
    tidy.tmp d (List.mem_cons_of_mem _ mem) d' (List.mem_cons_of_mem _ mem')
  dirs := fun d mem d' mem' =>
    tidy.dirs d (List.mem_cons_of_mem _ mem) d' (List.mem_cons_of_mem _ mem')

variable {entries : List ManifestEntry}

theorem smooth_of_fresh (fresh : Vacant t entries) (tidy : Tidy entries) :
    Smooth sink serve t entries := by
  induction entries generalizing t with
  | nil => trivial
  | cons e entries ih =>
    refine ⟨fun d mem => withDirs_made (fresh.dirs e List.mem_cons_self) mem, ?_,
      ih (fresh.step tidy) tidy.tail⟩
    intro _
    have outside := tidy.dirs e List.mem_cons_self e List.mem_cons_self
    rw [withDirs_other outside.1, withDirs_other outside.2, fresh.dest e List.mem_cons_self,
      fresh.tmp e List.mem_cons_self]
    exact ⟨by decide, by decide⟩

/-- Away from the entries and their directories nothing changes. -/
theorem handleAll_away (fresh : Vacant t entries) (tidy : Tidy entries) {p : String}
    (dest : ∀ e ∈ entries, p ≠ e.usbPath) (dirs : ∀ e ∈ entries, p ∉ parentDirs e) :
    handleAll sink serve t entries p = t p := by
  induction entries generalizing t with
  | nil => rfl
  | cons e entries ih =>
    rw [handleAll, List.foldl_cons, ← handleAll,
      ih (fresh.step tidy) tidy.tail (fun d mem => dest d (List.mem_cons_of_mem _ mem))
        (fun d mem => dirs d (List.mem_cons_of_mem _ mem)),
      handle_away fresh tidy (dest e List.mem_cons_self),
      withDirs_other (dirs e List.mem_cons_self)]

/-- Nothing stale survives where nothing was. -/
theorem nothingStale_of_fresh (fresh : Vacant t entries) (tidy : Tidy entries) :
    NothingStale sink t serve entries := by
  refine ⟨?_, ?_⟩
  · intro e mem
    refine ⟨?_, fun d mem' => (tidy.dirs e mem d mem').1⟩
    rw [fresh.dest e mem]
    decide
  · intro before e after split
    have mem : e ∈ entries := by rw [split]; simp
    constructor
    · left
      rw [fetches, sameSize_absent (fresh.dest e mem)]
      rfl
    · intro between d rest parts _
      have mem' : d ∈ entries := by rw [split, parts]; simp
      exact tidy.tmp d mem' e mem

/-- An export onto a target that has none of its files: the run completes, every served file
is at its path, and the rest of the target is as before. -/
theorem fresh_export {xxh3_64 : Bytes → UInt64} {status : Status} {m : Manifest}
    {answers : Nat → World} (accepted : status.isSuccess = true)
    (working : Working xxh3_64 serve (m.answered answers)) (fresh : Vacant t m.entries)
    (tidy : Tidy m.entries) :
    Completed (reconcileExport xxh3_64 sink t (.response status (some m)) answers) ∧
      (∀ e ∈ m.entries,
        applyAll t (reconcileExport xxh3_64 sink t (.response status (some m)) answers).1
          e.usbPath = some (.file (serve e.usbPath))) ∧
      ∀ p, (∀ e ∈ m.entries, p ≠ e.usbPath) → (∀ e ∈ m.entries, p ∉ parentDirs e) →
        applyAll t (reconcileExport xxh3_64 sink t (.response status (some m)) answers).1 p =
          t p := by
  have smooth : Smooth sink serve t m.entries := smooth_of_fresh fresh tidy
  obtain ⟨completed, final⟩ := reconcileExport_smooth accepted working smooth
  rw [final]
  refine ⟨completed, (delivers_iff smooth tidy.distinct).mpr (nothingStale_of_fresh fresh tidy), ?_⟩
  intro p dest dirs
  exact handleAll_away fresh tidy dest dirs

end

end BVault.Transfer
