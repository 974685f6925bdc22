import BVault.Transfer.Reexport

/-!
# A transfer that is killed

The process may end between any two changes to the target, and takes with it
what the buffered writer has not passed on. Files are written under temporary
names and moved into place when they are complete, so whatever the run was
about to do, no path of the manifest is left with a part of a file. A path that
held nothing may have become a directory, where another entry needs one there.
-/

namespace BVault.Transfer

open BVault.Hash

/-- `path.ends_with(".bvault-tmp")`. -/
def isTemporary (path : String) : Bool := ".bvault-tmp".toList.isSuffixOf path.toList

theorem isTemporary_tmpOf (dest : String) : isTemporary (tmpOf dest) = true := by
  rw [isTemporary, tmpOf, String.toList_append, List.isSuffixOf_iff_suffix]
  exact List.suffix_append _ _

/-- The file that is open for writing after an effect. -/
def opens (opened : Option String) : Effect → Option String
  | .fs (.create path) => some path
  | .fs (.rename _ _) => none
  | .fs (.remove _) => none
  | _ => opened

/-- The file that is open for writing after some effects. -/
def writing (done : List Effect) : Option String := done.foldl opens none

/-- The target when the process is killed after some effects; `left` is what the buffer and a
write that was cut short have left in the open file. -/
def killedAfter (t : Target) (done : List Effect) (left : Bytes) : Target := fun p =>
  if writing done = some p then some (.file left) else applyAll t done p

section
variable (xxh3_64 : Bytes → UInt64)

/-- The bytes are the body of a successful response, received to its end and written, and for
a raw entry they have the hash of the manifest. -/
structure WholeBody (e : ManifestEntry) (w : World) (bytes : Bytes) : Prop where
  success : w.status.isSuccess = true
  ended : ∀ r ∈ w.body, ∃ chunk, r = .chunk chunk true
  bytes_eq : bytes = bodyBytes w.body
  verified : ∀ hash, e.source = .raw hash → hashHex (hashBytes xxh3_64 bytes) = hash

/-- The path holds what it held, or a whole body of an entry with that path, or a directory
that an entry needs where nothing was. -/
def Intact (run : List (ManifestEntry × World)) (t t' : Target) (p : String) : Prop :=
  t' p = t p ∨
    (∃ ew ∈ run, ew.1.usbPath = p ∧ ∃ bytes, t' p = some (.file bytes) ∧
      WholeBody xxh3_64 ew.1 ew.2 bytes) ∨
    (t p = none ∧ t' p = some .dir ∧ ∃ ew ∈ run, p ∈ parentDirs ew.1)

variable {xxh3_64} {run run' : List (ManifestEntry × World)} {t t' t'' : Target} {p : String}

theorem Intact.mono (intact : Intact xxh3_64 run t t' p) (more : ∀ ew ∈ run, ew ∈ run') :
    Intact xxh3_64 run' t t' p := by
  rcases intact with same | ⟨ew, mem, whole⟩ | ⟨absent, made, ew, mem, needed⟩
  · exact Or.inl same
  · exact Or.inr (Or.inl ⟨ew, more ew mem, whole⟩)
  · exact Or.inr (Or.inr ⟨absent, made, ew, more ew mem, needed⟩)

theorem Intact.trans (first : Intact xxh3_64 run t t' p) (second : Intact xxh3_64 run t' t'' p) :
    Intact xxh3_64 run t t'' p := by
  rcases second with same | whole | ⟨absent, made, needed⟩
  · rcases first with before | ⟨ew, mem, path, bytes, held, whole⟩ | ⟨absent, made, needed⟩
    · exact Or.inl (same.trans before)
    · exact Or.inr (Or.inl ⟨ew, mem, path, bytes, same.trans held, whole⟩)
    · exact Or.inr (Or.inr ⟨absent, same.trans made, needed⟩)
  · exact Or.inr (Or.inl whole)
  · rcases first with before | ⟨_, _, _, _, held, _⟩ | ⟨_, dir, _⟩
    · exact Or.inr (Or.inr ⟨before ▸ absent, made, needed⟩)
    · rw [absent] at held
      cases held
    · rw [absent] at dir
      cases dir

/-- A report, or a change to a temporary file. -/
def TmpOnly : Effect → Prop
  | .fs (.create path) => isTemporary path = true
  | .fs (.append path _) => isTemporary path = true
  | .fs (.remove path) => isTemporary path = true
  | .fs (.mkdir _) => False
  | .fs (.rename _ _) => False
  | .report _ => True
  | .deleteExport => True

theorem apply_tmpOnly {x : Effect} (only : TmpOnly x) (named : isTemporary p = false) (t : Target) :
    x.apply t p = t p := by
  have other {path : String} (temporary : isTemporary path = true) : p ≠ path := by
    rintro rfl
    rw [named] at temporary
    cases temporary
  cases x with
  | report callback => rfl
  | deleteExport => rfl
  | fs op =>
    cases op with
    | mkdir path => cases only
    | rename src dst => cases only
    | create path => exact if_neg (other only)
    | remove path => exact if_neg (other only)
    | append path bytes =>
      simp only [Effect.apply, FsOp.apply]
      split
      · exact if_neg (other only)
      · rfl

theorem applyAll_tmpOnly {xs : List Effect} (only : ∀ x ∈ xs, TmpOnly x)
    (named : isTemporary p = false) (t : Target) : applyAll t xs p = t p := by
  induction xs generalizing t with
  | nil => rfl
  | cons x xs ih =>
    rw [applyAll_cons, ih (fun y mem => only y (List.mem_cons_of_mem x mem))]
    exact apply_tmpOnly (only x List.mem_cons_self) named t

/-- The last effects of an entry: none, or the move of a whole body into place. -/
def Moves (xxh3_64 : Bytes → UInt64) (e : ManifestEntry) (w : World) (t : Target)
    (tail : List Effect) : Prop :=
  tail = [] ∨
    (tail = [.fs (.rename (tmpOf e.usbPath) e.usbPath), .report (.fileDone e.usbPath)] ∧
      ∃ bytes, t (tmpOf e.usbPath) = some (.file bytes) ∧ WholeBody xxh3_64 e w bytes)

/-- Changes to temporary files, then perhaps the move. -/
def WritesThenMoves (xxh3_64 : Bytes → UInt64) (e : ManifestEntry) (w : World) (t : Target)
    (effects : List Effect) : Prop :=
  ∃ quiet tail, effects = quiet ++ tail ∧ (∀ x ∈ quiet, TmpOnly x) ∧
    Moves xxh3_64 e w (applyAll t quiet) tail

theorem writes_of_tmpOnly {e : ManifestEntry} {w : World} {effects : List Effect}
    (only : ∀ x ∈ effects, TmpOnly x) : WritesThenMoves xxh3_64 e w t effects :=
  ⟨effects, [], (List.append_nil _).symm, only, Or.inl rfl⟩

theorem WritesThenMoves.after {e : ManifestEntry} {w : World} {first effects : List Effect}
    (only : ∀ x ∈ first, TmpOnly x)
    (writes : WritesThenMoves xxh3_64 e w (applyAll t first) effects) :
    WritesThenMoves xxh3_64 e w t (first ++ effects) := by
  obtain ⟨quiet, tail, rfl, quietly, moves⟩ := writes
  refine ⟨first ++ quiet, tail, (List.append_assoc _ _ _).symm, ?_, ?_⟩
  · intro x mem
    rcases List.mem_append.mp mem with mem | mem
    · exact only x mem
    · exact quietly x mem
  · rwa [applyAll_append]

theorem abort_tmpOnly (usbPath : String) (w : World) : ∀ x ∈ abort usbPath w, TmpOnly x := by
  intro x mem
  rw [abort] at mem
  split at mem
  · rw [List.mem_singleton.mp mem]
    exact isTemporary_tmpOf usbPath
  · cases mem

theorem receive_tmpOnly (usbPath : String) (body : List Recv) (hasher : ContentHasher) :
    ∀ x ∈ (receive usbPath body hasher).1, TmpOnly x := by
  induction body generalizing hasher with
  | nil => nofun
  | cons r body ih =>
    intro x mem
    cases r with
    | networkError text =>
      rw [List.mem_singleton.mp mem]
      trivial
    | chunk bytes written =>
      cases written with
      | false =>
        rw [List.mem_singleton.mp mem]
        trivial
      | true =>
        rcases List.mem_cons.mp mem with rfl | mem
        · exact isTemporary_tmpOf usbPath
        · rcases List.mem_cons.mp mem with rfl | mem
          · trivial
          · exact ih _ x mem

/-- A body that the chunk loop takes to its end is in the temporary file, and was hashed. -/
theorem receive_whole {usbPath : String} {body : List Recv} {hasher hasher' : ContentHasher}
    {effects : List Effect} {data : Bytes}
    (received : receive usbPath body hasher = (effects, some hasher'))
    (held : t (tmpOf usbPath) = some (.file data)) (seen : hasher.Seen data) :
    (∀ r ∈ body, ∃ chunk, r = .chunk chunk true) ∧ hasher'.Seen (data ++ bodyBytes body) ∧
      applyAll t effects (tmpOf usbPath) = some (.file (data ++ bodyBytes body)) := by
  induction body generalizing t hasher effects data with
  | nil =>
    cases received
    rw [bodyBytes, List.append_nil]
    exact ⟨List.forall_mem_nil _, seen, held⟩
  | cons r body ih =>
    cases r with
    | networkError text => cases received
    | chunk bytes written =>
      cases written with
      | false => cases received
      | true =>
        obtain ⟨later, rest, rfl⟩ := receive_chunk received
        have appended : FsOp.apply t (.append (tmpOf usbPath) bytes) (tmpOf usbPath) =
            some (.file (data ++ bytes)) := by
          simp only [FsOp.apply, held, if_true]
        obtain ⟨ended, seen, held⟩ := ih rest appended (seen.update bytes)
        rw [List.append_assoc] at seen held
        refine ⟨?_, seen, held⟩
        intro r mem
        rcases List.mem_cons.mp mem with rfl | mem
        · exact ⟨bytes, rfl⟩
        · exact ended r mem

variable {sink : FsSink} {e : ManifestEntry} {w : World}

theorem commit_moves {bytes : Bytes} (held : t' (tmpOf e.usbPath) = some (.file bytes))
    (whole : WholeBody xxh3_64 e w bytes) :
    WritesThenMoves xxh3_64 e w t' (commit t e.usbPath w) := by
  have refused (text : String) :
      WritesThenMoves xxh3_64 e w t' [.report (.error e.usbPath text)] := by
    apply writes_of_tmpOnly
    intro x mem
    rw [List.mem_singleton.mp mem]
    trivial
  rw [commit]
  cases w.committed with
  | flushError => exact refused _
  | fsyncError => exact refused _
  | renameError => exact refused _
  | ok =>
    dsimp only
    split
    · exact refused _
    · exact ⟨[], _, rfl, List.forall_mem_nil _, Or.inr ⟨rfl, bytes, held, whole⟩⟩

theorem writeFile_moves (success : w.status.isSuccess = true)
    (empty : t' (tmpOf e.usbPath) = some (.file [])) :
    WritesThenMoves xxh3_64 e w t' (writeFile xxh3_64 t e w) := by
  have quiet := receive_tmpOnly e.usbPath w.body ContentHasher.new
  rw [writeFile]
  cases received : receive e.usbPath w.body ContentHasher.new with
  | mk effects done =>
    rw [received] at quiet
    cases done with
    | none => exact (writes_of_tmpOnly (abort_tmpOnly e.usbPath w)).after quiet
    | some hasher =>
      obtain ⟨ended, seen, held⟩ := receive_whole received empty ContentHasher.seen_new
      rw [List.nil_append] at seen held
      dsimp only
      split
      · rename_i checked
        apply WritesThenMoves.after quiet
        apply commit_moves held
        refine ⟨success, ended, rfl, ?_⟩
        intro hash raw
        simp only [verified, raw, seen.finalize, decide_eq_true_eq] at checked
        exact checked
      · apply WritesThenMoves.after quiet
        apply writes_of_tmpOnly
        intro x mem
        rcases List.mem_cons.mp mem with rfl | mem
        · trivial
        · exact abort_tmpOnly e.usbPath w x mem

theorem download_moves : WritesThenMoves xxh3_64 e w t (download xxh3_64 sink t e w) := by
  have refused (text : String) :
      WritesThenMoves xxh3_64 e w t [.report (.error e.usbPath text)] := by
    apply writes_of_tmpOnly
    intro x mem
    rw [List.mem_singleton.mp mem]
    trivial
  rw [download]
  split
  · exact refused _
  · rename_i answered
    split
    · exact refused _
    · have opened : ∀ x ∈ [Effect.fs (.create (tmpOf e.usbPath))], TmpOnly x := by
        intro x mem
        rw [List.mem_singleton.mp mem]
        exact isTemporary_tmpOf e.usbPath
      apply WritesThenMoves.after opened
      apply writeFile_moves
      · exact not_not.mp answered
      · simp [Effect.apply, FsOp.apply]

/-- Directories are made one after the other. -/
def mkdirs (dirs : List String) : List Effect := dirs.map (fun d => .fs (.mkdir d))

theorem mkdirs_eq (dirs : List String) : (dirs.map FsOp.mkdir).map Effect.fs = mkdirs dirs :=
  List.map_map

/-- An entry makes directories it needs, before it writes. -/
theorem reconcileEntry_moves (xxh3_64 : Bytes → UInt64) (sink : FsSink) (t : Target)
    (e : ManifestEntry) (w : World) :
    ∃ dirs effects, (reconcileEntry xxh3_64 sink t e w).1 = mkdirs dirs ++ effects ∧
      (∀ d ∈ dirs, d ∈ parentDirs e) ∧
      WritesThenMoves xxh3_64 e w (applyAll t (mkdirs dirs)) effects := by
  have made : ∃ dirs : List String, (FsSink.ensureDir t (parentOf e.usbPath) w.mkdirFails).1 =
      dirs.map FsOp.mkdir ∧ ∀ d ∈ dirs, d ∈ parentDirs e := by
    simp only [FsSink.ensureDir]
    split
    · exact ⟨[], rfl, List.forall_mem_nil _⟩
    · split
      · dsimp only
        exact ⟨_, rfl, fun d mem => (List.mem_filter.mp mem).1⟩
      · rw [← List.map_take]
        exact ⟨_, rfl, fun d mem => (List.mem_filter.mp (List.mem_of_mem_take mem)).1⟩
  obtain ⟨dirs, ops, needed⟩ := made
  have started : ∀ x ∈ [Effect.report (.fileStart e.usbPath e.size)], TmpOnly x := by
    intro x mem
    rw [List.mem_singleton.mp mem]
    trivial
  have silent (callback : Callback) :
      WritesThenMoves xxh3_64 e w (applyAll t (mkdirs dirs)) [.report callback] := by
    apply writes_of_tmpOnly
    intro x mem
    rw [List.mem_singleton.mp mem]
    trivial
  have nothing : WritesThenMoves xxh3_64 e w (applyAll t (mkdirs dirs)) [] :=
    writes_of_tmpOnly (List.forall_mem_nil _)
  refine ⟨dirs, ?_⟩
  rw [reconcileEntry]
  cases ensured : FsSink.ensureDir t (parentOf e.usbPath) w.mkdirFails with
  | mk done ok =>
    rw [ensured] at ops
    obtain rfl : done = dirs.map FsOp.mkdir := ops
    simp only [mkdirs_eq]
    split
    · exact ⟨[], (List.append_nil _).symm, needed, nothing⟩
    · split
      · exact ⟨[], (List.append_nil _).symm, needed, nothing⟩
      · split
        · exact ⟨_, rfl, needed, silent _⟩
        · split
          · exact ⟨_, rfl, needed, silent _⟩
          · refine ⟨_, rfl, needed, ?_⟩
            exact WritesThenMoves.after started download_moves

theorem intact_of_dirs {dirs : List String} (needed : ∀ d ∈ dirs, d ∈ parentDirs e) (t : Target)
    (p : String) :
    Intact xxh3_64 [(e, w)] t (applyAll t (mkdirs dirs)) p := by
  rw [Intact, ← mkdirs_eq, applyAll_mkdirs]
  split
  · rename_i absent
    exact Or.inr (Or.inr ⟨absent.1, rfl, (e, w), List.mem_cons_self, needed p absent.2⟩)
  · exact Or.inl rfl

theorem intact_of_moves {tail done rest : List Effect} (moves : Moves xxh3_64 e w t tail)
    (split : tail = done ++ rest) (named : isTemporary p = false) :
    Intact xxh3_64 [(e, w)] t (applyAll t done) p := by
  rcases moves with rfl | ⟨rfl, bytes, held, whole⟩
  · rw [(List.append_eq_nil_iff.mp split.symm).1]
    exact Or.inl rfl
  · cases done with
    | nil => exact Or.inl rfl
    | cons x done =>
      obtain ⟨rfl, later⟩ := List.cons.inj split
      have reported : ∀ y ∈ done, TmpOnly y := by
        intro y mem
        have there : y ∈ [Effect.report (.fileDone e.usbPath)] := by
          rw [later]
          exact List.mem_append_left rest mem
        rw [List.mem_singleton.mp there]
        trivial
      rw [Intact, applyAll_cons, applyAll_tmpOnly reported named]
      simp only [Effect.apply, FsOp.apply]
      by_cases here : p = e.usbPath
      · refine Or.inr (Or.inl ⟨(e, w), List.mem_cons_self, here.symm, bytes, ?_, whole⟩)
        rw [if_pos here, held]
      · left
        have other : p ≠ tmpOf e.usbPath := by
          rintro rfl
          rw [isTemporary_tmpOf] at named
          cases named
        rw [if_neg here, if_neg other]

/-- Wherever an entry is stopped, a path that is no temporary name is intact. -/
theorem intact_of_entry {done rest : List Effect}
    (split : (reconcileEntry xxh3_64 sink t e w).1 = done ++ rest) (named : isTemporary p = false) :
    Intact xxh3_64 [(e, w)] t (applyAll t done) p := by
  obtain ⟨dirs, effects, all, needed, quiet, tail, rfl, quietly, moves⟩ :=
    reconcileEntry_moves xxh3_64 sink t e w
  rw [all] at split
  -- stopped among the directories, or behind them
  rcases List.append_eq_append_iff.mp split with ⟨later, rfl, inside⟩ | ⟨later, made, _⟩
  · have written : Intact xxh3_64 [(e, w)] (applyAll t (mkdirs dirs))
        (applyAll (applyAll t (mkdirs dirs)) later) p := by
      rcases List.append_eq_append_iff.mp inside with ⟨moved, rfl, final⟩ | ⟨unwritten, whole, _⟩
      · rw [applyAll_append]
        have still : Intact xxh3_64 [(e, w)] (applyAll t (mkdirs dirs))
            (applyAll (applyAll t (mkdirs dirs)) quiet) p :=
          Or.inl (applyAll_tmpOnly quietly named _)
        exact still.trans (intact_of_moves moves final named)
      · left
        apply applyAll_tmpOnly _ named
        intro x mem
        exact quietly x (by rw [whole]; exact List.mem_append_left _ mem)
    rw [applyAll_append]
    exact (intact_of_dirs needed t p).trans written
  · obtain ⟨first, _, rfl, rfl, _⟩ := List.map_eq_append_iff.mp made
    exact intact_of_dirs (fun d mem => needed d (List.mem_append_left _ mem)) t p

/-- Wherever the loop is stopped, a path that is no temporary name is intact. -/
theorem intact_of_entries {done rest : List Effect}
    (split : (reconcileEntries xxh3_64 sink t run).1 = done ++ rest)
    (named : isTemporary p = false) : Intact xxh3_64 run t (applyAll t done) p := by
  induction run generalizing t done rest with
  | nil =>
    rw [(List.append_eq_nil_iff.mp split.symm).1]
    exact Or.inl rfl
  | cons ew run ih =>
    obtain ⟨e, w⟩ := ew
    have first {done rest : List Effect}
        (split : (reconcileEntry xxh3_64 sink t e w).1 = done ++ rest) :
        Intact xxh3_64 ((e, w) :: run) t (applyAll t done) p := by
      apply (intact_of_entry split named).mono
      intro ew mem
      rw [List.mem_singleton.mp mem]
      exact List.mem_cons_self
    have whole := first (List.append_nil _).symm
    cases entry : reconcileEntry xxh3_64 sink t e w with
    | mk effects result =>
      rw [reconcileEntries_cons, entry] at split
      rw [entry] at first whole
      cases result with
      | error err => exact first split
      | ok u =>
        -- stopped in this entry, or in a later one
        rcases List.append_eq_append_iff.mp split with ⟨later, rfl, inside⟩ | ⟨_, here, _⟩
        · rw [applyAll_append]
          apply whole.trans
          apply (ih inside).mono
          exact fun ew mem => List.mem_cons_of_mem _ mem
        · exact first here

/-- A file is created under a temporary name only. -/
def CreatesTmp (effects : List Effect) : Prop :=
  ∀ path, Effect.fs (.create path) ∈ effects → isTemporary path = true

theorem writing_isTemporary {done : List Effect} (creates : CreatesTmp done)
    (opened : writing done = some p) : isTemporary p = true := by
  have general : ∀ (done : List Effect) (before : Option String), CreatesTmp done →
      (∀ q, before = some q → isTemporary q = true) →
      done.foldl opens before = some p → isTemporary p = true := by
    intro done
    induction done with
    | nil => exact fun before _ temporary opened => temporary p opened
    | cons x done ih =>
      intro before creates temporary opened
      refine ih _ (fun path mem => creates path (List.mem_cons_of_mem x mem)) ?_ opened
      intro q now
      unfold opens at now
      split at now
      · cases now
        exact creates _ List.mem_cons_self
      · cases now
      · cases now
      · exact temporary q now
  exact general done none creates nofun opened

theorem createsTmp_of_entries : CreatesTmp (reconcileEntries xxh3_64 sink t run).1 := by
  induction run generalizing t with
  | nil => nofun
  | cons ew run ih =>
    obtain ⟨e, w⟩ := ew
    have first : CreatesTmp (reconcileEntry xxh3_64 sink t e w).1 := by
      obtain ⟨dirs, effects, all, _, quiet, tail, rfl, quietly, moves⟩ :=
        reconcileEntry_moves xxh3_64 sink t e w
      intro path mem
      rw [all, List.mem_append, List.mem_append] at mem
      rcases mem with made | written | moved
      · simp [mkdirs] at made
      · exact quietly _ written
      · rcases moves with rfl | ⟨rfl, _⟩
        · cases moved
        · simp at moved
    intro path mem
    cases entry : reconcileEntry xxh3_64 sink t e w with
    | mk effects result =>
      rw [reconcileEntries_cons, entry] at mem
      rw [entry] at first
      cases result with
      | error err => exact first path mem
      | ok u =>
        rcases List.mem_append.mp mem with here | later
        · exact first path here
        · exact ih path later

/-- A report, or the request to drop the export. -/
def Silent (x : Effect) : Prop := ∀ op, x ≠ .fs op

theorem applyAll_silent {xs : List Effect} (silent : ∀ x ∈ xs, Silent x) (t : Target) :
    applyAll t xs = t := by
  induction xs generalizing t with
  | nil => rfl
  | cons x xs ih =>
    rw [applyAll_cons, ih (fun y mem => silent y (List.mem_cons_of_mem x mem))]
    cases x with
    | fs op => exact absurd rfl (silent _ List.mem_cons_self op)
    | report callback => rfl
    | deleteExport => rfl

/-- A run that is silent before and behind some effects is stopped within these, as far as the
target goes. -/
theorem stopped_within (last : List Effect) {first effects done rest : List Effect}
    (before : ∀ x ∈ first, Silent x) (behind : ∀ x ∈ last, Silent x)
    (split : first ++ (effects ++ last) = done ++ rest) :
    ∃ inside later, effects = inside ++ later ∧ (∀ t, applyAll t done = applyAll t inside) ∧
      ∀ x ∈ done, x ∈ inside ∨ Silent x := by
  rcases List.append_eq_append_iff.mp split with ⟨looped, rfl, tail⟩ | ⟨unseen, all, _⟩
  · rcases List.append_eq_append_iff.mp tail with ⟨ended, rfl, final⟩ | ⟨later, rfl, _⟩
    · have silent : ∀ x ∈ ended, Silent x := by
        intro x mem
        apply behind
        rw [final]
        exact List.mem_append_left rest mem
      refine ⟨effects, [], (List.append_nil _).symm, ?_, ?_⟩
      · intro t
        rw [applyAll_append, applyAll_append, applyAll_silent before, applyAll_silent silent]
      · intro x mem
        rcases List.mem_append.mp mem with early | mem
        · exact Or.inr (before x early)
        · exact (List.mem_append.mp mem).imp_right (silent x)
    · refine ⟨looped, later, rfl, ?_, ?_⟩
      · intro t
        rw [applyAll_append, applyAll_silent before]
      · intro x mem
        exact (List.mem_append.mp mem).symm.imp_right (before x)
  · have silent : ∀ x ∈ done, Silent x := by
      intro x mem
      apply before
      rw [all]
      exact List.mem_append_left unseen mem
    exact ⟨[], effects, rfl, applyAll_silent silent, fun x mem => Or.inr (silent x mem)⟩

/-- Before and behind the loop nothing changes on the target. -/
theorem stopped_in_loop {answers : Nat → World} {m : Manifest} {status : Status}
    {done rest : List Effect}
    (killed : (reconcileExport xxh3_64 sink t (.response status (some m)) answers).1 =
      done ++ rest) :
    ∃ inside later, (reconcileEntries xxh3_64 sink t (m.answered answers)).1 = inside ++ later ∧
      (∀ t, applyAll t done = applyAll t inside) ∧ ∀ x ∈ done, x ∈ inside ∨ Silent x := by
  simp only [reconcileExport] at killed
  split at killed
  · rw [(List.append_eq_nil_iff.mp killed.symm).1]
    exact ⟨[], _, rfl, fun _ => rfl, List.forall_mem_nil _⟩
  · have started : ∀ x ∈ [Effect.report (.start m.entries.length
        (m.entries.map ManifestEntry.size).sum)], Silent x := by
      intro x mem op same
      obtain rfl := List.mem_singleton.mp mem
      cases same
    cases loop : reconcileEntries xxh3_64 sink t (m.answered answers) with
    | mk effects result =>
      rw [loop] at killed
      cases result with
      | error err =>
        apply stopped_within [] started (List.forall_mem_nil _)
        rw [List.append_nil]
        exact killed
      | ok u =>
        apply stopped_within [.deleteExport, .report .complete] started _ killed
        intro x mem op same
        rcases List.mem_cons.mp mem with rfl | mem
        · cases same
        · obtain rfl := List.mem_singleton.mp mem
          cases same

end

/-- Whenever and wherever the run is killed: a path of the manifest holds what it held before,
or a whole body that was received for it and, where the entry is raw, verified, or it was
nothing and is a directory of another entry. -/
theorem killed_run_leaves_intact (xxh3_64 : Bytes → UInt64) (sink : FsSink) (t : Target)
    (status : Status) (m : Manifest) (answers : Nat → World) (done rest : List Effect)
    (left : Bytes) (named : ∀ e ∈ m.entries, isTemporary e.usbPath = false)
    (killed : (reconcileExport xxh3_64 sink t (.response status (some m)) answers).1 =
      done ++ rest) :
    ∀ e ∈ m.entries,
      Intact xxh3_64 (m.answered answers) t (killedAfter t done left) e.usbPath := by
  intro e mem
  obtain ⟨inside, later, stopped, same, within⟩ := stopped_in_loop killed
  have closed : writing done ≠ some e.usbPath := by
    intro opened
    have creates : CreatesTmp done := by
      intro path created
      rcases within _ created with looped | silent
      · apply createsTmp_of_entries path
        rw [stopped]
        exact List.mem_append_left later looped
      · exact absurd rfl (silent _)
    have temporary := writing_isTemporary creates opened
    rw [named e mem] at temporary
    cases temporary
  have intact := intact_of_entries stopped (named e mem)
  rw [← same] at intact
  rw [Intact, killedAfter, if_neg closed]
  exact intact

/-- What exporting two files does to a stick. -/
def twoFilesRun : List Effect :=
  (reconcileExport (fun _ => 0) ⟨"/media/usb", 4096⟩ noDatabase
    (.response ⟨200, "200 OK"⟩ (some twoFiles)) twoAnswers).1

theorem twoFilesRun_intact :
    killedAfter noDatabase (twoFilesRun.take 9) [] "PIONEER/rekordbox/export.pdb" =
      some (.file [7, 8, 9]) ∧
    Intact (fun _ => 0) (twoFiles.answered twoAnswers) noDatabase
      (killedAfter noDatabase (twoFilesRun.take 9) []) "PIONEER/rekordbox/export.pdb" := by
  refine ⟨by decide +kernel, ?_⟩
  have stopped : twoFilesRun = twoFilesRun.take 9 ++ twoFilesRun.drop 9 :=
    (List.take_append_drop 9 twoFilesRun).symm
  exact killed_run_leaves_intact (fun _ => 0) ⟨"/media/usb", 4096⟩ noDatabase ⟨200, "200 OK"⟩
    twoFiles twoAnswers (twoFilesRun.take 9) (twoFilesRun.drop 9) [] (by decide) stopped
    ⟨"PIONEER/rekordbox/export.pdb", 3, .staging⟩ List.mem_cons_self

/-- A file and a directory of the same name. -/
def fileAndFolder : Manifest where
  entries := [⟨"Contents/a1.mp3", 2, .staging⟩, ⟨"Contents", 2, .staging⟩]

/-- A path of the manifest that held nothing is a directory from the first step on. -/
theorem folder_not_kept :
    (∀ e ∈ fileAndFolder.entries, isTemporary e.usbPath = false) ∧
    [Effect.report (.start 2 4), .fs (.mkdir "Contents")] <+:
      (reconcileExport (fun _ => 0) ⟨"/media/usb", 4096⟩ (fun _ => none)
        (.response ⟨200, "200 OK"⟩ (some fileAndFolder)) (fun _ => answer [1, 2])).1 ∧
    killedAfter (fun _ => none) [.report (.start 2 4), .fs (.mkdir "Contents")] [] "Contents" =
      some .dir := by
  refine ⟨by decide, ?_, by decide⟩
  decide +kernel

end BVault.Transfer
