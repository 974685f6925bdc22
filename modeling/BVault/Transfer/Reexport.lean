import BVault.Lib.Runs
import BVault.Transfer.Reconcile
import Mathlib.Data.List.Induction

/-!
# Exporting again onto the same target

An entry whose path already holds a file of the manifest's size is skipped
without a look at its content. A completed run therefore leaves the served bytes
exactly where no such file was stale. The temporary names take part: committing
an entry clears whatever was stored under its temporary name.
-/

namespace BVault.Transfer

open BVault.Hash

/-- An `on_error` callback. -/
def Effect.isError : Effect → Bool
  | .report (.error _ _) => true
  | _ => false

/-- The run reached `on_complete` and reported no error on the way. -/
def Completed (run : List Effect × Result) : Prop :=
  run.2 = .ok () ∧ ∀ x ∈ run.1, x.isError = false

instance (run : List Effect × Result) : Decidable (Completed run) :=
  inferInstanceAs (Decidable (_ ∧ _))

/-- The data of a body. -/
def bodyBytes : List Recv → Bytes
  | [] => []
  | .chunk bytes _ :: rest => bytes ++ bodyBytes rest
  | .networkError _ :: _ => []

/-- The server has fixed bytes of the manifest's size for each entry, and a body that is
not cut off consists of them. -/
def Serves (serve : String → Bytes) (run : List (ManifestEntry × World)) : Prop :=
  ∀ ew ∈ run, (serve ew.1.usbPath).length = ew.1.size ∧
    ((∀ text, Recv.networkError text ∉ ew.2.body) → bodyBytes ew.2.body = serve ew.1.usbPath)

/-- The directories an entry needs. -/
def parentDirs (e : ManifestEntry) : List String := createDirAllDirs (parentOf e.usbPath)

section Condition
variable (sink : FsSink) (t : Target)

/-- The skip check on the target as it is. -/
def sameSize (e : ManifestEntry) : Bool := sink.fileLen t e.usbPath = some e.size

/-- An earlier download used the path as its temporary name; `before` are the entries so
far, the latest first. -/
def cleared : List ManifestEntry → String → Bool
  | [], _ => false
  | d :: before, p =>
    ((!sameSize sink t d || cleared before d.usbPath) && tmpOf d.usbPath = p) || cleared before p

/-- The entry is downloaded: its path holds no file of its size when its turn comes. -/
def fetches (before : List ManifestEntry) (e : ManifestEntry) : Bool :=
  !sameSize sink t e || cleared sink t before e.usbPath

/-- Paths of entries are no directories, neither of the target nor of the manifest. -/
def Apart (entries : List ManifestEntry) : Prop :=
  ∀ e ∈ entries, t e.usbPath ≠ some .dir ∧ ∀ d ∈ entries, e.usbPath ∉ parentDirs d

/-- Nothing stale survives: a file of the manifest's size that is not downloaded again is
the served one, and no later download takes the path as its temporary name. -/
def NothingStale (serve : String → Bytes) (entries : List ManifestEntry) : Prop :=
  Apart t entries ∧
  ∀ before e after, entries = before ++ e :: after →
    (fetches sink t before.reverse e = true ∨ t e.usbPath = some (.file (serve e.usbPath))) ∧
    ∀ between d rest, after = between ++ d :: rest →
      fetches sink t (before ++ e :: between).reverse d = true → tmpOf d.usbPath ≠ e.usbPath

end Condition

@[simp] theorem applyAll_nil (t : Target) : applyAll t [] = t := rfl

@[simp] theorem applyAll_cons (t : Target) (x : Effect) (xs : List Effect) :
    applyAll t (x :: xs) = applyAll (x.apply t) xs := rfl

@[simp] theorem applyAll_append (t : Target) (xs ys : List Effect) :
    applyAll t (xs ++ ys) = applyAll (applyAll t xs) ys :=
  List.foldl_append

theorem applyAll_mkdirs (t : Target) (dirs : List String) (p : String) :
    applyAll t ((dirs.map FsOp.mkdir).map Effect.fs) p =
      if t p = none ∧ p ∈ dirs then some .dir else t p := by
  induction dirs generalizing t with
  | nil => simp
  | cons d dirs ih =>
    simp only [List.map_cons, applyAll_cons, ih, Effect.apply, FsOp.apply, List.mem_cons]
    by_cases absent : t p = none
    · by_cases same : p = d
      · subst same
        simp [absent]
      · simp [absent, same]
    · simp [absent]

/-- The directories of an entry are made. -/
def withDirs (t : Target) (e : ManifestEntry) : Target := fun p =>
  if t p = none ∧ p ∈ parentDirs e then some .dir else t p

/-- The served bytes moved to the entry's path. -/
def delivered (t : Target) (serve : String → Bytes) (e : ManifestEntry) : Target := fun p =>
  if p = e.usbPath then some (.file (serve e.usbPath))
  else if p = tmpOf e.usbPath then none else t p

theorem ensureDir_spec {t : Target} {e : ManifestEntry} {fails : Option Nat} {ops : List FsOp}
    (made : FsSink.ensureDir t (parentOf e.usbPath) fails = (ops, true)) :
    applyAll t (ops.map Effect.fs) = withDirs t e ∧
      ∀ d ∈ parentDirs e, withDirs t e d = some .dir := by
  simp only [FsSink.ensureDir] at made
  split at made
  · exact absurd (Prod.mk.inj made).2 (by decide)
  · rename_i open_
    cases fails with
    | some n => exact absurd (Prod.mk.inj made).2 (by decide)
    | none =>
      rw [← (Prod.mk.inj made).1]
      constructor
      · funext p
        rw [applyAll_mkdirs, withDirs]
        have missing : (t p = none ∧ p ∈ (createDirAllDirs (parentOf e.usbPath)).filter
            (fun d => decide (t d = none))) ↔ t p = none ∧ p ∈ parentDirs e := by
          rw [List.mem_filter, decide_eq_true_eq]
          constructor
          · rintro ⟨absent, inside, _⟩
            exact ⟨absent, inside⟩
          · rintro ⟨absent, inside⟩
            exact ⟨absent, inside, absent⟩
        simp only [missing]
      · intro d hd
        by_cases absent : t d = none
        · exact if_pos ⟨absent, hd⟩
        · have dir : t d = some .dir := by
            by_contra other
            exact open_ (List.any_eq_true.mpr ⟨d, hd, by simp [absent, other]⟩)
          simp [withDirs, dir]

/-- A body without errors arrives in the temporary file. -/
theorem receive_spec {usbPath : String} {body : List Recv} {hasher : ContentHasher}
    {effects : List Effect} {done : Option ContentHasher}
    (received : receive usbPath body hasher = (effects, done))
    (silent : ∀ path text, Effect.report (.error path text) ∉ effects) :
    (∃ h, done = some h) ∧ (∀ text, Recv.networkError text ∉ body) ∧
      ∀ t acc, t (tmpOf usbPath) = some (.file acc) → ∀ p, applyAll t effects p =
        if p = tmpOf usbPath then some (.file (acc ++ bodyBytes body)) else t p := by
  induction body generalizing hasher effects with
  | nil =>
    cases received
    refine ⟨⟨hasher, rfl⟩, by simp, ?_⟩
    intro t acc held p
    by_cases same : p = tmpOf usbPath
    · simp [bodyBytes, same, held]
    · simp [same]
  | cons r body ih =>
    cases r with
    | networkError text =>
      cases received
      exact absurd (List.mem_singleton.mpr rfl) (silent usbPath _)
    | chunk bytes written =>
      cases written with
      | false =>
        cases received
        exact absurd (List.mem_singleton.mpr rfl) (silent usbPath _)
      | true =>
        obtain ⟨later, rest, rfl⟩ := receive_chunk received
        obtain ⟨ends, sound, arrives⟩ := ih rest (fun path text reported =>
          silent path text (List.mem_cons_of_mem _ (List.mem_cons_of_mem _ reported)))
        refine ⟨ends, by simpa using sound, ?_⟩
        intro t acc held p
        have step := arrives (FsOp.apply t (.append (tmpOf usbPath) bytes)) (acc ++ bytes)
          (by simp [FsOp.apply, held]) p
        simp only [applyAll_cons, Effect.apply, step, bodyBytes, ← List.append_assoc]
        by_cases same : p = tmpOf usbPath
        · simp [same]
        · simp [same, FsOp.apply, held]

section
variable {xxh3_64 : Bytes → UInt64} {sink : FsSink}

/-- A commit that reports no error is the rename. -/
theorem commit_spec {t : Target} {usbPath : String} {w : World}
    (silent : ∀ path text, Effect.report (.error path text) ∉ commit t usbPath w) :
    t usbPath ≠ some .dir ∧ commit t usbPath w =
      [.fs (.rename (tmpOf usbPath) usbPath), .report (.fileDone usbPath)] := by
  simp only [commit] at silent ⊢
  cases result : w.committed with
  | flushError =>
    rw [result] at silent
    exact absurd (List.mem_singleton.mpr rfl) (silent usbPath _)
  | fsyncError =>
    rw [result] at silent
    exact absurd (List.mem_singleton.mpr rfl) (silent usbPath _)
  | renameError =>
    rw [result] at silent
    exact absurd (List.mem_singleton.mpr rfl) (silent usbPath _)
  | ok =>
    rw [result] at silent
    dsimp only at silent ⊢
    split at silent
    · exact absurd (List.mem_singleton.mpr rfl) (silent usbPath _)
    · rename_i target
      exact ⟨target, if_neg target⟩

/-- From an empty temporary file on, writing without an error puts the served bytes at their
path and takes the temporary name away. -/
theorem writeFile_spec {t : Target} {e : ManifestEntry} {w : World} {serve : String → Bytes}
    (served : (∀ text, Recv.networkError text ∉ w.body) → bodyBytes w.body = serve e.usbPath)
    (silent : ∀ path text, Effect.report (.error path text) ∉ writeFile xxh3_64 t e w) :
    t e.usbPath ≠ some .dir ∧ ∀ opened : Target, opened (tmpOf e.usbPath) = some (.file []) →
      applyAll opened (writeFile xxh3_64 t e w) = delivered opened serve e := by
  simp only [writeFile] at silent ⊢
  cases received : receive e.usbPath w.body ContentHasher.new with
  | mk effects done =>
    rw [received] at silent
    have quiet : ∀ path text, Effect.report (.error path text) ∉ effects := by
      intro path text reported
      apply silent path text
      cases done with
      | none => exact List.mem_append_left _ reported
      | some hasher =>
        dsimp only
        split
        · exact List.mem_append_left _ reported
        · exact List.mem_append_left _ reported
    obtain ⟨⟨hasher, rfl⟩, sound, arrives⟩ := receive_spec received quiet
    dsimp only at silent ⊢
    split at silent
    · rename_i checked
      rw [if_pos checked]
      obtain ⟨target, renamed⟩ := commit_spec (fun path text reported =>
        silent path text (List.mem_append_right _ reported))
      refine ⟨target, ?_⟩
      intro opened empty
      funext p
      have contents := arrives opened [] empty
      simp only [renamed, applyAll_append, applyAll_cons, applyAll_nil, Effect.apply, FsOp.apply,
        delivered]
      rw [contents, contents, if_pos rfl, List.nil_append, served sound]
      by_cases tmp : p = tmpOf e.usbPath
      · simp [tmp]
      · simp [tmp]
    · exact absurd (List.mem_append_right _ List.mem_cons_self) (silent e.usbPath _)

/-- A download that reports no error delivers the served bytes. -/
theorem download_spec {t : Target} {e : ManifestEntry} {w : World} {serve : String → Bytes}
    (served : (∀ text, Recv.networkError text ∉ w.body) → bodyBytes w.body = serve e.usbPath)
    (silent : ∀ path text,
      Effect.report (.error path text) ∉ download xxh3_64 sink t e w) :
    t e.usbPath ≠ some .dir ∧ t (tmpOf e.usbPath) ≠ some .dir ∧
      applyAll t (download xxh3_64 sink t e w) = delivered t serve e := by
  simp only [download] at silent ⊢
  split at silent
  · exact absurd (List.mem_singleton.mpr rfl) (silent e.usbPath _)
  · rename_i answered
    split at silent
    · exact absurd (List.mem_singleton.mpr rfl) (silent e.usbPath _)
    · rename_i created
      rw [if_neg answered, if_neg created]
      have free : t (tmpOf e.usbPath) ≠ some .dir := fun dir => created (Or.inl dir)
      obtain ⟨target, written⟩ := writeFile_spec served (fun path text reported =>
        silent path text (List.mem_cons_of_mem _ reported))
      refine ⟨target, free, ?_⟩
      rw [applyAll_cons, written _ (by simp [Effect.apply, FsOp.apply])]
      -- the delivered target does not depend on the temporary file that was there
      funext p
      simp only [delivered, Effect.apply, FsOp.apply]
      split
      · rfl
      · split
        · rfl
        · rfl

/-- An entry handled without an error was skipped for its size, or delivered. -/
theorem reconcileEntry_spec {t : Target} {e : ManifestEntry} {w : World}
    {serve : String → Bytes} {effects : List Effect}
    (handled : reconcileEntry xxh3_64 sink t e w = (effects, .ok ()))
    (silent : ∀ path text, Effect.report (.error path text) ∉ effects)
    (served : (∀ text, Recv.networkError text ∉ w.body) → bodyBytes w.body = serve e.usbPath) :
    (∀ d ∈ parentDirs e, withDirs t e d = some .dir) ∧
      ((sameSize sink (withDirs t e) e = true ∧ applyAll t effects = withDirs t e) ∨
        (sameSize sink (withDirs t e) e = false ∧ withDirs t e e.usbPath ≠ some .dir ∧
          withDirs t e (tmpOf e.usbPath) ≠ some .dir ∧
          applyAll t effects = delivered (withDirs t e) serve e)) := by
  cases ensured : FsSink.ensureDir t (parentOf e.usbPath) w.mkdirFails with
  | mk ops made =>
    simp only [reconcileEntry, ensured] at handled
    cases made with
    | false => simp at handled
    | true =>
      obtain ⟨after, dirs⟩ := ensureDir_spec ensured
      rw [after] at handled
      refine ⟨dirs, ?_⟩
      simp only [not_true_eq_false, if_false] at handled
      split at handled
      · cases handled
      · split at handled
        · rename_i skip
          cases handled
          refine Or.inl ⟨decide_eq_true skip, ?_⟩
          rw [applyAll_append, after]
          rfl
        · rename_i other
          split at handled
          · cases handled
          · cases handled
            have quiet : ∀ path text, Effect.report (.error path text) ∉
                download xxh3_64 sink (withDirs t e) e w := by
              intro path text reported
              exact silent path text (List.mem_append_right _ (List.mem_cons_of_mem _ reported))
            obtain ⟨dest, tmp, result⟩ := download_spec served quiet
            refine Or.inr ⟨decide_eq_false other, dest, tmp, ?_⟩
            rw [applyAll_append, after]
            exact result

end

section
variable (sink : FsSink) (serve : String → Bytes)

/-- What an entry handled without an error does. -/
def handle (t : Target) (e : ManifestEntry) : Target :=
  if sameSize sink (withDirs t e) e then withDirs t e else delivered (withDirs t e) serve e

def handleAll (t : Target) (entries : List ManifestEntry) : Target :=
  entries.foldl (handle sink serve) t

theorem handleAll_snoc (t : Target) (entries : List ManifestEntry) (e : ManifestEntry) :
    handleAll sink serve t (entries ++ [e]) =
      handle sink serve (handleAll sink serve t entries) e := by
  rw [handleAll, List.foldl_append]
  rfl

/-- No entry meets a file where it needs a directory, or a directory where it needs a file. -/
def Smooth (t : Target) : List ManifestEntry → Prop
  | [] => True
  | e :: rest => (∀ d ∈ parentDirs e, withDirs t e d = some .dir) ∧
      (sameSize sink (withDirs t e) e = false →
        withDirs t e e.usbPath ≠ some .dir ∧ withDirs t e (tmpOf e.usbPath) ≠ some .dir) ∧
      Smooth (handle sink serve t e) rest

theorem reconcileEntries_spec (xxh3_64 : Bytes → UInt64) {t : Target}
    {run : List (ManifestEntry × World)} {effects : List Effect}
    (handled : reconcileEntries xxh3_64 sink t run = (effects, .ok ()))
    (silent : ∀ path text, Effect.report (.error path text) ∉ effects)
    (serves : Serves serve run) :
    Smooth sink serve t (run.map Prod.fst) ∧
      applyAll t effects = handleAll sink serve t (run.map Prod.fst) := by
  induction run generalizing t effects with
  | nil =>
    cases handled
    exact ⟨trivial, rfl⟩
  | cons ew run ih =>
    obtain ⟨e, w⟩ := ew
    cases entry : reconcileEntry xxh3_64 sink t e w with
    | mk first result =>
      rw [reconcileEntries_cons, entry] at handled
      cases result with
      | error err => cases handled
      | ok u =>
        cases rest : reconcileEntries xxh3_64 sink (applyAll t first) run with
        | mk later result =>
          simp only [rest] at handled
          cases handled
          have here := reconcileEntry_spec entry
            (fun path text reported => silent path text (List.mem_append_left _ reported))
            (serves (e, w) List.mem_cons_self).2
          have step : applyAll t first = handle sink serve t e := by
            rcases here.2 with ⟨skip, same⟩ | ⟨fetch, _, _, same⟩
            · rw [same, handle, if_pos skip]
            · rw [same, handle, if_neg (by simp [fetch])]
          obtain ⟨smooth, result⟩ := ih rest
            (fun path text reported => silent path text (List.mem_append_right _ reported))
            (fun ew hew => serves ew (List.mem_cons_of_mem _ hew))
          rw [step] at smooth result
          refine ⟨⟨here.1, ?_, smooth⟩, ?_⟩
          · intro fetch
            rcases here.2 with ⟨skip, _⟩ | ⟨_, dest, tmp, _⟩
            · rw [skip] at fetch
              cases fetch
            · exact ⟨dest, tmp⟩
          · rw [applyAll_append, step]
            exact result

variable {sink serve}

/-- Directories stay, and every entry leaves its own behind. -/
theorem dir_of_smooth {t : Target} {entries : List ManifestEntry} {p : String}
    (smooth : Smooth sink serve t entries)
    (dir : t p = some .dir ∨ ∃ d ∈ entries, p ∈ parentDirs d) :
    handleAll sink serve t entries p = some .dir := by
  induction entries generalizing t with
  | nil =>
    rcases dir with dir | ⟨d, hd, _⟩
    · exact dir
    · cases hd
  | cons e entries ih =>
    obtain ⟨dirs, free, smooth⟩ := smooth
    have stays : withDirs t e p = some .dir → handle sink serve t e p = some .dir := by
      intro made
      rw [handle]
      split
      · exact made
      · rename_i other
        obtain ⟨dest, tmp⟩ := free (by simpa using other)
        have notDest : p ≠ e.usbPath := fun same => dest (same ▸ made)
        have notTmp : p ≠ tmpOf e.usbPath := fun same => tmp (same ▸ made)
        rw [delivered, if_neg notDest, if_neg notTmp]
        exact made
    rw [handleAll, List.foldl_cons, ← handleAll]
    rcases dir with dir | ⟨d, hd, inside⟩
    · exact ih smooth (Or.inl (stays (by simp [withDirs, dir])))
    · rcases List.mem_cons.mp hd with rfl | hd
      · exact ih smooth (Or.inl (stays (dirs p inside)))
      · exact ih smooth (Or.inr ⟨d, hd, inside⟩)

theorem sameSize_congr {t t' : Target} {e : ManifestEntry} (same : t e.usbPath = t' e.usbPath) :
    sameSize sink t e = sameSize sink t' e := by
  rw [sameSize, sameSize, FsSink.fileLen, FsSink.fileLen, same]

theorem sameSize_absent {t : Target} {e : ManifestEntry} (absent : t e.usbPath = none) :
    sameSize sink t e = false := by
  rw [sameSize, FsSink.fileLen, absent]
  exact decide_eq_false (fun h => nomatch h)

/-- Away from directories an entry only puts its file and takes its temporary name. -/
theorem handle_apply {t : Target} {e : ManifestEntry} {p : String} (own : e.usbPath ∉ parentDirs e)
    (other : p ∉ parentDirs e) :
    handle sink serve t e p =
      if sameSize sink t e then t p
      else if p = e.usbPath then some (.file (serve e.usbPath))
      else if p = tmpOf e.usbPath then none else t p := by
  have same : ∀ {q}, q ∉ parentDirs e → withDirs t e q = t q := by
    intro q outside
    exact if_neg (fun both => outside both.2)
  have size : sameSize sink (withDirs t e) e = sameSize sink t e := sameSize_congr (same own)
  rw [handle, size]
  split
  · exact same other
  · rw [delivered, same other]

variable {t : Target} {entries : List ManifestEntry}

/-- What the skip check sees when an entry's turn comes. -/
theorem sameSize_of_held {t' : Target} {before : List ManifestEntry} {e : ManifestEntry}
    (held : t' e.usbPath = if cleared sink t before e.usbPath then none else t e.usbPath) :
    sameSize sink t' e = !fetches sink t before e := by
  rw [fetches]
  cases gone : cleared sink t before e.usbPath with
  | true =>
    rw [gone, if_pos rfl] at held
    rw [sameSize_absent held, Bool.or_true]
    rfl
  | false =>
    rw [gone, if_neg Bool.false_ne_true] at held
    rw [sameSize_congr held, Bool.or_false, Bool.not_not]

section
variable (sink serve) (apart : Apart t entries)
  (distinct : (entries.map ManifestEntry.usbPath).Nodup)
include apart distinct

/-- A path that no entry so far is stored at holds what it held, unless it was cleared. -/
theorem held_before {before after : List ManifestEntry} (split : entries = before ++ after)
    {p : String} (other : p ∉ before.map ManifestEntry.usbPath)
    (outside : ∀ d ∈ entries, p ∉ parentDirs d) :
    handleAll sink serve t before p =
      if cleared sink t before.reverse p then none else t p := by
  induction before using List.reverseRecOn generalizing after p with
  | nil => rfl
  | append_singleton before d ih =>
    have here : d ∈ entries := by rw [split]; simp
    have cut : entries = before ++ d :: after := by rw [split, List.append_assoc]; rfl
    have fresh : d.usbPath ∉ before.map ManifestEntry.usbPath := by
      rw [cut, List.map_append, List.nodup_append] at distinct
      intro repeated
      exact distinct.2.2 d.usbPath repeated d.usbPath (by simp) rfl
    rw [List.map_append, List.mem_append, not_or] at other
    have size := sameSize_of_held (ih cut fresh (apart d here).2)
    have notDest : p ≠ d.usbPath := fun same => other.2 (by simp [same])
    rw [handleAll_snoc, handle_apply ((apart d here).2 d here) (outside d here), size,
      ih cut other.1 outside, if_neg notDest, List.reverse_append, List.reverse_singleton,
      List.singleton_append, cleared, ← fetches]
    cases fetches sink t before.reverse d with
    | true =>
      by_cases tmp : p = tmpOf d.usbPath
      · simp [tmp]
      · simp [tmp, Ne.symm tmp]
    | false => simp

/-- A stored path keeps its content to the end, unless a later entry takes it as its
temporary name. -/
theorem held_after {before after rest : List ManifestEntry} {e : ManifestEntry}
    (split : entries = before ++ e :: after ++ rest) :
    (handleAll sink serve t (before ++ e :: after) e.usbPath =
        handleAll sink serve t (before ++ [e]) e.usbPath ∧
      ∀ between d later, after = between ++ d :: later →
        fetches sink t (before ++ e :: between).reverse d = true → tmpOf d.usbPath ≠ e.usbPath) ∨
    (handleAll sink serve t (before ++ e :: after) e.usbPath = none ∧
      ∃ between d later, after = between ++ d :: later ∧
        fetches sink t (before ++ e :: between).reverse d = true ∧
          tmpOf d.usbPath = e.usbPath) := by
  have inside : e ∈ entries := by rw [split]; simp
  induction after using List.reverseRecOn generalizing rest with
  | nil => exact Or.inl ⟨rfl, by simp⟩
  | append_singleton after d ih =>
    have cut : entries = before ++ e :: after ++ d :: rest := by rw [split]; simp
    have here : d ∈ entries := by rw [cut]; simp
    have fresh : d.usbPath ∉ (before ++ e :: after).map ManifestEntry.usbPath := by
      rw [cut, List.map_append, List.nodup_append] at distinct
      intro repeated
      exact distinct.2.2 d.usbPath repeated d.usbPath (by simp) rfl
    have size := sameSize_of_held (held_before sink serve apart distinct cut fresh (apart d here).2)
    have notDest : e.usbPath ≠ d.usbPath := fun same => fresh (by simp [same])
    have step := congrFun (handleAll_snoc sink serve t (before ++ e :: after) d) e.usbPath
    rw [handle_apply ((apart d here).2 d here) ((apart e inside).2 d here), size, if_neg notDest,
      List.append_assoc, List.cons_append] at step
    rcases ih cut with ⟨same, untouched⟩ | ⟨gone, between, c, later, rfl, taken⟩
    · by_cases takes : fetches sink t (before ++ e :: after).reverse d = true ∧
          e.usbPath = tmpOf d.usbPath
      · refine Or.inr ⟨?_, after, d, [], rfl, takes.1, takes.2.symm⟩
        rw [step, takes.1, if_pos takes.2]
        rfl
      · refine Or.inl ⟨?_, ?_⟩
        · rw [step, ← same]
          split
          · rfl
          · rename_i fetched
            rw [if_neg (fun tmp => takes ⟨by simpa using fetched, tmp⟩)]
        · intro between c later parts fetched tmp
          -- the last of the later entries is `d`, or among those the hypothesis covers
          rcases Runs.split_snoc parts with ⟨rfl, rfl, _⟩ | ⟨later, _, parts⟩
          · exact takes ⟨fetched, tmp.symm⟩
          · exact untouched between c later parts fetched tmp
    · refine Or.inr ⟨?_, between, c, later ++ [d], by simp, taken⟩
      rw [step, gone]
      split
      · rfl
      · split <;> rfl

/-- Where its turn comes, an entry's path holds the served bytes exactly if it is downloaded
or holds them already. -/
theorem stored_iff {before after : List ManifestEntry} {e : ManifestEntry}
    (split : entries = before ++ e :: after) :
    handleAll sink serve t (before ++ [e]) e.usbPath = some (.file (serve e.usbPath)) ↔
      fetches sink t before.reverse e = true ∨ t e.usbPath = some (.file (serve e.usbPath)) := by
  have inside : e ∈ entries := by rw [split]; simp
  have fresh : e.usbPath ∉ before.map ManifestEntry.usbPath := by
    rw [split, List.map_append, List.nodup_append] at distinct
    intro repeated
    exact distinct.2.2 e.usbPath repeated e.usbPath (by simp) rfl
  have held := held_before sink serve apart distinct split fresh (apart e inside).2
  rw [handleAll_snoc, handle_apply ((apart e inside).2 e inside) ((apart e inside).2 e inside),
    sameSize_of_held held, if_pos rfl, held]
  cases fetched : fetches sink t before.reverse e with
  | true => simp
  | false =>
    have kept : cleared sink t before.reverse e.usbPath = false :=
      (Bool.or_eq_false_iff.mp fetched).2
    simp [kept]

end

/-- A smooth run delivers exactly when nothing stale survives it. -/
theorem delivers_iff (smooth : Smooth sink serve t entries)
    (distinct : (entries.map ManifestEntry.usbPath).Nodup) :
    (∀ e ∈ entries, handleAll sink serve t entries e.usbPath = some (.file (serve e.usbPath))) ↔
      NothingStale sink t serve entries := by
  constructor
  · intro delivers
    have apart : Apart t entries := by
      intro e he
      constructor
      · intro dir
        have := delivers e he
        rw [dir_of_smooth smooth (Or.inl dir)] at this
        cases this
      · intro d hd above
        have := delivers e he
        rw [dir_of_smooth smooth (Or.inr ⟨d, hd, above⟩)] at this
        cases this
    refine ⟨apart, ?_⟩
    intro before e after split
    have final := delivers e (by rw [split]; simp)
    have whole : entries = before ++ e :: after ++ [] := by rw [List.append_nil]; exact split
    rcases held_after sink serve apart distinct whole with ⟨same, untouched⟩ | ⟨gone, _⟩
    · rw [split, same] at final
      exact ⟨(stored_iff sink serve apart distinct split).mp final, untouched⟩
    · rw [split, gone] at final
      cases final
  · rintro ⟨apart, fresh⟩ e he
    obtain ⟨before, after, split⟩ := List.append_of_mem he
    obtain ⟨stored, untouched⟩ := fresh before e after split
    have whole : entries = before ++ e :: after ++ [] := by rw [List.append_nil]; exact split
    rcases held_after sink serve apart distinct whole with
      ⟨same, _⟩ | ⟨_, between, d, later, parts, fetched, tmp⟩
    · rw [split, same]
      exact (stored_iff sink serve apart distinct split).mpr stored
    · exact absurd tmp (untouched between d later parts fetched)

end

theorem answered_entries (m : Manifest) (answers : Nat → World) :
    (m.answered answers).map Prod.fst = m.entries := by
  apply List.ext_getElem
  · simp [Manifest.answered]
  · intro i _ _
    simp [Manifest.answered]

/-- Whatever the target held: a run that reaches its end without an error leaves the served
bytes at every path of the manifest exactly when nothing stale survives. -/
theorem completed_export_delivers_iff (xxh3_64 : Bytes → UInt64) (sink : FsSink) (t : Target)
    (status : Status) (m : Manifest) (answers : Nat → World) (serve : String → Bytes)
    (distinct : (m.entries.map ManifestEntry.usbPath).Nodup)
    (serves : Serves serve (m.answered answers))
    (completed : Completed (reconcileExport xxh3_64 sink t (.response status (some m)) answers)) :
    (∀ e ∈ m.entries,
      applyAll t (reconcileExport xxh3_64 sink t (.response status (some m)) answers).1
        e.usbPath = some (.file (serve e.usbPath))) ↔
      NothingStale sink t serve m.entries := by
  obtain ⟨returned, silent⟩ := completed
  simp only [reconcileExport] at returned silent ⊢
  split at returned
  · cases returned
  · rename_i accepted
    rw [if_neg accepted] at silent ⊢
    cases loop : reconcileEntries xxh3_64 sink t (m.answered answers) with
    | mk effects result =>
      rw [loop] at returned silent
      cases result with
      | error err => cases returned
      | ok u =>
        have quiet : ∀ path text, Effect.report (.error path text) ∉ effects := by
          intro path text reported
          have := silent _ (List.mem_append_left _ (List.mem_cons_of_mem _ reported))
          cases this
        obtain ⟨smooth, final⟩ := reconcileEntries_spec sink serve xxh3_64 loop quiet serves
        rw [answered_entries] at smooth final
        have whole : applyAll t (Effect.report (.start m.entries.length
            (m.entries.map ManifestEntry.size).sum) :: effects ++
              [.deleteExport, .report .complete]) = handleAll sink serve t m.entries := by
          simp only [List.cons_append, applyAll_cons, applyAll_append, applyAll_nil, Effect.apply,
            final]
        dsimp only
        rw [whole]
        exact delivers_iff smooth distinct

/-- An answer to every request. -/
def answer (body : Bytes) : World where
  mkdirFails := none
  stat := true
  sent := true
  status := ⟨200, "200 OK"⟩
  opened := true
  body := [.chunk body true]
  removed := true
  committed := .ok

/-- A database and a track. -/
def twoFiles : Manifest where
  entries := [⟨"PIONEER/rekordbox/export.pdb", 3, .staging⟩, ⟨"Contents/a1.mp3", 2, .staging⟩]

def served : String → Bytes := fun path =>
  if path = "Contents/a1.mp3" then [1, 2] else [7, 8, 9]

def twoAnswers : Nat → World := fun i => answer (if i = 0 then [7, 8, 9] else [1, 2])

theorem twoFiles_served : Serves served (twoFiles.answered twoAnswers) := by
  intro ew hew
  rcases List.mem_cons.mp hew with rfl | hew
  · exact ⟨rfl, fun _ => rfl⟩
  · obtain rfl := List.mem_singleton.mp hew
    exact ⟨rfl, fun _ => rfl⟩

/-- A stick with the track but no database yet. -/
def noDatabase : Target := fun p =>
  if p = "Contents/a1.mp3" then some (.file [1, 2]) else if p = "Contents" then some .dir else none

theorem noDatabase_nothingStale :
    NothingStale ⟨"/media/usb", 4096⟩ noDatabase served twoFiles.entries :=
  (completed_export_delivers_iff (fun _ => 0) ⟨"/media/usb", 4096⟩ noDatabase
    ⟨200, "200 OK"⟩ twoFiles twoAnswers served (by decide) twoFiles_served
    (by decide +kernel)).mp (by decide +kernel)

/-- A stick with the database of an earlier export, of the same size. -/
def oldDatabase : Target := fun p =>
  if p = "PIONEER/rekordbox/export.pdb" then some (.file [4, 5, 6])
  else if p = "PIONEER/rekordbox" ∨ p = "PIONEER" then some .dir else none

/-- The export completes without an error and leaves the earlier database. -/
theorem oldDatabase_survives :
    (twoFiles.entries.map ManifestEntry.usbPath).Nodup ∧
    Serves served (twoFiles.answered twoAnswers) ∧
    Completed (reconcileExport (fun _ => 0) ⟨"/media/usb", 4096⟩ oldDatabase
      (.response ⟨200, "200 OK"⟩ (some twoFiles)) twoAnswers) ∧
    applyAll oldDatabase (reconcileExport (fun _ => 0) ⟨"/media/usb", 4096⟩ oldDatabase
      (.response ⟨200, "200 OK"⟩ (some twoFiles)) twoAnswers).1 "PIONEER/rekordbox/export.pdb" =
        some (.file [4, 5, 6]) ∧
    served "PIONEER/rekordbox/export.pdb" = [7, 8, 9] :=
  ⟨by decide, twoFiles_served, by decide +kernel, by decide +kernel, by decide⟩

end BVault.Transfer
