import BVault.Gateway.Ingest

/-!
# What a reported file stands for

A report says that a file was read to its end, that the store holds what was
read, and that the user has its hash. An upload breaks this when the writes of
the temporary file have not landed by the time the store takes it; an import
also when the download breaks off, and when the database does not take the row.
-/

namespace BVault.Gateway

open BVault.Hash BVault.Meta BVault.Store

section
variable (xxh3_64 : Bytes → UInt64) (raw : RawStore)

/-- What a report says of the file that was read. -/
def Stands (s : Stores) (user : Uuid) (stream : Stream) (r : IngestResult) : Prop :=
  stream.error = none ∧
    raw.holds s.files r.rawLocation = some stream.content ∧
    r.hash = hashHex (hashBytes xxh3_64 stream.content) ∧
    Has s.tables user r.hash

/-- The file of an upload is that of its last audio field. -/
def Upload.audio (u : Upload) : Option Field := u.fields.reverse.find? Field.isAudio

/-- A reported upload is what it says, and one with a broken file does nothing. -/
def UploadFaithful (s : Stores) (user : Uuid) (u : Upload) : Prop :=
  let out := ingestUpload xxh3_64 raw s user u
  (∀ r, out.2 = .ok r →
    ∃ field, u.audio = some field ∧ Stands xxh3_64 raw out.1 user field.stream r) ∧
  ((∃ field ∈ u.fields, field.isAudio = true ∧ field.stream.error ≠ none) →
    out.1 = s ∧ ∃ e, out.2 = .error e)

/-- When the turn of a file comes in an import: it is what its report says, if the import gets
to report at all, and a broken file does nothing. -/
def GdriveFaithful (s : Stores) (user : Uuid) (files : List GDriveFile) : Prop :=
  ∀ before file after, files = before ++ file :: after →
    ∀ s₁ earlier, ingestGdrive xxh3_64 raw s user before = (s₁, .ok earlier) →
      ∀ s₂ result, gdriveFile xxh3_64 raw s₁ user file = .ok (s₂, result) →
        ((∃ all, (ingestGdrive xxh3_64 raw s user files).2 = .ok all) →
          ∀ r, result = some r → Stands xxh3_64 raw s₂ user file.stream r) ∧
        (file.stream.error ≠ none → s₂ = s₁ ∧ result = none)

/-- The two paths of a file into the store. -/
inductive Ingestion where
  | upload (u : Upload)
  | gdrive (files : List GDriveFile)

def Faithful (s : Stores) (user : Uuid) : Ingestion → Prop
  | .upload u => UploadFaithful xxh3_64 raw s user u
  | .gdrive files => GdriveFaithful xxh3_64 raw s user files

end

/-- The machine takes every chunk of the file. -/
def TempFile.Takes (temp : TempFile) (stream : Stream) : Prop :=
  temp.created = true ∧ stream.chunks.length ≤ temp.writable

/-- A field that does not end the upload with an error. -/
def Field.Accepted (field : Field) : Prop :=
  field.isAudio = true → field.temp.Takes field.stream ∧ field.stream.error = none

/-- An upload that gets to its report. -/
def Upload.Accepted (u : Upload) : Prop :=
  (∀ field ∈ u.fields, field.Accepted) ∧ u.broken = none ∧ u.stored = true ∧ u.recorded = true

/-- A file of an import whose bytes are asked for and arrive, cleanly or not. -/
def GDriveFile.Fetched (file : GDriveFile) : Prop :=
  file.isAudio = true ∧ file.downloaded = true

/-- A file that does not end the import with an error. -/
def GDriveFile.GoesOn (file : GDriveFile) : Prop := file.Fetched → file.temp.Takes file.stream

/-- A file of an import that leaves its row in the database. -/
def GDriveFile.Recorded (file : GDriveFile) : Prop :=
  file.Fetched ∧ file.stored = true ∧ file.recorded = true

/-- The temporary file's writes have landed when an accepted upload hands it to the store. -/
def UploadLanded (u : Upload) : Prop :=
  u.Accepted → ∀ field, u.audio = some field → field.temp.landed = field.stream.content

section
variable (xxh3_64 : Bytes → UInt64)

/-- The hash that is computed for a file. -/
def hashOf (stream : Stream) : String := hashHex (hashBytes xxh3_64 stream.content)

/-- Every file of an import that goes to the store ended cleanly; and if no file ends the
import, its writes have landed and the database takes its row, or has one from before or from
an earlier file. -/
def GdriveLanded (s : Stores) (user : Uuid) (files : List GDriveFile) : Prop :=
  ∀ before file after, files = before ++ file :: after →
    (∀ other ∈ before, other.GoesOn) → file.Fetched → file.GoesOn → file.stored = true →
      file.stream.error = none ∧
      ((∀ other ∈ files, other.GoesOn) →
        file.temp.landed = file.stream.content ∧
        (file.recorded = true ∨ Has s.tables user (hashOf xxh3_64 file.stream) ∨
          ∃ other ∈ before, other.Recorded ∧
            hashOf xxh3_64 other.stream = hashOf xxh3_64 file.stream))

def Landed (s : Stores) (user : Uuid) : Ingestion → Prop
  | .upload u => UploadLanded u
  | .gdrive files => GdriveLanded xxh3_64 s user files

end

theorem readUpload_ok {chunks : List Bytes} {error : Option String} {writable : Nat}
    {hasher hasher' : ContentHasher} :
    readUpload chunks error writable hasher = .ok hasher' ↔
      error = none ∧ chunks.length ≤ writable ∧
        hasher' = chunks.foldl ContentHasher.update hasher := by
  induction chunks generalizing writable hasher with
  | nil => cases error <;> simp [readUpload, eq_comm]
  | cons chunk chunks ih =>
    cases writable with
    | zero => simp [readUpload]
    | succ writable =>
      rw [readUpload, ih]
      simp

theorem readGdrive_ok {chunks : List Bytes} {writable : Nat} {hasher hasher' : ContentHasher} :
    readGdrive chunks writable hasher = .ok hasher' ↔
      chunks.length ≤ writable ∧ hasher' = chunks.foldl ContentHasher.update hasher := by
  induction chunks generalizing writable hasher with
  | nil => simp [readGdrive, eq_comm]
  | cons chunk chunks ih =>
    cases writable with
    | zero => simp [readGdrive]
    | succ writable =>
      rw [readGdrive, ih]
      simp

theorem readGdrive_full {chunks : List Bytes} {writable : Nat}
    (full : writable < chunks.length) (hasher : ContentHasher) :
    readGdrive chunks writable hasher = .error .internal := by
  induction chunks generalizing writable hasher with
  | nil => exact absurd full (Nat.not_lt_zero _)
  | cons chunk chunks ih =>
    cases writable with
    | zero => rfl
    | succ writable => exact ih (Nat.lt_of_succ_lt_succ full) (hasher.update chunk)

section
variable (xxh3_64 : Bytes → UInt64) (raw : RawStore)

/-- The variables after an accepted field. -/
def Form.read (form : Form) (field : Field) : Form :=
  if field.isAudio then
    { form with
      fileName := field.fileName
      filePath := some field.temp
      finalHash := some (hashOf xxh3_64 field.stream) }
  else if field.name.getD "" = "title" then
    { form with titleOverride := field.text.or form.titleOverride }
  else if field.name.getD "" = "artist" then
    { form with artistOverride := field.text.or form.artistOverride }
  else form

theorem readField_ok {form form' : Form} {field : Field} :
    readField xxh3_64 form field = .ok form' ↔
      field.Accepted ∧ form' = form.read xxh3_64 field := by
  unfold readField Form.read Field.Accepted TempFile.Takes
  by_cases audio : field.isAudio = true
  · by_cases created : field.temp.created = true
    · have hashed := ContentHasher.finalize_updates xxh3_64 field.stream.chunks
      simp only [audio, created, if_true, true_and, forall_const, Loops.bind_ok_iff, readUpload_ok]
      constructor
      · rintro ⟨hasher, ⟨clean, within, rfl⟩, is⟩
        rw [hashed] at is
        exact ⟨⟨within, clean⟩, (Except.ok.inj is).symm⟩
      · rintro ⟨⟨within, clean⟩, rfl⟩
        refine ⟨_, ⟨clean, within, rfl⟩, ?_⟩
        rw [hashed]
        rfl
    · simp [audio, created]
  · simp only [audio, Bool.false_eq_true, if_false, false_implies, true_and]
    split
    · simp [eq_comm]
    · split <;> simp [eq_comm]

theorem readFields_ok {fields : List Field} {broken : Option String} {form form' : Form} :
    readFields xxh3_64 fields broken form = .ok form' ↔
      (∀ field ∈ fields, field.Accepted) ∧ broken = none ∧
        form' = fields.foldl (Form.read xxh3_64) form := by
  induction fields generalizing form with
  | nil => cases broken <;> simp [readFields, eq_comm]
  | cons field fields ih =>
    simp only [readFields, Loops.bind_ok_iff, readField_ok, ih, List.forall_mem_cons,
      List.foldl_cons]
    constructor
    · rintro ⟨_, ⟨accepted, rfl⟩, rest, whole, is⟩
      exact ⟨⟨accepted, rest⟩, whole, is⟩
    · rintro ⟨⟨accepted, rest⟩, whole, is⟩
      exact ⟨_, ⟨accepted, rfl⟩, rest, whole, is⟩

/-- The file, its name and the hash that are left over are those of the last audio field. -/
theorem read_last (fields : List Field) :
    (fields.foldl (Form.read xxh3_64) .new).filePath =
        (fields.reverse.find? Field.isAudio).map Field.temp ∧
      (fields.foldl (Form.read xxh3_64) .new).fileName =
        (fields.reverse.find? Field.isAudio).bind Field.fileName ∧
      (fields.foldl (Form.read xxh3_64) .new).finalHash =
        (fields.reverse.find? Field.isAudio).map (fun field => hashOf xxh3_64 field.stream) := by
  induction fields using List.reverseRecOn with
  | nil => exact ⟨rfl, rfl, rfl⟩
  | append_singleton fields field ih =>
    rw [List.foldl_append, List.foldl_cons, List.foldl_nil, List.reverse_append]
    by_cases audio : field.isAudio = true
    · simp [Form.read, audio]
    · simp only [Form.read, audio, List.reverse_singleton, List.singleton_append,
        List.find?_cons_of_neg, Bool.false_eq_true, if_false, not_false_eq_true]
      split
      · exact ih
      · split
        · exact ih
        · exact ih

/-- What is reported from the store on: the bytes that landed, and the hash that was given. -/
theorem storeUpload_ok {s : Stores} {user : Uuid} {u : Upload} {form : Form} {temp : TempFile}
    {hash : String} {r : IngestResult}
    (reported : (storeUpload raw s user u form temp hash).2 = .ok r) :
    u.stored = true ∧ u.recorded = true ∧ r.hash = hash ∧
      raw.holds (storeUpload raw s user u form temp hash).1.files r.rawLocation =
        some temp.landed ∧
      Has (storeUpload raw s user u form temp hash).1.tables user hash := by
  unfold storeUpload at reported ⊢
  by_cases stored : u.stored = true
  · by_cases recorded : u.recorded = true
    · simp only [stored, recorded, if_true, true_and] at reported ⊢
      obtain rfl := Except.ok.inj reported
      refine ⟨rfl, raw.holds_storeFromTemp s.files temp.landed hash _, ?_⟩
      exact (has_upsertTrack _ _ _ _ _ _ _ _ _).mpr (Or.inr ⟨rfl, rfl⟩)
    · simp [stored, recorded] at reported
  · simp [stored] at reported

theorem storeUpload_reports (s : Stores) (user : Uuid) {u : Upload} (form : Form)
    (temp : TempFile) (hash : String) (stored : u.stored = true) (recorded : u.recorded = true) :
    ∃ r, (storeUpload raw s user u form temp hash).2 = .ok r := by
  unfold storeUpload
  simp [stored, recorded]

/-- Once the form is read, the upload is what happens from the store on. -/
theorem ingestUpload_read (s : Stores) (user : Uuid) {u : Upload}
    (fields : ∀ field ∈ u.fields, field.Accepted) (whole : u.broken = none) {field : Field}
    (last : u.audio = some field) :
    ∃ form, form.fileName = field.fileName ∧ ingestUpload xxh3_64 raw s user u =
      storeUpload raw s user u form field.temp (hashOf xxh3_64 field.stream) := by
  have ran : readFields xxh3_64 u.fields u.broken .new =
      .ok (u.fields.foldl (Form.read xxh3_64) .new) :=
    (readFields_ok xxh3_64).mpr ⟨fields, whole, rfl⟩
  obtain ⟨path, name, hash⟩ := read_last xxh3_64 u.fields
  rw [show u.fields.reverse.find? Field.isAudio = some field from last] at path name hash
  simp only [Option.map_some] at path hash
  refine ⟨u.fields.foldl (Form.read xxh3_64) .new, name, ?_⟩
  unfold ingestUpload
  simp only [ran, path, hash]

/-- A reported upload read its form, and found an audio field. -/
theorem read_of_reported {s : Stores} {user : Uuid} {u : Upload} {r : IngestResult}
    (reported : (ingestUpload xxh3_64 raw s user u).2 = .ok r) :
    (∀ field ∈ u.fields, field.Accepted) ∧ u.broken = none ∧ ∃ field, u.audio = some field := by
  unfold ingestUpload at reported
  cases ran : readFields xxh3_64 u.fields u.broken .new with
  | error e =>
    simp only [ran] at reported
    cases reported
  | ok form =>
    obtain ⟨fields, whole, rfl⟩ := (readFields_ok xxh3_64).mp ran
    refine ⟨fields, whole, ?_⟩
    cases last : u.audio with
    | some field => exact ⟨field, rfl⟩
    | none =>
      obtain ⟨path, _, _⟩ := read_last xxh3_64 u.fields
      rw [show u.fields.reverse.find? Field.isAudio = none from last] at path
      simp only [ran, path, Option.map_none] at reported
      cases reported

/-- An upload with a broken file stops at its loop. -/
theorem broken_upload (s : Stores) (user : Uuid) {u : Upload}
    (broken : ∃ field ∈ u.fields, field.isAudio = true ∧ field.stream.error ≠ none) :
    (ingestUpload xxh3_64 raw s user u).1 = s ∧
      ∃ e, (ingestUpload xxh3_64 raw s user u).2 = .error e := by
  obtain ⟨field, mem, audio, error⟩ := broken
  unfold ingestUpload
  cases ran : readFields xxh3_64 u.fields u.broken .new with
  | error e => exact ⟨rfl, e, rfl⟩
  | ok form =>
    obtain ⟨fields, _, _⟩ := (readFields_ok xxh3_64).mp ran
    exact absurd (fields field mem audio).2 error

theorem upload_faithful_iff (s : Stores) (user : Uuid) (u : Upload) :
    UploadFaithful xxh3_64 raw s user u ↔ UploadLanded u := by
  constructor
  · rintro ⟨reports, _⟩ ⟨fields, whole, stored, recorded⟩ field last
    obtain ⟨form, _, out⟩ := ingestUpload_read xxh3_64 raw s user fields whole last
    obtain ⟨r, reported⟩ := storeUpload_reports raw s user form field.temp
      (hashOf xxh3_64 field.stream) stored recorded
    rw [← out] at reported
    obtain ⟨field', last', _, holds, _⟩ := reports r reported
    obtain rfl : field = field' := Option.some.inj (last.symm.trans last')
    rw [out] at reported holds
    obtain ⟨_, _, _, landed, _⟩ := storeUpload_ok raw reported
    exact Option.some.inj (landed.symm.trans holds)
  · intro landed
    refine ⟨?_, broken_upload xxh3_64 raw s user⟩
    intro r reported
    obtain ⟨fields, whole, field, last⟩ := read_of_reported xxh3_64 raw reported
    obtain ⟨form, _, out⟩ := ingestUpload_read xxh3_64 raw s user fields whole last
    rw [out] at reported ⊢
    obtain ⟨stored, recorded, hash, holds, has⟩ := storeUpload_ok raw reported
    have mem : field ∈ u.fields := List.mem_reverse.mp (List.mem_of_find?_eq_some last)
    have audio : field.isAudio = true := List.find?_some last
    refine ⟨field, last, (fields field mem audio).2, ?_, hash, ?_⟩
    · rw [holds, landed ⟨fields, whole, stored, recorded⟩ field last]
    · rw [hash]
      exact has

/-- A file of an import ends it, or is passed over, or is handed to the store. -/
theorem gdriveFile_cases (s : Stores) (user : Uuid) (file : GDriveFile) :
    (¬ file.GoesOn ∧ gdriveFile xxh3_64 raw s user file = .error .internal) ∨
    (file.GoesOn ∧ ¬ file.Fetched ∧ gdriveFile xxh3_64 raw s user file = .ok (s, none)) ∨
    (file.GoesOn ∧ file.Fetched ∧ gdriveFile xxh3_64 raw s user file =
      .ok (storeGdrive raw s user file (hashOf xxh3_64 file.stream))) := by
  unfold gdriveFile
  by_cases fetched : file.Fetched
  · have asked : ¬ (¬ file.isAudio = true ∨ ¬ file.downloaded = true) := by
      rintro (not | not)
      · exact not fetched.1
      · exact not fetched.2
    rw [if_neg asked]
    by_cases takes : file.temp.Takes file.stream
    · refine Or.inr (Or.inr ⟨fun _ => takes, fetched, ?_⟩)
      rw [if_neg (not_not.mpr takes.1), readGdrive_ok.mpr ⟨takes.2, rfl⟩, hashOf, Stream.content,
        ← ContentHasher.finalize_updates]
      rfl
    · refine Or.inl ⟨fun goesOn => takes (goesOn fetched), ?_⟩
      split
      · rfl
      · rename_i created
        have full : file.temp.writable < file.stream.chunks.length := by
          by_contra room
          exact takes ⟨not_not.mp created, by omega⟩
        rw [readGdrive_full full]
        rfl
  · refine Or.inr (Or.inl ⟨fun goes => absurd goes fetched, fetched, if_pos ?_⟩)
    by_contra neither
    exact fetched ⟨not_not.mp (fun not => neither (Or.inl not)),
      not_not.mp (fun not => neither (Or.inr not))⟩

/-- An import gets through the files that all go on, and through no others. -/
theorem gdriveFiles_ok_iff (user : Uuid) (s : Stores) (imported : List IngestResult)
    (files : List GDriveFile) :
    (∃ all, (gdriveFiles xxh3_64 raw user s imported files).2 = .ok all) ↔
      ∀ file ∈ files, file.GoesOn := by
  induction files generalizing s imported with
  | nil => simp [gdriveFiles]
  | cons file files ih =>
    rw [gdriveFiles, List.forall_mem_cons]
    rcases gdriveFile_cases xxh3_64 raw s user file with
      ⟨ends, out⟩ | ⟨goesOn, _, out⟩ | ⟨goesOn, _, out⟩
    · simp [out, ends]
    · simp only [out, goesOn, true_and]
      exact ih s _
    · simp only [out, goesOn, true_and]
      exact ih _ _

/-- From the store on, the bytes that landed are reported under the given hash. -/
theorem storeGdrive_cases (s : Stores) (user : Uuid) (file : GDriveFile) (hash : String) :
    (file.stored = false ∧ storeGdrive raw s user file hash = (s, none)) ∨
    (file.stored = true ∧ ∃ s' r, storeGdrive raw s user file hash = (s', some r) ∧
      r.hash = hash ∧ raw.holds s'.files r.rawLocation = some file.temp.landed ∧
      ∀ h, Has s'.tables user h ↔ Has s.tables user h ∨ (file.recorded = true ∧ h = hash)) := by
  unfold storeGdrive
  by_cases stored : file.stored = true
  · right
    simp only [stored, if_true, true_and]
    refine ⟨_, _, rfl, rfl, raw.holds_storeFromTemp s.files file.temp.landed hash _, ?_⟩
    intro h
    by_cases recorded : file.recorded = true
    · simp only [recorded, if_true, true_and]
      rw [has_upsertTrack]
      simp [eq_comm]
    · simp [recorded]
  · left
    simp [stored]

/-- The rows after an import that gets through: those from before, and one for each file that
leaves one. -/
theorem has_gdriveFiles (user : Uuid) {files : List GDriveFile} (goOn : ∀ file ∈ files, file.GoesOn)
    (s : Stores) (imported : List IngestResult) (h : String) :
    Has (gdriveFiles xxh3_64 raw user s imported files).1.tables user h ↔
      Has s.tables user h ∨ ∃ file ∈ files, file.Recorded ∧ hashOf xxh3_64 file.stream = h := by
  induction files generalizing s imported with
  | nil => simp [gdriveFiles]
  | cons file files ih =>
    obtain ⟨goes, goOn⟩ := List.forall_mem_cons.mp goOn
    rw [gdriveFiles]
    simp only [List.exists_mem_cons_iff]
    rcases gdriveFile_cases xxh3_64 raw s user file with
      ⟨ends, _⟩ | ⟨_, passed, out⟩ | ⟨_, fetched, out⟩
    · exact absurd goes ends
    · have none_ : ¬ file.Recorded := fun recorded => passed recorded.1
      simp only [out, none_, false_and, false_or]
      exact ih goOn s _
    · rcases storeGdrive_cases raw s user file (hashOf xxh3_64 file.stream) with
        ⟨unstored, is⟩ | ⟨stored, s', r, is, _, _, has⟩
      · have none_ : ¬ file.Recorded := by
          intro recorded
          rw [recorded.2.1] at unstored
          cases unstored
        rw [is] at out
        simp only [out, none_, false_and, false_or]
        exact ih goOn s _
      · have one : file.Recorded ↔ file.recorded = true :=
          ⟨fun recorded => recorded.2.2, fun recorded => ⟨fetched, stored, recorded⟩⟩
        rw [is] at out
        simp only [out]
        rw [ih goOn s', has h, one, or_assoc, eq_comm (a := h)]

/-- The report of a file stands exactly if its stream ended cleanly, its writes have landed,
and the database takes its row or has one. -/
theorem stands_iff {s s' : Stores} {user : Uuid} {file : GDriveFile} {r : IngestResult}
    (hash : r.hash = hashOf xxh3_64 file.stream)
    (holds : raw.holds s'.files r.rawLocation = some file.temp.landed)
    (has : ∀ h, Has s'.tables user h ↔
      Has s.tables user h ∨ (file.recorded = true ∧ h = hashOf xxh3_64 file.stream)) :
    Stands xxh3_64 raw s' user file.stream r ↔
      file.stream.error = none ∧ file.temp.landed = file.stream.content ∧
        (file.recorded = true ∨ Has s.tables user (hashOf xxh3_64 file.stream)) := by
  unfold Stands
  rw [holds, hash, has, Option.some_inj]
  constructor
  · rintro ⟨clean, landed, _, row⟩
    exact ⟨clean, landed, row.symm.imp_left And.left⟩
  · rintro ⟨clean, landed, row⟩
    exact ⟨clean, landed, rfl, row.symm.imp_right (fun recorded => ⟨recorded, rfl⟩)⟩

theorem gdrive_faithful_iff (s : Stores) (user : Uuid) (files : List GDriveFile) :
    GdriveFaithful xxh3_64 raw s user files ↔ GdriveLanded xxh3_64 s user files := by
  have reports := gdriveFiles_ok_iff xxh3_64 raw user s []
  have rows (before : List GDriveFile) (goOn : ∀ other ∈ before, other.GoesOn) (h : String) :
      Has (ingestGdrive xxh3_64 raw s user before).1.tables user h ↔
        Has s.tables user h ∨ ∃ other ∈ before, other.Recorded ∧ hashOf xxh3_64 other.stream = h :=
    has_gdriveFiles xxh3_64 raw user goOn s [] h
  constructor
  · intro faithful before file after split goOn fetched goesOn stored
    obtain ⟨earlier, ran⟩ := (reports before).mpr goOn
    rcases gdriveFile_cases xxh3_64 raw (ingestGdrive xxh3_64 raw s user before).1 user file with
      ⟨ends, _⟩ | ⟨_, passed, _⟩ | ⟨_, _, out⟩
    · exact absurd goesOn ends
    · exact absurd fetched passed
    · rcases storeGdrive_cases raw (ingestGdrive xxh3_64 raw s user before).1 user file
        (hashOf xxh3_64 file.stream) with ⟨not, _⟩ | ⟨_, s', r, is, hash, holds, has⟩
      · rw [stored] at not
        cases not
      · rw [is] at out
        obtain ⟨stands, nothing⟩ :=
          faithful before file after split _ earlier (Prod.ext rfl ran) s' (some r) out
        constructor
        · by_contra broken
          cases (nothing broken).2
        · intro all
          have row := ((stands_iff xxh3_64 raw hash holds has).mp
            (stands ((reports files).mpr all) r rfl)).2
          rwa [rows before goOn] at row
  · intro landed before file after split s₁ earlier ran s₂ result out
    have goOn : ∀ other ∈ before, other.GoesOn := (reports before).mp ⟨earlier, by
      rw [show gdriveFiles xxh3_64 raw user s [] before = (s₁, .ok earlier) from ran]⟩
    have reached : (ingestGdrive xxh3_64 raw s user before).1 = s₁ := by rw [ran]
    rcases gdriveFile_cases xxh3_64 raw s₁ user file with
      ⟨_, is⟩ | ⟨_, _, is⟩ | ⟨goesOn, fetched, is⟩
    · rw [is] at out
      cases out
    · rw [is] at out
      cases out
      exact ⟨fun _ r some => (by cases some), fun _ => ⟨rfl, rfl⟩⟩
    · rw [is] at out
      rcases storeGdrive_cases raw s₁ user file (hashOf xxh3_64 file.stream) with
        ⟨_, nothing⟩ | ⟨stored, s', r, is', hash, holds, has⟩
      · rw [nothing] at out
        cases out
        exact ⟨fun _ r some => (by cases some), fun _ => ⟨rfl, rfl⟩⟩
      · rw [is'] at out
        cases out
        obtain ⟨clean, rest⟩ := landed before file after split goOn fetched goesOn stored
        refine ⟨?_, fun broken => absurd clean broken⟩
        intro all r' same
        obtain rfl := Option.some.inj same
        obtain ⟨whole, row⟩ := rest ((reports files).mp all)
        rw [← rows before goOn, reached] at row
        exact (stands_iff xxh3_64 raw hash holds has).mpr ⟨clean, whole, row⟩

/-- On both paths a report stands for what was read, and a broken file does nothing, exactly if
the writes have landed, and for an import also the stream ended and the row is there. -/
theorem ingest_faithful_iff (s : Stores) (user : Uuid) (i : Ingestion) :
    Faithful xxh3_64 raw s user i ↔ Landed xxh3_64 s user i := by
  cases i with
  | upload u => exact upload_faithful_iff xxh3_64 raw s user u
  | gdrive files => exact gdrive_faithful_iff xxh3_64 raw s user files

end

/-- A download that breaks off after its first chunk. -/
def brokenOff : GDriveFile where
  name := "Song.mp3"
  mimeType := some "audio/mpeg"
  downloaded := true
  stream := ⟨[[1, 2]], some "connection reset"⟩
  temp := ⟨true, 1, [1, 2]⟩
  stored := true
  recorded := true
  now := 100

/-- The import reports what came of the file as the file. -/
theorem brokenOff_reported :
    ¬ Faithful (fun _ => 0) RawStore.linkFree ⟨Tables.empty, fun _ => none⟩ 1
      (.gdrive [brokenOff]) := by
  intro faithful
  obtain ⟨_, nothing⟩ := faithful [] brokenOff [] rfl _ [] rfl _ _ rfl
  obtain ⟨_, none⟩ := nothing (by decide)
  cases none

end BVault.Gateway
