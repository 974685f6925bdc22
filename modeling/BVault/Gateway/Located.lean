import BVault.Gateway.IngestFaithful

/-!
# Where an upload goes

The extension of the file name is the user's choice. It becomes the extension
of the raw location and from there that of the path in an export; before it
stands the hash, which is made of digits and letters.
-/

namespace BVault.Gateway

open BVault.Hash BVault.Meta BVault.Store

/-- The extension that `ingest_upload` gives to the store. -/
def Upload.extension (u : Upload) : String :=
  ((u.audio.bind Field.fileName).bind Paths.extension).getD "mp3"

/-- The extension that an export gives to the audio of a track. -/
def audioExtension (rawLocation : String) : String := (Paths.extension rawLocation).getD "bin"

theorem storeUpload_location {raw : RawStore} {s : Stores} {user : Uuid} {u : Upload} {form : Form}
    {temp : TempFile} {hash : String} {r : IngestResult}
    (reported : (storeUpload raw s user u form temp hash).2 = .ok r) :
    r.hash = hash ∧ r.rawLocation =
      RawStore.relPath hash ((form.fileName.bind Paths.extension).getD "mp3") := by
  unfold storeUpload at reported
  dsimp only at reported
  split at reported
  · split at reported
    · cases reported
      exact ⟨rfl, rfl⟩
    · cases reported
  · cases reported

/-- A reported upload has the hash of its last audio field and that field's extension. -/
theorem located_of_reported {xxh3_64 : Bytes → UInt64} {raw : RawStore} {s : Stores} {user : Uuid}
    {u : Upload} {r : IngestResult} (reported : (ingestUpload xxh3_64 raw s user u).2 = .ok r) :
    ∃ hash, r.hash = hashHex hash ∧
      r.rawLocation = RawStore.relPath (hashHex hash) u.extension := by
  obtain ⟨fields, whole, field, last⟩ := read_of_reported xxh3_64 raw reported
  obtain ⟨form, name, out⟩ := ingestUpload_read xxh3_64 raw s user fields whole last
  rw [out] at reported
  obtain ⟨hash, location⟩ := storeUpload_location reported
  refine ⟨_, hash, ?_⟩
  unfold Upload.extension
  rw [last, Option.bind_some, ← name]
  exact location

theorem extension_clean (u : Upload) : '.' ∉ u.extension.toList ∧ '/' ∉ u.extension.toList := by
  unfold Upload.extension
  cases is : (u.audio.bind Field.fileName).bind Paths.extension with
  | none => decide
  | some ext =>
    obtain ⟨name, _, is⟩ := Option.bind_eq_some_iff.mp is
    exact ⟨Paths.dot_not_mem_extension is, Paths.slash_not_mem_extension is⟩

/-- The store keeps an extension without a dot, unless it is empty. -/
theorem relPath_of_dotless (hash : String) {ext : String} (dotless : '.' ∉ ext.toList) :
    RawStore.relPath hash ext =
      (if 2 ≤ hash.utf8ByteSize then String.ofList (hash.toList.take 2) else "00") ++ "/" ++ hash ++
        "." ++ (if ext = "" then "mp3" else ext) := by
  have kept : ext.toList.dropWhile (· = '.') = ext.toList := by
    rw [List.dropWhile_eq_self_iff]
    intro nonempty dot
    exact dotless (of_decide_eq_true dot ▸ List.getElem_mem nonempty)
  unfold RawStore.relPath
  dsimp only
  rw [kept, String.ofList_toList]
  simp

theorem audioExtension_relPath {hash : UInt64} {ext : String}
    (clean : '.' ∉ ext.toList ∧ '/' ∉ ext.toList) :
    audioExtension (RawStore.relPath (hashHex hash) ext) = if ext = "" then "mp3" else ext := by
  have stem {c : Char} (other : ¬ c.isAlphanum) : c ∉ (hashHex hash).toList :=
    fun mem => other (isAlphanum_of_mem_hashHex mem)
  have stored : '/' ∉ (if ext = "" then "mp3" else ext).toList ∧
      '.' ∉ (if ext = "" then "mp3" else ext).toList := by
    split
    · decide
    · exact ⟨clean.2, clean.1⟩
  unfold audioExtension
  rw [relPath_of_dotless _ clean.1, Paths.extension_of_file ⟨stem (by decide), stored.1⟩
    ⟨stem (by decide), stored.2⟩ (hashHex_ne_nil hash), Option.getD_some]

end BVault.Gateway
