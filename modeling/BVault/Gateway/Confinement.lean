import BVault.Gateway.Audio

/-!
# Whose audio a user can be sent

Streaming asks for a row of the user or an export of the user, and takes the
location from there. What keeps foreign audio away is therefore decided where
rows, members and locations are written: `Guard` says for every call what that
takes, and it is exact.
-/

namespace BVault.Gateway

open BVault.Hash BVault.Meta BVault.Store

/-- A row or a playlist member of the user with this hash. -/
def Refers (t : Tables) (userId : Uuid) (hash : String) : Prop :=
  Has t userId hash ∨ ∃ id, (id, hash) ∈ t.playlistTracks ∧ Owns t userId id

/-- A raw location that the user can ask for, through an export or a hash; `beside` is a hash
not to count. -/
def ReachesBeside (s : Service) (beside : Option String) (userId : Uuid) (location : String) :
    Prop :=
  (∃ hash, some hash ≠ beside ∧ Refers s.tables userId hash ∧
      s.tables.tracks hash = some location) ∨
    ∃ id e usbPath, s.exports id = some e ∧ e.owner = userId ∧ e.source usbPath = some location

/-- A raw location that the user can ask for. -/
def Reaches (s : Service) (userId : Uuid) (location : String) : Prop :=
  ReachesBeside s none userId location

/-- A call that only looks, stages or streams. -/
def IsRead (c : Call) : Prop :=
  match c.request with
  | .downloadTrackRaw _ => True
  | .createExport .. => True
  | .serveFile .. => True
  | _ => False

section
variable (xxh3_64 : Bytes → UInt64) (raw : RawStore)

/-- The content hash of a file. -/
def contentHash (data : Bytes) : String := hashHex (hashBytes xxh3_64 data)

/-- The user has ingested content with this hash. -/
def Uploaded (s : Service) (userId : Uuid) (hash : String) : Prop :=
  ∃ data, (userId, data) ∈ s.uploads ∧ contentHash xxh3_64 data = hash

/-- The location leads to no file, or to content that the user has ingested. -/
def Entitled (s : Service) (userId : Uuid) (location : String) : Prop :=
  ∀ bytes, raw.contents s.files location = some bytes →
    Uploaded xxh3_64 s userId (contentHash xxh3_64 bytes)

/-- Nobody can reach what they have not ingested. -/
def Confined (s : Service) : Prop :=
  ∀ userId location, Reaches s userId location → Entitled xxh3_64 raw s userId location

/-- Once a file with this hash is in the store, the location leads to this path. -/
def LeadsTo (s : Service) (hash ext location path : String) : Prop :=
  raw.resolve (s.files.write (raw.target s.files hash ext) []) location = .ok path

/-- What it takes for an ingest to store a file. -/
structure IngestGuard (s : Service) (userId : Uuid) (hash ext : String) (recorded : Bool) :
    Prop where
  /-- Who has the hash, and is sent to the file from now on, has ingested content with it. -/
  holders : recorded →
    LeadsTo raw s hash ext (RawStore.relPath hash ext) (raw.target s.files hash ext) →
    ∀ user, Refers s.tables user hash → user = userId ∨ Uploaded xxh3_64 s user hash
  /-- So has everybody with a location that leads to the path of the file. -/
  led : ∀ user location, ReachesBeside s (if recorded then some hash else none) user location →
    LeadsTo raw s hash ext location (raw.target s.files hash ext) →
    user = userId ∨ Uploaded xxh3_64 s user hash
  /-- A location that comes to lead to another file, such as one that goes through a directory
  that is made, leads to nothing foreign. -/
  opened : ∀ user location path bytes,
    ReachesBeside s (if recorded then some hash else none) user location →
    LeadsTo raw s hash ext location path → path ≠ raw.target s.files hash ext →
    raw.resolve s.files location ≠ .ok path → s.files path = some bytes →
    (user = userId ∧ contentHash xxh3_64 bytes = hash) ∨
      Uploaded xxh3_64 s user (contentHash xxh3_64 bytes)

/-- What a call must meet, on the state before it. -/
def Guard (s : Service) (c : Call) : Prop :=
  match c.request with
  -- the location holds nothing foreign to the caller and to those who have the hash
  | .registerTrack hash rawLocation _ _ =>
    ∀ user, user = c.user ∨ Refers s.tables user hash → Entitled xxh3_64 raw s user rawLocation
  | .ingestUpload chunks fileName _ _ isStored recorded =>
    isStored → IngestGuard xxh3_64 raw s c.user (contentHash xxh3_64 chunks.flatten)
      ((fileName.bind Paths.extension).getD "mp3") recorded
  | .ingestGdrive chunks name isStored recorded =>
    isStored → IngestGuard xxh3_64 raw s c.user (contentHash xxh3_64 chunks.flatten)
      ((Paths.extension name).getD "mp3") recorded
  -- a playlist that is created or filled has no track that is foreign to the caller
  | .createPlaylist name _ hashes =>
    ¬ isBlank name →
    ((∃ p ∈ s.tables.playlists, p.userId = c.user ∧ p.name = name) ∨
      ¬ ∃ p ∈ s.tables.playlists, p.id = c.newId) →
    (∀ h ∈ hashes, (s.tables.tracks h).isSome) →
    ∀ h ∈ hashes, ∀ location, s.tables.tracks h = some location →
      Entitled xxh3_64 raw s c.user location
  | _ => True

/-- Whatever is streamed next, the user it is sent to has ingested content with its hash. -/
def StreamsOwn (s : Service) : Prop :=
  ∀ c bytes, streamed raw s c = some bytes →
    Uploaded xxh3_64 s c.user (contentHash xxh3_64 bytes)

end

theorem refers_upsertTrack (t : Tables) (caller : Uuid) (hash location : String)
    (title artist : Option String) (now : Nat) (user : Uuid) (h : String) :
    Refers (upsertTrack t caller hash location title artist now) user h ↔
      Refers t user h ∨ (user = caller ∧ h = hash) := by
  rw [Refers, has_upsertTrack]
  exact or_right_comm

theorem refers_created {t t' : Tables} {caller id newId : Uuid} {name : String}
    {description : Option String} {hashes : List String} {now : Nat} {drawn : List Uuid}
    (created : Created t caller name description hashes newId now t' id)
    (consistent : Consistent t drawn) (user : Uuid) (h : String) :
    Refers t' user h ↔ Refers t user h ∨ (user = caller ∧ h ∈ hashes) := by
  have has : Has t' user h ↔ Has t user h := by rw [Has, Has, created.userTracks]
  constructor
  · rintro (row | ⟨x, mem, p, listed, rfl, rfl⟩)
    · exact Or.inl (Or.inl (has.mp row))
    · rw [created.members, Finset.mem_union, List.mem_toFinset] at mem
      rcases mem with old | new
      · rcases created.mem_playlists listed with before | ⟨same, _, _, fresh⟩
        · exact Or.inl (Or.inr ⟨p.id, old, p, before, rfl, rfl⟩)
        · obtain ⟨q, inside, at_⟩ := consistent.listed _ old
          exact absurd ⟨q, inside, at_.trans same⟩ fresh
      · obtain ⟨h', inside, pair⟩ := List.mem_map.mp new
        obtain ⟨sameId, rfl⟩ := Prod.mk.inj pair
        obtain ⟨q, hq, idQ, rfl⟩ := created.owns_id
        have one := (created.consistent consistent).owner p listed q hq (sameId.symm.trans idQ.symm)
        exact Or.inr ⟨one, inside⟩
  · rintro ((row | ⟨x, mem, p, listed, here⟩) | ⟨rfl, inside⟩)
    · exact Or.inl (has.mpr row)
    · refine Or.inr ⟨x, ?_, p, created.kept_playlist listed, here⟩
      rw [created.members]
      exact Finset.mem_union_left _ mem
    · refine Or.inr ⟨id, ?_, created.owns_id⟩
      rw [created.members, Finset.mem_union, List.mem_toFinset]
      exact Or.inr (List.mem_map.mpr ⟨h, inside, rfl⟩)

theorem ReachesBeside.reaches {s : Service} {beside : Option String} {userId : Uuid}
    {location : String} (reaches : ReachesBeside s beside userId location) :
    Reaches s userId location := by
  rcases reaches with ⟨hash, _, refers, located⟩ | through
  · exact Or.inl ⟨hash, nofun, refers, located⟩
  · exact Or.inr through

theorem reaches_of_refers {s : Service} {userId : Uuid} {hash location : String}
    (refers : Refers s.tables userId hash) (located : s.tables.tracks hash = some location) :
    Reaches s userId location :=
  Or.inl ⟨hash, nofun, refers, located⟩

/-- What is reached after an upsert: what was, beside the hash, and the new location. -/
theorem reaches_upsertTrack {s s' : Service} {caller : Uuid} {hash location : String}
    {title artist : Option String} {now : Nat}
    (tables : s'.tables = upsertTrack s.tables caller hash location title artist now)
    (exports : s'.exports = s.exports) (user : Uuid) (l : String) :
    Reaches s' user l ↔ ReachesBeside s (some hash) user l ∨
      ((user = caller ∨ Refers s.tables user hash) ∧ l = location) := by
  have refers := refers_upsertTrack s.tables caller hash location title artist now user
  have tracks := tracks_upsertTrack s.tables caller hash location title artist now
  rw [Reaches, ReachesBeside, ReachesBeside, tables, exports]
  constructor
  · rintro (⟨h, _, refers', located⟩ | through)
    · rw [tracks] at located
      by_cases here : h = hash
      · subst here
        rw [if_pos rfl] at located
        refine Or.inr ⟨?_, (Option.some.inj located).symm⟩
        rcases (refers h).mp refers' with old | new
        · exact Or.inr old
        · exact Or.inl new.1
      · rw [if_neg here] at located
        rcases (refers h).mp refers' with old | new
        · exact Or.inl (Or.inl ⟨h, fun same => here (Option.some.inj same), old, located⟩)
        · exact absurd new.2 here
    · exact Or.inl (Or.inr through)
  · rintro ((⟨h, other, refers', located⟩ | through) | ⟨who, rfl⟩)
    · refine Or.inl ⟨h, nofun, (refers h).mpr (Or.inl refers'), ?_⟩
      rw [tracks, if_neg (fun same => other (congrArg some same))]
      exact located
    · exact Or.inr through
    · refine Or.inl ⟨hash, nofun, (refers hash).mpr ?_, by rw [tracks, if_pos rfl]⟩
      rcases who with rfl | old
      · exact Or.inr ⟨rfl, rfl⟩
      · exact Or.inl old

/-- What is reached after a playlist was filled: what was, and its tracks by the caller. -/
theorem reaches_created {s s' : Service} {t' : Tables} {caller id newId : Uuid} {name : String}
    {description : Option String} {hashes : List String} {now : Nat} {drawn : List Uuid}
    (created : Created s.tables caller name description hashes newId now t' id)
    (consistent : Consistent s.tables drawn) (tables : s'.tables = t')
    (exports : s'.exports = s.exports) (user : Uuid) (l : String) :
    Reaches s' user l ↔
      Reaches s user l ∨ (user = caller ∧ ∃ h ∈ hashes, s.tables.tracks h = some l) := by
  have refers := refers_created created consistent user
  rw [Reaches, Reaches, ReachesBeside, ReachesBeside, tables, exports, created.tracks]
  constructor
  · rintro (⟨h, _, refers', located⟩ | through)
    · rcases (refers h).mp refers' with old | ⟨who, mem⟩
      · exact Or.inl (Or.inl ⟨h, nofun, old, located⟩)
      · exact Or.inr ⟨who, h, mem, located⟩
    · exact Or.inl (Or.inr through)
  · rintro ((⟨h, _, refers', located⟩ | through) | ⟨who, h, mem, located⟩)
    · exact Or.inl ⟨h, nofun, (refers h).mpr (Or.inl refers'), located⟩
    · exact Or.inr through
    · exact Or.inl ⟨h, nofun, (refers h).mpr (Or.inr ⟨who, mem⟩), located⟩

theorem mem_resolveHashes {t : Tables} {userId : Uuid} {ids : List Uuid}
    {row : String × String} : row ∈ resolveHashes t userId ids ↔
      ∃ id ∈ ids, (id, row.1) ∈ t.playlistTracks ∧ Owns t userId id ∧
        t.tracks row.1 = some row.2 := by
  obtain ⟨hash, location⟩ := row
  simp only [resolveHashes, Finset.mem_biUnion, Finset.mem_filter, Option.mem_toFinset,
    Option.mem_def, Option.map_eq_some_iff, Prod.mk.injEq]
  constructor
  · rintro ⟨⟨id, h⟩, ⟨mem, listed, owned⟩, l, located, rfl, rfl⟩
    exact ⟨id, listed, mem, owned, located⟩
  · rintro ⟨id, listed, mem, owned, located⟩
    exact ⟨(id, hash), ⟨mem, listed, owned⟩, location, located, rfl, rfl⟩

theorem source_mem {e : Export} {usbPath location : String}
    (found : e.source usbPath = some location) : (usbPath, location) ∈ e.sources := by
  obtain ⟨pair, there, rfl⟩ := Option.map_eq_some_iff.mp found
  have same := List.find?_some there
  simp only [decide_eq_true_eq] at same
  have mem := List.mem_reverse.mp (List.mem_of_find?_eq_some there)
  rw [← same]
  exact mem

section
variable (xxh3_64 : Bytes → UInt64) (raw : RawStore) {s : Service} {c : Call}

theorem entitled_congr {s' : Service} (files : s'.files = s.files) (uploads : s'.uploads = s.uploads)
    (userId : Uuid) (location : String) :
    Entitled xxh3_64 raw s' userId location ↔ Entitled xxh3_64 raw s userId location := by
  rw [Entitled, Entitled, files]
  simp only [Uploaded, uploads]

/-- A service is confined by what another one entitles to, where the files are the same. -/
theorem confined_congr {s' : Service} {reached : Uuid → String → Prop}
    (files : s'.files = s.files) (uploads : s'.uploads = s.uploads)
    (reaches : ∀ user l, Reaches s' user l ↔ reached user l) :
    Confined xxh3_64 raw s' ↔
      ∀ user l, reached user l → Entitled xxh3_64 raw s user l :=
  forall₂_congr fun user l =>
    imp_congr (reaches user l) (entitled_congr xxh3_64 raw files uploads user l)

/-- A registered track confines everybody exactly when its location is foreign to nobody it
is for. -/
theorem confined_register_iff (confined : Confined xxh3_64 raw s) {hash location : String}
    {title artist : Option String}
    (request : c.request = .registerTrack hash location title artist) :
    Confined xxh3_64 raw (step xxh3_64 raw s c) ↔ Guard xxh3_64 raw s c := by
  obtain ⟨s', stepped, tables, files, exports, uploads⟩ : ∃ s', step xxh3_64 raw s c = s' ∧
      s'.tables = upsertTrack s.tables c.user hash location title artist c.now ∧
      s'.files = s.files ∧ s'.exports = s.exports ∧ s'.uploads = s.uploads := by
    refine ⟨_, rfl, ?_⟩
    rw [step, request]
    exact ⟨rfl, rfl, rfl, rfl⟩
  have guard : Guard xxh3_64 raw s c ↔ ∀ user, user = c.user ∨ Refers s.tables user hash →
      Entitled xxh3_64 raw s user location := by rw [Guard, request]
  rw [guard, stepped, confined_congr xxh3_64 raw files uploads (reaches_upsertTrack tables exports)]
  constructor
  · exact fun after user who => after user location (Or.inr ⟨who, rfl⟩)
  · rintro entitled user l (old | ⟨who, rfl⟩)
    · exact confined user l old.reaches
    · exact entitled user who

theorem hashOfChunks_eq (chunks : List Bytes) :
    hashOfChunks xxh3_64 chunks = contentHash xxh3_64 chunks.flatten :=
  congrArg hashHex (ContentHasher.finalize_updates xxh3_64 chunks)

theorem uploaded_ingest {s' : Service} {caller : Uuid} {data : Bytes}
    (uploads : s'.uploads = s.uploads ++ [(caller, data)]) (user : Uuid) (hash : String) :
    Uploaded xxh3_64 s' user hash ↔
      (user = caller ∧ hash = contentHash xxh3_64 data) ∨ Uploaded xxh3_64 s user hash := by
  rw [Uploaded, uploads]
  constructor
  · rintro ⟨other, mem, rfl⟩
    rcases List.mem_append.mp mem with old | new
    · exact Or.inr ⟨other, old, rfl⟩
    · obtain ⟨rfl, rfl⟩ := Prod.mk.inj (List.mem_singleton.mp new)
      exact Or.inl ⟨rfl, rfl⟩
  · rintro (⟨rfl, rfl⟩ | ⟨other, old, same⟩)
    · exact ⟨data, List.mem_append_right _ List.mem_cons_self, rfl⟩
    · exact ⟨other, List.mem_append_left _ old, same⟩

/-- What a location entitles to once a file is stored: to the file, if it leads there, else to
what was there before. -/
theorem entitled_ingest_iff {s' : Service} {caller : Uuid} {data : Bytes} {hash ext : String}
    (is : hash = contentHash xxh3_64 data)
    (files : s'.files = s.files.write (raw.target s.files hash ext) data)
    (uploads : s'.uploads = s.uploads ++ [(caller, data)]) (user : Uuid) (location : String) :
    Entitled xxh3_64 raw s' user location ↔
      (LeadsTo raw s hash ext location (raw.target s.files hash ext) →
        user = caller ∨ Uploaded xxh3_64 s user hash) ∧
      ∀ path bytes, LeadsTo raw s hash ext location path → path ≠ raw.target s.files hash ext →
        s.files path = some bytes →
        (user = caller ∧ contentHash xxh3_64 bytes = hash) ∨
          Uploaded xxh3_64 s user (contentHash xxh3_64 bytes) := by
  have leads (path : String) :
      raw.resolve s'.files location = .ok path ↔ LeadsTo raw s hash ext location path := by
    rw [LeadsTo, files, raw.resolve_congr]
    rw [FileSystem.there_write, FileSystem.there_write]
  simp only [Entitled, RawStore.contents_eq_some, leads,
    uploaded_ingest xxh3_64 uploads user, ← is]
  constructor
  · intro entitled
    constructor
    · intro here
      have own := entitled data ⟨_, here, by rw [files, FileSystem.write_self]⟩
      rw [← is] at own
      exact own.imp_left And.left
    · intro path bytes led other there
      exact entitled bytes ⟨path, led, by rw [files, FileSystem.write_other _ other, there]⟩
  · rintro ⟨own, kept⟩ bytes ⟨path, led, there⟩
    by_cases here : path = raw.target s.files hash ext
    · rw [files, here, FileSystem.write_self] at there
      obtain rfl := Option.some.inj there
      rw [← is]
      exact (own (here ▸ led)).imp_left (fun who => ⟨who, rfl⟩)
    · rw [files, FileSystem.write_other _ here] at there
      exact kept path bytes led here there

/-- An ingest confines everybody exactly when it stores nothing, or nobody is led to its file
or through its directories to anything foreign. -/
theorem confined_ingest_iff (confined : Confined xxh3_64 raw s) (chunks : List Bytes)
    (ext : String) (title artist : Option String) (isStored recorded : Bool) :
    Confined xxh3_64 raw (ingest xxh3_64 raw s c chunks ext title artist isStored recorded) ↔
      (isStored →
        IngestGuard xxh3_64 raw s c.user (contentHash xxh3_64 chunks.flatten) ext recorded) := by
  cases isStored with
  | false => exact iff_of_true confined nofun
  | true =>
    obtain ⟨hash, is⟩ : ∃ hash, hash = contentHash xxh3_64 chunks.flatten := ⟨_, rfl⟩
    obtain ⟨s', ingested, tables, files, exports, uploads⟩ : ∃ s',
        ingest xxh3_64 raw s c chunks ext title artist true recorded = s' ∧
        (s'.tables = if recorded then upsertTrack s.tables c.user hash
          (RawStore.relPath hash ext) title artist c.now else s.tables) ∧
        s'.files = s.files.write (raw.target s.files hash ext) chunks.flatten ∧
        s'.exports = s.exports ∧ s'.uploads = s.uploads ++ [(c.user, chunks.flatten)] := by
      refine ⟨_, rfl, ?_⟩
      rw [ingest, if_pos rfl, hashOfChunks_eq, ← is]
      exact ⟨rfl, rfl, rfl, rfl⟩
    have reaches (user : Uuid) (l : String) : Reaches s' user l ↔
        ReachesBeside s (if recorded then some hash else none) user l ∨
          (recorded ∧ (user = c.user ∨ Refers s.tables user hash) ∧
            l = RawStore.relPath hash ext) := by
      cases recorded with
      | false =>
        simp only [Reaches, ReachesBeside, tables, exports, Bool.false_eq_true, if_false,
          false_and, or_false]
      | true =>
        rw [reaches_upsertTrack tables exports]
        simp
    have entitled := entitled_ingest_iff xxh3_64 raw is files uploads
    rw [ingested, ← is]
    simp only [forall_const]
    constructor
    · intro after
      have beside (user : Uuid) (l : String)
          (old : ReachesBeside s (if recorded then some hash else none) user l) :=
        (entitled user l).mp (after user l ((reaches user l).mpr (Or.inl old)))
      refine ⟨fun recorded here user refers => ?_, fun user l old => (beside user l old).1,
        fun user l path bytes old led other _ => (beside user l old).2 path bytes led other⟩
      exact ((entitled user _).mp (after user _
        ((reaches user _).mpr (Or.inr ⟨recorded, Or.inr refers, rfl⟩)))).1 here
    · intro guard user l reached
      rw [entitled]
      rcases (reaches user l).mp reached with old | ⟨recorded, who, rfl⟩
      · refine ⟨guard.led user l old, fun path bytes led other there => ?_⟩
        by_cases before : raw.resolve s.files l = .ok path
        · have contents := raw.contents_eq_some.mpr ⟨path, before, there⟩
          exact Or.inr (confined user l old.reaches bytes contents)
        · exact guard.opened user l path bytes old led other before there
      · refine ⟨fun here => who.elim Or.inl (guard.holders recorded here user), ?_⟩
        intro path bytes led other
        exact absurd (raw.resolve_target led) other

/-- A playlist confines everybody exactly when it has no track foreign to the caller. -/
theorem confined_playlist_iff {drawn : List Uuid} (consistent : Consistent s.tables drawn)
    (confined : Confined xxh3_64 raw s) {name : String} {description : Option String}
    {hashes : List String} (request : c.request = .createPlaylist name description hashes) :
    Confined xxh3_64 raw (step xxh3_64 raw s c) ↔ Guard xxh3_64 raw s c := by
  have guard : Guard xxh3_64 raw s c ↔ (¬ isBlank name →
      ((∃ p ∈ s.tables.playlists, p.userId = c.user ∧ p.name = name) ∨
        ¬ ∃ p ∈ s.tables.playlists, p.id = c.newId) →
      (∀ h ∈ hashes, (s.tables.tracks h).isSome) →
      ∀ h ∈ hashes, ∀ location, s.tables.tracks h = some location →
        Entitled xxh3_64 raw s c.user location) := by rw [Guard, request]
  rw [guard]
  by_cases blank : isBlank name = true
  · have stays : step xxh3_64 raw s c = s := by
      rw [step, request]
      exact if_pos blank
    rw [stays]
    exact iff_of_true confined (fun named => absurd blank named)
  · obtain ⟨s', stepped, tables, files, exports, uploads⟩ : ∃ s', step xxh3_64 raw s c = s' ∧
        s'.tables = committed s.tables
          (createPlaylist s.tables c.user name description hashes c.newId c.now) ∧
        s'.files = s.files ∧ s'.exports = s.exports ∧ s'.uploads = s.uploads := by
      refine ⟨_, rfl, ?_⟩
      rw [step, request]
      dsimp only
      rw [if_neg blank]
      exact ⟨rfl, rfl, rfl, rfl⟩
    rw [stepped]
    cases created : createPlaylist s.tables c.user name description hashes c.newId c.now with
    | error e =>
      rw [created, committed] at tables
      have unchanged (user : Uuid) (l : String) : Reaches s' user l ↔ Reaches s user l := by
        rw [Reaches, Reaches, ReachesBeside, ReachesBeside, tables, exports]
      refine iff_of_true ((confined_congr xxh3_64 raw files uploads unchanged).mpr confined) ?_
      intro _ placed known
      obtain ⟨t', id, committed⟩ :=
        createPlaylist_commits c.user name description c.now placed known
      rw [created] at committed
      cases committed
    | ok result =>
      rw [created, committed] at tables
      have spec := createPlaylist_spec created
      rw [confined_congr xxh3_64 raw files uploads
        (reaches_created spec consistent tables exports)]
      constructor
      · intro after _ _ _ h mem location located
        exact after c.user location (Or.inr ⟨rfl, h, mem, located⟩)
      · rintro entitled user l (old | ⟨rfl, h, mem, located⟩)
        · exact confined user l old
        · exact entitled blank spec.placed spec.known h mem l located

/-- What an export stages is what its playlists resolve to. -/
theorem createExport_spec {playlistIds : List Uuid} {rows : List (String × String)}
    {analyzed : String → Bool} {built : Bool} :
    createExport raw s c playlistIds rows analyzed built = s ∨
      ∃ tracks, (∀ row ∈ tracks, row ∈ resolveHashes s.tables c.user playlistIds) ∧
        createExport raw s c playlistIds rows analyzed built = { s with
          exports := fun id =>
            if id = c.newId then some ⟨c.user, rawSources tracks⟩ else s.exports id } := by
  rw [createExport]
  split
  · exact Or.inl rfl
  · rename_i resolved
    rw [not_or, not_not] at resolved
    dsimp only
    split
    · exact Or.inl rfl
    · refine Or.inr ⟨_, fun row mem => ?_, rfl⟩
      rw [← resolved.2, List.mem_toFinset]
      exact (List.mem_filter.mp mem).1

/-- A call that only looks, stages or streams opens no new way. -/
theorem confined_read (confined : Confined xxh3_64 raw s) (reads : IsRead c) :
    Confined xxh3_64 raw (step xxh3_64 raw s c) := by
  rw [IsRead] at reads
  split at reads
  · rename_i hash request
    have stays : step xxh3_64 raw s c = s := by rw [step, request]
    rwa [stays]
  · rename_i playlistIds rows analyzed built request
    have stepped : step xxh3_64 raw s c = createExport raw s c playlistIds rows analyzed built := by
      rw [step, request]
    rw [stepped]
    rcases createExport_spec raw (s := s) (c := c) with stays | ⟨tracks, resolved, staged⟩
    · rwa [stays]
    · rw [staged]
      rintro user l (⟨hash, _, refers, located⟩ | ⟨id, e, usbPath, there, rfl, found⟩)
      · exact confined user l (reaches_of_refers refers located)
      · dsimp only at there
        split at there
        · cases there
          obtain ⟨⟨hash, location⟩, mem, pair⟩ := List.mem_map.mp (source_mem found)
          obtain ⟨_, rfl⟩ := Prod.mk.inj pair
          obtain ⟨id, _, member, owned, located⟩ := mem_resolveHashes.mp (resolved _ mem)
          exact confined c.user location
            (reaches_of_refers (Or.inr ⟨id, member, owned⟩) located)
        · exact confined e.owner l (Or.inr ⟨id, e, usbPath, there, rfl, found⟩)
  · rename_i id usbPath request
    have stays : step xxh3_64 raw s c = s := by rw [step, request]
    rwa [stays]
  · exact absurd reads id

/-- A call confines everybody as before exactly when it meets its guard. -/
theorem confined_step_iff {drawn : List Uuid} (consistent : Consistent s.tables drawn)
    (confined : Confined xxh3_64 raw s) :
    Confined xxh3_64 raw (step xxh3_64 raw s c) ↔ Guard xxh3_64 raw s c := by
  cases request : c.request with
  | registerTrack hash rawLocation title artist =>
    exact confined_register_iff xxh3_64 raw confined request
  | ingestUpload chunks fileName titleOverride artistOverride isStored recorded =>
    rw [step, Guard, request]
    exact confined_ingest_iff xxh3_64 raw confined chunks _ _ _ isStored recorded
  | ingestGdrive chunks name isStored recorded =>
    rw [step, Guard, request]
    exact confined_ingest_iff xxh3_64 raw confined chunks _ _ _ isStored recorded
  | createPlaylist name description hashes =>
    exact confined_playlist_iff xxh3_64 raw consistent confined request
  | downloadTrackRaw hash =>
    refine iff_of_true (confined_read xxh3_64 raw confined ?_) (by rw [Guard, request]; trivial)
    rw [IsRead, request]
    trivial
  | createExport playlistIds rows analyzed built =>
    refine iff_of_true (confined_read xxh3_64 raw confined ?_) (by rw [Guard, request]; trivial)
    rw [IsRead, request]
    trivial
  | serveFile id usbPath =>
    refine iff_of_true (confined_read xxh3_64 raw confined ?_) (by rw [Guard, request]; trivial)
    rw [IsRead, request]
    trivial

/-- What is streamed was reached. -/
theorem reaches_of_streamed {bytes : Bytes} (streams : streamed raw s c = some bytes) :
    ∃ location, Reaches s c.user location ∧ raw.contents s.files location = some bytes := by
  rw [streamed] at streams
  split at streams
  · rename_i hash request
    obtain ⟨track, found, contents⟩ := Option.bind_eq_some_iff.mp streams
    have has : Has s.tables c.user hash := by
      obtain ⟨row, there, _⟩ := Option.bind_eq_some_iff.mp found
      have both := List.find?_some there
      simp only [decide_eq_true_eq] at both
      exact ⟨row, List.mem_of_find?_eq_some there, both⟩
    have located := location_of_has has
    rw [found] at located
    exact ⟨track.rawLocation, reaches_of_refers (Or.inl has) located.symm, contents⟩
  · rename_i id usbPath request
    split at streams
    · cases streams
    · rename_i e there
      split at streams
      · rename_i mine
        obtain ⟨location, found, contents⟩ := Option.bind_eq_some_iff.mp streams
        exact ⟨location, Or.inr ⟨id, e, usbPath, there, mine, found⟩, contents⟩
      · cases streams
  · cases streams

/-- An export of one playlist can stage any of its tracks alone. -/
theorem stages_member {user id : Uuid} {hash location : String}
    (member : (id, hash) ∈ s.tables.playlistTracks) (owned : Owns s.tables user id)
    (located : s.tables.tracks hash = some location) (newId : Uuid)
    (opens : (raw.resolve s.files location).isOk = true) : ∃ rows e,
      createExport raw s ⟨user, .createExport [id] rows (· = hash) true, newId, 0⟩ [id] rows
          (· = hash) true =
        { s with exports := fun x => if x = newId then some e else s.exports x } ∧
      e.owner = user ∧ e.source (contentsUsb hash location) = some location := by
  obtain ⟨rows, listed⟩ : ∃ rows : List (String × String),
      rows.toFinset = resolveHashes s.tables user [id] :=
    ⟨(resolveHashes s.tables user [id]).toList, Finset.toList_toFinset _⟩
  have only : ∀ row ∈ rows.filter (fun row => row.1 = hash), row = (hash, location) := by
    rintro ⟨h, l⟩ mem
    obtain ⟨inside, same⟩ := List.mem_filter.mp mem
    obtain rfl : h = hash := of_decide_eq_true same
    have resolved := listed ▸ List.mem_toFinset.mpr inside
    obtain ⟨_, _, _, _, there⟩ := mem_resolveHashes.mp resolved
    rw [located] at there
    cases there
    rfl
  have here : (hash, location) ∈ rows.filter (fun row => row.1 = hash) := by
    refine List.mem_filter.mpr ⟨?_, decide_eq_true rfl⟩
    rw [← List.mem_toFinset, listed]
    exact mem_resolveHashes.mpr ⟨id, List.mem_cons_self, member, owned, located⟩
  refine ⟨rows, ⟨user, rawSources (rows.filter (fun row => row.1 = hash))⟩, ?_, rfl, ?_⟩
  · have tracks : ¬ (rows.filter (fun row => decide (row.1 = hash)) = [] ∨
        (∃ row ∈ rows.filter (fun row => decide (row.1 = hash)),
          (raw.resolve s.files row.2).isOk = false) ∨ ¬ true = true) := by
      rintro (none_ | ⟨row, mem, closed⟩ | no)
      · rw [none_] at here
        cases here
      · rw [only row mem, opens] at closed
        cases closed
      · exact no rfl
    have resolved : ¬ ([id] = [] ∨ rows.toFinset ≠ resolveHashes s.tables user [id]) := by
      rintro (none_ | other)
      · cases none_
      · exact other listed
    rw [createExport, if_neg resolved]
    dsimp only
    rw [if_neg tracks]
  · have found : ((rawSources (rows.filter (fun row => row.1 = hash))).reverse.find?
        (fun pair => pair.1 = contentsUsb hash location)).isSome := by
      rw [List.find?_isSome]
      refine ⟨(contentsUsb hash location, location), ?_, decide_eq_true rfl⟩
      exact List.mem_reverse.mpr (List.mem_map.mpr ⟨_, here, rfl⟩)
    obtain ⟨pair, there⟩ := Option.isSome_iff_exists.mp found
    have inside := List.mem_reverse.mp (List.mem_of_find?_eq_some there)
    obtain ⟨row, mem, rfl⟩ := List.mem_map.mp inside
    rw [Export.source, there, only row mem]
    rfl

/-- What is reached can be streamed, at most after staging an export. -/
theorem streams_of_reaches {user : Uuid} {location : String} {bytes : Bytes}
    (reaches : Reaches s user location) (contents : raw.contents s.files location = some bytes) :
    ∃ reads c, (∀ r ∈ reads, IsRead r) ∧ c.user = user ∧
      streamed raw (Runs.run (step xxh3_64 raw) s reads) c = some bytes ∧
      (Runs.run (step xxh3_64 raw) s reads).uploads = s.uploads := by
  rcases reaches with ⟨hash, _, has | ⟨id, member, owned⟩, located⟩ |
    ⟨id, e, usbPath, there, rfl, found⟩
  · refine ⟨[], ⟨user, .downloadTrackRaw hash, 0, 0⟩, nofun, rfl, ?_, rfl⟩
    have track := location_of_has has
    rw [located] at track
    obtain ⟨track, found, rfl⟩ := Option.map_eq_some_iff.mp track
    rw [Runs.run_nil, streamed]
    dsimp only
    rw [found]
    exact contents
  · have opens : (raw.resolve s.files location).isOk = true := by
      rw [RawStore.contents] at contents
      cases resolved : raw.resolve s.files location with
      | error e =>
        rw [resolved] at contents
        cases contents
      | ok path => rfl
    obtain ⟨rows, e, staged, rfl, source⟩ := stages_member raw member owned located 0 opens
    refine ⟨[⟨e.owner, .createExport [id] rows (· = hash) true, 0, 0⟩],
      ⟨e.owner, .serveFile 0 (contentsUsb hash location), 0, 0⟩, ?_, rfl, ?_, ?_⟩
    · intro r mem
      rw [List.mem_singleton.mp mem, IsRead]
      trivial
    · rw [Runs.run_cons, Runs.run_nil, step]
      dsimp only
      rw [staged, streamed]
      dsimp only
      rw [if_pos rfl]
      dsimp only
      rw [if_pos rfl, source]
      exact contents
    · rw [Runs.run_cons, Runs.run_nil, step]
      dsimp only
      rw [staged]
  · refine ⟨[], ⟨e.owner, .serveFile id usbPath, 0, 0⟩, nofun, rfl, ?_, rfl⟩
    rw [Runs.run_nil, streamed]
    dsimp only
    rw [there]
    dsimp only
    rw [if_pos rfl, found]
    exact contents

/-- A call writes to the tables at most one statement. -/
theorem step_tables : (step xxh3_64 raw s c).tables = s.tables ∨
    ∃ m, (step xxh3_64 raw s c).tables = Meta.step s.tables m := by
  have ingested (chunks : List Bytes) (ext : String) (title artist : Option String)
      (isStored recorded : Bool) :
      (ingest xxh3_64 raw s c chunks ext title artist isStored recorded).tables = s.tables ∨
        ∃ m, (ingest xxh3_64 raw s c chunks ext title artist isStored recorded).tables =
          Meta.step s.tables m := by
    cases isStored with
    | false => exact Or.inl rfl
    | true =>
      rw [ingest, if_pos rfl]
      cases recorded with
      | false => exact Or.inl rfl
      | true =>
        exact Or.inr ⟨⟨c.user, .upsertTrack (hashOfChunks xxh3_64 chunks)
          (RawStore.relPath (hashOfChunks xxh3_64 chunks) ext) title artist, c.newId, c.now⟩, rfl⟩
  rw [step]
  split
  · rename_i hash rawLocation title artist request
    exact Or.inr ⟨⟨c.user, .upsertTrack hash rawLocation title artist, c.newId, c.now⟩, rfl⟩
  · exact ingested _ _ _ _ _ _
  · exact ingested _ _ _ _ _ _
  · rename_i name description hashes request
    split
    · exact Or.inl rfl
    · exact Or.inr ⟨⟨c.user, .createPlaylist name description hashes, c.newId, c.now⟩, rfl⟩
  · rename_i playlistIds rows analyzed built request
    refine Or.inl ?_
    rcases createExport_spec raw (s := s) (c := c) with stays | ⟨tracks, _, staged⟩
    · rw [stays]
    · rw [staged]
  · exact Or.inl rfl
  · exact Or.inl rfl

theorem consistent_step (consistent : ∃ drawn, Consistent s.tables drawn) :
    ∃ drawn, Consistent (step xxh3_64 raw s c).tables drawn := by
  obtain ⟨drawn, consistent⟩ := consistent
  rcases step_tables xxh3_64 raw (s := s) (c := c) with same | ⟨m, stepped⟩
  · rw [same]
    exact ⟨drawn, consistent⟩
  · rw [stepped]
    exact ⟨_, consistent.step m⟩

theorem confined_start (files : FileSystem) : Confined xxh3_64 raw (start files) := by
  rintro user location (⟨hash, _, _, located⟩ | ⟨id, e, usbPath, there, _⟩)
  · cases located
  · cases there

/-- Reads keep everybody confined. -/
theorem confined_reads (confined : Confined xxh3_64 raw s) {reads : List Call}
    (all : ∀ c ∈ reads, IsRead c) : Confined xxh3_64 raw (Runs.run (step xxh3_64 raw) s reads) := by
  induction reads generalizing s with
  | nil => exact confined
  | cons c reads ih =>
    exact ih (confined_read xxh3_64 raw confined (all c List.mem_cons_self))
      (fun r mem => all r (List.mem_cons_of_mem _ mem))

theorem streamsOwn_of_confined (confined : Confined xxh3_64 raw s) :
    StreamsOwn xxh3_64 raw s := by
  intro c bytes streams
  obtain ⟨location, reaches, contents⟩ := reaches_of_streamed raw streams
  exact confined c.user location reaches bytes contents

/-- Everybody is confined where no further reads stream anything foreign. -/
theorem confined_of_streamsOwn (own : ∀ reads, (∀ c ∈ reads, IsRead c) →
    StreamsOwn xxh3_64 raw (Runs.run (step xxh3_64 raw) s reads)) : Confined xxh3_64 raw s := by
  intro user location reaches bytes contents
  obtain ⟨reads, c, all, rfl, streams, uploads⟩ :=
    streams_of_reaches xxh3_64 raw reaches contents
  have uploaded := own reads all c bytes streams
  rwa [Uploaded, uploads] at uploaded

end

/-- A user uploads a song. -/
def uploadsSong : Call :=
  ⟨1, .ingestUpload [[1, 2], [3]] (some "song.mp3") none none true true, 10, 100⟩

/-- Another user registers its location under a hash of their own. -/
def registersSong : Call :=
  ⟨2, .registerTrack "mine" "00/0000000000000000.mp3" none none, 11, 101⟩

def downloadsSong : Call := ⟨2, .downloadTrackRaw "mine", 12, 102⟩

end BVault.Gateway
