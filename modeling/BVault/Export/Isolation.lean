import BVault.Export.StagingRoot

/-!
# Exports apart

No order of requests, writes, removals, sweeps and restarts lets a user read an
export of somebody else, or a file that was not written to its end: an answer is
that of the finished export, or says that there is none.
-/

namespace BVault.Export

open BVault.Gateway BVault.Hash BVault.Meta BVault.Store BVault.Transfer Loops Pointwise Publication

theorem length_hashHex (hash : UInt64) : (hashHex hash).toList.length = 16 := by
  have few := (Nat.length_toDigits_le_iff (b := 16) (k := 16) (by decide) (by decide)).mpr
    (show hash.toNat < 16 ^ 16 from hash.toNat_lt)
  rw [hashHex, String.toList_ofList, List.length_leftpad]
  omega

theorem hyphen_not_mem_hashHex (hash : UInt64) : '-' ∉ (hashHex hash).toList := by
  intro mem
  have plain := isAlphanum_of_mem_hashHex mem
  revert plain
  decide

theorem unhyphenated {digits : List Char} (plain : '-' ∉ digits) :
    (hyphenated digits).filter (· ≠ '-') = digits := by
  have keeps {part : List Char} (sub : ∀ c ∈ part, c ∈ digits) : part.filter (· ≠ '-') = part := by
    rw [List.filter_eq_self]
    intro c mem
    exact decide_eq_true fun is => plain (is ▸ sub c mem)
  have taken (n m : Nat) : ((digits.drop n).take m).filter (· ≠ '-') = (digits.drop n).take m :=
    keeps fun _ mem => List.mem_of_mem_drop (List.mem_of_mem_take mem)
  have first : (digits.take 8).filter (· ≠ '-') = digits.take 8 :=
    keeps fun _ mem => List.mem_of_mem_take mem
  have last : (digits.drop 20).filter (· ≠ '-') = digits.drop 20 :=
    keeps fun _ mem => List.mem_of_mem_drop mem
  have split (n m : Nat) : (digits.drop n).take m ++ digits.drop (n + m) = digits.drop n := by
    rw [← List.drop_drop, List.take_append_drop]
  have hyphen (rest : List Char) : ('-' :: rest).filter (· ≠ '-') = rest.filter (· ≠ '-') := rfl
  rw [hyphenated]
  simp only [List.filter_append, hyphen, taken, first, last, List.append_assoc]
  rw [split 16 4, split 12 4, split 8 4, List.take_append_drop]

theorem length_hyphenated {digits : List Char} (is : digits.length = 32) :
    (hyphenated digits).length = 36 := by
  simp [hyphenated, is]

/-- The digits of an id. -/
def uuidDigits (id : Uuid) : List Char :=
  (hashHex (UInt64.ofNat (id / 2 ^ 64))).toList ++ (hashHex (UInt64.ofNat id)).toList

theorem toList_uuidText (id : Uuid) : (uuidText id).toList = hyphenated (uuidDigits id) :=
  String.toList_ofList

theorem length_uuidText (id : Uuid) : (uuidText id).toList.length = 36 := by
  rw [toList_uuidText]
  apply length_hyphenated
  rw [uuidDigits, List.length_append, length_hashHex, length_hashHex]

theorem hyphen_not_mem_uuidDigits (id : Uuid) : '-' ∉ uuidDigits id := by
  rw [uuidDigits, List.mem_append]
  rintro (high | low)
  · exact hyphen_not_mem_hashHex _ high
  · exact hyphen_not_mem_hashHex _ low

theorem AuthUser.eq_of_text {u v : AuthUser} (same : uuidText u.id = uuidText v.id) : u = v := by
  have digits : uuidDigits u.id = uuidDigits v.id := by
    have texts := congrArg String.toList same
    rw [toList_uuidText, toList_uuidText] at texts
    rw [← unhyphenated (hyphen_not_mem_uuidDigits u.id), texts,
      unhyphenated (hyphen_not_mem_uuidDigits v.id)]
  obtain ⟨high, low⟩ := List.append_inj digits ((length_hashHex _).trans (length_hashHex _).symm)
  have value {n m : Nat} (hex : (hashHex (UInt64.ofNat n)).toList = (hashHex (UInt64.ofNat m)).toList) :
      n % 2 ^ 64 = m % 2 ^ 64 := by
    have numbers := congrArg UInt64.toNat (hashHex_injective (String.toList_inj.mp hex))
    rwa [UInt64.toNat_ofNat', UInt64.toNat_ofNat'] at numbers
  have join {n m : Nat} (small : n < 2 ^ 128) (small' : m < 2 ^ 128)
      (front : n / 2 ^ 64 % 2 ^ 64 = m / 2 ^ 64 % 2 ^ 64) (back : n % 2 ^ 64 = m % 2 ^ 64) : n = m := by
    omega
  exact AuthUser.ext (join u.fits v.fits (value high) (value low))

/-- No beginning of an id is the id of somebody else. -/
theorem AuthUser.eq_of_beginning {u v : AuthUser}
    (front : (uuidText u.id).toList <+: (uuidText v.id).toList) : u = v := by
  have whole := front.eq_of_length ((length_uuidText _).trans (length_uuidText _).symm)
  exact AuthUser.eq_of_text (String.toList_inj.mp whole)

theorem plain_uuidText {id : Uuid} {c : Char} (mem : c ∈ (uuidText id).toList) :
    isWhitespace c = false := by
  by_cases hyphen : c = '-'
  · subst hyphen
    decide
  · have digit : c ∈ uuidDigits id := by
      rw [toList_uuidText] at mem
      rw [← unhyphenated (hyphen_not_mem_uuidDigits id), List.mem_filter]
      exact ⟨mem, decide_eq_true hyphen⟩
    have plain : c.isAlphanum := by
      rcases List.mem_append.mp digit with high | low
      · exact isAlphanum_of_mem_hashHex high
      · exact isAlphanum_of_mem_hashHex low
    by_contra white
    have listed := of_decide_eq_true (Bool.eq_true_of_not_eq_false white)
    simp only [List.mem_cons, List.not_mem_nil, or_false] at listed
    rcases listed with rfl | rfl | rfl | rfl | rfl | rfl | rfl | rfl | rfl | rfl | rfl | rfl | rfl |
      rfl | rfl | rfl | rfl | rfl | rfl | rfl | rfl | rfl | rfl | rfl | rfl <;>
      exact absurd plain (by decide)

theorem trim_plain {text : String} (plain : ∀ c ∈ text.toList, isWhitespace c = false) :
    trim text = text := by
  have front : text.toList.dropWhile isWhitespace = text.toList := by
    rw [List.dropWhile_eq_self_iff]
    intro some
    rw [plain _ (List.getElem_mem some)]
    decide
  have back : text.toList.rdropWhile isWhitespace = text.toList := by
    rw [List.rdropWhile_eq_self_iff]
    intro some
    rw [plain _ (List.getLast_mem some)]
    decide
  rw [trim, front, back, String.ofList_toList]

def Package.front (p : Package) : List (File × Content) :=
  p.tree.map (fun f => (.tree f.1, .bytes f.2)) ++
    [(.manifest, .manifest p.manifest), (.sources, .sources p.sources)]

theorem Package.plan_eq (p : Package) :
    p.plan = p.front ++ [(.owner, .owner (uuidText p.user.id))] := by
  rw [plan, front, List.append_assoc]
  rfl

theorem Package.plan_distinct (p : Package) : (p.plan.map Prod.fst).Nodup := by
  have paths : (p.tree.map fun f => File.tree f.1).Nodup := by
    have injective : Function.Injective File.tree := fun _ _ same => File.tree.inj same
    have mapped := p.distinct.map injective
    rwa [List.map_map] at mapped
  rw [plan, List.map_append, List.map_map, List.nodup_append]
  refine ⟨paths, by simp, ?_⟩
  intro file mem record last same
  obtain ⟨f, -, rfl⟩ := List.mem_map.mp mem
  rw [← same] at last
  simp at last

/-- What every folder keeps. -/
structure Folder.Sound (f : Folder) : Prop where
  shelf : f.shelf.Sound
  plan : f.shelf.plan = f.package.plan
  owner : ∀ file content, f.shelf.files file = some content → file = .owner →
    ∃ text, content = .owner text ∧ text.toList <+: (uuidText f.package.user.id).toList

/-- What stays of a folder. -/
structure Folder.Later (f g : Folder) : Prop where
  package : g.package = f.package
  left : g.shelf.left <:+ f.shelf.left

namespace Folder

variable {f : Folder}

theorem Later.refl (f : Folder) : Later f f := ⟨rfl, List.suffix_refl _⟩

theorem Later.published {g : Folder} (later : Later f g) (published : f.shelf.Published) :
    g.shelf.Published :=
  Nat.le_trans later.left.length_le published

theorem sound_create (p : Package) (now : Nat) : Sound (create p now) :=
  ⟨Shelf.sound_start p.plan_distinct, rfl, nofun⟩

theorem sound_of_same {g : Folder} (sound : Sound f) (package : g.package = f.package)
    (shelf : g.shelf = f.shelf) : Sound g := by
  refine ⟨shelf ▸ sound.shelf, ?_, ?_⟩
  · rw [shelf, package]
    exact sound.plan
  · rw [shelf, package]
    exact sound.owner

theorem owner_content {content : Content} (sound : Sound f)
    (next : f.shelf.left.head? = some (.owner, content)) :
    content = .owner (uuidText f.package.user.id) := by
  have mem : (File.owner, content) ∈ f.package.plan := by
    rw [← sound.plan, Shelf.plan]
    exact List.mem_append_right _ (List.mem_of_mem_head? next)
  rw [Package.plan, List.mem_append] at mem
  rcases mem with tree | record
  · obtain ⟨_, -, same⟩ := List.mem_map.mp tree
    cases same
  · simp only [List.mem_cons, List.not_mem_nil, or_false, Prod.mk.injEq, reduceCtorEq, false_and,
      true_and, false_or] at record
    exact record

/-- An operation that writes only parts of the file that comes next. -/
theorem sound_op (sound : Sound f) (op : Shelf.Op File Content)
    (opens : ∀ empty, op = .openNext empty → ∀ e, f.shelf.left.head? = some e → empty = e.1.empty)
    (fills : ∀ part, op = .fill part → f.shelf.left.head?.any (fun e => e.2.isPart part) = true) :
    ∀ file content, (f.shelf.apply op).files file = some content → file = .owner →
      ∃ text, content = .owner text ∧ text.toList <+: (uuidText f.package.user.id).toList := by
  refine Shelf.forall_apply sound.owner op ?_
  rintro ⟨file, content⟩ next
  refine ⟨?_, ?_, ?_⟩
  · rintro rfl
    exact ⟨_, owner_content sound next, List.prefix_refl _⟩
  · rintro empty is rfl
    exact ⟨"", opens empty is _ next, List.nil_prefix⟩
  · rintro part is rfl
    have fits := fills part is
    rw [next, Option.any_some, owner_content sound next] at fits
    cases part with
    | owner text => exact ⟨text, rfl, List.isPrefixOf_iff_prefix.mp fits⟩
    | bytes _ => cases fits
    | manifest _ => cases fits
    | sources _ => cases fits

theorem sound_apply {g : Folder} (sound : Sound f) (op : Shelf.Op File Content)
    (package : g.package = f.package) (shelf : g.shelf = f.shelf.apply op)
    (opens : ∀ empty, op = .openNext empty → ∀ e, f.shelf.left.head? = some e → empty = e.1.empty)
    (fills : ∀ part, op = .fill part → f.shelf.left.head?.any (fun e => e.2.isPart part) = true) :
    Sound g := by
  refine ⟨shelf ▸ Shelf.sound_apply sound.shelf op, ?_, ?_⟩
  · rw [shelf, package, Shelf.plan_apply]
    exact sound.plan
  · rw [shelf, package]
    exact sound_op sound op opens fills

theorem sound_change (sound : Sound f) (c : Change) : Sound (f.change c) := by
  cases c with
  | openNext now =>
    rw [change]
    split
    · exact sound
    · rename_i file content next
      split
      · refine sound_apply sound (.openNext file.empty) rfl rfl ?_ nofun
        rintro empty ⟨⟩ e first
        rw [next] at first
        cases first
        rfl
      · exact sound
  | fill part =>
    rw [change]
    split
    · rename_i fits
      refine sound_apply sound (.fill part) rfl rfl nofun ?_
      rintro _ ⟨⟩
      exact fits.2
    · exact sound
  | close =>
    rw [change]
    split
    · exact sound_apply sound .close rfl rfl nofun nofun
    · exact sound
  | stop => exact sound_of_same sound rfl rfl
  | unlink file now =>
    rw [change]
    split
    · exact sound_apply sound (.unlink file) rfl rfl nofun nofun
    · exact sound
  | rmdir =>
    rw [change]
    split
    · exact sound_of_same sound rfl rfl
    · exact sound
  | giveUp => exact sound_of_same sound rfl rfl

theorem later_change (f : Folder) (c : Change) : Later f (f.change c) := by
  have op {g : Folder} (op : Shelf.Op File Content) (package : g.package = f.package)
      (shelf : g.shelf = f.shelf.apply op) : Later f g :=
    ⟨package, shelf ▸ Shelf.left_apply f.shelf op⟩
  cases c with
  | openNext now =>
    rw [change]
    split
    · exact Later.refl f
    · rename_i file _ _
      split
      · exact op (.openNext file.empty) rfl rfl
      · exact Later.refl f
  | fill part =>
    rw [change]
    split
    · exact op (.fill part) rfl rfl
    · exact Later.refl f
  | close =>
    rw [change]
    split
    · exact op .close rfl rfl
    · exact Later.refl f
  | stop => exact ⟨rfl, List.suffix_refl _⟩
  | unlink file now =>
    rw [change]
    split
    · exact op (.unlink file) rfl rfl
    · exact Later.refl f
  | rmdir =>
    rw [change]
    split
    · exact ⟨rfl, List.suffix_refl _⟩
    · exact Later.refl f
  | giveUp => exact ⟨rfl, List.suffix_refl _⟩

theorem sound_sweep (sound : Sound f) (exportTtl now : Nat) : Sound (f.sweep exportTtl now) := by
  rw [sweep]
  split
  · exact sound_of_same sound rfl rfl
  · exact sound

theorem later_sweep (f : Folder) (exportTtl now : Nat) : Later f (f.sweep exportTtl now) := by
  rw [sweep]
  split
  · exact ⟨rfl, List.suffix_refl _⟩
  · exact Later.refl f

section
variable (sound : Sound f) (published : f.shelf.Published)
include sound

theorem published_of_owner {content : Content} (there : f.shelf.files .owner = some content) :
    f.shelf.Published := by
  refine Shelf.published_of_marker sound.shelf (sound.plan.trans f.package.plan_eq) ?_
  rw [there]
  exact Option.some_ne_none content

include published

theorem read_front {e : File × Content} (mem : e ∈ f.package.front) :
    f.shelf.files e.1 = none ∨ f.shelf.files e.1 = some e.2 :=
  Shelf.whole_of_published sound.shelf published (sound.plan.trans f.package.plan_eq) mem

theorem read_manifest :
    f.shelf.files .manifest = none ∨ f.shelf.files .manifest = some (.manifest f.package.manifest) :=
  read_front sound published (e := (.manifest, .manifest f.package.manifest)) (by simp [Package.front])

theorem read_sources :
    f.shelf.files .sources = none ∨ f.shelf.files .sources = some (.sources f.package.sources) :=
  read_front sound published (e := (.sources, .sources f.package.sources)) (by simp [Package.front])

/-- A file of the tree is one of the export. -/
theorem read_tree (path : String) : f.shelf.files (.tree path) = none ∨
    ∃ bytes, f.package.tree.lookup path = some bytes ∧
      f.shelf.files (.tree path) = some (.bytes bytes) := by
  by_cases listed : path ∈ f.package.tree.map Prod.fst
  · obtain ⟨⟨path', bytes⟩, mem, rfl⟩ := List.mem_map.mp listed
    have front : (File.tree path', Content.bytes bytes) ∈ f.package.front :=
      List.mem_append_left _ (List.mem_map.mpr ⟨_, mem, rfl⟩)
    rcases read_front sound published front with missing | there
    · exact Or.inl missing
    · exact Or.inr ⟨bytes, (lookup_iff_mem f.package.distinct).mpr mem, there⟩
  · left
    by_contra there
    have known := sound.shelf.known _ there
    rw [sound.plan, Package.plan, List.map_append, List.map_map, List.mem_append] at known
    rcases known with tree | record
    · obtain ⟨e, mem, same⟩ := List.mem_map.mp tree
      exact listed (File.tree.inj same ▸ List.mem_map_of_mem mem)
    · simp at record

end

end Folder

section
variable {env : Environment} {tree : List Name} {e : Gateway.Export}

/-- A file of the tree is only read where there is no audio. -/
theorem serveFrom_missing {staged whole : String → Option Bytes} {path : String}
    (missing : staged path = none) :
    serveFrom env tree staged e path = .error .notFound ∨
      serveFrom env tree staged e path = serveFrom env tree whole e path := by
  rw [serveFrom, serveFrom]
  cases e.source path with
  | some location => exact Or.inr rfl
  | none =>
    cases guardRelative path with
    | error refused => exact Or.inr rfl
    | ok _ =>
      left
      dsimp only
      rw [missing]
      rfl

theorem serveFrom_same {staged whole : String → Option Bytes} {path : String}
    (same : staged path = whole path) :
    serveFrom env tree staged e path = serveFrom env tree whole e path := by
  rw [serveFrom, serveFrom, same]

end

/-- The server of a finished export answers `serve_file` for its owner in the same way. -/
theorem answer_eq_serveFile {srv : Server} {id : Uuid} {created : Created} {p : Package}
    (keeps : srv.Keeps id created) (owner : created.records.owner = p.user.id)
    (sources : created.records.sources = p.sources)
    (files : ∀ path, p.tree.lookup path = created.tree path) (usbPath : String) :
    p.answer srv.env (srv.tree id) (.file usbPath) =
      Response.ofServe (serveFile srv p.user.id id usbPath) := by
  have records : created.records = ⟨p.user.id, p.sources⟩ := by
    rw [← owner, ← sources]
  rw [Package.answer, serveFile, keeps.records, records, serveFrom]
  dsimp only
  rw [if_neg (not_not.mpr rfl)]
  cases (Gateway.Export.mk p.user.id p.sources).source usbPath with
  | some location => rfl
  | none =>
    dsimp only
    cases passes : guardRelative usbPath with
    | error refused => rfl
    | ok _ =>
      have staged := staged_of_guard srv id passes
      rw [keeps.tree usbPath passes, ← files usbPath] at staged
      dsimp only [Bind.bind, Except.bind]
      rw [staged]
      cases p.tree.lookup usbPath with
      | none => rfl
      | some bytes => rfl

/-- What `create_export` writes is a package, and the server of the finished export answers
`serve_file` from it. -/
theorem exists_package {env : Environment} {user : AuthUser} {req : CreateExport} {found : Answers}
    {created : Created} (ran : createExport env user.id req found = .ok created) :
    ∃ p : Package, p.user = user ∧ p.manifest = created.manifest ∧
      (∀ path bytes, (path, bytes) ∈ p.tree ↔ created.tree path = some bytes) ∧
      ∀ srv id, srv.env = env → srv.Keeps id created → ∀ usbPath,
        p.answer env (srv.tree id) (.file usbPath) =
          Response.ofServe (serveFile srv user.id id usbPath) := by
  obtain ⟨input, s, -, built, rfl⟩ := created_parts ran
  obtain ⟨analyses, fixed, audio, pdb, assembled⟩ := buildExport_assembled built
  have files (path : String) (bytes : Bytes) :
      (path, bytes) ∈ fixed ++ analyses.flatMap anlzFiles ↔ s.files path = some bytes :=
    (tree_iff assembled).symm
  let p : Package :=
    { user := user
      tree := fixed ++ analyses.flatMap anlzFiles
      manifest := s.manifest
      sources := sourcesOf input.tracks s.entries
      distinct := staged_nodup assembled }
  have looked (path : String) : p.tree.lookup path = s.files path :=
    Option.ext fun bytes => (lookup_iff_mem p.distinct).trans (files path bytes)
  refine ⟨p, rfl, rfl, files, ?_⟩
  rintro srv id rfl keeps usbPath
  exact answer_eq_serveFile keeps rfl rfl looked usbPath

namespace Builder

/-- The export of the user is known to be written up to `owner`. -/
structure Known (s : Builder) (q : Asked) (f : Folder) : Prop where
  folder : s.folders q.id = some f
  user : f.package.user = q.user
  published : f.shelf.Published

section
variable (env : Environment) (tree : Uuid → List Name)

/-- How far a request can be. -/
def Right (s : Builder) : Progress → Prop
  | .passed q => ∃ f, s.Known q f
  | .resolved q usbPath sources =>
    q.route = .file usbPath ∧ ∃ f, s.Known q f ∧ sources = f.package.sources
  | .answered q response => q.route ≠ .delete → response = .error .notFound ∨
      ∃ f, s.Known q f ∧ response = f.package.answer env (tree q.id) q.route

structure Sound (s : Builder) : Prop where
  folders : ∀ id f, s.folders id = some f → f.Sound
  requests : ∀ r progress, s.requests r = some progress → s.Right env tree progress

end

/-- What stays of the folders. -/
def Grown (s t : Builder) : Prop :=
  ∀ id f, s.folders id = some f → ∃ g, t.folders id = some g ∧ Folder.Later f g

variable {env : Environment} {tree : Uuid → List Name} {s t : Builder}

theorem Known.later {q : Asked} {f : Folder} (grown : Grown s t) (known : Known s q f) :
    ∃ g, Known t q g ∧ g.package = f.package := by
  obtain ⟨g, there, later⟩ := grown q.id f known.folder
  exact ⟨g, ⟨there, later.package ▸ known.user, later.published known.published⟩, later.package⟩

theorem Right.later (grown : Grown s t) {progress : Progress}
    (right : s.Right env tree progress) : t.Right env tree progress := by
  cases progress with
  | passed q =>
    obtain ⟨f, known⟩ := right
    obtain ⟨g, known', -⟩ := known.later grown
    exact ⟨g, known'⟩
  | resolved q usbPath sources =>
    obtain ⟨route, f, known, is⟩ := right
    obtain ⟨g, known', package⟩ := known.later grown
    exact ⟨route, g, known', package ▸ is⟩
  | answered q response =>
    intro get
    rcases right get with missing | ⟨f, known, is⟩
    · exact Or.inl missing
    · obtain ⟨g, known', package⟩ := known.later grown
      exact Or.inr ⟨g, known', package ▸ is⟩

theorem sound_start : start.Sound env tree := by
  constructor
  · intro id f there
    cases there
  · intro r progress there
    cases there

/-- A step on one folder. -/
theorem grown_onFolder {id : Uuid} {g : Folder → Folder} (later : ∀ f, Folder.Later f (g f))
    (folders : t.folders = s.onFolder id g) : Grown s t := by
  intro other f there
  rw [folders, onFolder]
  by_cases same : other = id
  · subst same
    rw [Function.update_self, there]
    exact ⟨g f, rfl, later f⟩
  · rw [Function.update_of_ne same]
    exact ⟨f, there, Folder.Later.refl f⟩

theorem sound_onFolder {id : Uuid} {g : Folder → Folder}
    (sound : ∀ id f, s.folders id = some f → f.Sound) (keeps : ∀ f, f.Sound → (g f).Sound) :
    ∀ other f, s.onFolder id g other = some f → f.Sound := by
  intro other f there
  rw [onFolder] at there
  by_cases same : other = id
  · subst same
    rw [Function.update_self] at there
    obtain ⟨before, here, rfl⟩ := Option.map_eq_some_iff.mp there
    exact keeps before (sound other before here)
  · rw [Function.update_of_ne same] at there
    exact sound other f there

theorem assertOwner_ok {id : Uuid} {user : AuthUser} (asserted : s.assertOwner id user = .ok ()) :
    ∃ f text, s.folders id = some f ∧ f.shelf.files .owner = some (.owner text) ∧
      trim text = uuidText user.id := by
  rw [assertOwner] at asserted
  split at asserted
  · rename_i text there
    obtain ⟨f, folder, here⟩ := Option.bind_eq_some_iff.mp there
    split at asserted
    · cases asserted
    · rename_i same
      exact ⟨f, text, folder, here, not_not.mp same⟩
  · cases asserted

/-- Whoever is let in is the owner, and the export is written. -/
theorem known_of_assertOwner (sound : ∀ id f, s.folders id = some f → f.Sound) {q : Asked}
    (asserted : s.assertOwner q.id q.user = .ok ()) : ∃ f, s.Known q f := by
  obtain ⟨f, text, folder, there, same⟩ := assertOwner_ok asserted
  have fits := sound q.id f folder
  obtain ⟨text', is, front⟩ := fits.owner _ _ there rfl
  obtain rfl : text = text' := Content.owner.inj is
  have plain : ∀ c ∈ text.toList, isWhitespace c = false :=
    fun c mem => plain_uuidText (front.subset mem)
  rw [trim_plain plain] at same
  rw [same] at front
  exact ⟨f, folder, (AuthUser.eq_of_beginning front).symm, Folder.published_of_owner fits there⟩

theorem assertOwner_of_allow {q : Asked} (admitted : s.allow q = .ok ()) :
    s.assertOwner q.id q.user = .ok () := by
  rw [allow] at admitted
  split at admitted
  · exact ok_of_mapError admitted
  · split at admitted
    · exact ok_of_mapError admitted
    · cases admitted
  · split at admitted
    · exact ok_of_mapError admitted
    · cases admitted

/-- Whoever is not let in learns that there is no such export. -/
theorem notFound_of_allow {q : Asked} {response : Response} (refused : s.allow q = .error response)
    (get : q.route ≠ .delete) : response = .error .notFound := by
  have owner : ∀ e, s.assertOwner q.id q.user = .error e → e = .notFound := by
    intro e
    rw [assertOwner]
    split
    · split
      · rintro ⟨⟩
        rfl
      · nofun
    · rintro ⟨⟩
      rfl
  have mapped (from_ : (s.assertOwner q.id q.user).mapError Response.error = .error response) :
      response = .error .notFound := by
    cases asserted : s.assertOwner q.id q.user with
    | ok _ =>
      rw [asserted] at from_
      cases from_
    | error e =>
      rw [asserted] at from_
      cases from_
      rw [owner e asserted]
  rw [allow] at refused
  split at refused
  · exact mapped refused
  · split at refused
    · exact mapped refused
    · cases refused
      rfl
  · rename_i route
    exact absurd route get

theorem read_of_known {q : Asked} {f : Folder} (known : s.Known q f) (file : File) :
    s.read q.id file = f.shelf.files file := by
  rw [read, known.folder]
  rfl

/-- One more read, in whatever state the folder is by then. -/
theorem right_next (sound : ∀ id f, s.folders id = some f → f.Sound) {progress : Progress} (right : s.Right env tree progress) :
    s.Right env tree (s.next env tree progress) := by
  cases progress with
  | passed q =>
    obtain ⟨f, known⟩ := right
    have fits := sound q.id f known.folder
    rw [next]
    cases route : q.route with
    | manifest =>
      dsimp only
      rw [read_of_known known]
      rcases Folder.read_manifest fits known.published with missing | there
      · rw [missing]
        exact fun _ => Or.inl rfl
      · rw [there]
        refine fun _ => Or.inr ⟨f, known, ?_⟩
        rw [route]
        rfl
    | file usbPath =>
      dsimp only
      rw [read_of_known known]
      rcases Folder.read_sources fits known.published with missing | there
      · rw [missing]
        exact fun _ => Or.inl rfl
      · rw [there]
        exact ⟨route, f, known, rfl⟩
    | delete => exact fun get => absurd route get
  | resolved q usbPath sources =>
    obtain ⟨route, f, known, rfl⟩ := right
    have fits := sound q.id f known.folder
    intro _
    rw [route, ← known.user]
    have staged : s.staged q.id usbPath = none ∨
        s.staged q.id usbPath = f.package.tree.lookup usbPath := by
      rw [Builder.staged, read_of_known known]
      rcases Folder.read_tree fits known.published usbPath with missing | ⟨bytes, is, there⟩
      · rw [missing]
        exact Or.inl rfl
      · rw [there, is]
        exact Or.inr rfl
    have finish {answer : Except ApiError Reply} (is : answer = .error .notFound ∨
        answer = serveFrom env (tree q.id) (fun path => f.package.tree.lookup path)
          ⟨f.package.user.id, f.package.sources⟩ usbPath) :
        Response.ofServe answer = .error .notFound ∨ ∃ g, s.Known q g ∧
          Response.ofServe answer = Package.answer env (tree q.id) g.package (.file usbPath) := by
      rcases is with rfl | rfl
      · exact Or.inl rfl
      · exact Or.inr ⟨f, known, rfl⟩
    rcases staged with missing | same
    · exact finish (serveFrom_missing missing)
    · exact finish (Or.inr (serveFrom_same same))
  | answered q response => exact right

theorem sound_of_grown (sound : s.Sound env tree) (grown : Grown s t)
    (folders : ∀ id f, t.folders id = some f → f.Sound) (requests : t.requests = s.requests) :
    t.Sound env tree := by
  refine ⟨folders, ?_⟩
  intro r progress there
  rw [requests] at there
  exact (sound.requests r progress there).later grown

theorem sound_request {r : Nat} {progress : Progress} (sound : s.Sound env tree)
    (right : s.Right env tree progress) :
    Sound env tree { s with requests := Function.update s.requests r (some progress) } := by
  have grown : Grown s { s with requests := Function.update s.requests r (some progress) } :=
    fun _ f there => ⟨f, there, Folder.Later.refl f⟩
  refine ⟨sound.folders, ?_⟩
  intro r' progress' there
  by_cases same : r' = r
  · subst same
    dsimp only at there
    rw [Function.update_self] at there
    cases there
    exact right.later grown
  · dsimp only at there
    rw [Function.update_of_ne same] at there
    exact (sound.requests r' progress' there).later grown

theorem later_remove (f : Folder) : Folder.Later f f.remove := ⟨rfl, List.suffix_refl _⟩

theorem sound_ask (sound : s.Sound env tree) (r : Nat) (q : Asked) :
    (s.ask r q).Sound env tree := by
  rw [ask]
  split
  · exact sound
  · cases admitted : s.allow q with
    | ok _ =>
      obtain ⟨f, known⟩ := known_of_assertOwner sound.folders (assertOwner_of_allow admitted)
      have asked := sound_request (r := r) sound (show s.Right env tree (.passed q) from ⟨f, known⟩)
      dsimp only
      split
      · refine sound_of_grown asked (grown_onFolder later_remove rfl) ?_ rfl
        exact sound_onFolder sound.folders fun f fits => Folder.sound_of_same fits rfl rfl
      · exact asked
    | error response =>
      exact sound_request sound fun get => Or.inl (notFound_of_allow admitted get)

theorem grown_create {id : Uuid} (p : Package) (now : Nat) (fresh : s.folders id = none)
    (folders : t.folders = Function.update s.folders id (some (Folder.create p now))) :
    Grown s t := by
  intro other f there
  have apart : other ≠ id := by
    rintro rfl
    rw [fresh] at there
    cases there
  rw [folders, Function.update_of_ne apart]
  exact ⟨f, there, Folder.Later.refl f⟩

theorem folders_ask (s : Builder) (r : Nat) (q : Asked) : (s.ask r q).folders = s.folders ∨
    q.route = .delete ∧ s.allow q = .ok () ∧
      (s.ask r q).folders = s.onFolder q.id Folder.remove := by
  rw [ask]
  split
  · exact Or.inl rfl
  · cases admitted : s.allow q with
    | ok _ =>
      by_cases delete : q.route = .delete
      · exact Or.inr ⟨delete, rfl, if_pos delete⟩
      · exact Or.inl (if_neg delete)
    | error response => exact Or.inl rfl

theorem grown_step (env : Environment) (tree : Uuid → List Name) (exportTtl : Nat) (s : Builder)
    (e : Event) : Grown s (step env tree exportTtl s e) := by
  have same {t : Builder} (folders : t.folders = s.folders) : Grown s t :=
    fun _ f there => ⟨f, folders ▸ there, Folder.Later.refl f⟩
  cases e with
  | create id p now =>
    rw [step]
    split
    · exact same rfl
    · rename_i fresh
      exact grown_create p now fresh rfl
  | change id c => exact grown_onFolder (fun f => f.later_change c) rfl
  | sweep id now => exact grown_onFolder (fun f => f.later_sweep exportTtl now) rfl
  | ask r q =>
    rcases folders_ask s r q with is | ⟨-, -, is⟩
    · exact same is
    · exact grown_onFolder later_remove is
  | proceed r => exact same rfl
  | restart =>
    intro id f there
    refine ⟨f.restart, ?_, ⟨rfl, List.suffix_refl _⟩⟩
    rw [step]
    dsimp only
    rw [there]
    rfl

theorem sound_step {exportTtl : Nat} (sound : s.Sound env tree) (e : Event) :
    (step env tree exportTtl s e).Sound env tree := by
  have grown := grown_step env tree exportTtl s e
  cases e with
  | create id p now =>
    refine sound_of_grown sound grown ?_ ?_
    · intro other f there
      rw [step] at there
      split at there
      · exact sound.folders other f there
      · by_cases same : other = id
        · subst same
          dsimp only at there
          rw [Function.update_self] at there
          cases there
          exact Folder.sound_create p now
        · dsimp only at there
          rw [Function.update_of_ne same] at there
          exact sound.folders other f there
    · rw [step]
      split <;> rfl
  | change id c =>
    exact sound_of_grown sound grown
      (sound_onFolder sound.folders fun _ fits => Folder.sound_change fits c) rfl
  | sweep id now =>
    exact sound_of_grown sound grown
      (sound_onFolder sound.folders fun _ fits => Folder.sound_sweep fits exportTtl now) rfl
  | ask r q => exact sound_ask sound r q
  | proceed r =>
    rw [step]
    cases asked : s.requests r with
    | none =>
      have same : Function.update s.requests r (none.map (s.next env tree)) = s.requests := by
        rw [Option.map_none, ← asked, Function.update_eq_self]
      rw [same]
      exact sound
    | some progress =>
      exact sound_request sound (right_next sound.folders (sound.requests r progress asked))
  | restart =>
    refine ⟨?_, ?_⟩
    · intro id f there
      obtain ⟨before, here, rfl⟩ := Option.map_eq_some_iff.mp there
      exact Folder.sound_of_same (sound.folders id before here) rfl rfl
    · intro r progress there
      have kept := (Option.filter_eq_some_iff.mp there).1
      exact (sound.requests r progress kept).later grown

theorem sound_after (env : Environment) (tree : Uuid → List Name) (exportTtl : Nat)
    (events : List Event) :
    (after env tree exportTtl events).Sound env tree := by
  have keeps (s : Builder) (e : Event) (sound : s.Sound env tree) :
      (step env tree exportTtl s e).Sound env tree := sound_step sound e
  exact Runs.run_invariant keeps sound_start events

end Builder

/-- Whatever comes in between, a request for a manifest or a file is answered as from the finished
export of its user, or as if there were none. -/
theorem answered_whole {env : Environment} {tree : Uuid → List Name} {exportTtl : Nat}
    {events : List Event} {r : Nat} {q : Asked} {response : Response}
    (answered : (Builder.after env tree exportTtl events).requests r = some (.answered q response))
    (get : q.route ≠ .delete) : response = .error .notFound ∨
      ∃ f, (Builder.after env tree exportTtl events).folders q.id = some f ∧
        f.package.user = q.user ∧ response = f.package.answer env (tree q.id) q.route := by
  rcases (Builder.sound_after env tree exportTtl events).requests r _ answered get with missing | found
  · exact Or.inl missing
  · obtain ⟨f, known, is⟩ := found
    exact Or.inr ⟨f, known.folder, known.user, is⟩

def sampleUser : AuthUser := ⟨1, by decide⟩

def samplePackage : Package where
  user := sampleUser
  tree := [("PIONEER/rekordbox/export.pdb", [7])]
  manifest := ⟨[⟨"PIONEER/rekordbox/export.pdb", 1, .staging⟩]⟩
  sources := []
  distinct := List.nodup_singleton _

/-- The export is written to its end. -/
def sampleWrites : List Event :=
  [.create 5 samplePackage 10, .change 5 (.openNext 10), .change 5 .close,
    .change 5 (.openNext 11), .change 5 .close, .change 5 (.openNext 11), .change 5 .close,
    .change 5 (.openNext 12), .change 5 .close, .change 5 .stop]

def sampleAsked : Asked := ⟨sampleUser, 5, .manifest⟩

def sampleTree (id : Uuid) : List Name := ["exports".toList, (uuidText id).toList, "tree".toList]

theorem answered_whole_sample :
    let s := Builder.after twoFiles sampleTree 86400
      (sampleWrites ++ [.ask 0 sampleAsked, .sweep 5 90000, .change 5 (.unlink .owner 90000), .proceed 0])
    s.requests 0 = some (.answered sampleAsked (.manifest (.manifest samplePackage.manifest))) ∧
      (Response.manifest (.manifest samplePackage.manifest) = .error .notFound ∨
        ∃ f, s.folders 5 = some f ∧ f.package.user = sampleUser ∧
          Response.manifest (.manifest samplePackage.manifest) =
            f.package.answer twoFiles (sampleTree 5) .manifest) := by
  intro s
  have answered : s.requests 0 =
      some (.answered sampleAsked (.manifest (.manifest samplePackage.manifest))) := by
    rfl
  exact ⟨answered, answered_whole answered (by decide)⟩

end BVault.Export
