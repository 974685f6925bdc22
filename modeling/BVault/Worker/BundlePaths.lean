import BVault.Lib.Walks
import BVault.Lib.Paths
import BVault.Worker.Turns

/-!
# Where the bundles of the registered hashes lie

`POST /tracks` takes any text for a hash, and `bundle_dir` makes a path of it:
two slices, then the text. Wherever the store is, its calls keep to it and each
hash has a folder of its own exactly when no text makes the path absolute, none
leads above the store, and what is left of no text begins what is left of
another one.
-/

namespace BVault.Worker

open BVault.Store Walks

/-- The name of the folder above. -/
def UP : List Char := ['.', '.']

/-- `Path::components`: the names, and whether they start at the root of the file system. -/
structure Route where
  absolute : Bool
  names : List (List Char)

def route (path : String) : Route := ⟨path.toList.head? = some '/', Paths.components path⟩

/-- The place a route leads to in a process with this working directory. -/
def Route.place (cwd : List (List Char)) (r : Route) : List (List Char) :=
  walk UP (if r.absolute then [] else cwd) r.names

/-- Where the kernel finds something on a disk without links, it is that place. -/
theorem Route.place_of_follow {κ : Type*} {disk : Folders (List Char) κ}
    {cwd found : List (List Char)} {r : Route}
    (reached : disk.follow (if r.absolute then [] else cwd)
      (r.names.map fun c => if c = UP then .up else .name c) = some found) :
    r.place cwd = found :=
  walk_of_follow reached

/-- `Path::ancestors`: `r` itself, or above it. -/
def Route.Above (q r : Route) : Prop := q.absolute = r.absolute ∧ q.names <+: r.names

/-- A name that a caller gives to an artifact. -/
structure FileName where
  text : String
  nonempty : text.toList ≠ []
  flat : '/' ∉ text.toList
  ordinary : text.toList ≠ ['.'] ∧ text.toList ≠ UP

inductive StoreCall where
  | exists
  | get (name : FileName)
  | open (name : FileName)
  | list
  | put (names : List FileName)

/-- The paths that a call on the bundle of a hash gives to the file system. The root is there, so
`create_dir_all` makes the folders that are not above it. -/
def Touches (root hash : String) (q : Route) : StoreCall → Prop
  | .exists => q = route (join (bundleDir root hash) MARKER)
  | .get name => q = route (join (bundleDir root hash) name.text)
  | .open name => q = route (join (bundleDir root hash) name.text)
  | .list => q = route (bundleDir root hash)
  | .put names =>
    q = route (join (bundleDir root hash) MARKER) ∨
      (q.Above (route (bundleDir root hash)) ∧ ¬ q.Above (route root)) ∨
      ∃ name ∈ names, q = route (join (bundleDir root hash) name.text)

/-- Every path touched for a hash lies under the root. -/
def BundleConfined (cwd : List (List Char)) (root hash : String) : Prop :=
  ∀ call q, Touches root hash q call → (route root).place cwd <+: q.place cwd

/-- The folder of a hash's bundle. -/
def bundlePlace (cwd : List (List Char)) (root hash : String) : List (List Char) :=
  (route (bundleDir root hash)).place cwd

/-- Distinct hashes have distinct folders, and none lies in another one. -/
def BundlesApart (cwd : List (List Char)) (root : String) (registered : Set String) : Prop :=
  ∀ hash ∈ registered, ∀ other ∈ registered, hash ≠ other →
    ¬ bundlePlace cwd root hash <+: bundlePlace cwd root other

/-- The text or its second slice starts with a slash. -/
def Anchored (hash : String) : Prop :=
  hash.toList.head? = some '/' ∨ (shard hash 2).toList.head? = some '/'

/-- The names of both slices and of the text. -/
def bundleNames (hash : String) : List (List Char) :=
  Paths.components (shard hash 0) ++ Paths.components (shard hash 2) ++ Paths.components hash

/-- What is left of these names once every `..` has taken the name before it. -/
def spot (hash : String) : List (List Char) := walk UP [] (bundleNames hash)

theorem components_slash (front rest : List Char) :
    Paths.components (String.ofList (front ++ '/' :: rest)) =
      Paths.components (String.ofList front) ++ Paths.components (String.ofList rest) := by
  simp only [Paths.components, String.toList_ofList, List.splitOn_append_cons_self,
    List.filter_append]

theorem components_flat {name : List Char} (nonempty : name ≠ []) (flat : '/' ∉ name)
    (notDot : name ≠ ['.']) : Paths.components (String.ofList name) = [name] := by
  rw [Paths.components, String.toList_ofList, List.splitOn_eq_singleton flat]
  simp [nonempty, notDot]

theorem route_join_absolute (base : String) {path : String}
    (is : path.toList.head? = some '/') : route (join base path) = route path := by
  rw [join, if_pos is]

/-- A relative path goes on where the base ends. -/
theorem route_join (base : String) {path : String} (relative : path.toList.head? ≠ some '/') :
    route (join base path) =
      ⟨(route base).absolute, (route base).names ++ Paths.components path⟩ := by
  rw [join, if_neg relative]
  by_cases empty : base = ""
  · subst empty
    rw [if_pos (.inl rfl), String.empty_append]
    simp only [route, decide_eq_false relative]
    rfl
  · have chars : base.toList ≠ [] := fun none => empty (String.toList_eq_nil_iff.mp none)
    have head : ∀ rest : List Char, (base.toList ++ rest).head? = base.toList.head? := by
      intro rest
      exact List.head?_append_of_ne_nil _ chars
    by_cases ends : base.toList.getLast? = some '/'
    · rw [if_pos (.inr ends)]
      obtain ⟨front, split⟩ := List.getLast?_eq_some_iff.mp ends
      have whole : base = String.ofList (front ++ '/' :: []) := by
        rw [← split, String.ofList_toList]
      have joined : base ++ path = String.ofList (front ++ '/' :: path.toList) := by
        rw [← String.toList_inj, String.toList_append, split, String.toList_ofList]
        simp
      have names : Paths.components base = Paths.components (String.ofList front) := by
        rw [whole, components_slash]
        exact List.append_nil _
      simp only [route, Route.mk.injEq]
      constructor
      · rw [String.toList_append, head]
      · rw [names, joined, components_slash, String.ofList_toList]
    · rw [if_neg (not_or.mpr ⟨empty, ends⟩)]
      have joined : base ++ "/" ++ path = String.ofList (base.toList ++ '/' :: path.toList) := by
        rw [← String.toList_inj, String.toList_append, String.toList_append, String.toList_ofList]
        simp
      simp only [route, Route.mk.injEq]
      constructor
      · rw [joined, String.toList_ofList, head]
      · rw [joined, components_slash, String.ofList_toList, String.ofList_toList]

theorem takeBytes_head {cs out : List Char} {n : Nat} (is : takeBytes cs (n + 1) = some out) :
    out.head? = cs.head? := by
  cases cs with
  | nil => cases is
  | cons c cs =>
    simp only [takeBytes] at is
    split at is
    · obtain ⟨rest, _, rfl⟩ := Option.map_eq_some_iff.mp is
      rfl
    · cases is

/-- The first slice starts with a slash only where the text does. -/
theorem shard_head {hash : String} (relative : hash.toList.head? ≠ some '/') :
    (shard hash 0).toList.head? ≠ some '/' := by
  rw [shard]
  simp only [dropBytes, Option.bind_some]
  cases slice : takeBytes hash.toList 2 with
  | none => decide
  | some out =>
    simp only [Option.map_some, Option.getD_some, String.toList_ofList]
    rwa [takeBytes_head slice]

theorem route_bundleDir (root : String) {hash : String} (free : ¬ Anchored hash) :
    route (bundleDir root hash) =
      ⟨(route root).absolute, (route root).names ++ bundleNames hash⟩ := by
  obtain ⟨text, slice⟩ := not_or.mp free
  rw [bundleDir, route_join _ text, route_join _ slice, route_join _ (shard_head text),
    bundleNames, List.append_assoc, List.append_assoc, List.append_assoc]

/-- An anchored text leaves the root out of the path. -/
theorem route_bundleDir_anchored (root : String) {hash : String} (anchored : Anchored hash) :
    (route (bundleDir root hash)).absolute = true ∧
      (route (bundleDir root hash)).names ⊆ bundleNames hash := by
  by_cases text : hash.toList.head? = some '/'
  · rw [bundleDir, route_join_absolute _ text]
    exact ⟨decide_eq_true text, List.subset_append_right _ _⟩
  · have slice := anchored.resolve_left text
    rw [bundleDir, route_join _ text, route_join_absolute _ slice]
    refine ⟨decide_eq_true slice, ?_⟩
    intro name mem
    rw [bundleNames, List.append_assoc]
    exact List.mem_append_right _ mem

variable (cwd : List (List Char))

theorem place_behind (root : String) (names : List (List Char)) :
    (Route.mk (route root).absolute ((route root).names ++ names)).place cwd =
      walk UP ((route root).place cwd) names :=
  walk_append _ _ _

/-- What follows the names of the root without rising above it is under the root. -/
theorem place_of_stays (root : String) {names : List (List Char)} (stays : Stays UP 0 names) :
    (Route.mk (route root).absolute ((route root).names ++ names)).place cwd =
      (route root).place cwd ++ walk UP [] names := by
  have here := walk_of_stays ((route root).place cwd) [] stays
  rw [List.append_nil] at here
  rw [place_behind]
  exact here

theorem bundlePlace_eq (root : String) {hash : String} (free : ¬ Anchored hash)
    (stays : Stays UP 0 (bundleNames hash)) :
    bundlePlace cwd root hash = (route root).place cwd ++ spot hash := by
  rw [bundlePlace, route_bundleDir root free]
  exact place_of_stays cwd root stays

theorem FileName.components (name : FileName) :
    Paths.components name.text = [name.text.toList] := by
  have flat := components_flat name.nonempty name.flat name.ordinary.1
  rwa [String.ofList_toList] at flat

theorem FileName.relative (name : FileName) : name.text.toList.head? ≠ some '/' :=
  fun is => name.flat (List.mem_of_mem_head? is)

/-- The marker, as a name. -/
def markerName : FileName where
  text := MARKER
  nonempty := by decide
  flat := by decide
  ordinary := by decide

theorem under_of_file (root : String) {hash : String} (free : ¬ Anchored hash)
    (stays : Stays UP 0 (bundleNames hash)) (name : FileName) :
    (route root).place cwd <+: (route (join (bundleDir root hash) name.text)).place cwd := by
  have plain : UP ∉ [name.text.toList] := by
    intro mem
    exact name.ordinary.2 (List.mem_singleton.mp mem).symm
  rw [route_join _ name.relative, route_bundleDir root free, name.components, List.append_assoc,
    place_of_stays cwd root (stays.snoc plain)]
  exact List.prefix_append _ _

theorem bundleConfined_of_stays (root : String) {hash : String} (free : ¬ Anchored hash)
    (stays : Stays UP 0 (bundleNames hash)) : BundleConfined cwd root hash := by
  have file := under_of_file cwd root free stays
  intro call q touched
  cases call with
  | «exists» =>
    obtain rfl := touched
    exact file markerName
  | get name =>
    obtain rfl := touched
    exact file name
  | «open» name =>
    obtain rfl := touched
    exact file name
  | list =>
    obtain rfl := touched
    rw [route_bundleDir root free, place_of_stays cwd root stays]
    exact List.prefix_append _ _
  | put names =>
    rcases touched with rfl | ⟨above, new⟩ | ⟨name, -, rfl⟩
    · exact file markerName
    · -- A folder on the way that is not above the root begins with the names of the root.
      rw [route_bundleDir root free] at above
      have start : (route root).names <+: q.names := by
        have both := List.prefix_or_prefix_of_prefix above.2 (List.prefix_append _ _)
        exact both.resolve_left (fun short => new ⟨above.1, short⟩)
      obtain ⟨front, names⟩ := start
      obtain ⟨rest, whole⟩ := above.2
      have q_eq : q = ⟨(route root).absolute, (route root).names ++ front⟩ := by
        rw [names, ← above.1]
      rw [← names, List.append_assoc] at whole
      have part : Stays UP 0 (front ++ rest) := by
        rw [List.append_cancel_left whole]
        exact stays
      rw [q_eq, place_of_stays cwd root part.front]
      exact List.prefix_append _ _
    · exact file name

/-- Texts that keep below the store and apart from each other do so in every store. -/
theorem bundles_sound {registered : Set String}
    (each : ∀ hash ∈ registered, ¬ Anchored hash ∧ Stays UP 0 (bundleNames hash))
    (apart : ∀ hash ∈ registered, ∀ other ∈ registered, hash ≠ other →
      ¬ spot hash <+: spot other) (root : String) :
    (∀ hash ∈ registered, BundleConfined cwd root hash) ∧ BundlesApart cwd root registered := by
  constructor
  · intro hash mem
    obtain ⟨free, stays⟩ := each hash mem
    exact bundleConfined_of_stays cwd root free stays
  · intro hash mem other memOther distinct nested
    apply apart hash mem other memOther distinct
    obtain ⟨free, stays⟩ := each hash mem
    obtain ⟨free', stays'⟩ := each other memOther
    rw [bundlePlace_eq cwd root free stays, bundlePlace_eq cwd root free' stays'] at nested
    exact (List.prefix_append_right_inj _).mp nested

/-- A name longer than all of the hash's names. -/
def freshName (hash : String) : List Char :=
  List.replicate ((bundleNames hash).flatten.length + 2) 'r'

def freshRoot (hash : String) : String := String.ofList ('/' :: freshName hash)

theorem freshName_not_mem (hash : String) : freshName hash ∉ bundleNames hash := by
  intro mem
  have short := (List.sublist_flatten_of_mem mem).length_le
  rw [freshName, List.length_replicate] at short
  omega

theorem route_freshRoot (hash : String) : route (freshRoot hash) = ⟨true, [freshName hash]⟩ := by
  have long : (freshName hash).length ≠ 1 := by
    rw [freshName, List.length_replicate]
    omega
  have flat : '/' ∉ freshName hash := by
    intro mem
    exact absurd (List.eq_of_mem_replicate mem) (by decide)
  have names : Paths.components (freshRoot hash) = [freshName hash] := by
    have parts := components_slash [] (freshName hash)
    rw [components_flat (by simp [freshName]) flat (fun is => long (by rw [is]; rfl))] at parts
    exact parts
  rw [route, names, freshRoot, String.toList_ofList]
  rfl

theorem place_freshRoot (hash : String) : (route (freshRoot hash)).place [] = [freshName hash] := by
  have other : freshName hash ≠ UP := by
    intro is
    have first : 'r' ∈ UP := by
      rw [← is]
      exact List.mem_replicate.mpr ⟨by omega, rfl⟩
    exact absurd first (by decide)
  rw [route_freshRoot, Route.place, walk, if_neg other]
  rfl

/-- A text that makes the path absolute or leads above the store does so for some store. -/
theorem stays_of_confined {hash : String}
    (confined : BundleConfined [] (freshRoot hash) hash) :
    ¬ Anchored hash ∧ Stays UP 0 (bundleNames hash) := by
  have inside := confined .list (route (bundleDir (freshRoot hash) hash)) rfl
  rw [place_freshRoot] at inside
  have mem := inside.subset List.mem_cons_self
  have free : ¬ Anchored hash := by
    intro anchored
    obtain ⟨absolute, names⟩ := route_bundleDir_anchored (freshRoot hash) anchored
    rw [Route.place, if_pos absolute] at mem
    rcases mem_walk mem with none | text
    · cases none
    · exact freshName_not_mem hash (names text)
  refine ⟨free, ?_⟩
  by_contra leaves
  rw [route_bundleDir _ free, place_behind, place_freshRoot] at mem
  exact not_mem_walk_of_not_stays ⟨List.not_mem_nil, freshName_not_mem hash⟩ leaves mem

/-- Wherever the store is, its calls keep under its root and the bundles of distinct hashes are
apart exactly when no text makes the path absolute or leads above the store, and no text's
remaining names begin another one's. -/
theorem bundles_confined_and_apart_iff (registered : Set String) :
    (∀ cwd root, (∀ hash ∈ registered, BundleConfined cwd root hash) ∧
      BundlesApart cwd root registered) ↔
    (∀ hash ∈ registered, ¬ Anchored hash ∧ Stays UP 0 (bundleNames hash)) ∧
      ∀ hash ∈ registered, ∀ other ∈ registered, hash ≠ other → ¬ spot hash <+: spot other := by
  constructor
  · intro sound
    have each : ∀ hash ∈ registered, ¬ Anchored hash ∧ Stays UP 0 (bundleNames hash) := by
      intro hash mem
      exact stays_of_confined ((sound [] (freshRoot hash)).1 hash mem)
    refine ⟨each, ?_⟩
    intro hash mem other memOther distinct nested
    apply (sound [] "/").2 hash mem other memOther distinct
    obtain ⟨free, stays⟩ := each hash mem
    obtain ⟨free', stays'⟩ := each other memOther
    rw [bundlePlace_eq [] "/" free stays, bundlePlace_eq [] "/" free' stays']
    exact (List.prefix_append_right_inj _).mpr nested
  · rintro ⟨each, apart⟩ cwd root
    exact bundles_sound cwd each apart root

/-- `/etc` is a text too: the marker is looked for in `/etc`. -/
theorem bundle_of_absolute_hash :
    ¬ ∀ (registered : Set String) (cwd : List (List Char)) (root : String),
      (∀ hash ∈ registered, BundleConfined cwd root hash) ∧ BundlesApart cwd root registered := by
  intro always
  have under := (always {"/etc"} [] "/data/artifacts").1 "/etc" rfl .exists _ rfl
  revert under
  decide

/-- Two texts whose bundles nest. -/
example : spot "abcd" <+: spot "abcd/efgh" := by decide

/-- A text without slashes and dots, as every hash of an ingest is. -/
def Plain (hash : String) : Prop := hash ≠ "" ∧ '/' ∉ hash.toList ∧ '.' ∉ hash.toList

theorem subset_of_takeBytes {cs out : List Char} {n : Nat} (is : takeBytes cs n = some out) :
    out ⊆ cs := by
  induction cs generalizing n out with
  | nil =>
    cases n with
    | zero =>
      cases is
      exact List.nil_subset _
    | succ n => cases is
  | cons c cs ih =>
    cases n with
    | zero =>
      cases is
      exact List.nil_subset _
    | succ n =>
      simp only [takeBytes] at is
      split at is
      · obtain ⟨rest, later, rfl⟩ := Option.map_eq_some_iff.mp is
        exact List.cons_subset_cons c (ih later)
      · cases is

theorem subset_of_dropBytes {cs out : List Char} {n : Nat} (is : dropBytes cs n = some out) :
    out ⊆ cs := by
  induction cs generalizing n with
  | nil =>
    cases n with
    | zero =>
      cases is
      exact List.Subset.refl _
    | succ n => cases is
  | cons c cs ih =>
    cases n with
    | zero =>
      cases is
      exact List.Subset.refl _
    | succ n =>
      simp only [dropBytes] at is
      split at is
      · exact List.subset_cons_of_subset c (ih is)
      · cases is

/-- A slice of a plain text is one name. -/
theorem shard_plain {hash : String} (plain : Plain hash) (n : Nat) :
    '.' ∉ (shard hash n).toList ∧
      Paths.components (shard hash n) = [(shard hash n).toList] := by
  have one : ∀ text : String, text.toList ≠ [] → '/' ∉ text.toList → '.' ∉ text.toList →
      '.' ∉ text.toList ∧ Paths.components text = [text.toList] := by
    intro text nonempty flat dotless
    have name := components_flat nonempty flat (fun is => dotless (by simp [is]))
    rw [String.ofList_toList] at name
    exact ⟨dotless, name⟩
  cases slice : (dropBytes hash.toList n).bind (takeBytes · 2) with
  | none =>
    have text : shard hash n = "00" := by rw [shard, slice]; rfl
    rw [text]
    exact one "00" (by decide) (by decide) (by decide)
  | some out =>
    have text : shard hash n = String.ofList out := by rw [shard, slice]; rfl
    obtain ⟨rest, dropped, taken⟩ := Option.bind_eq_some_iff.mp slice
    have part : out ⊆ hash.toList :=
      List.Subset.trans (subset_of_takeBytes taken) (subset_of_dropBytes dropped)
    have nonempty : out ≠ [] := by
      rintro rfl
      have first := takeBytes_head taken
      cases rest with
      | nil => cases taken
      | cons c rest => cases first
    apply one <;> rw [text, String.toList_ofList]
    · exact nonempty
    · exact fun mem => plain.2.1 (part mem)
    · exact fun mem => plain.2.2 (part mem)

theorem bundleNames_plain {hash : String} (plain : Plain hash) :
    UP ∉ bundleNames hash ∧
      bundleNames hash = [(shard hash 0).toList, (shard hash 2).toList, hash.toList] := by
  have nonempty : hash.toList ≠ [] := fun none => plain.1 (String.toList_eq_nil_iff.mp none)
  have name := components_flat nonempty plain.2.1 (fun is => plain.2.2 (by simp [is]))
  rw [String.ofList_toList] at name
  obtain ⟨dotless, first⟩ := shard_plain plain 0
  obtain ⟨dotless', second⟩ := shard_plain plain 2
  have names : bundleNames hash =
      [(shard hash 0).toList, (shard hash 2).toList, hash.toList] := by
    rw [bundleNames, first, second, name]
    rfl
  refine ⟨?_, names⟩
  rw [names]
  intro mem
  have dot : '.' ∈ UP := List.mem_cons_self
  simp only [List.mem_cons, List.not_mem_nil, or_false] at mem
  rcases mem with is | is | is
  · exact dotless (is ▸ dot)
  · exact dotless' (is ▸ dot)
  · exact plain.2.2 (is ▸ dot)

theorem spot_plain {hash : String} (plain : Plain hash) :
    spot hash = [(shard hash 0).toList, (shard hash 2).toList, hash.toList] := by
  obtain ⟨names, is⟩ := bundleNames_plain plain
  rw [spot, walk_names _ _ names, is]
  rfl

theorem slash_not_mem_of_components {text : String} (one : Paths.components text = [text.toList]) :
    '/' ∉ text.toList := by
  have mem : text.toList ∈ Paths.components text := by
    rw [one]
    exact List.mem_cons_self
  exact Paths.sep_not_mem_of_mem_splitOn (List.mem_of_mem_filter mem)

theorem free_of_plain {hash : String} (plain : Plain hash) :
    ¬ Anchored hash ∧ Stays UP 0 (bundleNames hash) := by
  obtain ⟨names, -⟩ := bundleNames_plain plain
  constructor
  · rintro (text | slice)
    · exact plain.2.1 (List.mem_of_mem_head? text)
    · exact slash_not_mem_of_components (shard_plain plain 2).2 (List.mem_of_mem_head? slice)
  · exact stays_names names

/-- Plain texts keep the store in order. -/
theorem bundles_of_plain {registered : Set String} (plain : ∀ hash ∈ registered, Plain hash)
    (cwd : List (List Char)) (root : String) :
    (∀ hash ∈ registered, BundleConfined cwd root hash) ∧ BundlesApart cwd root registered := by
  apply bundles_sound
  · intro hash mem
    exact free_of_plain (plain hash mem)
  · intro hash mem other memOther distinct nested
    rw [spot_plain (plain hash mem), spot_plain (plain other memOther)] at nested
    have same := nested.eq_of_length (by simp)
    simp only [List.cons.injEq, and_true, String.toList_inj] at same
    exact distinct same.2.2

end BVault.Worker
