import BVault.Core.XmlTree
import Mathlib.Data.List.Sort
import Mathlib.Data.String.Basic

/-!
# What a parser gets of the document

The escaper keeps every visible character, but neither line ends nor tabs, and it
lets characters pass that no document may have. A document is read back exactly
where the texts have neither.
-/

namespace BVault.Core

open Xml

namespace XmlReader

/-- The tracks of a collection. -/
def collection (root : Element) : List Element :=
  (root.inside.named "COLLECTION").flatMap fun e => e.inside.named "TRACK"

/-- The nodes under the root of the playlists. -/
def nodes (root : Element) : List Element :=
  ((root.inside.named "PLAYLISTS").flatMap fun e => e.inside.named "NODE").flatMap
    fun e => e.inside.named "NODE"

def readText (e : Element) (name : String) : Option String := (e.attr name).map String.ofList

/-- The id of a TRACK and its texts. -/
def readTrack (e : Element) : Option String × List (Option String) :=
  (readText e "TrackID", textNames.map (readText e))

/-- The name of a NODE and the keys of its tracks. -/
def readNode (e : Element) : Option String × List (Option String) :=
  (readText e "Name", (e.inside.named "TRACK").map (readText · "Key"))

/-- A parser accepts the document, and gets every track in order with its texts and every playlist
in the order of the names with its ids. -/
def Recovers (doc : String) (tracks : List XmlTrack) (playlists : PlaylistMap) : Prop :=
  ∃ root, parse doc = some root ∧
    (collection root).map readTrack =
      tracks.map (fun t => (some (toString t.id.toNat), t.texts.map some)) ∧
    ∃ ordered : List (String × List UInt32),
      ordered.Perm (playlists.entries.filter fun p => p.1 ≠ "") ∧
      (ordered.map Prod.fst).Pairwise (· < ·) ∧
      (nodes root).map readNode =
        ordered.map fun p => (some p.1, p.2.map fun id => some (toString id.toNat))

/-- What becomes of a text on its way. -/
def passed (s : String) : String := String.ofList (normal s.toList)

theorem passed_eq_self_iff {s : String} :
    passed s = s ↔ '\t' ∉ s.toList ∧ '\n' ∉ s.toList ∧ '\r' ∉ s.toList := by
  rw [passed, ← normal_eq_self_iff, ← String.toList_inj, String.toList_ofList]

theorem passed_of_plain {s : String} (plain : Plain s) : passed s = s := by
  have blank : ¬ LocationChar '\t' ∧ ¬ LocationChar '\n' ∧ ¬ LocationChar '\r' := by decide
  exact passed_eq_self_iff.mpr ⟨fun mem => blank.1 (plain _ mem), fun mem => blank.2.1 (plain _ mem),
    fun mem => blank.2.2 (plain _ mem)⟩

def value (raw : List Char) : List Char := valueOf (lineEnds raw)

theorem value_esc (s : String) : value (esc s).toList = normal s.toList := by
  rw [value, esc, String.toList_ofList, escChar_escapes.valueOf]

/-- An attribute is read as its text passes. -/
theorem readText_of_attr {e : Element} {name s : String} (written : e.attr name = some (esc s).toList) :
    readText (e.mapValues value) name = some (passed s) := by
  rw [readText, attr_mapValues, written, Option.map_some, Option.map_some, value_esc]
  rfl

theorem readText_of_plain {e : Element} {name s : String} (plain : Plain s)
    (written : e.attr name = some s.toList) : readText (e.mapValues value) name = some s := by
  have escaped : e.attr name = some (esc s).toList := by rw [written, esc_of_locationChars plain]
  rw [readText_of_attr escaped, passed_of_plain plain]

theorem collection_mapValues (f : List Char → List Char) (root : Element) :
    collection (root.mapValues f) = (collection root).map (Element.mapValues f) := by
  rw [collection, collection, Element.mapValues, named_mapValues, List.flatMap_map, List.map_flatMap]
  exact List.flatMap_congr fun e _ => named_mapValues f e.inside "TRACK"

theorem nodes_mapValues (f : List Char → List Char) (root : Element) :
    nodes (root.mapValues f) = (nodes root).map (Element.mapValues f) := by
  have folders : ((root.mapValues f).inside.named "PLAYLISTS").flatMap (fun e =>
      e.inside.named "NODE") = ((root.inside.named "PLAYLISTS").flatMap fun e =>
        e.inside.named "NODE").map (Element.mapValues f) := by
    rw [Element.mapValues, named_mapValues, List.flatMap_map, List.map_flatMap]
    exact List.flatMap_congr fun e _ => named_mapValues f e.inside "NODE"
  rw [nodes, nodes, folders, List.flatMap_map, List.map_flatMap]
  exact List.flatMap_congr fun e _ => named_mapValues f e.inside "NODE"

section
variable {toUppercase : String → String} {tracks : List XmlTrack} {playlists : PlaylistMap}
  {opts : XmlExportOptions}

/-- Elements of one name are all found under it. -/
theorem filter_name {α : Type*} (xs : List α) {element : α → Element} {name : String}
    (named : ∀ x, (element x).name = name) :
    (xs.map element).filter (fun e => e.name = name) = xs.map element := by
  rw [List.filter_eq_self]
  intro e mem
  obtain ⟨x, -, rfl⟩ := List.mem_map.mp mem
  exact decide_eq_true (named x)

theorem collection_root :
    collection (rootElement toUppercase tracks playlists opts) =
      tracks.map (trackElement toUppercase opts) := by
  have one : (rootElement toUppercase tracks playlists opts).inside.named "COLLECTION" =
      [collectionElement toUppercase opts tracks] := by
    rw [rootElement, named_block]
    rfl
  rw [collection, one, List.flatMap_singleton, collectionElement, named_block]
  exact filter_name tracks fun _ => rfl

theorem nodes_root :
    nodes (rootElement toUppercase tracks playlists opts) =
      playlists.names.map fun name => nodeElement name (playlists.get name) := by
  have one : (rootElement toUppercase tracks playlists opts).inside.named "PLAYLISTS" =
      [playlistsElement playlists] := by
    rw [rootElement, named_block]
    rfl
  have folder : (playlistsElement playlists).inside.named "NODE" =
      [⟨"NODE", attrsOf (rootAttributes playlists.names.length),
        .block 4 (playlists.names.map fun name => nodeElement name (playlists.get name))⟩] := by
    rw [playlistsElement, named_block]
    rfl
  rw [nodes, one, List.flatMap_singleton, folder, List.flatMap_singleton, named_block]
  exact filter_name playlists.names fun _ => rfl

theorem readTrack_written (t : XmlTrack) :
    readTrack ((trackElement toUppercase opts t).mapValues value) =
      (some (toString t.id.toNat), t.texts.map fun s => some (passed s)) := by
  have id : (trackElement toUppercase opts t).attr "TrackID" = some (toString t.id.toNat).toList := rfl
  rw [readTrack, readText_of_plain (plain_toString _) id]
  refine congrArg (Prod.mk _) ?_
  simp only [textNames, XmlTrack.texts, List.map_cons, List.map_nil]
  rw [readText_of_attr (s := t.title) rfl, readText_of_attr (s := t.artist) rfl,
    readText_of_attr (s := t.album.getD "") rfl, readText_of_attr (s := t.genre.getD "") rfl,
    readText_of_attr (s := t.comment.getD "") rfl, readText_of_attr (s := t.label.getD "") rfl]

theorem readNode_written (name : String) (ids : List UInt32) :
    readNode ((nodeElement name ids).mapValues value) =
      (some (passed name), ids.map fun id => some (toString id.toNat)) := by
  have title : (nodeElement name ids).attr "Name" = some (esc name).toList := rfl
  have keys : (nodeElement name ids).inside.named "TRACK" = ids.map keyElement := by
    rw [nodeElement, named_block]
    exact filter_name ids fun _ => rfl
  have inside : ((nodeElement name ids).mapValues value).inside.named "TRACK" =
      (ids.map keyElement).map (Element.mapValues value) := by
    rw [← keys]
    exact named_mapValues value (nodeElement name ids).inside "TRACK"
  rw [readNode, readText_of_attr title, inside, List.map_map, List.map_map]
  refine congrArg (Prod.mk _) (List.map_congr_left fun id _ => ?_)
  have key : (keyElement id).attr "Key" = some (toString id.toNat).toList := rfl
  exact readText_of_plain (plain_toString _) key

/-- What is read of the tracks. -/
theorem tracks_read : (collection ((rootElement toUppercase tracks playlists opts).mapValues
    value)).map readTrack =
      tracks.map fun t => (some (toString t.id.toNat), t.texts.map fun s => some (passed s)) := by
  rw [collection_mapValues, collection_root, List.map_map, List.map_map]
  exact List.map_congr_left fun t _ => readTrack_written t

/-- What is read of the playlists. -/
theorem nodes_read : (nodes ((rootElement toUppercase tracks playlists opts).mapValues
    value)).map readNode = playlists.names.map fun name =>
      (some (passed name), (playlists.get name).map fun id => some (toString id.toNat)) := by
  rw [nodes_mapValues, nodes_root, List.map_map, List.map_map]
  exact List.map_congr_left fun name _ => readNode_written name (playlists.get name)

/-- A generated document is well-formed exactly when its texts are legal. -/
theorem parse_generated {doc : String} {root : Element}
    (generated : generateXml toUppercase tracks playlists opts = some doc) :
    parse doc = some root ↔ (∀ s ∈ writtenTexts toUppercase tracks playlists opts, LegalText s) ∧
      (rootElement toUppercase tracks playlists opts).mapValues value = root := by
  have holds := root_holds toUppercase tracks playlists opts
  rw [generateXml_eq generated, parse_escaped_iff escChar_escapes holds.escaped, holds.legal]
  rfl

end

end XmlReader

namespace PlaylistMap
variable (playlists : PlaylistMap)

theorem names_perm : playlists.names.Perm ((playlists.entries.map Prod.fst).filter (· ≠ "")) :=
  List.mergeSort_perm _ _

theorem names_increasing : playlists.names.Pairwise (· < ·) := by
  have sorted : playlists.names.Pairwise (· ≤ ·) := List.pairwise_mergeSort' (· ≤ ·) _
  have distinct : playlists.names.Nodup :=
    playlists.names_perm.nodup_iff.mpr (playlists.distinct.filter _)
  exact (sorted.and distinct).imp fun both => lt_of_le_of_ne both.1 both.2

/-- The playlists in the order of their nodes. -/
def ordered : List (String × List UInt32) := playlists.names.map fun name => (name, playlists.get name)

theorem ordered_names : playlists.ordered.map Prod.fst = playlists.names := by
  rw [ordered, List.map_map]
  exact List.map_id' _

theorem ordered_perm : playlists.ordered.Perm (playlists.entries.filter fun p => p.1 ≠ "") := by
  have listed : (playlists.entries.map Prod.fst).filter (· ≠ "") =
      (playlists.entries.filter fun p => p.1 ≠ "").map Prod.fst := List.filter_map
  have found : ∀ p ∈ playlists.entries.filter fun p => p.1 ≠ "",
      ((fun name => (name, playlists.get name)) ∘ Prod.fst) p = p := by
    rintro ⟨name, ids⟩ mem
    have there := (Pointwise.lookup_iff_mem playlists.distinct).mpr (List.mem_of_mem_filter mem)
    rw [Function.comp_apply, get, there, Option.getD_some]
  have all := playlists.names_perm.map fun name => (name, playlists.get name)
  rw [listed, List.map_map] at all
  rwa [List.map_congr_left found, List.map_id'] at all

/-- There is only one order of the names. -/
theorem names_unique {other : List (String × List UInt32)}
    (perm : other.Perm (playlists.entries.filter fun p => p.1 ≠ ""))
    (increasing : (other.map Prod.fst).Pairwise (· < ·)) : other.map Prod.fst = playlists.names := by
  have same := (perm.trans playlists.ordered_perm.symm).map Prod.fst
  rw [ordered_names] at same
  exact same.eq_of_pairwise (fun a b _ _ first second => absurd first (lt_asymm second))
    increasing playlists.names_increasing

end PlaylistMap

/-- The keys have names, the texts only legal characters, and those that are read back neither tabs
nor line ends. -/
structure Writable (toUppercase : String → String) (tracks : List XmlTrack)
    (playlists : PlaylistMap) (opts : XmlExportOptions) : Prop where
  keys : ∀ t ∈ tracks, ∀ k, t.key = some k → k.pitchClass.toNat < 12
  legal : ∀ s ∈ writtenTexts toUppercase tracks playlists opts, ∀ c ∈ s.toList, isChar c = true
  spaces : ∀ s ∈ tracks.flatMap XmlTrack.texts ++ playlists.names,
    '\t' ∉ s.toList ∧ '\n' ∉ s.toList ∧ '\r' ∉ s.toList

section
variable (toUppercase : String → String) (tracks : List XmlTrack) (playlists : PlaylistMap)
  (opts : XmlExportOptions)

theorem tonality_iff (t : XmlTrack) :
    (∃ name, t.tonality = some name) ↔ ∀ k, t.key = some k → k.pitchClass.toNat < 12 := by
  rw [XmlTrack.tonality]
  cases t.key with
  | none => simp
  | some k =>
    have named : (∃ name, k.name = some name) ↔ k.pitchClass.toNat < 12 := by
      rw [← Option.isSome_iff_exists, Key.name, Option.isSome_map, isSome_getElem?]
      exact Iff.rfl
    simpa using named

theorem generates_iff : (∃ doc, generateXml toUppercase tracks playlists opts = some doc) ↔
    ∀ t ∈ tracks, ∀ k, t.key = some k → k.pitchClass.toNat < 12 := by
  have written : (∃ doc, generateXml toUppercase tracks playlists opts = some doc) ↔
      ∃ texts, tracks.mapM (writeTrack toUppercase opts) = some texts := by
    rw [← Option.isSome_iff_exists, ← Option.isSome_iff_exists, generateXml, Option.isSome_map]
  rw [written, Pointwise.exists_mapM_iff]
  refine forall₂_congr fun t _ => ?_
  rw [← tonality_iff, ← Option.isSome_iff_exists, ← Option.isSome_iff_exists, writeTrack,
    Option.isSome_map]

/-- The texts of the tracks come back as they were where nothing changes on their way. -/
theorem tracks_recovered_iff :
    (tracks.map fun t => (some (toString t.id.toNat), t.texts.map fun s => some (XmlReader.passed s))) =
      tracks.map (fun t => (some (toString t.id.toNat), t.texts.map some)) ↔
        ∀ s ∈ tracks.flatMap XmlTrack.texts, XmlReader.passed s = s := by
  rw [List.map_inj_left, List.forall_mem_flatMap]
  refine forall₂_congr fun t _ => ?_
  rw [Prod.mk.injEq, List.map_inj_left]
  simp only [true_and, Option.some_inj]

theorem nodes_recovered_iff :
    (∃ ordered : List (String × List UInt32),
      ordered.Perm (playlists.entries.filter fun p => p.1 ≠ "") ∧
      (ordered.map Prod.fst).Pairwise (· < ·) ∧
      (playlists.names.map fun name => (some (XmlReader.passed name),
        (playlists.get name).map fun id => some (toString id.toNat))) =
          ordered.map fun p => (some p.1, p.2.map fun id => some (toString id.toNat))) ↔
      ∀ s ∈ playlists.names, XmlReader.passed s = s := by
  constructor
  · rintro ⟨ordered, perm, increasing, same⟩
    have firsts := congrArg (List.map Prod.fst) same
    rw [List.map_map, List.map_map] at firsts
    have names : ordered.map (fun p => some p.1) = playlists.names.map some := by
      rw [← playlists.names_unique perm increasing, List.map_map]
      rfl
    have each := List.map_inj_left.mp (firsts.trans names)
    exact fun s mem => Option.some.inj (each s mem)
  · intro unchanged
    refine ⟨playlists.ordered, playlists.ordered_perm, ?_, ?_⟩
    · rw [playlists.ordered_names]
      exact playlists.names_increasing
    · rw [PlaylistMap.ordered, List.map_map]
      refine List.map_congr_left fun name mem => ?_
      rw [unchanged name mem]
      rfl

/-- The document is generated, well-formed and read back exactly where the texts are fit for it. -/
theorem generateXml_recovers_iff :
    (∃ doc, generateXml toUppercase tracks playlists opts = some doc ∧
      XmlReader.Recovers doc tracks playlists) ↔ Writable toUppercase tracks playlists opts := by
  have passes : (∀ s ∈ tracks.flatMap XmlTrack.texts ++ playlists.names, XmlReader.passed s = s) ↔
      ∀ s ∈ tracks.flatMap XmlTrack.texts ++ playlists.names,
        '\t' ∉ s.toList ∧ '\n' ∉ s.toList ∧ '\r' ∉ s.toList :=
    forall₂_congr fun s _ => XmlReader.passed_eq_self_iff
  rw [List.forall_mem_append] at passes
  constructor
  · rintro ⟨doc, generated, root, parsed, tracksRead, nodesRead⟩
    obtain ⟨legal, rfl⟩ := (XmlReader.parse_generated generated).mp parsed
    rw [XmlReader.tracks_read, tracks_recovered_iff] at tracksRead
    simp only [XmlReader.nodes_read] at nodesRead
    exact ⟨(generates_iff toUppercase tracks playlists opts).mp ⟨doc, generated⟩, legal,
      passes.mp ⟨tracksRead, (nodes_recovered_iff playlists).mp nodesRead⟩⟩
  · rintro ⟨keys, legal, spaces⟩
    obtain ⟨doc, generated⟩ := (generates_iff toUppercase tracks playlists opts).mpr keys
    obtain ⟨texts, names⟩ := passes.mpr spaces
    refine ⟨doc, generated, _, (XmlReader.parse_generated generated).mpr ⟨legal, rfl⟩, ?_, ?_⟩
    · rw [XmlReader.tracks_read, tracks_recovered_iff]
      exact texts
    · simp only [XmlReader.nodes_read]
      exact (nodes_recovered_iff playlists).mpr names

end

/-- A track of nothing but a title. -/
def titled (title : String) : XmlTrack where
  id := 1
  filePath := "a.mp3"
  title := title
  artist := ""
  album := none
  genre := none
  label := none
  durationSecs := 0
  sampleRate := 44100
  bitDepth := 16
  bitrate := 0
  bpm := 0
  key := none
  fileSize := 0
  year := none
  comment := none
  trackNumber := none
  beatGrid := ⟨[]⟩
  firstBeatMs := 0
  cuePoints := []
  fileType := .mp3

def defaultOptions : XmlExportOptions := ⟨"bvault", "1.0.0", "bvault", "2025-01-01", true, "/"⟩

/-- A title with a tab comes back with a space, and one with a control character comes back from
no parser. -/
theorem titled_not_recovered :
    (∃ doc, generateXml id [titled "a\tb"] ⟨[], List.nodup_nil⟩ defaultOptions = some doc ∧
      ¬ XmlReader.Recovers doc [titled "a\tb"] ⟨[], List.nodup_nil⟩) ∧
    ∃ doc, generateXml id [titled "a\u0001b"] ⟨[], List.nodup_nil⟩ defaultOptions = some doc ∧
      parse doc = none := by
  have generates (title : String) : ∃ doc,
      generateXml id [titled title] ⟨[], List.nodup_nil⟩ defaultOptions = some doc := by
    rw [generates_iff]
    intro t mem k keyed
    obtain rfl := List.mem_singleton.mp mem
    cases keyed
  constructor
  · obtain ⟨doc, generated⟩ := generates "a\tb"
    refine ⟨doc, generated, ?_⟩
    rintro ⟨root, parsed, tracksRead, -⟩
    obtain ⟨-, rfl⟩ := (XmlReader.parse_generated generated).mp parsed
    rw [XmlReader.tracks_read, tracks_recovered_iff] at tracksRead
    have kept := XmlReader.passed_eq_self_iff.mp (tracksRead "a\tb" (by simp [XmlTrack.texts, titled]))
    exact kept.1 (by decide)
  · obtain ⟨doc, generated⟩ := generates "a\u0001b"
    refine ⟨doc, generated, ?_⟩
    rw [Option.eq_none_iff_forall_ne_some]
    intro root parsed
    have legal := ((XmlReader.parse_generated generated).mp parsed).1 "a\u0001b"
      (by simp [writtenTexts, XmlTrack.written, XmlTrack.texts, titled])
    have illegal : isChar '\u0001' = false := by decide
    rw [legal '\u0001' (by decide)] at illegal
    cases illegal

end BVault.Core
