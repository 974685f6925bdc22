import BVault.Core.XmlLocation
import BVault.Lib.Pointwise
import BVault.Lib.XmlLines

/-!
# The document as a tree

What `generate_xml` writes is the document of a tree of elements, line by line.
All its quoted texts are escaped ones, and it is as legal as they are.
-/

namespace BVault.Core

open Xml
open Analysis (FileType)

theorem escChar_of_not_mem {c : Char} (plain : c ∉ ['&', '<', '>', '"', '\'']) :
    escChar c = [c] := by
  simp only [List.mem_cons, List.not_mem_nil, or_false, not_or] at plain
  obtain ⟨amp, lt, gt, quot, apos⟩ := plain
  rw [escChar, if_neg amp, if_neg lt, if_neg gt, if_neg quot, if_neg apos]

/-- Every mark is written in legal characters other than white space and quotes. -/
theorem escChar_of_mem {c : Char} (mark : c ∈ ['&', '<', '>', '"', '\'']) :
    isSpace c = false ∧ isChar c = true ∧
      (escChar c).all (fun d => !isSpace d && isChar d && d != '"') = true ∧
      ∀ rest, valueFrom none (escChar c ++ rest) = (valueFrom none rest).map (spaced c :: ·) := by
  simp only [List.mem_cons, List.not_mem_nil, or_false] at mark
  rcases mark with rfl | rfl | rfl | rfl | rfl
  all_goals exact ⟨rfl, rfl, by decide, fun rest => rfl⟩

theorem mem_escChar {c d : Char} (mark : c ∈ ['&', '<', '>', '"', '\'']) (mem : d ∈ escChar c) :
    isSpace d = false ∧ isChar d = true ∧ d ≠ '"' := by
  have each := List.all_eq_true.mp (escChar_of_mem mark).2.2.1 d mem
  simp only [Bool.and_eq_true, Bool.not_eq_true', bne_iff_ne] at each
  exact ⟨each.1.1, each.1.2, each.2⟩

theorem escChar_escapes : Escapes escChar where
  space c space := by
    refine escChar_of_not_mem ?_
    intro mark
    rw [(escChar_of_mem mark).1] at space
    cases space
  visible c space := by
    by_cases mark : c ∈ ['&', '<', '>', '"', '\'']
    · exact fun d mem => (mem_escChar mark mem).1
    · rw [escChar_of_not_mem mark]
      exact List.forall_mem_singleton.mpr space
  read c := by
    by_cases mark : c ∈ ['&', '<', '>', '"', '\'']
    · exact (escChar_of_mem mark).2.2.2
    · intro rest
      have amp : c ≠ '&' := by
        rintro rfl
        exact mark (by decide)
      have lt : c ≠ '<' := by
        rintro rfl
        exact mark (by decide)
      rw [escChar_of_not_mem mark, List.singleton_append, valueFrom, if_neg amp, if_neg lt]
  quote c := by
    by_cases mark : c ∈ ['&', '<', '>', '"', '\'']
    · exact fun mem => (mem_escChar mark mem).2.2 rfl
    · rw [escChar_of_not_mem mark, List.mem_singleton]
      rintro rfl
      exact mark (by decide)
  legal c := by
    by_cases mark : c ∈ ['&', '<', '>', '"', '\'']
    · exact iff_of_true (fun d mem => (mem_escChar mark mem).2.1) (escChar_of_mem mark).2.1
    · rw [escChar_of_not_mem mark]
      exact List.forall_mem_singleton

/-- What stands between quotes. -/
def Shown (v : String) : Prop := ∃ s, v = esc s

def LegalText (s : String) : Prop := Legal s.toList

theorem shown_esc (s : String) : Shown (esc s) := ⟨s, rfl⟩

theorem legalText_esc {s : String} : LegalText (esc s) ↔ LegalText s := by
  rw [LegalText, esc, String.toList_ofList]
  exact escChar_escapes.legal_flatMap s.toList

def Plain (s : String) : Prop := ∀ c ∈ s.toList, LocationChar c

instance (s : String) : Decidable (Plain s) :=
  decidable_of_iff (s.toList.all fun c => decide (LocationChar c)) (by
    rw [List.all_eq_true]
    exact forall₂_congr fun _ _ => decide_eq_true_iff)

theorem Plain.append {s t : String} (first : Plain s) (second : Plain t) : Plain (s ++ t) := by
  intro c mem
  rw [String.toList_append, List.mem_append] at mem
  exact mem.elim (first c) (second c)

theorem Plain.shown {s : String} (plain : Plain s) : Shown s := ⟨s, (esc_of_locationChars plain).symm⟩

theorem Plain.legal {s : String} (plain : Plain s) : LegalText s := by
  intro c mem
  rcases plain c mem with letter | mark
  · refine isChar_of_isNameChar ?_
    rcases Bool.or_eq_true_iff.mp letter with alpha | digit
    · simp [isNameChar, isNameStart, alpha]
    · simp [isNameChar, digit]
  · have marks : ['-', '_', '.', '~', '/', ':', '%'].all isChar = true := by decide
    exact List.all_eq_true.mp marks c mark

theorem plain_toString (n : Nat) : Plain (toString n) :=
  fun _ mem => Or.inl (Hex.isAlphanum_of_mem_toString mem)

theorem plain_int (i : Int) : Plain (toString i) := by
  cases i with
  | ofNat n => exact plain_toString n
  | negSucc n =>
    have minus : Plain "-" := by decide
    exact minus.append (plain_toString (n + 1))

theorem plain_fixed (digits : Nat) (x : Float) : Plain (fixed digits x) := by
  have empty : Plain "" := by decide
  have minus : Plain "-" := by decide
  have point : Plain "." := by decide
  have inf : Plain "inf" := by decide
  have nan : Plain "NaN" := by decide
  have digitsOf (n : Nat) : Plain (padded 10 digits n) :=
    fun _ mem => Or.inl (isAlphanum_of_mem_padded (by decide) (by decide) mem)
  have sign : Plain (if x.toBits.toNat / 2 ^ 63 = 1 then "-" else "") := by
    split
    · exact minus
    · exact empty
  rw [fixed]
  split
  · split
    · exact sign.append inf
    · exact nan
  · exact ((sign.append (plain_toString _)).append point).append (digitsOf _)

theorem plain_fileUri (path : String) : Plain (fileUri path) := locationChars path

/-- A pitch has a plain name up to its sharp. -/
theorem legalText_name {k : Key} {name : String} (named : k.name = some name) : LegalText name := by
  have notes : ∀ note ∈ Key.noteNames, (note.toList ++ ['m']).all isChar = true := by decide
  obtain ⟨note, listed, rfl⟩ := Option.map_eq_some_iff.mp named
  have legal := List.all_eq_true.mp (notes note (List.mem_of_getElem? listed))
  split
  · exact (legal_append.mp legal).1
  · rw [LegalText, String.toList_append]
    exact legal

def attrsOf (values : List (String × String)) : Attrs := values.map fun v => (v.1, v.2.toList)

theorem toList_attributes (values : List (String × String)) :
    (attributes values).toList = writeAttrs (attrsOf values) := by
  rw [attributes, String.toList_join, List.flatMap_map, attrsOf, writeAttrs, List.flatMap_map]
  refine List.flatMap_congr ?_
  intro v _
  simp [writeAttr]

/-- An element without anything inside, as a format string writes it. -/
theorem line_empty {indent : Nat} {name : String} {front : String}
    (spelled : front.toList = List.replicate indent ' ' ++ '<' :: name.toList)
    (values : List (String × String)) :
    (front ++ attributes values ++ "/>\n").toList = lineOf indent ⟨name, attrsOf values, .nil⟩ := by
  rw [String.toList_append, String.toList_append, spelled, toList_attributes, lineOf_empty]
  simp

/-- An element around others. -/
theorem line_block {indent : Nat} {name : String} {front stop inner : String} {es : List Element}
    (spelled : front.toList = List.replicate indent ' ' ++ '<' :: name.toList)
    (stopped : stop.toList = List.replicate indent ' ' ++ '<' :: '/' :: (name.toList ++ ['>', '\n']))
    (inside : inner.toList = es.flatMap (lineOf (indent + 2))) (values : List (String × String)) :
    (front ++ attributes values ++ ">\n" ++ inner ++ stop).toList =
      lineOf indent ⟨name, attrsOf values, .block indent es⟩ := by
  rw [String.toList_append, String.toList_append, String.toList_append, String.toList_append,
    spelled, stopped, inside, toList_attributes, lineOf_block]
  simp

def tempoElement (inizio bpm : Float) (battito : Nat) : Element :=
  ⟨"TEMPO", attrsOf (tempoAttributes inizio bpm battito), .nil⟩

def tempoElementsFrom (prevTempo : Option UInt16) : List Beat → List Element
  | [] => []
  | beat :: beats =>
    if prevTempo ≠ some beat.tempo100 then
      tempoElement (beat.timeMs / 1000) (beat.tempo100.toFloat / 100)
        (max 1 (min beat.beatNumber.toNat 4)) :: tempoElementsFrom (some beat.tempo100) beats
    else tempoElementsFrom prevTempo beats

def tempoElements (grid : BeatGrid) (firstBeatMs fallbackBpm : Float) : List Element :=
  if grid.beats.isEmpty then
    if fallbackBpm > 0 then [tempoElement (firstBeatMs / 1000) fallbackBpm 1] else []
  else tempoElementsFrom none grid.beats

def markElement (includeColors : Bool) (cue : CuePoint) : Element :=
  ⟨"POSITION_MARK", attrsOf (markAttributes cue includeColors), .nil⟩

def trackElement (toUppercase : String → String) (opts : XmlExportOptions) (t : XmlTrack) :
    Element :=
  ⟨"TRACK", attrsOf (trackAttributes toUppercase t opts (t.tonality.getD "")),
    if t.hasChildren then
      .block 4 (tempoElements t.beatGrid t.firstBeatMs t.bpm ++
        t.cuePoints.map (markElement opts.includeCueColors))
    else .nil⟩

def keyElement (id : UInt32) : Element := ⟨"TRACK", attrsOf (keyAttributes id), .nil⟩

def nodeElement (name : String) (ids : List UInt32) : Element :=
  ⟨"NODE", attrsOf (nodeAttributes name ids), .block 6 (ids.map keyElement)⟩

def collectionElement (toUppercase : String → String) (opts : XmlExportOptions)
    (tracks : List XmlTrack) : Element :=
  ⟨"COLLECTION", attrsOf [("Entries", toString tracks.length)],
    .block 2 (tracks.map (trackElement toUppercase opts))⟩

def playlistsElement (playlists : PlaylistMap) : Element :=
  ⟨"PLAYLISTS", attrsOf [], .block 2
    [⟨"NODE", attrsOf (rootAttributes playlists.names.length),
      .block 4 (playlists.names.map fun name => nodeElement name (playlists.get name))⟩]⟩

def rootElement (toUppercase : String → String) (tracks : List XmlTrack) (playlists : PlaylistMap)
    (opts : XmlExportOptions) : Element :=
  ⟨"DJ_PLAYLISTS", attrsOf [("Version", "1.0.0")], .block 0
    [⟨"PRODUCT", attrsOf (productAttributes opts), .nil⟩,
      collectionElement toUppercase opts tracks, playlistsElement playlists]⟩

theorem writeTempo_eq (inizio bpm : Float) (battito : Nat) :
    (writeTempo inizio bpm battito).toList = lineOf 6 (tempoElement inizio bpm battito) :=
  line_empty rfl _

theorem temposFrom_eq (prevTempo : Option UInt16) (beats : List Beat) :
    (temposFrom prevTempo beats).toList = (tempoElementsFrom prevTempo beats).flatMap (lineOf 6) := by
  induction beats generalizing prevTempo with
  | nil => rfl
  | cons beat beats ih =>
    rw [temposFrom, tempoElementsFrom]
    split
    · rw [String.toList_append, writeTempo_eq, ih, List.flatMap_cons]
    · exact ih prevTempo

theorem writeTempos_eq (grid : BeatGrid) (firstBeatMs fallbackBpm : Float) :
    (writeTempos grid firstBeatMs fallbackBpm).toList =
      (tempoElements grid firstBeatMs fallbackBpm).flatMap (lineOf 6) := by
  rw [writeTempos, tempoElements]
  split
  · split
    · rw [writeTempo_eq, List.flatMap_singleton]
    · rfl
  · exact temposFrom_eq none grid.beats

theorem writePositionMark_eq (cue : CuePoint) (includeColors : Bool) :
    (writePositionMark cue includeColors).toList = lineOf 6 (markElement includeColors cue) :=
  line_empty rfl _

/-- Joined texts are the lines of the elements they show. -/
theorem toList_join_map {α : Type*} {xs : List α} {write : α → String} {element : α → Element}
    {indent : Nat} (each : ∀ x ∈ xs, (write x).toList = lineOf indent (element x)) :
    (String.join (xs.map write)).toList = (xs.map element).flatMap (lineOf indent) := by
  rw [String.toList_join, List.flatMap_map, List.flatMap_map]
  exact List.flatMap_congr each

theorem writeTrack_eq {toUppercase : String → String} {opts : XmlExportOptions} {t : XmlTrack}
    {text : String} (written : writeTrack toUppercase opts t = some text) :
    text.toList = lineOf 4 (trackElement toUppercase opts t) := by
  obtain ⟨tonality, named, rfl⟩ := Option.map_eq_some_iff.mp written
  rw [trackElement, named, Option.getD_some]
  cases children : t.hasChildren with
  | false =>
    rw [if_neg Bool.false_ne_true]
    exact line_empty rfl _
  | true =>
    have inside : (writeTempos t.beatGrid t.firstBeatMs t.bpm ++
        String.join (t.cuePoints.map fun cue => writePositionMark cue opts.includeCueColors)).toList =
        (tempoElements t.beatGrid t.firstBeatMs t.bpm ++
          t.cuePoints.map (markElement opts.includeCueColors)).flatMap (lineOf 6) := by
      rw [String.toList_append, writeTempos_eq, List.flatMap_append,
        toList_join_map fun cue _ => writePositionMark_eq cue opts.includeCueColors]
    have stopped : "    </TRACK>\n".toList =
        List.replicate 4 ' ' ++ '<' :: '/' :: ("TRACK".toList ++ ['>', '\n']) := rfl
    have whole := line_block (show "    <TRACK".toList = List.replicate 4 ' ' ++ '<' :: "TRACK".toList
      from rfl) stopped inside (trackAttributes toUppercase t opts tonality)
    rw [if_pos rfl, ← whole]
    simp [String.append_assoc]

theorem writeNode_eq (name : String) (ids : List UInt32) :
    (writeNode name ids).toList = lineOf 6 (nodeElement name ids) := by
  have inside : (String.join (ids.map fun id =>
      "        <TRACK" ++ attributes (keyAttributes id) ++ "/>\n")).toList =
        (ids.map keyElement).flatMap (lineOf 8) :=
    toList_join_map fun id _ => line_empty rfl (keyAttributes id)
  exact line_block rfl rfl inside (nodeAttributes name ids)

section
variable {toUppercase : String → String} {tracks : List XmlTrack} {playlists : PlaylistMap}
  {opts : XmlExportOptions}

theorem collection_eq {written : List String}
    (each : List.Forall₂ (fun t text => writeTrack toUppercase opts t = some text) tracks written) :
    ("  <COLLECTION" ++ attributes [("Entries", toString tracks.length)] ++ ">\n" ++
      String.join written ++ "  </COLLECTION>\n").toList =
        lineOf 2 (collectionElement toUppercase opts tracks) := by
  have inside : (String.join written).toList =
      (tracks.map (trackElement toUppercase opts)).flatMap (lineOf 4) := by
    rw [String.toList_join]
    induction each with
    | nil => rfl
    | cons here _ ih =>
      rw [List.flatMap_cons, List.map_cons, List.flatMap_cons, ih, writeTrack_eq here]
  exact line_block rfl rfl inside _

theorem playlists_eq (playlists : PlaylistMap) :
    ("  <PLAYLISTS" ++ attributes [] ++ ">\n" ++
      ("    <NODE" ++ attributes (rootAttributes playlists.names.length) ++ ">\n" ++
        String.join (playlists.names.map fun name => writeNode name (playlists.get name)) ++
        "    </NODE>\n") ++ "  </PLAYLISTS>\n").toList = lineOf 2 (playlistsElement playlists) := by
  have nodes : (String.join (playlists.names.map fun name =>
      writeNode name (playlists.get name))).toList =
        (playlists.names.map fun name => nodeElement name (playlists.get name)).flatMap (lineOf 6) :=
    toList_join_map fun name _ => writeNode_eq name (playlists.get name)
  have folder := line_block (show "    <NODE".toList = List.replicate 4 ' ' ++ '<' :: "NODE".toList
    from rfl) (show "    </NODE>\n".toList =
      List.replicate 4 ' ' ++ '<' :: '/' :: ("NODE".toList ++ ['>', '\n']) from rfl) nodes
    (rootAttributes playlists.names.length)
  refine line_block rfl rfl ?_ []
  rw [folder, List.flatMap_singleton]

theorem root_eq {collection lists : String}
    (tracksShown : collection.toList = lineOf 2 (collectionElement toUppercase opts tracks))
    (listsShown : lists.toList = lineOf 2 (playlistsElement playlists)) :
    ("<DJ_PLAYLISTS" ++ attributes [("Version", "1.0.0")] ++ ">\n" ++
      ("  <PRODUCT" ++ attributes (productAttributes opts) ++ "/>\n" ++ collection ++ lists) ++
        "</DJ_PLAYLISTS>\n").toList = lineOf 0 (rootElement toUppercase tracks playlists opts) := by
  have product : ("  <PRODUCT" ++ attributes (productAttributes opts) ++ "/>\n").toList =
      lineOf 2 ⟨"PRODUCT", attrsOf (productAttributes opts), .nil⟩ := line_empty rfl _
  refine line_block rfl rfl ?_ _
  rw [String.toList_append, String.toList_append, product, tracksShown, listsShown]
  simp only [List.flatMap_cons, List.flatMap_nil, List.append_nil, List.append_assoc]

theorem generateXml_eq {doc : String}
    (generated : generateXml toUppercase tracks playlists opts = some doc) :
    doc = document (rootElement toUppercase tracks playlists opts) := by
  obtain ⟨written, each, rfl⟩ := Option.map_eq_some_iff.mp generated
  have whole := root_eq (collection_eq (Pointwise.mapM_eq_some_iff.mp each)) (playlists_eq playlists)
  -- two of the format strings hold the tags of two elements
  have opening : "  <PLAYLISTS>\n    <NODE" =
      "  <PLAYLISTS" ++ attributes [] ++ ">\n" ++ "    <NODE" := by decide
  have closing : "    </NODE>\n  </PLAYLISTS>\n" = "    </NODE>\n" ++ "  </PLAYLISTS>\n" := by decide
  rw [← String.toList_inj, document_eq, ← whole, opening, closing, ← String.toList_append]
  simp only [declaration, String.append_assoc]

end

/-- Quoted as it is, without an illegal character. -/
def Harmless (v : String) : Prop := Shown v ∧ LegalText v

theorem Plain.harmless {s : String} (plain : Plain s) : Harmless s := ⟨plain.shown, plain.legal⟩

/-- Some texts stand escaped among the quoted ones, the others are harmless. -/
structure Carries (values : List (String × String)) (texts : List String) : Prop where
  only : ∀ v ∈ values.map Prod.snd, Harmless v ∨ ∃ s ∈ texts, v = esc s
  all : ∀ s ∈ texts, esc s ∈ values.map Prod.snd

namespace Carries
variable {values : List (String × String)} {texts : List String}

theorem escaped (carries : Carries values texts) {names : List String}
    (listed : (values.map Prod.fst).Sublist names) (proper : names.Nodup ∧ ∀ n ∈ names, IsName n) :
    Attrs.Escaped escChar (attrsOf values) := by
  refine ⟨?_, ?_, ?_⟩
  · intro a mem
    obtain ⟨v, there, rfl⟩ := List.mem_map.mp mem
    exact proper.2 v.1 (listed.subset (List.mem_map_of_mem there))
  · rw [attrsOf, List.map_map]
    exact listed.nodup proper.1
  · intro a mem
    obtain ⟨v, there, rfl⟩ := List.mem_map.mp mem
    obtain ⟨s, same⟩ : Shown v.2 := by
      rcases carries.only v.2 (List.mem_map_of_mem there) with harmless | ⟨s, -, same⟩
      · exact harmless.1
      · exact ⟨s, same⟩
    exact ⟨s.toList, by rw [same, esc, String.toList_ofList]⟩

theorem legal (carries : Carries values texts) :
    (∀ raw ∈ (attrsOf values).map Prod.snd, Legal raw) ↔ ∀ s ∈ texts, LegalText s := by
  rw [attrsOf, List.map_map, List.forall_mem_map]
  constructor
  · intro legal s mem
    obtain ⟨v, there, same⟩ := List.mem_map.mp (carries.all s mem)
    have shown := legal v there
    rw [Function.comp_apply, same] at shown
    exact legalText_esc.mp shown
  · intro legal v there
    rcases carries.only v.2 (List.mem_map_of_mem there) with harmless | ⟨s, mem, same⟩
    · exact harmless.2
    · rw [Function.comp_apply, same]
      exact legalText_esc.mpr (legal s mem)

end Carries

/-- An element of a proper document that is legal exactly where some texts are. -/
structure Holds (e : Element) (texts : List String) : Prop where
  escaped : e.Escaped escChar
  legal : (∀ raw ∈ e.values, Legal raw) ↔ ∀ s ∈ texts, LegalText s

section
variable {name : String} {values : List (String × String)} {texts names : List String}

theorem holds_empty (isName : IsName name) (carries : Carries values texts)
    (listed : (values.map Prod.fst).Sublist names) (proper : names.Nodup ∧ ∀ n ∈ names, IsName n) :
    Holds ⟨name, attrsOf values, .nil⟩ texts := by
  refine ⟨escaped_empty escChar_escapes isName (carries.escaped listed proper), ?_⟩
  rw [values_element, Content.values, List.append_nil]
  exact carries.legal

theorem holds_block (isName : IsName name) (carries : Carries values texts)
    (listed : (values.map Prod.fst).Sublist names) (proper : names.Nodup ∧ ∀ n ∈ names, IsName n)
    {es : List Element} {inner : List (List String)} (each : List.Forall₂ Holds es inner)
    (indent : Nat) : Holds ⟨name, attrsOf values, .block indent es⟩ (texts ++ inner.flatten) := by
  constructor
  · refine escaped_block escChar_escapes isName (carries.escaped listed proper) ?_ indent
    intro e mem
    obtain ⟨ts, -, holds⟩ := Pointwise.exists_of_mem each mem
    exact holds.escaped
  · rw [values_element, values_block, List.forall_mem_append, List.forall_mem_append, carries.legal]
    refine and_congr_right fun _ => ?_
    induction each with
    | nil => simp
    | cons here _ ih =>
      rw [List.flatMap_cons, List.flatten_cons, List.forall_mem_append, List.forall_mem_append,
        here.legal, ih]

theorem all_hold {α : Type*} (xs : List α) {element : α → Element} {texts : α → List String}
    (each : ∀ x, Holds (element x) (texts x)) :
    List.Forall₂ Holds (xs.map element) (xs.map texts) := by
  rw [List.forall₂_map_left_iff, List.forall₂_map_right_iff, List.forall₂_same]
  exact fun x _ => each x

theorem flatten_nils {α β : Type*} (xs : List α) : (xs.map fun _ => ([] : List β)).flatten = [] := by
  simp

theorem flatten_singles {α β : Type*} (xs : List α) (f : α → β) :
    (xs.map fun x => [f x]).flatten = xs.map f := by
  rw [← List.flatMap_def]
  exact List.flatMap_pure_eq_map f xs

end

/-- The parts of a tempo are numbers. -/
theorem tempo_carries (inizio bpm : Float) (battito : Nat) :
    Carries (tempoAttributes inizio bpm battito) [] := by
  refine ⟨?_, by simp⟩
  intro v mem
  simp only [tempoAttributes, List.map_cons, List.map_nil, List.mem_cons, List.not_mem_nil,
    or_false] at mem
  refine Or.inl (Plain.harmless ?_)
  rcases mem with rfl | rfl | rfl | rfl
  · exact plain_fixed _ _
  · exact plain_fixed _ _
  · decide
  · exact plain_toString _

theorem tempo_holds (inizio bpm : Float) (battito : Nat) :
    Holds (tempoElement inizio bpm battito) [] :=
  holds_empty (by decide) (tempo_carries inizio bpm battito)
    (List.Sublist.refl ["Inizio", "Bpm", "Metro", "Battito"]) (by decide)

theorem temposFrom_hold (prevTempo : Option UInt16) (beats : List Beat) :
    ∀ e ∈ tempoElementsFrom prevTempo beats, Holds e [] := by
  induction beats generalizing prevTempo with
  | nil => simp [tempoElementsFrom]
  | cons beat beats ih =>
    rw [tempoElementsFrom]
    split
    · exact List.forall_mem_cons.mpr ⟨tempo_holds _ _ _, ih _⟩
    · exact ih prevTempo

theorem tempos_hold (grid : BeatGrid) (firstBeatMs fallbackBpm : Float) :
    ∀ e ∈ tempoElements grid firstBeatMs fallbackBpm, Holds e [] := by
  rw [tempoElements]
  split
  · split
    · exact List.forall_mem_singleton.mpr (tempo_holds _ _ _)
    · simp
  · exact temposFrom_hold none grid.beats

theorem end_plain (cue : CuePoint) :
    ∃ ends, (if cue.isLoop then [("End", fixed 3 ((cue.timeMs + cue.loopMs) / 1000))] else []) = ends ∧
      (∀ v ∈ ends.map Prod.snd, Plain v) ∧ (ends.map Prod.fst).Sublist ["End"] := by
  refine ⟨_, rfl, ?_⟩
  split
  · exact ⟨List.forall_mem_singleton.mpr (plain_fixed _ _), List.Sublist.refl _⟩
  · exact ⟨by simp, List.nil_sublist _⟩

/-- The end of a loop and the colour are there or not. -/
theorem markAttributes_parts (cue : CuePoint) (includeColors : Bool) :
    ∃ kind start num ends colors, markAttributes cue includeColors =
        [("Name", esc (cue.comment.getD "")), ("Type", kind), ("Start", start)] ++ ends ++
          [("Num", num)] ++ colors ∧
      (∀ v ∈ [kind, start, num] ++ ends.map Prod.snd ++ colors.map Prod.snd, Plain v) ∧
      (ends.map Prod.fst).Sublist ["End"] ∧
      (colors.map Prod.fst).Sublist ["Red", "Green", "Blue"] := by
  obtain ⟨ends, isEnds, plainEnds, endNames⟩ := end_plain cue
  have first : ∀ v ∈ [toString (if cue.isLoop then 4 else cueTypeToRb cue.cueType),
      fixed 3 (cue.timeMs / 1000), toString cue.num], Plain v := by
    simp only [List.forall_mem_cons, plain_toString, plain_fixed, plain_int, true_and]
    simp
  rw [markAttributes, isEnds]
  refine ⟨_, _, _, ends, _, rfl, ?_, endNames, ?_⟩
  · rw [List.forall_mem_append, List.forall_mem_append]
    refine ⟨⟨first, plainEnds⟩, ?_⟩
    split
    · split
      · simp only [List.map_cons, List.map_nil, List.forall_mem_cons, plain_toString, true_and]
        simp
      · simp
    · simp
  · split
    · split
      · exact List.Sublist.refl _
      · exact List.nil_sublist _
    · exact List.nil_sublist _

theorem mark_carries (cue : CuePoint) (includeColors : Bool) :
    Carries (markAttributes cue includeColors) [cue.comment.getD ""] := by
  obtain ⟨kind, start, num, ends, colors, parts, plain, -⟩ := markAttributes_parts cue includeColors
  rw [parts]
  constructor
  · intro v mem
    by_cases name : v = esc (cue.comment.getD "")
    · exact Or.inr ⟨_, List.mem_singleton_self _, name⟩
    · refine Or.inl (plain v ?_).harmless
      simp only [List.map_cons, List.map_nil, List.map_append, List.mem_cons, List.mem_append,
        List.not_mem_nil, name, false_or, or_false] at mem ⊢
      tauto
  · simp

def markNames : List String := ["Name", "Type", "Start", "End", "Num", "Red", "Green", "Blue"]

theorem mark_listed (cue : CuePoint) (includeColors : Bool) :
    ((markAttributes cue includeColors).map Prod.fst).Sublist markNames := by
  obtain ⟨kind, start, num, ends, colors, parts, -, endNames, colorNames⟩ :=
    markAttributes_parts cue includeColors
  have start : (["Name", "Type", "Start"]).Sublist ["Name", "Type", "Start"] := List.Sublist.refl _
  have num : (["Num"]).Sublist ["Num"] := List.Sublist.refl _
  rw [parts, List.map_append, List.map_append, List.map_append]
  exact ((start.append endNames).append num).append colorNames

theorem mark_holds (includeColors : Bool) (cue : CuePoint) :
    Holds (markElement includeColors cue) [cue.comment.getD ""] :=
  holds_empty (by decide) (mark_carries cue includeColors) (mark_listed cue includeColors) (by decide)

/-- The texts of a track that are read back, in the order of `textNames`. -/
def XmlTrack.texts (t : XmlTrack) : List String :=
  [t.title, t.artist, t.album.getD "", t.genre.getD "", t.comment.getD "", t.label.getD ""]

def textNames : List String := ["Name", "Artist", "Album", "Genre", "Comments", "Label"]

def trackNames : List String :=
  ["TrackID", "Name", "Artist", "Composer", "Album", "Grouping", "Genre", "Kind", "Size", "TotalTime",
    "DiscNumber", "TrackNumber", "Year", "AverageBpm", "DateAdded", "BitRate", "SampleRate",
    "Comments", "PlayCount", "Rating", "Location", "Remixer", "Tonality", "Label", "Mix"]

theorem trackNames_proper : trackNames.Nodup ∧ ∀ n ∈ trackNames, IsName n := by decide

section
variable (toUppercase : String → String) (t : XmlTrack) (opts : XmlExportOptions)

theorem track_carries {tonality : String} (legal : LegalText tonality) :
    Carries (trackAttributes toUppercase t opts tonality)
      (t.texts ++ [kindString toUppercase t.fileType t.filePath, opts.dateAdded]) := by
  constructor
  · have plain {v : String} (is : Plain v) : Harmless v ∨ ∃ s ∈ t.texts ++
        [kindString toUppercase t.fileType t.filePath, opts.dateAdded], v = esc s :=
      Or.inl is.harmless
    have text {s : String} (mem : s ∈ t.texts ++ [kindString toUppercase t.fileType t.filePath,
        opts.dateAdded]) : Harmless (esc s) ∨ ∃ s' ∈ t.texts ++
          [kindString toUppercase t.fileType t.filePath, opts.dateAdded], esc s = esc s' :=
      Or.inr ⟨s, mem, rfl⟩
    have empty : Plain "" := by decide
    have zero : Plain "0" := by decide
    simp only [trackAttributes, List.map_cons, List.map_nil, List.forall_mem_cons]
    refine ⟨plain (plain_toString _), text (by simp [XmlTrack.texts]),
      text (by simp [XmlTrack.texts]), plain empty, text (by simp [XmlTrack.texts]), plain empty,
      text (by simp [XmlTrack.texts]), text (by simp), plain (plain_toString _),
      plain (plain_toString _), plain zero, plain (plain_toString _), plain (plain_toString _),
      plain (plain_fixed _ _), text (by simp), plain (plain_toString _), plain (plain_toString _),
      text (by simp [XmlTrack.texts]), plain zero, plain zero, plain (plain_fileUri _), plain empty,
      Or.inl ⟨shown_esc _, legalText_esc.mpr legal⟩, text (by simp [XmlTrack.texts]), plain empty,
      by simp⟩
  · simp [trackAttributes, XmlTrack.texts]

/-- All texts that are written for a track. -/
def XmlTrack.written : List String :=
  t.texts ++ [kindString toUppercase t.fileType t.filePath, opts.dateAdded] ++
    t.cuePoints.map fun cue => cue.comment.getD ""

theorem legalText_tonality : LegalText (t.tonality.getD "") := by
  have empty : LegalText "" := fun c mem => by cases mem
  rw [XmlTrack.tonality]
  split
  · rename_i k _
    cases named : k.name with
    | none => exact empty
    | some name => exact legalText_name named
  · exact empty

theorem track_holds : Holds (trackElement toUppercase opts t) (t.written toUppercase opts) := by
  have carries := track_carries toUppercase t opts (legalText_tonality t)
  have listed : ((trackAttributes toUppercase t opts (t.tonality.getD "")).map Prod.fst).Sublist
      trackNames := List.Sublist.refl _
  rw [trackElement]
  cases children : t.hasChildren with
  | false =>
    have none_ : t.cuePoints = [] := by
      simp only [XmlTrack.hasChildren, Bool.or_eq_false_iff, Bool.not_eq_false',
        List.isEmpty_iff] at children
      exact children.2
    rw [if_neg Bool.false_ne_true, XmlTrack.written, none_, List.map_nil, List.append_nil]
    exact holds_empty (by decide) carries listed trackNames_proper
  | true =>
    have tempos : List.Forall₂ Holds (tempoElements t.beatGrid t.firstBeatMs t.bpm)
        ((tempoElements t.beatGrid t.firstBeatMs t.bpm).map fun _ => []) :=
      List.forall₂_map_right_iff.mpr (List.forall₂_same.mpr (tempos_hold _ _ _))
    have marks := all_hold t.cuePoints (mark_holds opts.includeCueColors)
    have whole := holds_block (by decide : IsName "TRACK") carries listed trackNames_proper
      (List.rel_append tempos marks) 4
    have texts : ((tempoElements t.beatGrid t.firstBeatMs t.bpm).map (fun _ => ([] : List String)) ++
        t.cuePoints.map fun cue => [cue.comment.getD ""]).flatten =
          t.cuePoints.map fun cue => cue.comment.getD "" := by
      rw [List.flatten_append, flatten_nils, flatten_singles, List.nil_append]
    rw [if_pos rfl, XmlTrack.written, ← texts]
    exact whole

end

theorem key_holds (id : UInt32) : Holds (keyElement id) [] := by
  have carries : Carries (keyAttributes id) [] := by
    refine ⟨?_, by simp⟩
    exact List.forall_mem_singleton.mpr (Or.inl (plain_toString _).harmless)
  exact holds_empty (by decide) carries (List.Sublist.refl ["Key"]) (by decide)

theorem node_holds (name : String) (ids : List UInt32) : Holds (nodeElement name ids) [name] := by
  have carries : Carries (nodeAttributes name ids) [name] := by
    constructor
    · have one : Plain "1" := by decide
      have zero : Plain "0" := by decide
      simp only [nodeAttributes, List.map_cons, List.map_nil, List.forall_mem_cons]
      exact ⟨Or.inr ⟨name, List.mem_singleton_self _, rfl⟩, Or.inl one.harmless,
        Or.inl zero.harmless, Or.inl (plain_toString _).harmless, by simp⟩
    · simp [nodeAttributes]
  have whole := holds_block (by decide : IsName "NODE") carries
    (List.Sublist.refl ["Name", "Type", "KeyType", "Entries"]) (by decide) (all_hold ids key_holds) 6
  rw [flatten_nils, List.append_nil] at whole
  exact whole

section
variable (toUppercase : String → String) (tracks : List XmlTrack) (playlists : PlaylistMap)
  (opts : XmlExportOptions)

theorem collection_holds : Holds (collectionElement toUppercase opts tracks)
    (tracks.flatMap fun t => t.written toUppercase opts) := by
  have carries : Carries [("Entries", toString tracks.length)] [] :=
    ⟨List.forall_mem_singleton.mpr (Or.inl (plain_toString _).harmless), by simp⟩
  have each := all_hold tracks fun t => track_holds toUppercase t opts
  exact holds_block (by decide : IsName "COLLECTION") carries (List.Sublist.refl ["Entries"])
    (by decide) each 2

theorem playlists_hold : Holds (playlistsElement playlists) playlists.names := by
  have carries : Carries (rootAttributes playlists.names.length) [] := by
    refine ⟨?_, by simp⟩
    have zero : Plain "0" := by decide
    have root : Plain "ROOT" := by decide
    simp only [rootAttributes, List.map_cons, List.map_nil, List.forall_mem_cons]
    exact ⟨Or.inl zero.harmless, Or.inl root.harmless, Or.inl (plain_toString _).harmless, by simp⟩
  have none_ : Carries [] [] := ⟨by simp, by simp⟩
  have each := all_hold playlists.names fun name => node_holds name (playlists.get name)
  have folder := holds_block (by decide : IsName "NODE") carries
    (List.Sublist.refl ["Type", "Name", "Count"]) (by decide) each 4
  have whole := holds_block (by decide : IsName "PLAYLISTS") none_ (List.Sublist.refl [])
    (by decide) (.cons folder .nil) 2
  rw [flatten_singles, List.map_id', List.nil_append, List.nil_append, List.flatten_singleton] at whole
  exact whole

/-- All texts that are written. -/
def writtenTexts : List String :=
  [opts.productName, opts.productVersion, opts.company] ++
    (tracks.flatMap (fun t => t.written toUppercase opts) ++ playlists.names)

theorem root_holds : Holds (rootElement toUppercase tracks playlists opts)
    (writtenTexts toUppercase tracks playlists opts) := by
  have version : Carries [("Version", "1.0.0")] [] := by
    refine ⟨List.forall_mem_singleton.mpr (Or.inl (Plain.harmless ?_)), by simp⟩
    decide
  have product : Carries (productAttributes opts)
      [opts.productName, opts.productVersion, opts.company] := by
    constructor
    · simp only [productAttributes, List.map_cons, List.map_nil, List.forall_mem_cons]
      exact ⟨Or.inr ⟨_, by simp, rfl⟩, Or.inr ⟨_, by simp, rfl⟩, Or.inr ⟨_, by simp, rfl⟩, by simp⟩
    · simp [productAttributes]
  have first := holds_empty (by decide : IsName "PRODUCT") product
    (List.Sublist.refl ["Name", "Version", "Company"]) (by decide)
  have whole := holds_block (by decide : IsName "DJ_PLAYLISTS") version
    (List.Sublist.refl ["Version"]) (by decide)
    (.cons first (.cons (collection_holds toUppercase tracks opts)
      (.cons (playlists_hold playlists) .nil))) 0
  rw [List.nil_append, List.flatten_cons, List.flatten_cons, List.flatten_cons, List.flatten_nil,
    List.append_nil] at whole
  exact whole

end

end BVault.Core
