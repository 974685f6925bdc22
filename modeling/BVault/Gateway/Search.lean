import BVault.Gateway.Library
import BVault.Lib.Like

/-!
# Searching the library

The search text stands between two marks of a pattern as it is, so a text with
a mark in it is a pattern of its own. The search for it finds the titles that
contain it exactly where it has none.
-/

namespace BVault.Gateway

open BVault.Meta

def marks : Like.Marks Char where
  any := '%'
  one := '_'
  escape := '\\'
  any_ne_one := by decide
  any_ne_escape := by decide
  one_ne_escape := by decide

/-- How the locale folds the case of a character. The marks have none. -/
structure CaseFold where
  fold : Char → Char
  percent : fold '%' = '%'
  underscore : fold '_' = '_'
  backslash : fold '\\' = '\\'

/-- `title ilike pattern`. -/
def ilike (f : CaseFold) (title pattern : String) : Bool :=
  Like.like f.fold marks pattern.toList title.toList

/-- The title contains the text, whatever the case of their characters. -/
def titleContains (f : CaseFold) (q : String) (track : Track) : Bool :=
  track.title.any (fun title => decide (q.toList.map f.fold <:+: title.toList.map f.fold))

theorem pattern_chars (q : String) :
    ("%" ++ q ++ "%").toList = marks.any :: (q.toList ++ [marks.any]) := by
  have percent : "%".toList = ['%'] := rfl
  simp [percent, marks]

/-- The operator is the search for a text if and only if that is plain. -/
theorem ilike_iff (f : CaseFold) (q : String) :
    (∀ title, ilike f title ("%" ++ q ++ "%") =
      decide (q.toList.map f.fold <:+: title.toList.map f.fold)) ↔ Like.Plain marks q.toList := by
  have one : f.fold marks.any ≠ f.fold marks.one := by
    simp [marks, f.percent, f.underscore]
  have escape : f.fold marks.any ≠ f.fold marks.escape := by
    simp [marks, f.percent, f.backslash]
  rw [← Like.like_eq_infix_iff one escape]
  constructor
  · intro searches text
    have at_ := searches (String.ofList text)
    rw [ilike, pattern_chars, String.toList_ofList] at at_
    exact (Bool.eq_iff_iff.mp at_).trans decide_eq_true_iff
  · intro searches title
    apply Bool.eq_iff_iff.mpr
    rw [ilike, pattern_chars, decide_eq_true_iff]
    exact searches title.toList

/-- With room for the whole library, a search returns what it matches of it. -/
theorem listTracks_perm {φ : Type*} (like : String → String → Bool) (stores : TrackStores φ)
    (t : Tables) (userId : Uuid) {limit : Nat} (room : t.userTracks.length ≤ limit) {q : String}
    (nonblank : trim q ≠ "") :
    (listTracks like stores t userId ⟨limit, 0, some q⟩).Perm
      (((library t userId).filter (fun track =>
        track.title.any (fun title => like title ("%" ++ trim q ++ "%")))).map
          (trackView stores)) := by
  have query : (some (trim q)).filter (fun text => decide (text ≠ "")) = some (trim q) := by
    simp [nonblank]
  rw [listTracks, Option.map_some, query, Meta.listTracks, List.drop_zero]
  apply List.Perm.map
  rw [List.take_of_length_le]
  · exact List.perm_insertionSort _ _
  · rw [List.length_insertionSort]
    exact ((List.length_filter_le _ _).trans (length_library_le t userId)).trans room

/-- A library of one track. -/
def oneTrack (title : String) : Tables :=
  upsertTrack Tables.empty 0 "h" "raw/h.flac" (some title) none 0

theorem library_oneTrack (title : String) :
    library (oneTrack title) 0 = [⟨"h", "raw/h.flac", some title, none, 0⟩] := by
  simp [library, oneTrack, upsertTrack, upsertUserTrack, Tables.empty, joinTrack]

/-- A search returns the tracks whose title contains the text, in every library, if and only if
the text has none of `%`, `_` and the backslash. -/
theorem search_exact_iff {φ : Type*} (f : CaseFold) (stores : TrackStores φ) (q : String)
    (nonblank : trim q ≠ "") :
    (∀ (t : Tables) (userId : Uuid) (limit : Nat), t.userTracks.length ≤ limit →
      (listTracks (ilike f) stores t userId ⟨limit, 0, some q⟩).Perm
        (((library t userId).filter (titleContains f (trim q))).map (trackView stores))) ↔
      Like.Plain marks (trim q).toList := by
  rw [← ilike_iff f]
  constructor
  · intro exact_ title
    have room : (oneTrack title).userTracks.length ≤ 1 := Nat.le_refl 1
    have found := listTracks_perm (ilike f) stores (oneTrack title) 0 room nonblank
    have same := (found.symm.trans (exact_ (oneTrack title) 0 1 room)).length_eq
    -- either both return the track or both do not
    simp only [library_oneTrack, titleContains, List.length_map, List.filter_cons,
      List.filter_nil, Option.any_some] at same
    cases likes : ilike f title ("%" ++ trim q ++ "%") <;>
      cases contains : decide ((trim q).toList.map f.fold <:+: title.toList.map f.fold) <;>
      simp [likes, contains] at same ⊢
  · intro same t userId limit room
    have found := listTracks_perm (ilike f) stores t userId room nonblank
    simp only [same] at found
    exact found

/-- Lower case of the ASCII letters. -/
def asciiFold : CaseFold where
  fold := Char.toLower
  percent := rfl
  underscore := rfl
  backslash := rfl

def noStores : TrackStores Nat := ⟨fun _ => none, fun _ => none⟩

theorem search_exact_song :
    (listTracks (ilike asciiFold) noStores (oneTrack "A song") 0 ⟨1, 0, some " Song "⟩).Perm
      (((library (oneTrack "A song") 0).filter (titleContains asciiFold (trim " Song "))).map
        (trackView noStores)) := by
  have trimmed : trim " Song " = "Song" := by decide +kernel
  have plain : Like.Plain marks (trim " Song ").toList := by
    rw [trimmed]
    have all : ['S', 'o', 'n', 'g'].all (fun c =>
        c ≠ marks.any ∧ c ≠ marks.one ∧ c ≠ marks.escape) = true := by decide
    exact fun c mem => of_decide_eq_true (List.all_eq_true.mp all c mem)
  have nonblank : trim " Song " ≠ "" := by
    rw [trimmed]
    decide
  exact (search_exact_iff asciiFold noStores " Song " nonblank).mpr plain (oneTrack "A song") 0 1
    (Nat.le_refl 1)

/-- A search for `100%` returns what has no percent sign. -/
theorem percent_finds_more :
    (listTracks (ilike asciiFold) noStores (oneTrack "100 gecs") 0 ⟨1, 0, some "100%"⟩).map
      TrackView.title = [some "100 gecs"] ∧
    (library (oneTrack "100 gecs") 0).filter (titleContains asciiFold (trim "100%")) = [] := by
  decide +kernel

end BVault.Gateway
