import BVault.Cli.Playlist
import BVault.Lib.Assignments
import BVault.Lib.Bytes
import BVault.Lib.Runs

/-!
# Downloading tracks

Files are named after titles, and a name that exists is taken for a track that
is done. What a run leaves is therefore right for the tracks whose name was
free, and for another track only if its bytes were in the directory already.
-/

namespace BVault.Cli

/-- The characters that `_` replaces in a title. -/
def unsafeChars : List Char := ['/', '\\', ':', '*', '?', '\"', '<', '>', '|']

def sanitize (title : String) : String :=
  String.ofList (title.toList.map (fun c => if c ∈ unsafeChars then '_' else c))

def safeTitle (t : Track) : String :=
  sanitize (t.artist.getD "Unknown" ++ " - " ++ t.title.getD "Unknown")

/-- The tracks of a playlist, or what is found for each query with the user's answer. -/
inductive Selection where
  | playlist (hashes : List String) (library : List Track)
  | queries (results : List (List Track × Nat))

/-- `tracks_to_download`: hashes and titles. -/
def Selection.tracks : Selection → List (String × String)
  | .playlist hashes library => (viewTracks hashes library).map (fun t => (t.hash, safeTitle t))
  | .queries results =>
    (results.filterMap (fun (found, selection) => chosen found selection)).map
      (fun t => (t.hash, safeTitle t))

/-- How a download goes. A run that is killed while the body comes is cut off like one whose
connection breaks. -/
inductive Delivery where
  | sendError (text : String)
  | refused (status : Nat)
  | createError (text : String)
  | cutOff (read : Nat) (text : String)
  | complete

inductive Event where
  | skipped (file : String)
  | failed (title : String) (status : Nat)
  | downloaded (file : String)
  deriving DecidableEq

/-- The files of the output directory. -/
abbrev OutDir := String → Option Bytes

structure Downloaded where
  dir : OutDir
  events : List Event
  result : Except String Unit

def Downloaded.after (d : Downloaded) (event : Event) : Downloaded :=
  { d with events := event :: d.events }

def put (dir : OutDir) (file : String) (bytes : Bytes) : OutDir :=
  fun p => if p = file then some bytes else dir p

/-- The file of a hash with its title. -/
def fileOf (track : String × String) : String := track.2 ++ ".mp3"

/-- The loop over the selected tracks; `raw` are the bytes that a request for a hash is sent.
Hashes are hexadecimal and go into the URL as they are. -/
def downloadAll (raw : String → Bytes) :
    List (String × String) → (Nat → Delivery) → OutDir → Downloaded
  | [], _, dir => ⟨dir, [], .ok ()⟩
  | track :: rest, outcomes, dir =>
    let later := fun n => outcomes (n + 1)
    if (dir (fileOf track)).isSome then
      (downloadAll raw rest later dir).after (.skipped (fileOf track))
    else
      match outcomes 0 with
      | .sendError text => ⟨dir, [], .error text⟩
      | .refused status => (downloadAll raw rest later dir).after (.failed track.2 status)
      | .createError text => ⟨dir, [], .error text⟩
      | .cutOff read text =>
        ⟨put dir (fileOf track) ((raw track.1).take read), [], .error text⟩
      | .complete =>
        (downloadAll raw rest later (put dir (fileOf track) (raw track.1))).after
          (.downloaded (fileOf track))

/-- A call of the client with the answers it gets. -/
structure Attempt where
  selection : Selection
  outcomes : Nat → Delivery

def runDownloadFlow (raw : String → Bytes) (a : Attempt) (dir : OutDir) : Downloaded :=
  if a.selection.tracks = [] then ⟨dir, [], .ok ()⟩
  else downloadAll raw a.selection.tracks a.outcomes dir

/-- The output directory after earlier runs into it. -/
def dirAfter (raw : String → Bytes) (history : List Attempt) : OutDir :=
  Runs.run (fun dir a => (runDownloadFlow raw a dir).dir) (fun _ => none) history

/-- No request of the run was refused. -/
def Downloaded.Succeeded (d : Downloaded) : Prop := ∀ title status, .failed title status ∉ d.events

/-- Each track is in a file of its own, with all its bytes. -/
def Whole (raw : String → Bytes) (tracks : List (String × String)) (dir : OutDir) : Prop :=
  ∃ file, Assignments.Assigns dir (fun track => raw track.1) tracks file

/-- The name of a track is taken: by a file, or by a track that is selected before it. -/
def Taken (dir : OutDir) (tracks : List (String × String)) (track : String × String) : Prop :=
  (dir (fileOf track)).isSome ∨ tracks.find? (fun t => fileOf t = fileOf track) ≠ some track

instance (dir : OutDir) (tracks : List (String × String)) (track : String × String) :
    Decidable (Taken dir tracks track) :=
  inferInstanceAs (Decidable (_ ∨ _))

section
variable {raw : String → Bytes} {tracks : List (String × String)} {outcomes : Nat → Delivery}
  {dir : OutDir}

theorem Downloaded.Succeeded.of_after {d : Downloaded} {event : Event}
    (succeeded : (d.after event).Succeeded) : d.Succeeded :=
  fun title status mem => succeeded title status (List.mem_cons_of_mem event mem)

/-- A run that succeeds leaves what was there, and under each new name the first track of it. -/
theorem dir_downloadAll (returned : (downloadAll raw tracks outcomes dir).result = .ok ())
    (succeeded : (downloadAll raw tracks outcomes dir).Succeeded) (p : String) :
    (downloadAll raw tracks outcomes dir).dir p =
      (dir p).or ((tracks.find? (fun t => fileOf t = p)).map (fun t => raw t.1)) := by
  fun_induction downloadAll raw tracks outcomes dir with
  | case1 => simp
  | case2 track rest outcomes dir later there ih =>
    have same := ih returned succeeded.of_after
    by_cases at_ : fileOf track = p
    · subst at_
      obtain ⟨bytes, is⟩ := Option.isSome_iff_exists.mp there
      rw [Downloaded.after, same, is]
      rfl
    · rw [Downloaded.after, same, List.find?_cons_of_neg (by simpa using at_)]
  | case3 => cases returned
  | case4 => exact absurd List.mem_cons_self (succeeded _ _)
  | case5 => cases returned
  | case6 => cases returned
  | case7 track rest outcomes dir later absent ok ih =>
    have same := ih returned succeeded.of_after
    rw [Downloaded.after, same, put]
    by_cases at_ : fileOf track = p
    · subst at_
      have free : dir (fileOf track) = none := by simpa using absent
      simp [free]
    · rw [if_neg (fun is => at_ is.symm), List.find?_cons_of_neg (by simpa using at_)]

/-- An empty selection is no different. -/
theorem runDownloadFlow_eq (a : Attempt) :
    runDownloadFlow raw a dir = downloadAll raw a.selection.tracks a.outcomes dir := by
  rw [runDownloadFlow]
  split
  · rename_i none_
    rw [none_]
    rfl
  · rfl

theorem first_of_not_taken {track : String × String} (free : ¬ Taken dir tracks track) :
    dir (fileOf track) = none ∧ tracks.find? (fun t => fileOf t = fileOf track) = some track := by
  constructor
  · by_contra there
    exact free (.inl (Option.isSome_iff_ne_none.mpr there))
  · by_contra other
    exact free (.inr other)

/-- What is under a name after a run that succeeds: a file from before, or a track whose name
was free. -/
theorem file_iff (returned : (downloadAll raw tracks outcomes dir).result = .ok ())
    (succeeded : (downloadAll raw tracks outcomes dir).Succeeded) (p : String) (bytes : Bytes) :
    (downloadAll raw tracks outcomes dir).dir p = some bytes ↔ dir p = some bytes ∨
      ∃ w ∈ tracks.filter (fun t => ¬ Taken dir tracks t), fileOf w = p ∧ raw w.1 = bytes := by
  rw [dir_downloadAll returned succeeded]
  constructor
  · intro is
    cases there : dir p with
    | some old =>
      rw [there, Option.some_or] at is
      exact .inl is
    | none =>
      rw [there, Option.none_or] at is
      obtain ⟨w, found, rfl⟩ := Option.map_eq_some_iff.mp is
      obtain rfl : fileOf w = p := by simpa using List.find?_some found
      have free : ¬ Taken dir tracks w := by
        rintro (old | other)
        · simp [there] at old
        · exact other found
      refine .inr ⟨w, List.mem_filter.mpr ⟨List.mem_of_find?_eq_some found, ?_⟩, rfl, rfl⟩
      exact decide_eq_true free
  · rintro (old | ⟨w, mem, rfl, rfl⟩)
    · rw [old]
      rfl
    · obtain ⟨none_, found⟩ := first_of_not_taken (of_decide_eq_true (List.mem_filter.mp mem).2)
      rw [none_, found]
      rfl

end

/-- Where a run after any history returns and none of its requests fails, the directory holds
every selected track whole if and only if it already held the ones whose name was taken. -/
theorem whole_iff (raw : String → Bytes) (history : List Attempt) (last : Attempt)
    (returned : (runDownloadFlow raw last (dirAfter raw history)).result = .ok ())
    (succeeded : (runDownloadFlow raw last (dirAfter raw history)).Succeeded) :
    Whole raw last.selection.tracks (runDownloadFlow raw last (dirAfter raw history)).dir ↔
      Whole raw (last.selection.tracks.filter
        (fun t => Taken (dirAfter raw history) last.selection.tracks t)) (dirAfter raw history) := by
  rw [runDownloadFlow_eq] at returned succeeded ⊢
  generalize dirAfter raw history = dir at returned succeeded ⊢
  generalize last.selection.tracks = tracks at returned succeeded ⊢
  have fresh : ∀ w ∈ tracks.filter (fun t => ¬ Taken dir tracks t), dir (fileOf w) = none ∧
      tracks.find? (fun t => fileOf t = fileOf w) = some w :=
    fun w mem => first_of_not_taken (of_decide_eq_true (List.mem_filter.mp mem).2)
  have split : ∀ t, t ∈ tracks.filter (fun t => Taken dir tracks t) ↔
      t ∈ tracks ∧ t ∉ tracks.filter (fun t => ¬ Taken dir tracks t) := by
    intro t
    simp only [List.mem_filter, decide_eq_true_iff, not_and, not_not]
    exact and_congr_right (fun mem => ⟨fun taken _ => taken, fun taken => taken mem⟩)
  refine Assignments.exists_assigns_iff split ?_ ?_ (fun w mem => (fresh w mem).1)
    (file_iff returned succeeded)
  · exact fun w mem => (List.mem_filter.mp mem).1
  · intro v hv w hw same
    have one := (fresh v hv).2
    rw [same, (fresh w hw).2] at one
    exact (Option.some.inj one).symm

/-- A playlist of two tracks, with the titles they have. -/
def twoTracks (first second : String) (outcomes : Nat → Delivery) : Attempt where
  selection := .playlist ["a", "b"] [⟨"a", some first, none⟩, ⟨"b", some second, none⟩]
  outcomes := outcomes

def bytesOf (hash : String) : Bytes := if hash = "a" then [1, 2] else [3, 4]

/-- The first run breaks off behind the first track, the second gets the other. -/
def brokenOff : List Attempt :=
  [twoTracks "Intro" "Outro" (fun n => if n = 0 then .complete else .sendError "connection reset")]

theorem whole_two :
    Whole bytesOf (twoTracks "Intro" "Outro" (fun _ => .complete)).selection.tracks
      (runDownloadFlow bytesOf (twoTracks "Intro" "Outro" (fun _ => .complete))
        (dirAfter bytesOf brokenOff)).dir := by
  refine (whole_iff bytesOf brokenOff _ rfl ?_).mpr ?_
  · intro title status mem
    have events : (runDownloadFlow bytesOf (twoTracks "Intro" "Outro" (fun _ => .complete))
        (dirAfter bytesOf brokenOff)).events =
        [.skipped "Unknown - Intro.mp3", .downloaded "Unknown - Outro.mp3"] := by decide
    simp [events] at mem
  · have taken : (twoTracks "Intro" "Outro" (fun _ => .complete)).selection.tracks.filter
        (fun t => Taken (dirAfter bytesOf brokenOff)
          (twoTracks "Intro" "Outro" (fun _ => .complete)).selection.tracks t) =
        [("a", "Unknown - Intro")] := by decide
    rw [taken]
    refine ⟨fun _ => "Unknown - Intro.mp3", ?_, ?_⟩
    · intro s hs t ht _
      rw [List.mem_singleton.mp hs, List.mem_singleton.mp ht]
    · intro t ht
      rw [List.mem_singleton.mp ht]
      rfl

/-- Of two tracks of one title the second is not downloaded, and no request fails. -/
theorem title_twice :
    (runDownloadFlow bytesOf (twoTracks "Intro" "Intro" (fun _ => .complete))
      (dirAfter bytesOf [])).result = .ok () ∧
    (runDownloadFlow bytesOf (twoTracks "Intro" "Intro" (fun _ => .complete))
      (dirAfter bytesOf [])).events =
        [.downloaded "Unknown - Intro.mp3", .skipped "Unknown - Intro.mp3"] ∧
    ¬ Whole bytesOf (twoTracks "Intro" "Intro" (fun _ => .complete)).selection.tracks
      (runDownloadFlow bytesOf (twoTracks "Intro" "Intro" (fun _ => .complete))
        (dirAfter bytesOf [])).dir := by
  refine ⟨rfl, by decide, ?_⟩
  rintro ⟨place, -, held⟩
  have second := held ("b", "Unknown - Intro") (by decide)
  change (if place ("b", "Unknown - Intro") = "Unknown - Intro.mp3" then some [1, 2] else none) =
    some [3, 4] at second
  split at second
  · simp at second
  · cases second

end BVault.Cli
