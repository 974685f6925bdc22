import BVault.Export.Isolation

/-!
# The lifetime of an export

Once an export is written, its owner gets every part of it, whatever else is
asked, written, removed and restarted in between, until the owner deletes it or
the sweeper finds its folder stale.
-/

namespace BVault.Export

open BVault.Gateway BVault.Meta BVault.Store BVault.Transfer Pointwise Publication

/-- Nothing of the folder is missing, and nobody is taking it away. -/
structure Folder.Kept (f : Folder) : Prop where
  shelf : f.shelf.Kept
  there : f.there = true
  removals : f.removals = 0

namespace Folder

variable {f : Folder}

theorem kept_create (p : Package) (now : Nat) : Kept (create p now) :=
  ⟨Shelf.kept_start p.plan, rfl, rfl⟩

theorem kept_change (sound : Sound f) (kept : Kept f) (c : Change) : Kept (f.change c) := by
  have still : ¬ 0 < f.removals := by
    rw [kept.removals]
    exact Nat.lt_irrefl 0
  cases c with
  | openNext now =>
    rw [change]
    split
    · exact kept
    · split
      · exact ⟨Shelf.kept_openNext sound.shelf kept.shelf _, kept.there, kept.removals⟩
      · exact kept
  | fill part =>
    rw [change]
    split
    · exact ⟨Shelf.kept_fill sound.shelf kept.shelf part, kept.there, kept.removals⟩
    · exact kept
  | close =>
    rw [change]
    split
    · exact ⟨Shelf.kept_close sound.shelf kept.shelf, kept.there, kept.removals⟩
    · exact kept
  | stop => exact ⟨kept.shelf, kept.there, kept.removals⟩
  | unlink file now =>
    rw [change, if_neg fun taken => still taken.1]
    exact kept
  | rmdir =>
    rw [change, if_neg fun taken => still taken.1]
    exact kept
  | giveUp =>
    refine ⟨kept.shelf, kept.there, ?_⟩
    rw [change, kept.removals]

/-- Every file of a finished export. -/
theorem read_finished (sound : Sound f) (kept : Kept f) (finished : f.shelf.left = [])
    {e : File × Content} (mem : e ∈ f.package.plan) : f.shelf.files e.1 = some e.2 := by
  have plan := sound.plan
  rw [Shelf.plan, finished, List.append_nil] at plan
  exact kept.shelf.whole e (plan ▸ mem)

theorem staged_finished (sound : Sound f) (kept : Kept f) (finished : f.shelf.left = [])
    (path : String) : (match f.shelf.files (.tree path) with
      | some (.bytes bytes) => some bytes
      | _ => none) = f.package.tree.lookup path := by
  have published : f.shelf.Published := by
    rw [Shelf.Published, finished]
    exact Nat.zero_le 1
  rcases read_tree sound published path with missing | ⟨bytes, is, there⟩
  · cases listed : f.package.tree.lookup path with
    | none => rw [missing]
    | some bytes =>
      have mem := (lookup_iff_mem f.package.distinct).mp listed
      have planned : (File.tree path, Content.bytes bytes) ∈ f.package.plan :=
        List.mem_append_left _ (List.mem_map.mpr ⟨_, mem, rfl⟩)
      rw [read_finished sound kept finished planned] at missing
      cases missing
  · rw [there, is]

end Folder

namespace Builder

section
variable (env : Environment) (tree : Uuid → List Name) (exportTtl : Nat) (id : Uuid)

/-- The event is no sweep that finds the folder stale, and no request of its owner to delete it. -/
def Spares (pre : List Event) : Event → Prop
  | .sweep swept now => swept = id → ∀ f,
      (after env tree exportTtl pre).folders id = some f → f.stale exportTtl now = false
  | .ask _ q => q.id = id → q.route = .delete → ∀ f,
      (after env tree exportTtl pre).folders id = some f → f.package.user ≠ q.user
  | _ => True

end

variable {env : Environment} {tree : Uuid → List Name} {exportTtl : Nat} {s : Builder}

theorem kept_onFolder {id other : Uuid} {g : Folder → Folder} {f : Folder}
    (kept : ∀ f, s.folders id = some f → f.Kept)
    (keeps : other = id → ∀ f, s.folders id = some f → f.Kept → (g f).Kept)
    (there : s.onFolder other g id = some f) : f.Kept := by
  rw [onFolder] at there
  by_cases same : id = other
  · subst same
    rw [Function.update_self] at there
    obtain ⟨before, here, rfl⟩ := Option.map_eq_some_iff.mp there
    exact keeps rfl before here (kept before here)
  · rw [Function.update_of_ne same] at there
    exact kept f there

theorem kept_step {pre : List Event} {id : Uuid} {e : Event}
    (kept : ∀ f, (after env tree exportTtl pre).folders id = some f → f.Kept)
    (spared : Spares env tree exportTtl id pre e) {f : Folder}
    (there : (step env tree exportTtl (after env tree exportTtl pre) e).folders id = some f) :
    f.Kept := by
  have sound := (sound_after env tree exportTtl pre).folders
  cases e with
  | create other p now =>
    rw [step] at there
    split at there
    · exact kept f there
    · by_cases same : id = other
      · subst same
        dsimp only at there
        rw [Function.update_self] at there
        cases there
        exact Folder.kept_create p now
      · dsimp only at there
        rw [Function.update_of_ne same] at there
        exact kept f there
  | change other c =>
    exact kept_onFolder kept (fun _ f here fits => Folder.kept_change (sound id f here) fits c) there
  | sweep other now =>
    refine kept_onFolder kept ?_ there
    intro same f here fits
    rw [Folder.sweep, spared same f here]
    exact fits
  | ask r q =>
    rcases folders_ask (after env tree exportTtl pre) r q with is | ⟨delete, admitted, is⟩
    · rw [step, is] at there
      exact kept f there
    · rw [step, is] at there
      refine kept_onFolder kept ?_ there
      intro same f here _
      obtain ⟨g, known⟩ := known_of_assertOwner sound (assertOwner_of_allow admitted)
      have folder := known.folder
      rw [same, here] at folder
      cases folder
      exact absurd known.user (spared same delete f here)
  | proceed r => exact kept f there
  | restart =>
    obtain ⟨before, here, rfl⟩ := Option.map_eq_some_iff.mp there
    exact ⟨(kept before here).shelf, (kept before here).there, rfl⟩

variable (env tree exportTtl) in
theorem after_snoc (pre : List Event) (e : Event) : after env tree exportTtl (pre ++ [e]) =
    step env tree exportTtl (after env tree exportTtl pre) e :=
  Runs.run_snoc _ _ _ _

theorem kept_after {id : Uuid} {events : List Event}
    (spared : Runs.EachStep events (Spares env tree exportTtl id)) :
    ∀ f, (after env tree exportTtl events).folders id = some f → f.Kept := by
  refine Runs.history_induction
    (P := fun pre => ∀ f, (after env tree exportTtl pre).folders id = some f → f.Kept)
    events spared ?_ ?_
  · intro f there
    cases there
  · intro pre e kept spares f there
    rw [after_snoc] at there
    exact kept_step kept spares there

/-- The folder holds the finished export. -/
structure Holds (s : Builder) (id : Uuid) (p : Package) (f : Folder) : Prop where
  folder : s.folders id = some f
  package : f.package = p
  finished : f.shelf.left = []
  sound : f.Sound
  kept : f.Kept

section
variable {q : Asked} {p : Package} {f : Folder} (holds : s.Holds q.id p f)
include holds

theorem Holds.read {e : File × Content} (mem : e ∈ p.plan) : s.read q.id e.1 = some e.2 := by
  rw [Builder.read, holds.folder, Option.bind_some]
  exact Folder.read_finished holds.sound holds.kept holds.finished (holds.package.symm ▸ mem)

theorem Holds.staged (path : String) : s.staged q.id path = p.tree.lookup path := by
  rw [Builder.staged, Builder.read, holds.folder, Option.bind_some, ← holds.package]
  exact Folder.staged_finished holds.sound holds.kept holds.finished path

theorem Holds.assertOwner (owner : q.user = p.user) : s.assertOwner q.id q.user = .ok () := by
  have there : s.read q.id .owner = some (.owner (uuidText p.user.id)) :=
    holds.read (e := (.owner, .owner (uuidText p.user.id))) (by simp [Package.plan])
  rw [Builder.assertOwner, there]
  dsimp only
  rw [trim_plain fun c mem => plain_uuidText mem, owner, if_neg (not_not.mpr rfl)]

theorem Holds.allow (owner : q.user = p.user) (get : q.route ≠ .delete) : s.allow q = .ok () := by
  have dir : s.isDir q.id = true := by
    rw [isDir, holds.folder]
    exact holds.kept.there
  have asserted := holds.assertOwner owner
  rw [Builder.allow]
  split
  · rw [asserted]
    rfl
  · rw [if_pos dir, asserted]
    rfl
  · rename_i delete
    exact absurd delete get

variable (env tree) in
/-- How far a request of the owner is after so many reads. -/
def reached (q : Asked) (p : Package) : Nat → Progress
  | 0 => .passed q
  | 1 =>
    match q.route with
    | .file usbPath => .resolved q usbPath p.sources
    | route => .answered q (p.answer env (tree q.id) route)
  | _ + 2 => .answered q (p.answer env (tree q.id) q.route)

theorem Holds.next (owner : q.user = p.user) (get : q.route ≠ .delete) (reads : Nat) :
    s.next env tree (reached env tree q p reads) = reached env tree q p (reads + 1) := by
  have manifest : s.read q.id .manifest = some (.manifest p.manifest) :=
    holds.read (e := (.manifest, .manifest p.manifest)) (by simp [Package.plan])
  have sources : s.read q.id .sources = some (.sources p.sources) :=
    holds.read (e := (.sources, .sources p.sources)) (by simp [Package.plan])
  rcases reads with _ | _ | reads
  · rw [reached, reached, Builder.next]
    cases route : q.route with
    | manifest =>
      dsimp only
      rw [manifest]
      rfl
    | file usbPath =>
      dsimp only
      rw [sources]
    | delete => exact absurd route get
  · rw [reached, reached]
    cases route : q.route with
    | manifest => rfl
    | file usbPath =>
      dsimp only
      rw [Builder.next, owner]
      exact congrArg (fun answer => Progress.answered q (Response.ofServe answer))
        (serveFrom_same (holds.staged usbPath))
    | delete => exact absurd route get
  · rfl

end

def isProceed (r : Nat) : Event → Bool
  | .proceed r' => r' = r
  | _ => false

theorem requests_ask (s : Builder) {r r' : Nat} (q : Asked) {progress : Progress}
    (there : s.requests r = some progress) : (s.ask r' q).requests r = some progress := by
  have other {response : Progress} (fresh : s.requests r' = none) :
      Function.update s.requests r' (some response) r = some progress := by
    have apart : r ≠ r' := by
      rintro rfl
      rw [there] at fresh
      cases fresh
    rw [Function.update_of_ne apart, there]
  rw [ask]
  split
  · exact there
  · rename_i fresh
    split <;> exact other fresh

/-- A request is moved on by its own reads only. -/
theorem requests_step {r : Nat} {progress : Progress} (there : s.requests r = some progress)
    {e : Event} (up : e ≠ .restart) : (step env tree exportTtl s e).requests r =
      some (if isProceed r e then s.next env tree progress else progress) := by
  cases e with
  | create id p now =>
    rw [step]
    split <;> exact there
  | change id c => exact there
  | sweep id now => exact there
  | ask r' q => exact requests_ask s q there
  | proceed r' =>
    by_cases same : r' = r
    · subst same
      rw [isProceed, if_pos (decide_eq_true rfl), step]
      dsimp only
      rw [Function.update_self, there]
      rfl
    · rw [isProceed, if_neg (by simpa using same), step]
      dsimp only
      rw [Function.update_of_ne (Ne.symm same)]
      exact there
  | restart => exact absurd rfl up

section
variable {before later : List Event} {r : Nat} {q : Asked} {p : Package} {f : Folder}

theorem holds_grown {pre pre' : List Event} {id : Uuid}
    (grown : Grown (after env tree exportTtl pre) (after env tree exportTtl pre'))
    (spared : Runs.EachStep pre' (Spares env tree exportTtl id))
    (folder : (after env tree exportTtl pre).folders id = some f) (package : f.package = p)
    (finished : f.shelf.left = []) : ∃ g, (after env tree exportTtl pre').Holds id p g := by
  obtain ⟨g, there, later⟩ := grown id f folder
  have left : g.shelf.left = [] := List.suffix_nil.mp (finished ▸ later.left)
  have sound := (sound_after env tree exportTtl pre').folders id g there
  exact ⟨g, there, later.package.trans package, left, sound, kept_after spared g there⟩

/-- The reads of the request so far, in whatever order with the other steps. -/
theorem reached_after (folder : (after env tree exportTtl before).folders q.id = some f)
    (finished : f.shelf.left = []) (fresh : (after env tree exportTtl before).requests r = none)
    (owner : q.user = f.package.user) (get : q.route ≠ .delete)
    (spared : Runs.EachStep (before ++ .ask r q :: later) (Spares env tree exportTtl q.id))
    (up : .restart ∉ later) :
    (∃ g, (after env tree exportTtl (before ++ .ask r q :: later)).Holds q.id f.package g) ∧
      (after env tree exportTtl (before ++ .ask r q :: later)).requests r =
        some (reached env tree q f.package (later.countP (isProceed r))) := by
  induction later using List.reverseRecOn with
  | nil =>
    obtain ⟨g, holds⟩ := holds_grown (fun _ f here => ⟨f, here, Folder.Later.refl f⟩)
      spared.initial folder rfl finished
    have asked := after_snoc env tree exportTtl before (.ask r q)
    refine ⟨holds_grown (asked ▸ grown_step env tree exportTtl _ _) spared folder rfl finished, ?_⟩
    have admitted := holds.allow owner get
    rw [asked, step, ask, fresh]
    dsimp only
    rw [admitted]
    exact Function.update_self _ _ _
  | append_singleton later e ih =>
    rw [← List.cons_append, ← List.append_assoc] at spared ⊢
    have still : .restart ∉ later := fun mem => up (List.mem_append_left _ mem)
    obtain ⟨⟨g, holds⟩, there⟩ := ih spared.initial still
    have last : e ≠ .restart := fun is => up (is ▸ List.mem_append_right _ List.mem_cons_self)
    have next := after_snoc env tree exportTtl
      (before ++ .ask r q :: later) e
    refine ⟨holds_grown (next ▸ grown_step env tree exportTtl _ _) spared holds.folder holds.package
      holds.finished, ?_⟩
    rw [next, requests_step there last, List.countP_append, List.countP_singleton]
    split
    · rw [holds.next owner get]
    · rfl

end

end Builder

/-- A request of the owner for a finished export is answered in full, whatever else goes on, until
the owner deletes the export or the sweeper finds its folder stale. -/
theorem owner_served {env : Environment} {tree : Uuid → List Name} {exportTtl : Nat}
    {before later : List Event} {r : Nat} {q : Asked} {f : Folder}
    (folder : (Builder.after env tree exportTtl before).folders q.id = some f)
    (finished : f.shelf.left = [])
    (fresh : (Builder.after env tree exportTtl before).requests r = none)
    (owner : q.user = f.package.user) (get : q.route ≠ .delete)
    (spared : Runs.EachStep (before ++ .ask r q :: later)
      (Builder.Spares env tree exportTtl q.id))
    (up : .restart ∉ later) (reads : 2 ≤ later.countP (Builder.isProceed r)) :
    (Builder.after env tree exportTtl (before ++ .ask r q :: later)).requests r =
      some (.answered q (f.package.answer env (tree q.id) q.route)) := by
  obtain ⟨-, there⟩ := Builder.reached_after folder finished fresh owner get spared up
  obtain ⟨more, count⟩ := Nat.exists_eq_add_of_le' reads
  rw [there, count]
  rfl

theorem owner_served_sample :
    (Builder.after twoFiles sampleTree 86400
      (sampleWrites ++ .ask 0 sampleAsked :: [.proceed 0, .sweep 5 80000, .proceed 0])).requests 0 =
        some (.answered sampleAsked (.manifest (.manifest samplePackage.manifest))) := by
  have fresh : ((Builder.after twoFiles sampleTree 86400
      (sampleWrites ++ [.ask 0 sampleAsked, .proceed 0])).folders 5).all
        (fun f => f.stale 86400 80000 == false) = true := rfl
  have swept (f : Folder) (there : (Builder.after twoFiles sampleTree 86400
      (sampleWrites ++ [.ask 0 sampleAsked, .proceed 0])).folders 5 = some f) :
        f.stale 86400 80000 = false := by
    rw [there, Option.all_some] at fresh
    exact eq_of_beq fresh
  have spared : Runs.EachStep
      (sampleWrites ++ .ask 0 sampleAsked :: [.proceed 0, .sweep 5 80000, .proceed 0])
      (Builder.Spares twoFiles sampleTree 86400 5) := by
    simp only [sampleWrites, List.cons_append, List.nil_append, Runs.eachStep_cons,
      Runs.eachStep_nil, Builder.Spares, sampleAsked, true_and, and_true]
    refine ⟨?_, fun _ => swept⟩
    intro _ delete
    cases delete
  have up : .restart ∉ ([.proceed 0, .sweep 5 80000, .proceed 0] : List Event) := by
    rintro (_ | ⟨_, _ | ⟨_, _ | ⟨_, ⟨⟩⟩⟩⟩)
  exact owner_served rfl rfl rfl rfl (by decide) spared up (by decide)

end BVault.Export
