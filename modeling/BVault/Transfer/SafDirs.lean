import BVault.Transfer.Saf

/-!
# What the directory cache knows

Every cached URI is that of the folder its path leads to, and the walk keeps it
so, as long as it meets folders only: a file of a segment's name is taken for
the directory. What the cache knows is lost where `create` removes a folder.
-/

namespace BVault.Transfer.SafSink

open Saf

variable {υ : Type*}

/-- Names are unique in every folder, and the cache is right. -/
structure Correct (s : SafSink υ) : Prop where
  tree : s.tree.WellFormed s.treeUri
  cache : ∀ rel uri, s.dirUris rel = some uri →
    s.tree.follow s.treeUri (segments rel) = some uri

/-- Every document gets a URI of its own. -/
structure Fresh (s : SafSink υ) (replies : String → Reply υ) : Prop where
  unused : ∀ rel uri, (replies rel).mkdir = .ok uri → ∀ p, ¬ s.tree.Document s.treeUri p uri
  apart : ∀ rel rel' uri, (replies rel).mkdir = .ok uri → (replies rel').mkdir = .ok uri →
    rel = rel'

/-- Whatever there is on the way is a folder. -/
def Clear (s : SafSink υ) (path : List String) : Prop :=
  ∀ p u, p <+: path → s.tree.Document s.treeUri p u → s.tree.IsFolder u

/-- The tree has grown by folders that the replies made, each where it was wanted. -/
structure Grown (replies : String → Reply υ) (s s' : SafSink υ) : Prop where
  root : s'.treeUri = s.treeUri
  tree : s'.tree.WellFormed s'.treeUri
  paths : ∀ p u, s.tree.follow s.treeUri p = some u → s'.tree.follow s'.treeUri p = some u
  documents : ∀ p u, s'.tree.Document s'.treeUri p u → s.tree.Document s.treeUri p u ∨
    (s'.tree.follow s'.treeUri p = some u ∧
      ∃ rel, (replies rel).mkdir = .ok u ∧ p = segments rel)

theorem Grown.refl {replies : String → Reply υ} {s : SafSink υ}
    (wf : s.tree.WellFormed s.treeUri) : Grown replies s s where
  root := rfl
  tree := wf
  paths _ _ is := is
  documents _ _ doc := .inl doc

theorem Grown.trans {replies : String → Reply υ} {s s' s'' : SafSink υ}
    (first : Grown replies s s') (second : Grown replies s' s'') : Grown replies s s'' where
  root := second.root.trans first.root
  tree := second.tree
  paths p u is := second.paths p u (first.paths p u is)
  documents := by
    intro p u doc
    rcases second.documents p u doc with old | made
    · rcases first.documents p u old with older | ⟨is, made⟩
      · exact .inl older
      · exact .inr ⟨second.paths p u is, made⟩
    · exact .inr made

/-- What resolving the directory at `path` does, whether it succeeds or not. -/
structure Resolved (replies : String → Reply υ) (s s' : SafSink υ) (path : List String)
    (res : Except String υ) : Prop where
  grown : Grown replies s s'
  correct : s'.Correct
  cached : ∀ key, s'.dirUris key ≠ none → s.dirUris key ≠ none ∨ segments key <+: path
  found : ∀ uri, res = .ok uri → s'.tree.follow s'.treeUri path = some uri

/-- A URI that may still be given stands, if at all, where it was made. -/
def Own (replies : String → Reply υ) (s : SafSink υ) : Prop :=
  ∀ rel uri, (replies rel).mkdir = .ok uri → ∀ p, s.tree.Document s.treeUri p uri →
    p = segments rel

section
variable {replies : String → Reply υ} {s s' : SafSink υ}

theorem Grown.own (grown : Grown replies s s')
    (apart : ∀ rel rel' uri, (replies rel).mkdir = .ok uri → (replies rel').mkdir = .ok uri →
      rel = rel') (own : Own replies s) : Own replies s' := by
  intro rel uri gives p doc
  rcases grown.documents p uri doc with old | ⟨-, rel', gives', is⟩
  · exact own rel uri gives p old
  · obtain rfl := apart rel rel' uri gives gives'
    exact is

theorem Grown.clear (grown : Grown replies s s') (wf : s.tree.WellFormed s.treeUri)
    {path : List String} (clear : Clear s path) : Clear s' path := by
  intro p u front doc
  rcases grown.documents p u doc with old | ⟨is, -⟩
  · have reached := NamedTree.follow_of_document wf old (clear p u front old)
    exact NamedTree.folder_of_follow (grown.paths p u reached)
  · exact NamedTree.folder_of_follow is

theorem Grown.correct (grown : Grown replies s s') (correct : s.Correct)
    (same : s'.dirUris = s.dirUris) : s'.Correct where
  tree := grown.tree
  cache rel uri is := grown.paths _ uri (correct.cache rel uri (same ▸ is))

theorem Correct.cachePut (correct : s.Correct) {rel : String} {uri : υ}
    (is : s.tree.follow s.treeUri (segments rel) = some uri) : (s.cachePut rel uri).Correct where
  tree := correct.tree
  cache := by
    intro key u cached
    simp only [SafSink.cachePut] at cached
    split at cached
    · rename_i same
      obtain rfl := Option.some.inj cached
      rw [same]
      exact is
    · exact correct.cache key u cached

end

/-- The listing is the folder's entries. -/
theorem entries_of_ls {t : NamedTree String υ} {dirUri : υ} {answer : Except String Unit}
    {children : List (String × υ)} (is : ls t dirUri answer = .ok children) :
    t.entries dirUri = some children := by
  cases answer with
  | error e => cases is
  | ok done =>
    rw [ls] at is
    split at is
    · cases is
    · rename_i here
      cases is
      exact here

theorem child_of_find {t : NamedTree String υ} {dirUri : υ} {children : List (String × υ)}
    {seg : String} {e : String × υ} (here : t.entries dirUri = some children)
    (found : children.find? (fun e => e.1 = seg) = some e) : t.child dirUri seg = some e.2 := by
  rw [NamedTree.child, here, Option.bind_some, found]
  rfl

variable [DecidableEq υ]

section
variable {replies : String → Reply υ} {s s' : SafSink υ} {parentRel seg : String} {parentUri : υ}
  {res : Except String υ}

omit [DecidableEq υ] in
/-- Where a name is free, the URI given for it is no document's. -/
theorem unused_of_free (own : Own replies s) {children : List (String × υ)}
    (at_ : s.tree.follow s.treeUri (segments parentRel) = some parentUri)
    (here : s.tree.entries parentUri = some children) (free : ∀ e ∈ children, e.1 ≠ seg)
    (proper : seg ≠ "" ∧ '/' ∉ seg.toList) {new : υ}
    (gives : (replies (childRel parentRel seg)).mkdir = .ok new) (p : List String) :
    ¬ s.tree.Document s.treeUri p new := by
  intro doc
  obtain rfl := own _ new gives p doc
  rw [segments_childRel proper] at doc
  obtain ⟨i, es, before, there, mem⟩ := NamedTree.document_snoc doc
  obtain rfl := Option.some.inj (at_.symm.trans before)
  obtain rfl := Option.some.inj (here.symm.trans there)
  exact free _ mem rfl

/-- The folder that `mkdir` makes. -/
theorem mkdir_grown (wf : s.tree.WellFormed s.treeUri) (own : Own replies s)
    {children : List (String × υ)}
    (at_ : s.tree.follow s.treeUri (segments parentRel) = some parentUri)
    (here : s.tree.entries parentUri = some children) (free : ∀ e ∈ children, e.1 ≠ seg)
    (proper : seg ≠ "" ∧ '/' ∉ seg.toList) {new : υ}
    (gives : (replies (childRel parentRel seg)).mkdir = .ok new) :
    Grown replies s { s with tree := s.tree.add parentUri seg new true } ∧
      (s.tree.add parentUri seg new true).follow s.treeUri
        (segments (childRel parentRel seg)) = some new := by
  have path : segments (childRel parentRel seg) = segments parentRel ++ [seg] :=
    segments_childRel proper
  have fresh := unused_of_free own at_ here free proper gives
  have reached := NamedTree.follow_new_folder at_ here fresh wf free
  rw [← path] at reached
  refine ⟨⟨rfl, wf.add at_ here fresh free true, ?_, ?_⟩, reached⟩
  · exact fun p u => NamedTree.follow_add at_ here fresh seg true
  · intro p u doc
    rcases NamedTree.document_of_add at_ here fresh wf doc with old | ⟨there, same⟩
    · exact .inl old
    · rw [← path] at there
      subst there same
      exact .inr ⟨reached, _, gives, rfl⟩

omit [DecidableEq υ] in
/-- A folder that is listed is the one its path leads to. -/
theorem listed_of_follow {children : List (String × υ)} {e : String × υ} {uri : υ}
    (at_ : s.tree.follow s.treeUri (segments parentRel) = some parentUri)
    (here : s.tree.entries parentUri = some children)
    (found : children.find? (fun e => e.1 = seg) = some e)
    (proper : seg ≠ "" ∧ '/' ∉ seg.toList)
    (reached : s.tree.follow s.treeUri (segments (childRel parentRel seg)) = some uri) :
    e.2 = uri := by
  rw [segments_childRel proper] at reached
  obtain ⟨k, before, child, -⟩ := NamedTree.follow_snoc_iff.mp reached
  obtain rfl := Option.some.inj (at_.symm.trans before)
  exact Option.some.inj ((child_of_find here found).symm.trans child)

/-- What the commands for one segment do, where the segment is no file. -/
theorem segmentUri_grown (wf : s.tree.WellFormed s.treeUri) (own : Own replies s)
    (at_ : s.tree.follow s.treeUri (segments parentRel) = some parentUri)
    (proper : seg ≠ "" ∧ '/' ∉ seg.toList)
    (clear : Clear s (segments (childRel parentRel seg)))
    (is : segmentUri s parentUri seg (replies (childRel parentRel seg)) = (s', res)) :
    Grown replies s s' ∧ s'.dirUris = s.dirUris ∧
      ∀ uri, res = .ok uri →
        s'.tree.follow s'.treeUri (segments (childRel parentRel seg)) = some uri := by
  rw [segmentUri] at is
  split at is
  · cases is
    exact ⟨.refl wf, rfl, fun uri no => by cases no⟩
  rename_i children listed
  have here := entries_of_ls listed
  split at is
  · -- the segment is listed, and as it is clear it is a folder
    rename_i e found
    cases is
    refine ⟨.refl wf, rfl, ?_⟩
    intro uri same
    cases same
    obtain ⟨es, there, mem⟩ := NamedTree.child_eq_some (child_of_find here found)
    have doc := NamedTree.Document.entry at_ there mem
    rw [← segments_childRel proper] at doc
    exact NamedTree.follow_of_document wf doc (clear _ _ (List.prefix_refl _) doc)
  rename_i missing
  have free : ∀ e ∈ children, e.1 ≠ seg := by
    intro e mem
    simpa using List.find?_eq_none.mp missing e mem
  split at is
  · cases is
    exact ⟨.refl wf, rfl, fun uri no => by cases no⟩
  rename_i new gives
  obtain ⟨grown, reached⟩ := mkdir_grown wf own at_ here free proper gives
  dsimp only at is
  split at is
  · cases is
    refine ⟨grown, rfl, ?_⟩
    intro uri same
    cases same
    exact reached
  split at is
  · cases is
    exact ⟨grown, rfl, fun uri no => by cases no⟩
  rename_i children' listed'
  split at is
  · rename_i e found
    cases is
    refine ⟨grown, rfl, ?_⟩
    intro uri same
    cases same
    have listed := listed_of_follow (grown.paths _ _ at_) (entries_of_ls listed') found proper reached
    rw [listed]
    exact reached
  · cases is
    exact ⟨grown, rfl, fun uri no => by cases no⟩

/-- What the walk keeps, and where it ends. -/
theorem walk_resolved {segs : List String} (correct : s.Correct) (own : Own replies s)
    (apart : ∀ rel rel' uri, (replies rel).mkdir = .ok uri → (replies rel').mkdir = .ok uri →
      rel = rel')
    (at_ : s.tree.follow s.treeUri (segments parentRel) = some parentUri)
    (proper : ∀ seg ∈ segs, seg ≠ "" ∧ '/' ∉ seg.toList)
    (clear : Clear s (segments parentRel ++ segs))
    (is : walk replies segs parentRel parentUri s = (s', res)) :
    Resolved replies s s' (segments parentRel ++ segs) res := by
  induction segs generalizing s parentRel parentUri with
  | nil =>
    rw [walk] at is
    cases is
    refine ⟨.refl correct.tree, correct, fun key cached => .inl cached, ?_⟩
    intro uri same
    cases same
    rw [List.append_nil]
    exact at_
  | cons seg segs ih =>
    have seg_proper := proper seg List.mem_cons_self
    have path : segments (childRel parentRel seg) = segments parentRel ++ [seg] :=
      segments_childRel seg_proper
    have whole : segments parentRel ++ seg :: segs =
        segments (childRel parentRel seg) ++ segs := by
      rw [path, List.append_assoc, List.singleton_append]
    rw [whole] at clear ⊢
    have rest : ∀ seg ∈ segs, seg ≠ "" ∧ '/' ∉ seg.toList :=
      fun later mem => proper later (List.mem_cons_of_mem seg mem)
    rw [walk] at is
    split at is
    · rename_i uri cached
      exact ih correct own (correct.cache _ uri cached) rest clear is
    · have front : Clear s (segments (childRel parentRel seg)) :=
        fun p u before => clear p u (before.trans (List.prefix_append _ _))
      split at is
      · rename_i s₁ e one
        obtain ⟨grown, same, -⟩ := segmentUri_grown correct.tree own at_ seg_proper front one
        cases is
        refine ⟨grown, grown.correct correct same, ?_, fun uri no => by cases no⟩
        intro key cached
        exact .inl (same ▸ cached)
      · rename_i s₁ uri one
        obtain ⟨grown, same, found⟩ := segmentUri_grown correct.tree own at_ seg_proper front one
        have reached := found uri rfl
        have correct₁ := (grown.correct correct same).cachePut reached
        have stored : Grown replies s (s₁.cachePut (childRel parentRel seg) uri) :=
          ⟨grown.root, grown.tree, grown.paths, grown.documents⟩
        have last := ih correct₁ (stored.own apart own) reached rest
          (stored.clear correct.tree clear) is
        refine ⟨stored.trans last.grown, last.correct, ?_, last.found⟩
        intro key cached
        rcases last.cached key cached with old | below
        · by_cases here : key = childRel parentRel seg
          · rw [here]
            exact .inr (List.prefix_append _ _)
          · simp only [cachePut, if_neg here, same] at old
            exact .inl old
        · exact .inr below

theorem ensureDirUri_resolved {rel : String} (correct : s.Correct) (fresh : Fresh s replies)
    (clear : Clear s (segments rel)) (is : s.ensureDirUri rel replies = (s', res)) :
    Resolved replies s s' (segments rel) res := by
  rw [ensureDirUri] at is
  split at is
  · rename_i uri cached
    cases is
    refine ⟨.refl correct.tree, correct, fun key there => .inl there, ?_⟩
    intro u same
    cases same
    exact correct.cache rel uri cached
  · have own : Own replies s := fun r u gives p doc => absurd doc (fresh.unused r u gives p)
    have top : s.tree.follow s.treeUri (segments "") = some s.treeUri := by
      rw [segments_empty]
      exact NamedTree.follow_nil correct.tree.folder
    have along : Clear s (segments "" ++ segments rel) := by
      rw [segments_empty]
      exact clear
    have walked := walk_resolved correct own fresh.apart top (fun seg mem => segment_proper mem)
      along is
    rw [segments_empty, List.nil_append] at walked
    exact walked

end

/-- A file is written beside what there is. -/
theorem write_keeps {t : NamedTree String υ} {root parentUri uri : υ} {place : List String}
    (name alt : String) (wf : t.WellFormed root) (at_ : t.follow root place = some parentUri)
    (fresh : ∀ p, ¬ t.Document root p uri) :
    (write t parentUri name alt uri).WellFormed root ∧
      ∀ p u, t.follow root p = some u → (write t parentUri name alt uri).follow root p = some u := by
  obtain ⟨es, here⟩ := Option.isSome_iff_exists.mp (NamedTree.folder_of_follow at_)
  have free : ∀ {wanted : String}, (t.child parentUri wanted).isNone = true →
      ∀ e ∈ es, e.1 ≠ wanted := by
    rintro _ none_ e mem rfl
    have found := NamedTree.child_of_mem (wf.names place parentUri es at_ here) here mem
    rw [found] at none_
    cases none_
  rw [write]
  split
  · rename_i none_
    exact ⟨wf.add at_ here fresh (free none_) false,
      fun p u => NamedTree.follow_add at_ here fresh name false⟩
  · split
    · rename_i none_
      exact ⟨wf.add at_ here fresh (free none_) false,
        fun p u => NamedTree.follow_add at_ here fresh alt false⟩
    · exact ⟨wf, fun p u is => is⟩

namespace Call

/-- The URIs a call's commands give are new. -/
def Fresh (s : SafSink υ) : Call υ → Prop
  | .ensureDir _ replies => s.Fresh replies
  | .create _ replies w => s.Fresh replies ∧ ∀ uri, w.spawn = .ok uri →
      (∀ p, ¬ s.tree.Document s.treeUri p uri) ∧ ∀ rel, (replies rel).mkdir ≠ .ok uri

/-- No file stands where the directory is looked for, and nothing cached is removed. -/
def Undisturbed (s : SafSink υ) : Call υ → Prop
  | .ensureDir rel _ => Clear s (segments rel)
  | .create rel _ w => Clear s (segments (splitParent rel).1) ∧ (w.rm = true →
      ∀ key, s.dirUris key ≠ none →
        ¬ segments (splitParent rel).1 ++ [(splitParent rel).2] <+: segments key)

end Call

/-- The entry that a removal takes away is behind its folder. -/
theorem not_snoc_of_front {place path : List String} {name : String} (front : path <+: place) :
    ¬ place ++ [name] <+: path := by
  intro back
  have longer := (back.trans front).length_le
  simp only [List.length_append, List.length_singleton] at longer
  omega

/-- A removal behind which nothing is cached leaves the cache right. -/
theorem Correct.remove {s : SafSink υ} (correct : s.Correct) {place : List String}
    {parentUri : υ} {name : String} (at_ : s.tree.follow s.treeUri place = some parentUri)
    (spared : ∀ key, s.dirUris key ≠ none → ¬ place ++ [name] <+: segments key) :
    ({ s with tree := s.tree.remove parentUri name } : SafSink υ).Correct where
  tree := correct.tree.remove parentUri name
  cache := by
    intro key uri cached
    have there : s.dirUris key ≠ none := by
      rw [show s.dirUris key = some uri from cached]
      exact Option.some_ne_none uri
    exact NamedTree.follow_remove correct.tree at_ (correct.cache key uri cached) (spared key there)

section
variable {s s' : SafSink υ} {rel : String} {replies : String → Reply υ} {w : WriteReply υ}

theorem create_correct {res : Except String Unit} (correct : s.Correct)
    (fresh : (Call.create rel replies w).Fresh s)
    (undisturbed : (Call.create rel replies w).Undisturbed s)
    (is : s.create rel replies w = (s', res)) : s'.Correct ∧ s'.treeUri = s.treeUri := by
  obtain ⟨names, spawned⟩ := fresh
  obtain ⟨clear, kept⟩ := undisturbed
  rw [create] at is
  dsimp only at is
  split at is
  · rename_i s₁ e one
    obtain ⟨grown, correct₁, -, -⟩ := ensureDirUri_resolved correct names clear one
    cases is
    exact ⟨correct₁, grown.root⟩
  rename_i s₁ parentUri one
  obtain ⟨grown, correct₁, keys, found⟩ := ensureDirUri_resolved correct names clear one
  have at_ := found parentUri rfl
  -- the entry that goes is behind no cached directory
  have spared : w.rm = true → ∀ key, s₁.dirUris key ≠ none →
      ¬ segments (splitParent rel).1 ++ [(splitParent rel).2] <+: segments key := by
    intro goes key cached
    rcases keys key cached with old | front
    · exact kept goes key old
    · exact not_snoc_of_front front
  generalize cut : (if w.rm = true then s₁.tree.remove parentUri (splitParent rel).2
    else s₁.tree) = tree at is
  have left : ({ s₁ with tree := tree } : SafSink υ).Correct ∧
      tree.follow s₁.treeUri (segments (splitParent rel).1) = some parentUri ∧
      ∀ p u, tree.Document s₁.treeUri p u → s₁.tree.Document s₁.treeUri p u := by
    split at cut
    · rename_i goes
      subst cut
      exact ⟨correct₁.remove at_ (spared goes),
        NamedTree.follow_remove correct₁.tree at_ at_ (not_snoc_of_front (List.prefix_refl _)),
        fun p u => NamedTree.document_of_remove correct₁.tree⟩
    · subst cut
      exact ⟨correct₁, at_, fun p u doc => doc⟩
  obtain ⟨correct₂, at₂, fewer⟩ := left
  split at is
  · cases is
    exact ⟨correct₂, grown.root⟩
  · rename_i uri gives
    cases is
    have new : ∀ p, ¬ tree.Document s₁.treeUri p uri := by
      intro p doc
      obtain ⟨unused, notMade⟩ := spawned uri gives
      rcases grown.documents p uri (fewer p uri doc) with old | ⟨-, r, made, -⟩
      · exact unused p old
      · exact notMade r made
    obtain ⟨wf, paths⟩ := write_keeps (splitParent rel).2 w.alt correct₂.tree at₂ new
    exact ⟨⟨wf, fun key u cached => paths _ u (correct₂.cache key u cached)⟩, grown.root⟩

theorem step_correct {c : Call υ} (correct : s.Correct) (fresh : c.Fresh s)
    (undisturbed : c.Undisturbed s) : (step s c).Correct ∧ (step s c).treeUri = s.treeUri := by
  cases c with
  | ensureDir rel replies =>
    obtain ⟨grown, correct', -⟩ := ensureDirUri_resolved correct fresh undisturbed rfl
    exact ⟨correct', grown.root⟩
  | create rel replies w => exact create_correct correct fresh undisturbed rfl

end

omit [DecidableEq υ] in
theorem open_correct {treeUri : υ} {tree : NamedTree String υ} (wf : tree.WellFormed treeUri) :
    (SafSink.open treeUri tree).Correct where
  tree := wf
  cache := by
    intro rel uri cached
    simp only [SafSink.open] at cached ⊢
    split at cached
    · rename_i top
      obtain rfl := Option.some.inj cached
      rw [top, segments_empty]
      exact NamedTree.follow_nil wf.folder
    · cases cached

/-- As long as no file is met and no cached folder removed, the cache is right in every state
of a run, names are unique, and every directory is resolved to its folder. -/
theorem dirs_resolved {treeUri : υ} {tree : NamedTree String υ} (wf : tree.WellFormed treeUri)
    (calls : List (Call υ))
    (fresh : Runs.EachStep calls (fun pre c =>
      c.Fresh (Runs.run step (SafSink.open treeUri tree) pre)))
    (undisturbed : Runs.EachStep calls (fun pre c =>
      c.Undisturbed (Runs.run step (SafSink.open treeUri tree) pre))) :
    Runs.Throughout step (SafSink.open treeUri tree) calls
      (fun s => s.treeUri = treeUri ∧ s.Correct) ∧
    Runs.EachStep calls (fun pre c => ∀ mid uri,
      (Runs.run step (SafSink.open treeUri tree) pre).ensureDirUri c.dir c.replies =
        (mid, .ok uri) → mid.tree.follow treeUri (segments c.dir) = some uri) := by
  have correct : Runs.Throughout step (SafSink.open treeUri tree) calls
      (fun s => s.treeUri = treeUri ∧ s.Correct) := by
    refine Runs.throughout_of_eachStep (G := fun pre c =>
      c.Fresh (Runs.run step (SafSink.open treeUri tree) pre) ∧
      c.Undisturbed (Runs.run step (SafSink.open treeUri tree) pre))
      ⟨rfl, open_correct wf⟩ ?_ ?_
    · rintro pre c ⟨root, before⟩ ⟨new, calm⟩
      rw [Runs.run_snoc]
      obtain ⟨after, same⟩ := step_correct before new calm
      exact ⟨same.trans root, after⟩
    · exact fun pre c post split => ⟨fresh pre c post split, undisturbed pre c post split⟩
  refine ⟨correct, ?_⟩
  intro pre c post split mid uri is
  obtain ⟨root, before⟩ := correct pre (c :: post) split
  have new := fresh pre c post split
  have calm := undisturbed pre c post split
  have resolved : Grown c.replies (Runs.run step (SafSink.open treeUri tree) pre) mid ∧
      mid.tree.follow mid.treeUri (segments c.dir) = some uri := by
    cases c with
    | ensureDir rel replies =>
      obtain ⟨grown, -, -, found⟩ := ensureDirUri_resolved before new calm is
      exact ⟨grown, found uri rfl⟩
    | create rel replies w =>
      obtain ⟨grown, -, -, found⟩ := ensureDirUri_resolved before new.1 calm.1 is
      exact ⟨grown, found uri rfl⟩
  rw [← root, ← resolved.1.root]
  exact resolved.2

/-- Commands that make the folder `x`, and print its URI. -/
def makesX (rel : String) : Reply Nat where
  ls := .ok ()
  mkdir := if rel = "x" then .ok 1 else .error "no space left on device"
  printed := true
  again := .ok ()

theorem eq_of_makesX {rel : String} {uri : Nat} (gives : (makesX rel).mkdir = .ok uri) :
    rel = "x" ∧ uri = 1 := by
  simp only [makesX] at gives
  split at gives
  · rename_i same
    cases gives
    exact ⟨same, rfl⟩
  · cases gives

theorem makesX_fresh : Fresh (SafSink.open 0 (NamedTree.single 0)) makesX where
  unused rel uri gives p doc := by
    have made := (eq_of_makesX gives).2
    have root := (NamedTree.document_single doc).2
    omega
  apart rel rel' uri gives gives' := by
    rw [(eq_of_makesX gives).1, (eq_of_makesX gives').1]

theorem dirs_resolved_new_file : ∃ mid,
    (SafSink.open 0 (NamedTree.single 0)).ensureDirUri "x/" makesX = (mid, .ok 1) ∧
      mid.tree.follow 0 ["x"] = some 1 := by
  refine ⟨_, rfl, ?_⟩
  refine (dirs_resolved NamedTree.wellFormed_single
    [.create "x//f" makesX ⟨true, .ok 2, "f (1)"⟩]
    (Runs.eachStep_cons.mpr ⟨⟨makesX_fresh, ?_⟩, Runs.eachStep_nil⟩)
    (Runs.eachStep_cons.mpr ⟨⟨?_, ?_⟩, Runs.eachStep_nil⟩)).2 [] _ [] rfl _ 1 rfl
  · intro uri gives
    cases gives
    refine ⟨fun p doc => ?_, fun rel made => ?_⟩
    · exact absurd (NamedTree.document_single doc).2 (by decide)
    · exact absurd (eq_of_makesX made).2 (by decide)
  · intro p u front doc
    rw [(NamedTree.document_single doc).2]
    exact NamedTree.wellFormed_single.folder
  · intro goes key cached front
    have top : key = "" := by
      by_contra other
      exact cached (if_neg other)
    rw [top, segments_empty] at front
    exact absurd (List.prefix_nil.mp front) (by simp)

/-- A tree with the file `x`. -/
def treeOfX : NamedTree String Nat := (NamedTree.single 0).add 0 "x" 1 false

theorem treeOfX_wellFormed : treeOfX.WellFormed 0 := by
  have top : (NamedTree.single 0 : NamedTree String Nat).follow 0 [] = some 0 := rfl
  have empty : (NamedTree.single 0 : NamedTree String Nat).entries 0 = some [] := rfl
  refine NamedTree.wellFormed_single.add top empty ?_ ?_ false
  · intro p doc
    exact absurd (NamedTree.document_single doc).2 (by decide)
  · exact fun e mem => absurd mem List.not_mem_nil

/-- Commands that make nothing. -/
def makesNothing (_ : String) : Reply Nat where
  ls := .ok ()
  mkdir := .error "read-only"
  printed := false
  again := .ok ()

/-- A file is returned, and cached, as the directory of its name. -/
theorem file_taken_for_directory :
    treeOfX.WellFormed 0 ∧ Fresh (SafSink.open 0 treeOfX) makesNothing ∧
      ∃ mid, (SafSink.open 0 treeOfX).ensureDirUri "x" makesNothing = (mid, .ok 1) ∧
        mid.tree.follow 0 (segments "x") = none ∧ mid.dirUris "x" = some 1 ∧
        ¬ mid.tree.IsFolder 1 := by
  refine ⟨treeOfX_wellFormed, ⟨?_, ?_⟩, _, rfl, rfl, rfl, fun folder => by cases folder⟩
  · intro rel uri gives
    cases gives
  · intro rel rel' uri gives
    cases gives

end BVault.Transfer.SafSink
