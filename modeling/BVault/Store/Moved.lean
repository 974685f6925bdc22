import BVault.Store.FromTemp
import BVault.Store.Whole

/-!
# Targets of moved files are whole

Between a call's truncating create and its rename the shared name is in its
hands, as long as no other call creates a copy of its own there: then what it
renames is its complete file, and the name is still there to be renamed. In
runs without such a create, targets are whole in every state and no call fails.
-/

namespace BVault.Store.Mount

/-- An open or finished copy is what its name leads to, and holds what was copied so far. -/
def OwnCopy (hash : String) (dir : Directory String Inode) (c : Move) : Prop :=
  match c.pc with
  | .copy file offset => dir.names (c.destTmp hash) = some file ∧
      dir.content file = c.bytes.take offset ∧ offset ≤ c.bytes.length
  | .renameTmp => ∃ file, dir.names (c.destTmp hash) = some file ∧ dir.content file = c.bytes
  | _ => True

/-- The most steps a call can still make. -/
def left (c : Move) : Nat :=
  match c.pc with
  | .createDirAll => c.bytes.length + 6
  | .rename => c.bytes.length + 5
  | .create => c.bytes.length + 4
  | .copy _ offset => c.bytes.length - offset + 3
  | .renameTmp => 2
  | .removeTemp => 1
  | _ => 0

/-- The call is on its way, within its steps, or it is over and did not fail. -/
def Timely (c : Move) : Prop :=
  c.pc = .dead ∨ c.pc = .returned ∨ (0 < left c ∧ c.taken + left c ≤ c.bytes.length + 6)

/-- The call did not create a file yet. -/
def early : MovePc → Bool
  | .createDirAll => true
  | .rename => true
  | .create => true
  | _ => false

structure Inv (hash : String) (files : FileSystem) (s : Mount) : Prop where
  linkFree : s.dir.LinkFree
  made : ∀ p w, s.dir.names p = some (.made w) →
    ∃ c, s.calls[w]? = some c ∧ early c.pc = false
  apart : ∀ c ∈ s.calls, ∀ d ∈ s.calls, c.target hash ≠ d.destTmp hash
  single : ∀ (w v : Nat) (c d : Move), s.calls[w]? = some c → s.calls[v]? = some d →
    c.copying = true → d.copying = true → c.destTmp hash = d.destTmp hash → w = v
  own : ∀ c ∈ s.calls, OwnCopy hash s.dir c
  whole : ∀ p, (∀ c ∈ s.calls, p ≠ c.destTmp hash) → s.WholeAt files p
  timely : ∀ c ∈ s.calls, Timely c

theorem inv_holding (hash : String) (files : FileSystem) : Inv hash files (holding files) where
  linkFree := by
    intro p q i hp hq
    simp only [holding, Option.map_eq_some_iff] at hp hq
    obtain ⟨_, _, rfl⟩ := hp
    obtain ⟨_, _, same⟩ := hq
    exact (Inode.kept.inj same).symm
  made := by simp [holding]
  apart := by simp [holding]
  single := by simp [holding]
  own := by simp [holding]
  whole := by
    intro p _
    refine Or.inr (Or.inl ?_)
    cases there : files p with
    | none => simp [holding, Directory.read, there]
    | some bytes => simp [holding, Directory.read, there]
  timely := by simp [holding]

theorem sound_of_inv {hash : String} {files : FileSystem} {s : Mount} (inv : Inv hash files s) :
    s.Sound hash files := by
  intro c hc
  refine ⟨inv.whole _ (inv.apart c hc), ?_⟩
  rcases inv.timely c hc with dead | returned | ⟨going, within⟩
  · exact Or.inl dead
  · exact Or.inr (Or.inl returned)
  · refine Or.inr (Or.inr ⟨?_, by omega⟩)
    intro failed
    simp [left, failed] at going

@[simp] theorem target_moveTo (hash : String) (c : Move) (pc : MovePc) :
    (c.moveTo pc).target hash = c.target hash := rfl

@[simp] theorem destTmp_moveTo (hash : String) (c : Move) (pc : MovePc) :
    (c.moveTo pc).destTmp hash = c.destTmp hash := rfl

@[simp] theorem bytes_moveTo (c : Move) (pc : MovePc) : (c.moveTo pc).bytes = c.bytes := rfl

@[simp] theorem pc_moveTo (c : Move) (pc : MovePc) : (c.moveTo pc).pc = pc := rfl

section Moving

variable {hash : String} {files : FileSystem} {s : Mount} {w : Nat} {c : Move}

theorem get_setPc (hc : s.calls[w]? = some c) {pc : MovePc} {v : Nat} {d : Move}
    (hd : (s.setPc w pc).calls[v]? = some d) :
    v = w ∧ d = c.moveTo pc ∨ v ≠ w ∧ s.calls[v]? = some d := by
  rw [setPc, List.getElem?_modify] at hd
  obtain ⟨d', hd', rfl⟩ := Option.map_eq_some_iff.mp hd
  by_cases same : w = v
  · subst same
    obtain rfl : c = d' := Option.some.inj (hc.symm.trans hd')
    simp
  · simp [same, Ne.symm same, hd']

theorem setPc_get (hc : s.calls[w]? = some c) (pc : MovePc) :
    (s.setPc w pc).calls[w]? = some (c.moveTo pc) := by
  simp [setPc, hc]

theorem setPc_get_ne (pc : MovePc) {v : Nat} (other : v ≠ w) :
    (s.setPc w pc).calls[v]? = s.calls[v]? := by
  simp [setPc, Ne.symm other]

/-- Every call is still there, with its extension and its bytes. -/
theorem mem_setPc (hash : String) (hc : s.calls[w]? = some c) (pc : MovePc) {d : Move}
    (hd : d ∈ s.calls) :
    ∃ d' ∈ (s.setPc w pc).calls, d'.bytes = d.bytes ∧ d'.destTmp hash = d.destTmp hash := by
  obtain ⟨v, hv⟩ := List.mem_iff_getElem?.mp hd
  by_cases same : v = w
  · subst same
    obtain rfl : c = d := Option.some.inj (hc.symm.trans hv)
    exact ⟨_, List.mem_of_getElem? (setPc_get hc pc), rfl, rfl⟩
  · exact ⟨d, List.mem_of_getElem? ((setPc_get_ne pc same).trans hv), rfl, rfl⟩

theorem mem_of_setPc (hc : s.calls[w]? = some c) {pc : MovePc} {d : Move}
    (hd : d ∈ (s.setPc w pc).calls) : d = c.moveTo pc ∨ ∃ v, v ≠ w ∧ s.calls[v]? = some d := by
  obtain ⟨v, hv⟩ := List.mem_iff_getElem?.mp hd
  rcases get_setPc hc hv with ⟨_, is⟩ | ⟨other, old⟩
  · exact Or.inl is
  · exact Or.inr ⟨v, other, old⟩

theorem ownCopy_of_agree {dir dir' : Directory String Inode} {d : Move}
    (own : OwnCopy hash dir d)
    (agree : d.copying = true → Directory.AgreeAt dir dir' (d.destTmp hash)) :
    OwnCopy hash dir' d := by
  unfold OwnCopy at own ⊢
  cases pc : d.pc with
  | copy file offset =>
    simp only [pc] at own ⊢
    obtain ⟨names, content⟩ := agree (by simp [Move.copying, pc])
    obtain ⟨named, soFar, within⟩ := own
    exact ⟨names.trans named, (content file named).trans soFar, within⟩
  | renameTmp =>
    simp only [pc] at own ⊢
    obtain ⟨names, content⟩ := agree (by simp [Move.copying, pc])
    obtain ⟨file, named, done⟩ := own
    exact ⟨file, names.trans named, (content file named).trans done⟩
  | _ => trivial

/-- What a step of one call has to keep: the other calls' copies, every name but the call's own
copy and target, and its own bytes behind these. -/
theorem Inv.advanced (inv : Inv hash files s) (hc : s.calls[w]? = some c)
    {dir : Directory String Inode} {pc : MovePc} (linkFree : dir.LinkFree)
    (made : ∀ p v, dir.names p = some (.made v) →
      v = w ∧ early pc = false ∨ ∃ q, s.dir.names q = some (.made v))
    (later : early c.pc = false → early pc = false)
    (single : (c.moveTo pc).copying = true → ∀ v d, v ≠ w → s.calls[v]? = some d →
      d.copying = true → d.destTmp hash ≠ c.destTmp hash)
    (agree : ∀ v d, v ≠ w → s.calls[v]? = some d → d.copying = true →
      Directory.AgreeAt s.dir dir (d.destTmp hash))
    (own : OwnCopy hash dir (c.moveTo pc))
    (whole : ∀ p, p ≠ c.destTmp hash → dir.read p = s.dir.read p ∨ dir.read p = some c.bytes)
    (timely : Timely (c.moveTo pc)) :
    Inv hash files ({ s with dir := dir }.setPc w pc) where
  linkFree := linkFree
  made := by
    intro p v hp
    have before : v = w ∧ early pc = false ∨
        ∃ d, s.calls[v]? = some d ∧ early d.pc = false := by
      rcases made p v hp with new | ⟨q, hq⟩
      · exact Or.inl new
      · exact Or.inr (inv.made q v hq)
    by_cases same : v = w
    · subst same
      refine ⟨_, setPc_get hc pc, ?_⟩
      rcases before with ⟨_, late⟩ | ⟨d, hd, late⟩
      · exact late
      · obtain rfl : c = d := Option.some.inj (hc.symm.trans hd)
        exact later late
    · obtain ⟨d, hd, late⟩ := before.resolve_left (fun h => same h.1)
      exact ⟨d, (setPc_get_ne pc same).trans hd, late⟩
  apart := by
    have mine : c ∈ s.calls := List.mem_of_getElem? hc
    intro d hd e he
    rcases mem_of_setPc hc hd with rfl | ⟨_, _, hd⟩ <;>
      rcases mem_of_setPc hc he with rfl | ⟨_, _, he⟩
    · exact inv.apart c mine c mine
    · exact inv.apart c mine e (List.mem_of_getElem? he)
    · exact inv.apart d (List.mem_of_getElem? hd) c mine
    · exact inv.apart d (List.mem_of_getElem? hd) e (List.mem_of_getElem? he)
  single := by
    intro u v d e hd he copying copying' same
    rcases get_setPc hc hd with ⟨rfl, rfl⟩ | ⟨other, oldD⟩ <;>
      rcases get_setPc hc he with ⟨rfl, rfl⟩ | ⟨other', oldE⟩
    · rfl
    · exact absurd same.symm (single copying v e other' oldE copying')
    · exact absurd same (single copying' u d other oldD copying)
    · exact inv.single u v d e oldD oldE copying copying' same
  own := by
    intro d hd
    rcases mem_of_setPc hc hd with rfl | ⟨v, other, hd⟩
    · exact own
    · exact ownCopy_of_agree (inv.own d (List.mem_of_getElem? hd)) (agree v d other hd)
  whole := by
    intro p notTmp
    have notTmp' : ∀ d ∈ s.calls, p ≠ d.destTmp hash := by
      intro d hd
      obtain ⟨d', hd', _, same⟩ := mem_setPc hash hc pc hd
      rw [← same]
      exact notTmp d' hd'
    have mine : c ∈ s.calls := List.mem_of_getElem? hc
    have somebody : ∀ d ∈ s.calls, ∃ d' ∈ ({ s with dir := dir }.setPc w pc).calls,
        d'.bytes = d.bytes := by
      intro d hd
      obtain ⟨d', hd', bytes, _⟩ := mem_setPc hash hc pc hd
      exact ⟨d', hd', bytes⟩
    rcases whole p (notTmp' c mine) with same | new
    · unfold WholeAt
      have unchanged : Directory.read ({ s with dir := dir }.setPc w pc).dir p = s.dir.read p := same
      rw [unchanged]
      rcases inv.whole p notTmp' with absent | kept | ⟨d, hd, bytes⟩
      · exact Or.inl absent
      · exact Or.inr (Or.inl kept)
      · obtain ⟨d', hd', bytes'⟩ := somebody d hd
        exact Or.inr (Or.inr ⟨d', hd', bytes'.symm ▸ bytes⟩)
    · obtain ⟨d', hd', bytes'⟩ := somebody c mine
      exact Or.inr (Or.inr ⟨d', hd', bytes'.symm ▸ new⟩)
  timely := by
    intro d hd
    rcases mem_of_setPc hc hd with rfl | ⟨_, _, hd⟩
    · exact timely
    · exact inv.timely d (List.mem_of_getElem? hd)

/-- A step that touches no file. -/
theorem Inv.movedOn (inv : Inv hash files s) (hc : s.calls[w]? = some c) {pc : MovePc}
    (later : early c.pc = false → early pc = false)
    (copying : (c.moveTo pc).copying = true → c.copying = true)
    (own : OwnCopy hash s.dir (c.moveTo pc)) (timely : Timely (c.moveTo pc)) :
    Inv hash files (s.setPc w pc) := by
  refine inv.advanced hc inv.linkFree (fun p v hp => Or.inr ⟨p, hp⟩) later ?_
    (fun _ d _ _ _ => Directory.AgreeAt.refl s.dir (d.destTmp hash)) own
    (fun _ _ => Or.inl rfl) timely
  intro now v d other hd copying' same
  exact other (inv.single v w d c hd hc copying' (copying now) same)

theorem inv_create (inv : Inv hash files s) (hc : s.calls[w]? = some c) (pc : c.pc = .create)
    (free : ∀ d ∈ s.calls, d.copying = true → d.destTmp hash ≠ c.destTmp hash) :
    Inv hash files ({ s with dir := (s.dir.create (c.destTmp hash) (.made w)).1 }.setPc w
      (.copy (s.dir.create (c.destTmp hash) (.made w)).2 0)) := by
  have mine : c ∈ s.calls := List.mem_of_getElem? hc
  -- the call made no file yet, so its new one has no name
  have fresh : ∀ p, s.dir.names p ≠ some (.made w) := by
    intro p hp
    obtain ⟨d, hd, late⟩ := inv.made p w hp
    obtain rfl : c = d := Option.some.inj (hc.symm.trans hd)
    rw [pc] at late
    cases late
  have others : ∀ v d, v ≠ w → s.calls[v]? = some d → d.copying = true →
      d.destTmp hash ≠ c.destTmp hash :=
    fun v d _ hd copying => free d (List.mem_of_getElem? hd) copying
  refine inv.advanced hc (Directory.create_linkFree inv.linkFree fresh) ?_ (fun _ => rfl)
    (fun _ => others) ?_ ?_ ?_ ?_
  · intro p v hp
    rcases Directory.create_names hp with old | ⟨same, _⟩
    · exact Or.inr ⟨p, old⟩
    · exact Or.inl ⟨Inode.made.inj same, rfl⟩
  · intro v d other hd copying
    exact Directory.create_agree inv.linkFree fresh (others v d other hd copying)
  · obtain ⟨named, empty⟩ := Directory.create_self s.dir (c.destTmp hash) (.made w)
    exact ⟨named, empty, Nat.zero_le _⟩
  · intro p notTmp
    exact Or.inl (Directory.create_agree inv.linkFree fresh notTmp).read
  · have timely := inv.timely c mine
    simp only [Timely, left, Move.moveTo, pc] at timely ⊢
    simp at timely ⊢
    omega

theorem inv_copy (inv : Inv hash files s) (hc : s.calls[w]? = some c) {file : Inode}
    {offset : Nat} (pc : c.pc = .copy file offset) (inside : offset < c.bytes.length)
    {more : Nat} {piece : Bytes} (is : piece = (c.bytes.drop offset).take (more + 1))
    {dir : Directory String Inode}
    (after : dir = s.dir.setContent file (Bundle.writeAt (s.dir.content file) offset piece)) :
    Inv hash files ({ s with dir := dir }.setPc w (.copy file (offset + piece.length))) := by
  subst is after
  have mine : c ∈ s.calls := List.mem_of_getElem? hc
  have copying : c.copying = true := by simp [Move.copying, pc]
  have own := inv.own c mine
  simp only [OwnCopy, pc] at own
  obtain ⟨named, soFar, within⟩ := own
  have others : ∀ v d, v ≠ w → s.calls[v]? = some d → d.copying = true →
      d.destTmp hash ≠ c.destTmp hash :=
    fun v d other hd copying' same => other (inv.single v w d c hd hc copying' copying same)
  have piece : ((c.bytes.drop offset).take (more + 1)).length =
      min (more + 1) (c.bytes.length - offset) := by simp
  refine inv.advanced hc ?_ (fun p v hp => Or.inr ⟨p, hp⟩) (fun _ => rfl) (fun _ => others)
    ?_ ?_ ?_ ?_
  · exact inv.linkFree
  · intro v d other hd copying'
    exact Directory.agree_setContent inv.linkFree named (others v d other hd copying') _
  · refine ⟨named, ?_, ?_⟩
    · rw [Directory.content_setContent_self, soFar]
      exact Bundle.writeAt_take within (more + 1)
    · simp only [bytes_moveTo]
      omega
  · intro p notTmp
    exact Or.inl (Directory.agree_setContent inv.linkFree named notTmp _).read
  · have timely := inv.timely c mine
    simp only [Timely, left, Move.moveTo, pc] at timely ⊢
    simp at timely ⊢
    omega

/-- The rename finds the call's own complete file. -/
theorem inv_renameTmp (inv : Inv hash files s) (hc : s.calls[w]? = some c)
    (pc : c.pc = .renameTmp) :
    ∃ dir, s.dir.rename (c.destTmp hash) (c.target hash) = some dir ∧
      Inv hash files ({ s with dir := dir }.setPc w .removeTemp) := by
  have mine : c ∈ s.calls := List.mem_of_getElem? hc
  have copying : c.copying = true := by simp [Move.copying, pc]
  have own := inv.own c mine
  simp only [OwnCopy, pc] at own
  obtain ⟨file, named, done⟩ := own
  obtain ⟨dir, renamed, content, there, gone, others⟩ :=
    Directory.rename_cases inv.linkFree (inv.apart c mine c mine) named
  refine ⟨dir, renamed, inv.advanced hc ?_ ?_ (fun _ => rfl) ?_ ?_ trivial ?_ ?_⟩
  · exact Directory.linkFree_of_moved inv.linkFree named there gone others
  · intro p v hp
    by_cases atTarget : p = c.target hash
    · rw [atTarget, there] at hp
      exact Or.inr ⟨_, named.trans hp⟩
    · by_cases atTmp : p = c.destTmp hash
      · rw [atTmp, gone] at hp
        cases hp
      · exact Or.inr ⟨p, (others p atTmp atTarget).symm.trans hp⟩
  · intro now
    cases now
  · intro v d other hd copying'
    constructor
    · apply others
      · intro same
        exact other (inv.single v w d c hd hc copying' copying same)
      · exact (inv.apart c mine d (List.mem_of_getElem? hd)).symm
    · intro i _
      rw [content]
  · intro p notTmp
    unfold Directory.read
    by_cases atTarget : p = c.target hash
    · right
      rw [atTarget, there, content, Option.map_some, done]
    · left
      rw [others p notTmp atTarget, content]
  · have timely := inv.timely c mine
    simp only [Timely, left, Move.moveTo, pc] at timely ⊢
    simp at timely ⊢
    omega

theorem inv_advance (inv : Inv hash files s) (hc : s.calls[w]? = some c) (more : Nat)
    (free : c.pc = .create → ∀ d ∈ s.calls, d.copying = true →
      d.destTmp hash ≠ c.destTmp hash) :
    Inv hash files (s.advance hash w c more) := by
  have mine : c ∈ s.calls := List.mem_of_getElem? hc
  have timely := inv.timely c mine
  unfold advance
  cases pc : c.pc with
  | createDirAll =>
    refine inv.movedOn hc (fun late => ?_) (fun now => by cases now) trivial ?_
    · simp [pc, early] at late
    · simp [Timely, left, Move.moveTo, pc] at timely ⊢
      omega
  | rename =>
    refine inv.movedOn hc (fun late => ?_) (fun now => by cases now) trivial ?_
    · simp [pc, early] at late
    · simp [Timely, left, Move.moveTo, pc] at timely ⊢
      omega
  | create => exact inv_create inv hc pc (free pc)
  | copy file offset =>
    simp only
    split
    · rename_i inside
      exact inv_copy inv hc pc inside rfl rfl
    · rename_i atEnd
      have own := inv.own c mine
      simp only [OwnCopy, pc] at own
      obtain ⟨named, soFar, within⟩ := own
      refine inv.movedOn hc (fun _ => rfl) (fun _ => by simp [Move.copying, pc]) ?_ ?_
      · exact ⟨file, named, soFar.trans (List.take_of_length_le (by omega))⟩
      · simp [Timely, left, Move.moveTo, pc] at timely ⊢
        omega
  | renameTmp =>
    obtain ⟨dir, renamed, kept⟩ := inv_renameTmp inv hc pc
    simp only [renamed]
    exact kept
  | removeTemp =>
    refine inv.movedOn hc (fun _ => rfl) (fun now => by cases now) trivial ?_
    exact Or.inr (Or.inl rfl)
  | returned => exact inv
  | failed => exact inv
  | dead => exact inv

theorem inv_call (inv : Inv hash files s) {ext : String} {bytes : Bytes}
    (apart : ∀ d ∈ (⟨ext, bytes, .createDirAll, 0⟩ : Move) :: s.calls,
      Move.target hash ⟨ext, bytes, .createDirAll, 0⟩ ≠ d.destTmp hash ∧
        d.target hash ≠ Move.destTmp hash ⟨ext, bytes, .createDirAll, 0⟩) :
    Inv hash files (s.step hash (.call ext bytes)) where
  linkFree := inv.linkFree
  made := by
    intro p w hp
    obtain ⟨c, hc, late⟩ := inv.made p w hp
    refine ⟨c, ?_, late⟩
    exact (List.getElem?_append_left (List.getElem?_eq_some_iff.mp hc).1).trans hc
  apart := by
    intro c hc d hd
    rcases List.mem_append.mp hc with oldC | newC <;>
      rcases List.mem_append.mp hd with oldD | newD
    · exact inv.apart c oldC d oldD
    · rw [List.mem_singleton.mp newD]
      exact (apart c (List.mem_cons_of_mem _ oldC)).2
    · rw [List.mem_singleton.mp newC]
      exact (apart d (List.mem_cons_of_mem _ oldD)).1
    · rw [List.mem_singleton.mp newC, List.mem_singleton.mp newD]
      exact (apart _ List.mem_cons_self).1
  single := by
    -- the new call has no copy yet
    have old : ∀ (v : Nat) (d : Move), (s.step hash (.call ext bytes)).calls[v]? = some d →
        d.copying = true → s.calls[v]? = some d := by
      intro v d hd copying
      rcases Bytes.getElem?_snoc hd with ⟨_, old⟩ | ⟨_, rfl⟩
      · exact old
      · cases copying
    intro w v c d hc hd copying copying' same
    exact inv.single w v c d (old w c hc copying) (old v d hd copying') copying copying' same
  own := by
    intro c hc
    rcases List.mem_append.mp hc with old | new
    · exact inv.own c old
    · rw [List.mem_singleton.mp new]
      trivial
  whole := by
    intro p notTmp
    rcases inv.whole p (fun d hd => notTmp d (List.mem_append_left _ hd)) with
      absent | kept | ⟨d, hd, bytes⟩
    · exact Or.inl absent
    · exact Or.inr (Or.inl kept)
    · exact Or.inr (Or.inr ⟨d, List.mem_append_left _ hd, bytes⟩)
  timely := by
    intro c hc
    rcases List.mem_append.mp hc with old | new
    · exact inv.timely c old
    · rw [List.mem_singleton.mp new]
      exact Or.inr (Or.inr ⟨Nat.succ_pos _, by simp [left]⟩)

end Moving

theorem inv_step {hash : String} {files : FileSystem} {s : Mount} (inv : Inv hash files s)
    {e : MoveEvent} (keeps : alone hash s e = true) : Inv hash files (s.step hash e) := by
  cases e with
  | call ext bytes =>
    apply inv_call inv
    simpa [alone] using keeps
  | step w more =>
    cases hc : s.calls[w]? with
    | none =>
      simp only [step, hc]
      exact inv
    | some c =>
      simp only [step, hc]
      apply inv_advance inv hc more
      intro pc d hd copying same
      simp only [alone, hc, pc, decide_true, Bool.not_true, Bool.false_or, List.all_eq_true] at keeps
      have apart := keeps d hd
      simp [copying, same] at apart
  | die w =>
    cases hc : s.calls[w]? with
    | none =>
      simp only [step, hc]
      exact inv
    | some c =>
      simp only [step, hc]
      split
      · exact inv
      · refine inv.movedOn hc (fun _ => rfl) (fun now => ?_) trivial (Or.inl rfl)
        cases now

/-- Calls that keep to themselves leave every target whole, at every moment and whoever dies,
and each of them returns its location. -/
theorem moves_whole (hash : String) (files : FileSystem) (events : List MoveEvent)
    (calm : Runs.EachStep events (fun pre e => alone hash (mountAfter hash files pre) e = true)) :
    Runs.Throughout (step hash) (holding files) events (Sound hash files) := by
  have invs : Runs.Throughout (step hash) (holding files) events (Inv hash files) := by
    refine Runs.throughout_of_eachStep (inv_holding hash files) ?_ calm
    intro pre e inv keeps
    rw [Runs.run_snoc]
    exact inv_step inv keeps
  intro pre post split
  exact sound_of_inv (invs pre post split)

/-- Two uploads of one file, the first of which dies while it copies. -/
def secondFinishes : List MoveEvent :=
  [.call "mp3" [1, 2], .call "mp3" [1, 2], .step 0 0, .step 0 0, .step 0 0, .step 0 0, .die 0,
    .step 1 0, .step 1 0, .step 1 0, .step 1 1, .step 1 0, .step 1 0, .step 1 0]

theorem secondFinishes_whole :
    Runs.Throughout (step "ab12") (holding (fun _ => none)) secondFinishes
      (Sound "ab12" (fun _ => none)) :=
  moves_whole "ab12" (fun _ => none) secondFinishes (by
    unfold secondFinishes
    simp only [Runs.eachStep_cons, Runs.eachStep_nil]
    decide)

/-- Two uploads of one file: the second truncates what the first is about to rename, and finds
nothing to rename itself. -/
theorem target_left_empty :
    ∃ events, ¬ Runs.Throughout (step "ab12") (holding (fun _ => none)) events
      (Sound "ab12" (fun _ => none)) := by
  refine ⟨[.call "mp3" [1, 2], .call "mp3" [1, 2], .step 0 0, .step 0 0, .step 0 0, .step 0 1,
    .step 0 0, .step 1 0, .step 1 0, .step 1 0, .step 0 0], ?_⟩
  intro sound
  have last := sound _ [] (List.append_nil _).symm
  obtain ⟨whole, _⟩ := last ⟨"mp3", [1, 2], .removeTemp, 6⟩ (by decide)
  revert whole
  unfold WholeAt
  decide

end BVault.Store.Mount
