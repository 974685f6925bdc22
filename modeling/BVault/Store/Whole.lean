import BVault.Store.Artifact

/-!
# Bundles behind the marker are whole

`exists` promises a bundle that is fully written. Between a caller's own check
and its marker other callers may do the same, so the promise depends on what
they do meanwhile: a truncation after the marker, or a write to a file that
somebody else has opened since, breaks it. In runs without such steps it holds
in every state, through any number of crashes and power failures.
-/

namespace BVault.Store.Bundle

/-- Where the marker is, some call put it there, and every file of every such call's bundle
reads as complete bytes some call was given for it. -/
def Whole (s : Bundle) : Prop :=
  s.exists = true → s.markedBy ≠ [] ∧
    ∀ w ∈ s.markedBy, ∀ p, s.puts[w]? = some p → ∀ a ∈ p.files,
      ∃ q ∈ s.puts, ∃ bytes, (a.1, bytes) ∈ q.files ∧ s.get a.1 = some bytes

/-- The names promised by the marker that is there. -/
def markedNames (s : Bundle) : List String :=
  s.markedBy.flatMap (fun w => (s.puts[w]?.map (fun p => p.files.map Prod.fst)).getD [])

/-- The step does not meddle with a bundle of another call: it opens no file the marker
promises, writes only to a file that nobody opened since, and creates the marker only over
files that their last openers finished. No artifact is called like the marker. -/
def disciplined (s : Bundle) : Event → Bool
  | .call files => files.all (fun a => a.1 ≠ MARKER)
  | .step w _ =>
    match s.puts[w]? with
    | none => true
    | some p =>
      match p.pc with
      | .create name _ _ => !s.markedNames.contains name
      | .write name bytes offset _ =>
        !decide (offset < bytes.length) || (s.dir name).any (fun f => f.opener = w)
      | .createMarker => p.files.all (fun a => (s.dir a.1).any FileState.finished)
      | _ => true
  | _ => true

/-- Artifacts a call still has to write. -/
def pending : Pc → List Artifact
  | .create name bytes rest => (name, bytes) :: rest
  | .write name bytes _ rest => (name, bytes) :: rest
  | _ => []

structure Inv (s : Bundle) : Prop where
  marker : s.exists = true ↔ s.markedBy ≠ []
  named : ∀ (w : Nat) (p : Put), s.puts[w]? = some p → ∀ a ∈ p.files, a.1 ≠ MARKER
  owed : ∀ (w : Nat) (p : Put), s.puts[w]? = some p → ∀ a ∈ pending p.pc, a ∈ p.files
  writing : ∀ (w : Nat) (p : Put), s.puts[w]? = some p → ∀ name bytes offset rest,
    p.pc = .write name bytes offset rest → ∀ f, s.dir name = some f → f.opener = w →
      f.finished = false ∧ f.bytes = bytes.take offset ∧ offset ≤ bytes.length
  finished : ∀ name f, s.dir name = some f → name ≠ MARKER → f.finished = true →
    f.synced = true ∧ ∃ p, s.puts[f.opener]? = some p ∧ (name, f.bytes) ∈ p.files
  marked : ∀ w ∈ s.markedBy, ∃ p, s.puts[w]? = some p ∧
    ∀ a ∈ p.files, ∃ f, s.dir a.1 = some f ∧ f.finished = true

/-- A file of a call whose marker is there is finished. -/
theorem Inv.finished_of_marked {s : Bundle} (inv : Inv s) {w : Nat} (marked : w ∈ s.markedBy)
    {p : Put} (hp : s.puts[w]? = some p) {a : String × Bytes} (given : a ∈ p.files) :
    ∃ f, s.dir a.1 = some f ∧ f.finished = true := by
  obtain ⟨p', hp', done⟩ := inv.marked w marked
  obtain rfl : p = p' := Option.some.inj (hp.symm.trans hp')
  exact done a given

theorem inv_empty : Inv empty where
  marker := by simp [«exists», empty]
  named := by simp [empty]
  owed := by simp [empty]
  writing := by simp [empty]
  finished := by simp [empty]
  marked := by simp [empty]

theorem whole_of_inv {s : Bundle} (inv : Inv s) : s.Whole := by
  intro there
  refine ⟨inv.marker.mp there, ?_⟩
  intro w hw p hp a ha
  obtain ⟨f, hf, finished⟩ := inv.finished_of_marked hw hp ha
  obtain ⟨_, q, hq, given⟩ := inv.finished a.1 f hf (inv.named w p hp a ha) finished
  exact ⟨q, List.mem_of_getElem? hq, f.bytes, given, by simp [get, hf]⟩

theorem not_mem_markedNames {s : Bundle} {name : String} (h : name ∉ s.markedNames) :
    ∀ w ∈ s.markedBy, ∀ p, s.puts[w]? = some p → ∀ a ∈ p.files, a.1 ≠ name := by
  intro w hw p hp a ha same
  apply h
  refine List.mem_flatMap.mpr ⟨w, hw, ?_⟩
  rw [hp]
  exact List.mem_map.mpr ⟨a, ha, same⟩

theorem puts_setPc {s : Bundle} {w v : Nat} {pc : Pc} {p' : Put}
    (h : (s.setPc w pc).puts[v]? = some p') :
    ∃ p, s.puts[v]? = some p ∧ p'.files = p.files ∧
      (v = w ∧ p'.pc = pc ∨ v ≠ w ∧ p' = p) := by
  rw [setPc, List.getElem?_modify] at h
  obtain ⟨p, hp, rfl⟩ := Option.map_eq_some_iff.mp h
  refine ⟨p, hp, ?_⟩
  by_cases same : w = v
  · subst same
    simp
  · simp [same, Ne.symm same]

theorem setPc_puts {s : Bundle} {v : Nat} {p : Put} (w : Nat) (pc : Pc)
    (h : s.puts[v]? = some p) :
    ∃ p', (s.setPc w pc).puts[v]? = some p' ∧ p'.files = p.files := by
  refine ⟨_, by rw [setPc, List.getElem?_modify, h]; rfl, ?_⟩
  split <;> rfl

/-- A call that moves on to a counter from which nothing is yet known about a file. -/
theorem Inv.setPc {s : Bundle} (inv : Inv s) {w : Nat} {p : Put} (hp : s.puts[w]? = some p)
    {pc : Pc} (owes : ∀ a ∈ pending pc, a ∈ p.files)
    (writes : ∀ name bytes offset rest, pc = .write name bytes offset rest →
      ∀ f, s.dir name = some f → f.opener = w →
        f.finished = false ∧ f.bytes = bytes.take offset ∧ offset ≤ bytes.length) :
    Inv (s.setPc w pc) where
  marker := inv.marker
  named := by
    intro v q' hq'
    obtain ⟨q, hq, files, _⟩ := puts_setPc hq'
    rw [files]
    exact inv.named v q hq
  owed := by
    intro v q' hq'
    obtain ⟨q, hq, files, ⟨rfl, counter⟩ | ⟨_, rfl⟩⟩ := puts_setPc hq'
    · obtain rfl : q = p := Option.some.inj (hq.symm.trans hp)
      rw [files, counter]
      exact owes
    · exact inv.owed v q' hq
  writing := by
    intro v q' hq'
    obtain ⟨q, hq, files, ⟨rfl, counter⟩ | ⟨_, rfl⟩⟩ := puts_setPc hq'
    · rw [counter]
      exact writes
    · exact inv.writing v q' hq
  finished := by
    intro name f hf other done
    obtain ⟨synced, q, hq, given⟩ := inv.finished name f hf other done
    obtain ⟨q', hq', files⟩ := setPc_puts w pc hq
    exact ⟨synced, q', hq', files ▸ given⟩
  marked := by
    intro v hv
    obtain ⟨q, hq, done⟩ := inv.marked v hv
    obtain ⟨q', hq', files⟩ := setPc_puts w pc hq
    exact ⟨q', hq', files ▸ done⟩

/-- A counter with no open file promises nothing. -/
theorem Inv.setPc_idle {s : Bundle} (inv : Inv s) {w : Nat} {p : Put} (hp : s.puts[w]? = some p)
    {pc : Pc} (owes : ∀ a ∈ pending pc, a ∈ p.files)
    (idle : ∀ name bytes offset rest, pc ≠ .write name bytes offset rest) :
    Inv (s.setPc w pc) :=
  inv.setPc hp owes (fun name bytes offset rest writing =>
    absurd writing (idle name bytes offset rest))

/-- Replacing one artifact file. -/
theorem Inv.setFile {s : Bundle} (inv : Inv s) {name : String} {f : FileState}
    (other : name ≠ MARKER)
    (writes : ∀ v q, s.puts[v]? = some q → ∀ bytes offset rest,
      q.pc = .write name bytes offset rest → f.opener = v →
        f.finished = false ∧ f.bytes = bytes.take offset ∧ offset ≤ bytes.length)
    (given : f.finished = true →
      f.synced = true ∧ ∃ p, s.puts[f.opener]? = some p ∧ (name, f.bytes) ∈ p.files)
    (promised : ∀ w ∈ s.markedBy, ∀ p, s.puts[w]? = some p → ∀ a ∈ p.files, a.1 = name →
      f.finished = true) :
    Inv (s.setFile name f) where
  marker := by
    have same : (s.setFile name f).dir MARKER = s.dir MARKER := if_neg (Ne.symm other)
    rw [«exists», same]
    exact inv.marker
  named := inv.named
  owed := inv.owed
  writing := by
    intro v q hq n bytes offset rest counter g hg opener
    by_cases same : n = name
    · subst same
      obtain rfl : f = g := Option.some.inj ((if_pos rfl).symm.trans hg)
      exact writes v q hq bytes offset rest counter opener
    · exact inv.writing v q hq n bytes offset rest counter g ((if_neg same).symm.trans hg) opener
  finished := by
    intro n g hg artifact done
    by_cases same : n = name
    · subst same
      obtain rfl : f = g := Option.some.inj ((if_pos rfl).symm.trans hg)
      exact given done
    · exact inv.finished n g ((if_neg same).symm.trans hg) artifact done
  marked := by
    intro w hw
    obtain ⟨p, hp, done⟩ := inv.marked w hw
    refine ⟨p, hp, ?_⟩
    intro a ha
    by_cases same : a.1 = name
    · exact ⟨f, if_pos same, promised w hw p hp a ha same⟩
    · obtain ⟨g, hg, finished⟩ := done a ha
      exact ⟨g, (if_neg same).trans hg, finished⟩

/-- Replacing the marker, by calls whose files are all finished. -/
theorem Inv.setMarker {s : Bundle} (inv : Inv s) (f : FileState) {by_ : List Nat}
    (some_ : by_ ≠ [])
    (done : ∀ w ∈ by_, ∃ p, s.puts[w]? = some p ∧
      ∀ a ∈ p.files, ∃ f, s.dir a.1 = some f ∧ f.finished = true) :
    Inv { s.setFile MARKER f with markedBy := by_ } where
  marker := by simp [«exists», Bundle.setFile, some_]
  named := inv.named
  owed := inv.owed
  writing := by
    intro v q hq name bytes offset rest counter g hg opener
    have artifact : name ≠ MARKER := by
      apply inv.named v q hq (name, bytes)
      apply inv.owed v q hq
      rw [counter]
      exact List.mem_cons_self
    exact inv.writing v q hq name bytes offset rest counter g
      ((if_neg artifact).symm.trans hg) opener
  finished := by
    intro name g hg artifact
    exact inv.finished name g ((if_neg artifact).symm.trans hg) artifact
  marked := by
    intro w hw
    obtain ⟨p, hp, files⟩ := done w hw
    refine ⟨p, hp, ?_⟩
    intro a ha
    obtain ⟨g, hg, finished⟩ := files a ha
    exact ⟨g, (if_neg (inv.named w p hp a ha)).trans hg, finished⟩

theorem setPc_setPc (s : Bundle) (w : Nat) (pc pc' : Pc) :
    (s.setPc w pc).setPc w pc' = s.setPc w pc' := by
  simp only [setPc, List.modify_modify_eq]
  rfl

theorem mem_of_pending_nextFile {rest : List Artifact} {a : Artifact}
    (h : a ∈ pending (nextFile rest)) : a ∈ rest := by
  cases rest with
  | nil => cases h
  | cons b rest => exact h

theorem nextFile_ne_write (rest : List Artifact) (name : String) (bytes : Bytes) (offset : Nat)
    (more : List Artifact) : nextFile rest ≠ .write name bytes offset more := by
  cases rest <;> exact fun h => nomatch h

/-- A `write` at the end of what is there appends. -/
theorem writeAt_take {bytes : Bytes} {offset : Nat} (inside : offset ≤ bytes.length) (n : Nat) :
    writeAt (bytes.take offset) offset ((bytes.drop offset).take n) =
      bytes.take (offset + ((bytes.drop offset).take n).length) := by
  have start : (bytes.take offset).length = offset := by simp [inside]
  have nothing : (bytes.take offset).drop (offset + ((bytes.drop offset).take n).length) = [] :=
    List.drop_eq_nil_of_le (by omega)
  rw [writeAt, nothing, start, Nat.sub_self, List.take_take, Nat.min_self, List.replicate_zero,
    List.append_nil, List.append_nil, List.take_add]
  congr 1
  rw [List.length_take, List.take_eq_take_iff]
  simp

theorem inv_create {s : Bundle} (inv : Inv s) {w : Nat} {p : Put} (hp : s.puts[w]? = some p)
    {name : String} {bytes : Bytes} {rest : List Artifact} (counter : p.pc = .create name bytes rest)
    (free : name ∉ s.markedNames) :
    Inv ((s.createFile w name).setPc w (.write name bytes 0 rest)) := by
  have owes : ∀ a ∈ (name, bytes) :: rest, a ∈ p.files := by
    have := inv.owed w p hp
    rwa [counter] at this
  have artifact : name ≠ MARKER := inv.named w p hp (name, bytes) (owes _ List.mem_cons_self)
  have opened : Inv (s.createFile w name) := by
    refine inv.setFile artifact ?_ (fun done => by cases done) ?_
    · rintro v q hq b offset more counter' rfl
      obtain rfl : q = p := Option.some.inj (hq.symm.trans hp)
      rw [counter] at counter'
      cases counter'
    · intro v hv q hq a ha same
      exact absurd same (not_mem_markedNames free v hv q hq a ha)
  refine opened.setPc hp owes ?_
  intro n b offset more same f hf _
  cases same
  obtain rfl := Option.some.inj ((if_pos rfl).symm.trans hf)
  exact ⟨rfl, rfl, Nat.zero_le _⟩

theorem inv_write {s : Bundle} (inv : Inv s) {w : Nat} {p : Put} (hp : s.puts[w]? = some p)
    {name : String} {bytes : Bytes} {offset : Nat} {rest : List Artifact}
    (counter : p.pc = .write name bytes offset rest) (inside : offset < bytes.length)
    {f : FileState} (hf : s.dir name = some f) (own : f.opener = w) (n : Nat) :
    Inv ((s.writeFile name offset ((bytes.drop offset).take n)).setPc w
      (.write name bytes (offset + ((bytes.drop offset).take n).length) rest)) := by
  have owes : ∀ a ∈ (name, bytes) :: rest, a ∈ p.files := by
    have := inv.owed w p hp
    rwa [counter] at this
  have artifact : name ≠ MARKER := inv.named w p hp (name, bytes) (owes _ List.mem_cons_self)
  obtain ⟨unfinished, soFar, _⟩ := inv.writing w p hp name bytes offset rest counter f hf own
  -- the counter leaves the file first, so that nothing is said about it while it changes
  have away : Inv (s.setPc w .stopped) :=
    inv.setPc_idle hp (by simp [pending]) (fun _ _ _ _ h => nomatch h)
  obtain ⟨p', hp', files⟩ := setPc_puts w .stopped hp
  have written : Inv ((s.setPc w .stopped).writeFile name offset ((bytes.drop offset).take n)) := by
    rw [writeFile, show (s.setPc w .stopped).dir name = some f from hf]
    refine away.setFile artifact ?_ ?_ ?_
    · rintro v q hq b o more counter' opener
      obtain ⟨_, _, _, ⟨_, stopped⟩ | ⟨elsewhere, _⟩⟩ := puts_setPc hq
      · rw [stopped] at counter'
        cases counter'
      · exact absurd (opener.symm.trans own) elsewhere
    · intro done
      rw [show f.finished = true from done] at unfinished
      cases unfinished
    · intro v hv q hq a ha same
      obtain ⟨g, hg, finished⟩ := away.finished_of_marked hv hq ha
      rw [same] at hg
      obtain rfl : f = g := Option.some.inj (hf.symm.trans hg)
      exact finished
  have moved : (s.writeFile name offset ((bytes.drop offset).take n)).setPc w
      (.write name bytes (offset + ((bytes.drop offset).take n).length) rest) =
      ((s.setPc w .stopped).writeFile name offset ((bytes.drop offset).take n)).setPc w
        (.write name bytes (offset + ((bytes.drop offset).take n).length) rest) := by
    rw [writeFile, writeFile, hf, show (s.setPc w .stopped).dir name = some f from hf]
    exact (setPc_setPc _ w _ _).symm
  rw [moved]
  refine written.setPc (p := p') ?_ (files ▸ owes) ?_
  · rw [writeFile, show (s.setPc w .stopped).dir name = some f from hf]
    exact hp'
  · intro n' b o more same g hg _
    cases same
    rw [writeFile, show (s.setPc w .stopped).dir name = some f from hf] at hg
    obtain rfl := Option.some.inj ((if_pos rfl).symm.trans hg)
    refine ⟨unfinished, ?_, ?_⟩
    · simp only [soFar]
      exact writeAt_take (Nat.le_of_lt inside) n
    · simp only [List.length_take, List.length_drop]
      omega

theorem inv_sync {s : Bundle} (inv : Inv s) {w : Nat} {p : Put} (hp : s.puts[w]? = some p)
    {name : String} {bytes : Bytes} {offset : Nat} {rest : List Artifact}
    (counter : p.pc = .write name bytes offset rest) (atEnd : ¬ offset < bytes.length) :
    Inv ((s.syncFile w name).setPc w (nextFile rest)) := by
  have owes : ∀ a ∈ (name, bytes) :: rest, a ∈ p.files := by
    have := inv.owed w p hp
    rwa [counter] at this
  have artifact : name ≠ MARKER := inv.named w p hp (name, bytes) (owes _ List.mem_cons_self)
  have remaining : ∀ a ∈ pending (nextFile rest), a ∈ p.files :=
    fun a ha => owes a (List.mem_cons_of_mem _ (mem_of_pending_nextFile ha))
  cases hf : s.dir name with
  | none =>
    rw [syncFile, hf]
    exact inv.setPc_idle hp remaining (nextFile_ne_write rest)
  | some f =>
    have away : Inv (s.setPc w .stopped) :=
      inv.setPc_idle hp (by simp [pending]) (fun _ _ _ _ h => nomatch h)
    obtain ⟨p', hp', files⟩ := setPc_puts w .stopped hp
    have synced : Inv ((s.setPc w .stopped).syncFile w name) := by
      rw [syncFile, show (s.setPc w .stopped).dir name = some f from hf]
      refine away.setFile artifact ?_ ?_ ?_
      · intro v q hq b o more counter' opener
        obtain ⟨_, _, _, ⟨_, stopped⟩ | ⟨elsewhere, _⟩⟩ := puts_setPc hq
        · rw [stopped] at counter'
          cases counter'
        · have mine : f.opener ≠ w := fun same => elsewhere (opener.symm.trans same)
          have before := away.writing v q hq name b o more counter' f hf opener
          simpa [mine] using before
      · intro done
        refine ⟨rfl, ?_⟩
        by_cases own : f.opener = w
        · obtain ⟨_, soFar, _⟩ := inv.writing w p hp name bytes offset rest counter f hf own
          refine ⟨p', own ▸ hp', ?_⟩
          have whole : f.bytes = bytes := by
            rw [soFar, List.take_of_length_le (by omega)]
          show (name, f.bytes) ∈ p'.files
          rw [whole, files]
          exact owes _ List.mem_cons_self
        · have before : f.finished = true := by simpa [own] using done
          exact (away.finished name f hf artifact before).2
      · intro v hv q hq a ha same
        obtain ⟨g, hg, finished⟩ := away.finished_of_marked hv hq ha
        rw [same] at hg
        obtain rfl : f = g := Option.some.inj (hf.symm.trans hg)
        simp [finished]
    have moved : (s.syncFile w name).setPc w (nextFile rest) =
        ((s.setPc w .stopped).syncFile w name).setPc w (nextFile rest) := by
      rw [syncFile, syncFile, hf, show (s.setPc w .stopped).dir name = some f from hf]
      exact (setPc_setPc _ w _ _).symm
    rw [moved]
    refine synced.setPc_idle (p := p') ?_ (files ▸ remaining) (nextFile_ne_write rest)
    rw [syncFile, show (s.setPc w .stopped).dir name = some f from hf]
    exact hp'

theorem inv_createMarker {s : Bundle} (inv : Inv s) {w : Nat} {p : Put}
    (hp : s.puts[w]? = some p)
    (done : ∀ a ∈ p.files, ∃ f, s.dir a.1 = some f ∧ f.finished = true) :
    Inv ({ s.createFile w MARKER with markedBy := w :: s.markedBy }.setPc w .syncMarker) := by
  have marked : Inv { s.createFile w MARKER with markedBy := w :: s.markedBy } := by
    refine inv.setMarker ⟨[], false, w, false⟩ (List.cons_ne_nil _ _) ?_
    intro v hv
    rcases List.mem_cons.mp hv with rfl | hv
    · exact ⟨p, hp, done⟩
    · exact inv.marked v hv
  exact marked.setPc_idle hp (by simp [pending]) (fun _ _ _ _ h => nomatch h)

theorem inv_syncMarker {s : Bundle} (inv : Inv s) {w : Nat} {p : Put}
    (hp : s.puts[w]? = some p) : Inv ((s.syncFile w MARKER).setPc w .returned) := by
  cases hf : s.dir MARKER with
  | none =>
    rw [syncFile, hf]
    exact inv.setPc_idle hp (by simp [pending]) (fun _ _ _ _ h => nomatch h)
  | some f =>
    have there : s.markedBy ≠ [] := inv.marker.mp (by simp [«exists», hf])
    have synced : Inv (s.syncFile w MARKER) := by
      rw [syncFile, hf]
      exact inv.setMarker _ there inv.marked
    refine synced.setPc_idle (p := p) ?_ (by simp [pending]) (fun _ _ _ _ h => nomatch h)
    rw [syncFile, hf]
    exact hp

theorem inv_powerFailure {s : Bundle} (inv : Inv s) (left : String → Option Bytes) :
    Inv (s.powerFailure left) := by
  have puts : ∀ (v : Nat) (q' : Put), (s.powerFailure left).puts[v]? = some q' →
      ∃ q, s.puts[v]? = some q ∧ q'.files = q.files ∧ (q'.pc = .returned ∨ q'.pc = .stopped) := by
    intro v q' hq'
    simp only [powerFailure, stopAll, List.getElem?_map, Option.map_eq_some_iff] at hq'
    obtain ⟨q, hq, rfl⟩ := hq'
    refine ⟨q, hq, ?_⟩
    split
    · exact ⟨rfl, Or.inl ‹_›⟩
    · exact ⟨rfl, Or.inr rfl⟩
  have kept : ∀ (v : Nat) (q : Put), s.puts[v]? = some q →
      ∃ q', (s.powerFailure left).puts[v]? = some q' ∧ q'.files = q.files := by
    intro v q hq
    refine ⟨_, by simp only [powerFailure, stopAll, List.getElem?_map, hq]; rfl, ?_⟩
    dsimp only
    split <;> rfl
  constructor
  · show _ ↔ (if _ then s.markedBy else []) ≠ []
    split
    · rename_i survives
      refine ⟨fun _ => inv.marker.mp ?_, fun _ => survives⟩
      obtain ⟨f, hf⟩ := Option.isSome_iff_exists.mp survives
      obtain ⟨g, hg, _⟩ := Option.bind_eq_some_iff.mp hf
      simp [«exists», hg]
    · rename_i lost
      simpa [«exists», powerFailure] using lost
  · intro v q' hq'
    obtain ⟨q, hq, files, _⟩ := puts v q' hq'
    rw [files]
    exact inv.named v q hq
  · intro v q' hq'
    obtain ⟨_, _, _, counter | counter⟩ := puts v q' hq' <;> rw [counter] <;> simp [pending]
  · intro v q' hq' name bytes offset rest counter'
    obtain ⟨_, _, _, counter | counter⟩ := puts v q' hq' <;> rw [counter] at counter' <;>
      cases counter'
  · intro name f hf artifact done
    obtain ⟨g, hg, recovered⟩ := Option.bind_eq_some_iff.mp hf
    simp only [recover] at recovered
    split at recovered
    · obtain rfl := Option.some.inj recovered
      obtain ⟨synced, q, hq, given⟩ := inv.finished name g hg artifact done
      obtain ⟨q', hq', files⟩ := kept _ q hq
      exact ⟨synced, q', hq', files ▸ given⟩
    · rename_i unsynced
      obtain ⟨bytes, _, rfl⟩ := Option.map_eq_some_iff.mp recovered
      exact absurd (inv.finished name g hg artifact done).1 unsynced
  · intro w hw
    have before : w ∈ s.markedBy := by
      simp only [powerFailure] at hw
      split at hw
      · exact hw
      · cases hw
    obtain ⟨p, hp, done⟩ := inv.marked w before
    obtain ⟨p', hp', files⟩ := kept w p hp
    refine ⟨p', hp', ?_⟩
    intro a ha
    rw [files] at ha
    obtain ⟨f, hf, finished⟩ := done a ha
    -- what is finished is synced, and a power failure leaves it as it is
    have synced := (inv.finished a.1 f hf (inv.named w p hp a ha) finished).1
    exact ⟨f, Option.bind_eq_some_iff.mpr ⟨f, hf, if_pos synced⟩, finished⟩

theorem inv_call {s : Bundle} (inv : Inv s) {files : List Artifact}
    (named : ∀ a ∈ files, a.1 ≠ MARKER) : Inv (s.step (.call files)) := by
  have puts : ∀ (v : Nat) (q : Put), (s.puts ++ [⟨files, .check⟩])[v]? = some q →
      s.puts[v]? = some q ∨ q = ⟨files, .check⟩ := by
    intro v q hq
    rw [List.getElem?_append] at hq
    split at hq
    · exact Or.inl hq
    · exact Or.inr (List.mem_singleton.mp (List.mem_of_getElem? hq))
  have kept : ∀ (v : Nat) (q : Put), s.puts[v]? = some q →
      (s.puts ++ [⟨files, .check⟩])[v]? = some q := by
    intro v q hq
    rw [List.getElem?_append_left (List.getElem?_eq_some_iff.mp hq).1]
    exact hq
  refine ⟨inv.marker, ?_, ?_, ?_, ?_, ?_⟩
  · intro v q hq
    rcases puts v q hq with old | rfl
    · exact inv.named v q old
    · exact named
  · intro v q hq
    rcases puts v q hq with old | rfl
    · exact inv.owed v q old
    · simp [pending]
  · intro v q hq
    rcases puts v q hq with old | rfl
    · exact inv.writing v q old
    · intro _ _ _ _ h
      cases h
  · intro name f hf artifact done
    obtain ⟨synced, p, hp, given⟩ := inv.finished name f hf artifact done
    exact ⟨synced, p, kept _ p hp, given⟩
  · intro w hw
    obtain ⟨p, hp, done⟩ := inv.marked w hw
    exact ⟨p, kept w p hp, done⟩

theorem inv_advance {s : Bundle} (inv : Inv s) {w : Nat} {p : Put} (hp : s.puts[w]? = some p)
    (n : Nat) (guard : s.disciplined (.step w n) = true) : Inv (s.advance w p n) := by
  simp only [disciplined, hp] at guard
  cases counter : p.pc with
  | check =>
    simp only [advance, counter]
    refine inv.setPc_idle hp ?_ ?_ <;> split <;> simp [pending]
  | createDirAll =>
    simp only [advance, counter]
    exact inv.setPc_idle hp (fun a ha => mem_of_pending_nextFile ha) (nextFile_ne_write _)
  | create name bytes rest =>
    simp only [advance, counter]
    exact inv_create inv hp counter (by simpa [counter] using guard)
  | write name bytes offset rest =>
    simp only [advance, counter]
    by_cases inside : offset < bytes.length
    · rw [if_pos inside]
      split
      · exact inv.setPc_idle hp (by simp [pending]) (fun _ _ _ _ h => nomatch h)
      · simp only [counter, inside, decide_true, Bool.not_true, Bool.false_or,
          Option.any_eq_true] at guard
        obtain ⟨f, hf, own⟩ := guard
        exact inv_write inv hp counter inside hf (of_decide_eq_true own) n
    · rw [if_neg inside]
      exact inv_sync inv hp counter inside
  | createMarker =>
    simp only [advance, counter]
    refine inv_createMarker inv hp ?_
    intro a ha
    simp only [counter, List.all_eq_true] at guard
    obtain ⟨f, hf, done⟩ := Option.any_eq_true _ _ |>.mp (guard a ha)
    exact ⟨f, hf, done⟩
  | syncMarker =>
    simp only [advance, counter]
    exact inv_syncMarker inv hp
  | returned => simpa only [advance, counter] using inv
  | stopped => simpa only [advance, counter] using inv

theorem inv_step {s : Bundle} (inv : Inv s) {e : Event} (guard : s.disciplined e = true) :
    Inv (s.step e) := by
  cases e with
  | call files =>
    refine inv_call inv ?_
    simpa [disciplined] using guard
  | step w n =>
    simp only [step]
    split
    · exact inv_advance inv ‹_› n guard
    · exact inv
  | stop w =>
    simp only [step]
    split
    · split
      · exact inv
      · exact inv.setPc_idle ‹_› (by simp [pending]) (fun _ _ _ _ h => nomatch h)
    · exact inv
  | powerFailure left => exact inv_powerFailure inv left

/-- In every run whose steps are disciplined the marker never stands before a partial file. -/
theorem disciplined_puts_whole (events : List Event)
    (guarded : Runs.EachStep events (fun before e => (bundleAfter before).disciplined e = true)) :
    Runs.Throughout step empty events Whole := by
  intro pre post split
  subst split
  apply whole_of_inv
  refine Runs.history_induction (P := fun pre => Inv (bundleAfter pre)) pre guarded.initial
    inv_empty ?_
  intro pre e inv guard
  show Inv (bundleAfter (pre ++ [e]))
  rw [bundleAfter, Runs.run_snoc]
  exact inv_step inv guard

/-- A worker dies in the middle of a file, and another one does the job again. -/
def redone : List Event :=
  [.call [("analysis.json", [123, 125])], .step 0 0, .step 0 0, .step 0 0, .step 0 1, .stop 0,
    .call [("analysis.json", [123, 125])], .step 1 0, .step 1 0, .step 1 0, .step 1 1, .step 1 1,
    .step 1 0, .step 1 0, .step 1 0]

theorem redone_whole :
    (bundleAfter redone).exists = true ∧
    (bundleAfter redone).get "analysis.json" = some [123, 125] ∧
    Runs.Throughout step empty redone Whole := by
  refine ⟨by decide, by decide, disciplined_puts_whole redone ?_⟩
  simp only [redone, Runs.eachStep_cons, Runs.eachStep_nil, and_true]
  decide

/-- Two workers hold the hash, and both find no marker. -/
def twoPutters : List Event :=
  [.call [("analysis.json", [123, 125])], .call [("analysis.json", [123, 125])],
    .step 0 0, .step 1 0, .step 0 0, .step 1 0,
    .step 0 0, .step 0 2, .step 0 0, .step 0 0, .step 0 0,
    .step 1 0]

/-- The first one returned with the marker in place; the second one has just truncated its
file. -/
theorem twoPutters_not_whole :
    (bundleAfter twoPutters).exists = true ∧
    (bundleAfter twoPutters).get "analysis.json" = some [] ∧
    ¬ Runs.Throughout step empty twoPutters Whole := by
  have there : (bundleAfter twoPutters).exists = true := by decide
  have truncated : (bundleAfter twoPutters).get "analysis.json" = some [] := by decide
  refine ⟨there, truncated, ?_⟩
  intro whole
  obtain ⟨_, reads⟩ := whole twoPutters [] (List.append_nil _).symm there
  have first : (bundleAfter twoPutters).puts[0]? =
      some ⟨[("analysis.json", [123, 125])], .returned⟩ := by decide
  obtain ⟨q, hq, bytes, given, read⟩ := reads 0 (by decide) _ first
    ("analysis.json", [123, 125]) (by decide)
  have offered : ∀ q ∈ (bundleAfter twoPutters).puts,
      q.files = [("analysis.json", [123, 125])] := by decide
  rw [offered q hq, List.mem_singleton] at given
  cases given
  rw [truncated] at read
  cases read

end BVault.Store.Bundle
