import BVault.Lib.Bytes

/-!
# Names, files and what is in them

A directory takes names to files and files to bytes. An open file is the file,
not the name: creating truncates what the name leads to at that moment, writing
goes to the file wherever its name has gone since, and renaming moves a name.
Without hard links a write through one name is not seen through another.
-/

structure Directory (ν ι : Type*) where
  names : ν → Option ι
  content : ι → Bytes

namespace Directory

variable {ν ι : Type*}

/-- What a reader of a name gets. -/
def read (d : Directory ν ι) (p : ν) : Option Bytes := (d.names p).map d.content

/-- Every file has one name at most. -/
def LinkFree (d : Directory ν ι) : Prop :=
  ∀ p q i, d.names p = some i → d.names q = some i → p = q

def setContent [DecidableEq ι] (d : Directory ν ι) (i : ι) (bytes : Bytes) : Directory ν ι :=
  { d with content := fun j => if j = i then bytes else d.content j }

def setName [DecidableEq ν] (d : Directory ν ι) (p : ν) (i : Option ι) : Directory ν ι :=
  { d with names := fun q => if q = p then i else d.names q }

/-- `open` with `O_CREAT` and `O_TRUNC`: an empty file under that name, a new one if the name
led nowhere. -/
def create [DecidableEq ν] [DecidableEq ι] (d : Directory ν ι) (p : ν) (new : ι) :
    Directory ν ι × ι :=
  match d.names p with
  | some i => (d.setContent i [], i)
  | none => ((d.setName p (some new)).setContent new [], new)

/-- `rename`: nothing there is an error, two names of one file stay as they are. -/
def rename [DecidableEq ν] [DecidableEq ι] (d : Directory ν ι) (old new : ν) :
    Option (Directory ν ι) :=
  (d.names old).map (fun i =>
    if d.names new = some i then d else (d.setName old none).setName new (some i))

@[simp] theorem names_setContent [DecidableEq ι] (d : Directory ν ι) (i : ι) (bytes : Bytes) :
    (d.setContent i bytes).names = d.names := rfl

@[simp] theorem content_setContent_self [DecidableEq ι] (d : Directory ν ι) (i : ι)
    (bytes : Bytes) : (d.setContent i bytes).content i = bytes := if_pos rfl

theorem content_setContent_ne [DecidableEq ι] (d : Directory ν ι) {i j : ι} (bytes : Bytes)
    (other : j ≠ i) : (d.setContent i bytes).content j = d.content j := if_neg other

@[simp] theorem names_setName_self [DecidableEq ν] (d : Directory ν ι) (p : ν) (i : Option ι) :
    (d.setName p i).names p = i := if_pos rfl

theorem names_setName_ne [DecidableEq ν] (d : Directory ν ι) {p q : ν} (i : Option ι)
    (other : q ≠ p) : (d.setName p i).names q = d.names q := if_neg other

/-- Two directories agree on a name: it leads to one file, with one content. -/
def AgreeAt (d d' : Directory ν ι) (p : ν) : Prop :=
  d'.names p = d.names p ∧ ∀ i, d.names p = some i → d'.content i = d.content i

theorem AgreeAt.refl (d : Directory ν ι) (p : ν) : AgreeAt d d p :=
  ⟨rfl, fun _ _ => rfl⟩

theorem AgreeAt.read {d d' : Directory ν ι} {p : ν} (agree : AgreeAt d d' p) :
    d'.read p = d.read p := by
  unfold Directory.read
  rw [agree.1]
  cases named : d.names p with
  | none => rfl
  | some i => simp [agree.2 i named]

/-- A write is seen through the name of its file only. -/
theorem agree_setContent [DecidableEq ι] {d : Directory ν ι} (free : d.LinkFree) {p q : ν}
    {i : ι} (named : d.names p = some i) (other : q ≠ p) (bytes : Bytes) :
    AgreeAt d (d.setContent i bytes) q := by
  refine ⟨rfl, ?_⟩
  intro j hj
  apply content_setContent_ne
  rintro rfl
  exact other (free q p j hj named)

/-- After a creation the name leads to an empty file. -/
theorem create_self [DecidableEq ν] [DecidableEq ι] (d : Directory ν ι) (p : ν) (new : ι) :
    (d.create p new).1.names p = some (d.create p new).2 ∧
      (d.create p new).1.content (d.create p new).2 = [] := by
  cases named : d.names p with
  | none => simp [create, named]
  | some i => simp [create, named]

theorem create_agree [DecidableEq ν] [DecidableEq ι] {d : Directory ν ι} (free : d.LinkFree)
    {p q : ν} {new : ι}
    (fresh : ∀ q, d.names q ≠ some new) (other : q ≠ p) :
    AgreeAt d (d.create p new).1 q := by
  cases named : d.names p with
  | some i =>
    simp only [create, named]
    exact agree_setContent free named other []
  | none =>
    simp only [create, named]
    constructor
    · exact names_setName_ne d _ other
    · intro j hj
      apply content_setContent_ne
      rintro rfl
      exact fresh q hj

/-- Only the given file is new. -/
theorem create_names [DecidableEq ν] [DecidableEq ι] {d : Directory ν ι} {p q : ν} {new i : ι}
    (there : (d.create p new).1.names q = some i) : d.names q = some i ∨ i = new ∧ q = p := by
  cases named : d.names p with
  | some j =>
    simp only [create, named] at there
    exact Or.inl there
  | none =>
    simp only [create, named] at there
    by_cases same : q = p
    · subst same
      simp at there
      exact Or.inr ⟨there.symm, rfl⟩
    · rw [names_setContent, names_setName_ne d _ same] at there
      exact Or.inl there

theorem create_linkFree [DecidableEq ν] [DecidableEq ι] {d : Directory ν ι} (free : d.LinkFree)
    {p : ν} {new : ι}
    (fresh : ∀ q, d.names q ≠ some new) : (d.create p new).1.LinkFree := by
  intro q r i hq hr
  rcases create_names hq with oldq | ⟨rfl, rfl⟩ <;>
    rcases create_names hr with oldr | ⟨same, rfl⟩
  · exact free q r i oldq oldr
  · exact absurd oldq (same ▸ fresh q)
  · exact absurd oldr (fresh r)
  · rfl

/-- A file that moves takes its content along, and every third name stays. -/
theorem rename_cases [DecidableEq ν] [DecidableEq ι] {d : Directory ν ι} (free : d.LinkFree)
    {old new : ν} (apart : new ≠ old)
    {i : ι} (named : d.names old = some i) :
    ∃ d', d.rename old new = some d' ∧ d'.content = d.content ∧ d'.names new = some i ∧
      d'.names old = none ∧ ∀ p, p ≠ old → p ≠ new → d'.names p = d.names p := by
  have elsewhere : ¬ d.names new = some i := fun here => apart (free new old i here named)
  refine ⟨(d.setName old none).setName new (some i), ?_, rfl, by simp, ?_, ?_⟩
  · simp [rename, named, elsewhere]
  · rw [names_setName_ne _ _ (Ne.symm apart)]
    simp
  · intro p notOld notNew
    rw [names_setName_ne _ _ notNew, names_setName_ne _ _ notOld]

/-- Names that moved without meeting keep files apart. -/
theorem linkFree_of_moved {d d' : Directory ν ι} (free : d.LinkFree) {old new : ν} {i : ι}
    (named : d.names old = some i) (there : d'.names new = some i) (gone : d'.names old = none)
    (others : ∀ p, p ≠ old → p ≠ new → d'.names p = d.names p) : d'.LinkFree := by
  -- a name other than the new one keeps its file, and that is not the moved one
  have kept : ∀ p j, p ≠ new → d'.names p = some j → d.names p = some j ∧ j ≠ i := by
    intro p j notNew hp
    have notOld : p ≠ old := by
      rintro rfl
      rw [gone] at hp
      cases hp
    rw [others p notOld notNew] at hp
    refine ⟨hp, ?_⟩
    rintro rfl
    exact notOld (free p old j hp named)
  intro p q j hp hq
  by_cases atP : p = new <;> by_cases atQ : q = new
  · rw [atP, atQ]
  · subst atP
    obtain rfl : i = j := Option.some.inj (there.symm.trans hp)
    exact absurd rfl (kept q i atQ hq).2
  · subst atQ
    obtain rfl : i = j := Option.some.inj (there.symm.trans hq)
    exact absurd rfl (kept p i atP hp).2
  · exact free p q j (kept p j atP hp).1 (kept q j atQ hq).1

end Directory
