import Mathlib.Data.List.Infix

/-!
# Patterns of `like`

One mark stands for any sequence, one for any single character, and one takes
the character behind it literally. Characters are compared after a fold, so the
same patterns serve with and without case. A word between two marks of any
sequence is searched for as it stands if and only if it has no mark in it.
-/

namespace Like

variable {α β : Type*} [DecidableEq α] [DecidableEq β]

structure Marks (α : Type*) where
  any : α
  one : α
  escape : α
  any_ne_one : any ≠ one
  any_ne_escape : any ≠ escape
  one_ne_escape : one ≠ escape

inductive Item (α : Type*) where
  | any
  | one
  | lit (a : α)
  deriving DecidableEq

/-- A pattern that ends in the escape is refused. -/
def parse (m : Marks α) : List α → Option (List (Item α))
  | [] => some []
  | c :: p =>
    if c = m.any then (parse m p).map (.any :: ·)
    else if c = m.one then (parse m p).map (.one :: ·)
    else if c = m.escape then
      match p with
      | [] => none
      | d :: p => (parse m p).map (.lit d :: ·)
    else (parse m p).map (.lit c :: ·)

def matchItems (fold : α → β) : List (Item α) → List α → Bool
  | [], text => text.isEmpty
  | .any :: items, text => text.tails.any (matchItems fold items)
  | .one :: _, [] => false
  | .one :: items, _ :: text => matchItems fold items text
  | .lit _ :: _, [] => false
  | .lit a :: items, b :: text => decide (fold a = fold b) && matchItems fold items text

/-- `text like pattern`. -/
def like (fold : α → β) (m : Marks α) (pattern text : List α) : Bool :=
  (parse m pattern).any (fun items => matchItems fold items text)

/-- Without a mark. -/
def Plain (m : Marks α) (word : List α) : Prop :=
  ∀ c ∈ word, c ≠ m.any ∧ c ≠ m.one ∧ c ≠ m.escape

/-- A short text of the pattern `word` and a mark of any sequence. -/
def sample (m : Marks α) : List α → List α
  | [] => []
  | c :: p =>
    if c = m.any then sample m p
    else if c = m.one then m.any :: sample m p
    else if c = m.escape then
      match p with
      | [] => [m.any]
      | d :: p => d :: sample m p
    else c :: sample m p

variable {fold : α → β} {m : Marks α}

omit [DecidableEq α] in
theorem matchItems_any_iff {items : List (Item α)} {text : List α} :
    matchItems fold (.any :: items) text = true ↔
      ∃ rest, rest <:+ text ∧ matchItems fold items rest = true := by
  simp [matchItems]

omit [DecidableEq α] in
/-- Nothing is asked of the end. -/
theorem matchItems_last {text : List α} : matchItems fold [.any] text = true :=
  matchItems_any_iff.mpr ⟨[], List.nil_suffix, rfl⟩

omit [DecidableEq α] in
/-- A word is at the front of the text, up to the fold. -/
theorem matchItems_word_iff {word : List α} {items : List (Item α)} {text : List α} :
    matchItems fold (word.map .lit ++ items) text = true ↔
      ∃ front rest, text = front ++ rest ∧ word.map fold = front.map fold ∧
        matchItems fold items rest = true := by
  induction word generalizing text with
  | nil =>
    constructor
    · intro holds
      exact ⟨[], text, rfl, rfl, holds⟩
    · rintro ⟨front, rest, rfl, same, holds⟩
      obtain rfl : front = [] := by simpa using same.symm
      exact holds
  | cons a word ih =>
    cases text with
    | nil =>
      constructor
      · intro no
        cases no
      · rintro ⟨front, rest, split, same, -⟩
        obtain ⟨rfl, -⟩ := List.append_eq_nil_iff.mp split.symm
        cases same
    | cons b text =>
      constructor
      · intro holds
        obtain ⟨first, later⟩ := (Bool.and_eq_true _ _).mp holds
        obtain ⟨front, rest, rfl, same, last⟩ := ih.mp later
        exact ⟨b :: front, rest, rfl, by simp [of_decide_eq_true first, same], last⟩
      · rintro ⟨front, rest, split, same, last⟩
        cases front with
        | nil => cases same
        | cons c front =>
          obtain ⟨rfl, rfl⟩ := List.cons.inj split
          obtain ⟨first, later⟩ := List.cons.inj same
          refine (Bool.and_eq_true _ _).mpr ⟨decide_eq_true first, ?_⟩
          exact ih.mpr ⟨front, rest, rfl, later, last⟩

theorem parse_any (p : List α) : parse m (m.any :: p) = (parse m p).map (.any :: ·) := by
  cases p <;> simp [parse]

theorem parse_one (p : List α) : parse m (m.one :: p) = (parse m p).map (.one :: ·) := by
  cases p <;> simp [parse, m.any_ne_one.symm]

theorem parse_escape (c : α) (p : List α) :
    parse m (m.escape :: c :: p) = (parse m p).map (.lit c :: ·) := by
  simp [parse, m.any_ne_escape.symm, m.one_ne_escape.symm]

theorem parse_lit {c : α} (plain : c ≠ m.any ∧ c ≠ m.one ∧ c ≠ m.escape) (p : List α) :
    parse m (c :: p) = (parse m p).map (.lit c :: ·) := by
  cases p <;> simp [parse, plain.1, plain.2.1, plain.2.2]

theorem parse_plain {word p : List α} (plain : Plain m word) :
    parse m (word ++ p) = (parse m p).map (word.map .lit ++ ·) := by
  induction word with
  | nil => simp
  | cons c word ih =>
    have later := ih (fun d mem => plain d (List.mem_cons_of_mem c mem))
    rw [List.cons_append, parse_lit (plain c List.mem_cons_self), later, Option.map_map]
    rfl

/-- Between two marks of any sequence a plain word is searched for. -/
theorem like_plain_iff {word : List α} (plain : Plain m word) (text : List α) :
    like fold m (m.any :: (word ++ [m.any])) text = true ↔ word.map fold <:+: text.map fold := by
  have items : parse m (m.any :: (word ++ [m.any])) =
      some (.any :: (word.map .lit ++ [.any])) := by
    rw [parse_any, parse_plain plain, parse_any]
    rfl
  rw [like, items, Option.any_some, matchItems_any_iff]
  constructor
  · rintro ⟨rest, ⟨before, rfl⟩, holds⟩
    obtain ⟨front, after, rfl, same, -⟩ := matchItems_word_iff.mp holds
    exact ⟨before.map fold, after.map fold, by simp [same]⟩
  · rintro ⟨before, after, whole⟩
    obtain ⟨text₁, text₂, rfl, first, rest⟩ := List.map_eq_append_iff.mp whole.symm
    obtain ⟨text₃, text₄, rfl, rfl, same⟩ := List.map_eq_append_iff.mp first
    refine ⟨text₄ ++ text₂, ⟨text₃, by simp⟩, ?_⟩
    exact matchItems_word_iff.mpr ⟨text₄, text₂, rfl, same.symm, matchItems_last⟩

/-- With a mark of any sequence behind it only, a plain word is at the front. -/
theorem like_front_iff {word : List α} (plain : Plain m word) (text : List α) :
    like fold m (word ++ [m.any]) text = true ↔ word.map fold <+: text.map fold := by
  have items : parse m (word ++ [m.any]) = some (word.map .lit ++ [.any]) := by
    rw [parse_plain plain, parse_any]
    rfl
  rw [like, items, Option.any_some, matchItems_word_iff]
  constructor
  · rintro ⟨front, rest, rfl, same, -⟩
    rw [List.map_append, same]
    exact List.prefix_append _ _
  · rintro ⟨after, whole⟩
    obtain ⟨front, rest, rfl, same, -⟩ := List.map_eq_append_iff.mp whole.symm
    exact ⟨front, rest, rfl, same.symm, matchItems_last⟩

/-- The sample is matched. -/
theorem like_sample (word : List α) :
    like fold m (m.any :: (word ++ [m.any])) (sample m word) = true := by
  have inner : ∃ items, parse m (word ++ [m.any]) = some items ∧
      matchItems fold items (sample m word) = true := by
    fun_induction sample m word with
    | case1 => exact ⟨[.any], parse_any [], matchItems_last⟩
    | case2 p ih =>
      obtain ⟨items, is, holds⟩ := ih
      refine ⟨.any :: items, by simp [parse_any, is], ?_⟩
      exact matchItems_any_iff.mpr ⟨_, List.suffix_refl _, holds⟩
    | case3 p notAny ih =>
      obtain ⟨items, is, holds⟩ := ih
      exact ⟨.one :: items, by simp [parse_one, is], holds⟩
    | case4 notAny notOne =>
      exact ⟨[.lit m.any], parse_escape m.any [], by simp [matchItems]⟩
    | case5 d p notAny notOne ih =>
      obtain ⟨items, is, holds⟩ := ih
      exact ⟨.lit d :: items, by simp [parse_escape, is], by simp [matchItems, holds]⟩
    | case6 c p notAny notOne notEscape ih =>
      obtain ⟨items, is, holds⟩ := ih
      exact ⟨.lit c :: items, by simp [parse_lit ⟨notAny, notOne, notEscape⟩, is],
        by simp [matchItems, holds]⟩
  obtain ⟨items, is, holds⟩ := inner
  rw [like, parse_any, is, Option.map_some, Option.any_some]
  exact matchItems_any_iff.mpr ⟨_, List.suffix_refl _, holds⟩

theorem length_sample (word : List α) : (sample m word).length ≤ word.length := by
  fun_induction sample m word <;> simp only [List.length_cons, List.length_nil] <;> omega

omit [DecidableEq β] in
/-- Only a plain word is its own sample, up to a fold that tells the marks apart. -/
theorem plain_of_sample {word : List α} (one : fold m.any ≠ fold m.one)
    (escape : fold m.any ≠ fold m.escape) (same : word.map fold = (sample m word).map fold) :
    Plain m word := by
  fun_induction sample m word with
  | case1 => exact fun c mem => absurd mem List.not_mem_nil
  | case2 p =>
    have longer := congrArg List.length same
    have short := length_sample (m := m) p
    simp only [List.map_cons, List.length_cons, List.length_map] at longer
    omega
  | case3 p => exact absurd (List.cons.inj same).1.symm one
  | case4 => exact absurd (List.cons.inj same).1.symm escape
  | case5 d p =>
    have longer := congrArg List.length same
    have short := length_sample (m := m) p
    simp only [List.map_cons, List.length_cons, List.length_map] at longer
    omega
  | case6 c p notAny notOne notEscape ih =>
    have later := ih (List.cons.inj same).2
    intro d mem
    rcases List.mem_cons.mp mem with rfl | inside
    · exact ⟨notAny, notOne, notEscape⟩
    · exact later d inside

/-- The search for a word is a pattern of `like` if and only if the word is plain. -/
theorem like_eq_infix_iff {word : List α} (one : fold m.any ≠ fold m.one)
    (escape : fold m.any ≠ fold m.escape) :
    (∀ text, like fold m (m.any :: (word ++ [m.any])) text = true ↔
      word.map fold <:+: text.map fold) ↔ Plain m word := by
  constructor
  · intro searches
    have inside := (searches (sample m word)).mp (like_sample word)
    have short := length_sample (m := m) word
    refine plain_of_sample one escape (inside.sublist.eq_of_length_le ?_)
    simpa using short
  · exact like_plain_iff

end Like
