import BVault.Lib.Xml
import Mathlib.Data.List.TakeWhile
import Mathlib.Tactic.Common

/-!
# Documents as a writer writes them

Elements with attributes in double quotes, indented with spaces and line feeds,
behind the usual declaration. Such a document is well-formed exactly when its
characters are, and a reader gets the elements with the value of each quoted text.
-/

namespace Xml

def writeAttr (a : String × List Char) : List Char :=
  ' ' :: (a.1.toList ++ '=' :: '"' :: (a.2 ++ ['"']))

def writeAttrs (attrs : Attrs) : List Char := attrs.flatMap writeAttr

/-- The quoted texts stand as they are written. -/
def render : Content → List Char
  | .nil => []
  | .char c more => c :: render more
  | .element name attrs .nil more =>
    '<' :: (name.toList ++ (writeAttrs attrs ++ '/' :: '>' :: render more))
  | .element name attrs inside more =>
    '<' :: (name.toList ++ (writeAttrs attrs ++ '>' :: (render inside ++
      '<' :: '/' :: (name.toList ++ '>' :: render more))))

def declaration : String := "<?xml version=\"1.0\" encoding=\"UTF-8\" ?>\n"

def Element.content (e : Element) (more : Content) : Content :=
  .element e.name e.attrs e.inside more

/-- A whole document, with a line feed at its end. -/
def document (root : Element) : String :=
  String.ofList (declaration.toList ++ render (root.content (.char '\n' .nil)))

def IsName (name : String) : Prop :=
  ∃ c cs, name.toList = c :: cs ∧ isNameStart c = true ∧ ∀ d ∈ cs, isNameChar d = true

namespace Content

def mapValues (f : List Char → List Char) : Content → Content
  | nil => nil
  | char c more => char c (more.mapValues f)
  | element name attrs inside more =>
    element name (attrs.map fun a => (a.1, f a.2)) (inside.mapValues f) (more.mapValues f)

/-- All quoted texts. -/
def values : Content → List (List Char)
  | nil => []
  | char _ more => more.values
  | element _ attrs inside more => attrs.map Prod.snd ++ (inside.values ++ more.values)

/-- Indented elements with proper names, no attribute twice, and no quote inside quotes. -/
def Regular : Content → Prop
  | nil => True
  | char c more => (c = ' ' ∨ c = '\n') ∧ more.Regular
  | element name attrs inside more =>
    IsName name ∧ (∀ a ∈ attrs, IsName a.1 ∧ '"' ∉ a.2) ∧ (attrs.map Prod.fst).Nodup ∧
      inside.Regular ∧ more.Regular

end Content

def Element.mapValues (f : List Char → List Char) (e : Element) : Element :=
  ⟨e.name, e.attrs.map fun a => (a.1, f a.2), e.inside.mapValues f⟩

/-- The value of a quoted text. -/
def valueOf (raw : List Char) : List Char := (attValue raw).getD []

theorem IsName.read {name : String} (is : IsName name) {c : Char} {rest : List Char}
    (stops : isNameChar c = false) :
    readName (name.toList ++ c :: rest) = some (name, c :: rest) := by
  obtain ⟨first, cs, chars, start, others⟩ := is
  rw [chars, List.cons_append, readName, if_pos start, List.takeWhile_append_of_pos others,
    List.dropWhile_append_of_pos others, List.takeWhile_cons_of_neg (by simp [stops]),
    List.dropWhile_cons_of_neg (by simp [stops]), List.append_nil, ← chars, String.ofList_toList]

theorem space_not_nameStart {c : Char} (start : isNameStart c = true) : isSpace c = false := by
  rw [Bool.eq_false_iff]
  intro space
  simp only [isSpace, Bool.or_eq_true, decide_eq_true_eq] at space
  rcases space with ((rfl | rfl) | rfl) | rfl
  all_goals exact absurd start (by decide)

theorem skipSpace_of_name {name : String} (is : IsName name) (rest : List Char) :
    skipSpace (name.toList ++ rest) = name.toList ++ rest := by
  obtain ⟨first, cs, chars, start, -⟩ := is
  rw [chars, List.cons_append, skipSpace,
    List.dropWhile_cons_of_neg (by simp [space_not_nameStart start])]

/-- Where a name begins no other mark does. -/
theorem behind_of_name {name mark : String} (is : IsName name) {m : Char} {ms : List Char}
    (chars : mark.toList = m :: ms) (other : isNameStart m = false) (rest : List Char) :
    behind mark (name.toList ++ rest) = none := by
  obtain ⟨first, cs, spelled, start, -⟩ := is
  have differ : m ≠ first := by
    rintro rfl
    rw [start] at other
    cases other
  rw [behind, chars, spelled, List.cons_append, List.isPrefixOf_cons_cons]
  simp [differ]

theorem readQuoted_written {raw : List Char} (plain : '"' ∉ raw) (rest : List Char) :
    readQuoted ('"' :: (raw ++ '"' :: rest)) = some (raw, rest) := by
  have inside : ∀ c ∈ raw, (decide (c ≠ '"')) = true := by
    intro c mem
    exact decide_eq_true (fun is => plain (is ▸ mem))
  rw [readQuoted, if_pos (Or.inl rfl), List.dropWhile_append_of_pos inside,
    List.takeWhile_append_of_pos inside, List.dropWhile_cons_of_neg (by simp),
    List.takeWhile_cons_of_neg (by simp), List.append_nil]

/-- How a tag ends. -/
def ending (closed : Bool) : List Char := if closed then ['/', '>'] else ['>']

theorem readAttrs_written {attrs : Attrs} (names : ∀ a ∈ attrs, IsName a.1 ∧ '"' ∉ a.2)
    (distinct : (attrs.map Prod.fst).Nodup)
    (valued : ∀ a ∈ attrs, (attValue a.2).isSome = true) (closed : Bool) (rest : List Char)
    {fuel : Nat} (enough : attrs.length < fuel) :
    readAttrs fuel (writeAttrs attrs ++ (ending closed ++ rest)) =
      some (attrs.map (fun a => (a.1, valueOf a.2)), closed, rest) := by
  induction attrs generalizing fuel with
  | nil =>
    obtain ⟨fuel, rfl⟩ : ∃ k, fuel = k + 1 := ⟨fuel - 1, by simp at enough; omega⟩
    cases closed <;> rfl
  | cons a attrs ih =>
    obtain ⟨fuel, rfl⟩ : ∃ k, fuel = k + 1 := ⟨fuel - 1, by simp at enough; omega⟩
    obtain ⟨isName, plain⟩ := names a List.mem_cons_self
    obtain ⟨value, read⟩ := Option.isSome_iff_exists.mp (valued a List.mem_cons_self)
    obtain ⟨fresh, distinct⟩ := List.nodup_cons.mp distinct
    have room : attrs.length < fuel := Nat.lt_of_succ_lt_succ enough
    have later := ih (fun b mem => names b (List.mem_cons_of_mem a mem)) distinct
      (fun b mem => valued b (List.mem_cons_of_mem a mem)) room
    have written : writeAttrs (a :: attrs) ++ (ending closed ++ rest) = ' ' :: (a.1.toList ++
        '=' :: '"' :: (a.2 ++ '"' :: (writeAttrs attrs ++ (ending closed ++ rest)))) := by
      simp [writeAttrs, writeAttr]
    generalize writeAttrs attrs ++ (ending closed ++ rest) = behind_ at later written
    have skipped : skipSpace (' ' :: (a.1.toList ++ '=' :: '"' :: (a.2 ++ '"' :: behind_))) =
        a.1.toList ++ '=' :: '"' :: (a.2 ++ '"' :: behind_) := skipSpace_of_name isName _
    have equals : readEq ('=' :: '"' :: (a.2 ++ '"' :: behind_)) =
        some ('"' :: (a.2 ++ '"' :: behind_)) := rfl
    have new : a.1 ∉ (attrs.map fun a => (a.1, valueOf a.2)).map Prod.fst := by
      rwa [List.map_map]
    rw [written, readAttrs, skipped, behind_of_name isName rfl rfl, behind_of_name isName rfl rfl]
    simp only [if_neg (List.cons_ne_self ' ' _).symm, isName.read (show isNameChar '=' = false from rfl),
      equals, readQuoted_written plain, read, later, Option.bind_eq_bind, Option.bind_some]
    have value_ : valueOf a.2 = value := by rw [valueOf, read, Option.getD_some]
    rw [if_neg new, List.map_cons, value_]

theorem length_le_writeAttrs (attrs : Attrs) : attrs.length ≤ (writeAttrs attrs).length := by
  induction attrs with
  | nil => exact Nat.le_refl _
  | cons a attrs ih =>
    simp only [writeAttrs, List.flatMap_cons, List.length_append, List.length_cons,
      writeAttr] at ih ⊢
    omega

/-- A name ends where the attributes or the end of the tag begin. -/
theorem name_stops (attrs : Attrs) (closed : Bool) (rest : List Char) :
    ∃ c cs, writeAttrs attrs ++ (ending closed ++ rest) = c :: cs ∧ isNameChar c = false := by
  cases attrs with
  | nil => cases closed <;> exact ⟨_, _, rfl, rfl⟩
  | cons a attrs => exact ⟨_, _, rfl, rfl⟩

theorem readTag_written {name : String} (isName : IsName name) {attrs : Attrs}
    (names : ∀ a ∈ attrs, IsName a.1 ∧ '"' ∉ a.2) (distinct : (attrs.map Prod.fst).Nodup)
    (valued : ∀ a ∈ attrs, (attValue a.2).isSome = true) (closed : Bool) (rest : List Char) :
    readTag (name.toList ++ (writeAttrs attrs ++ (ending closed ++ rest))) =
      some (name, attrs.map (fun a => (a.1, valueOf a.2)), closed, rest) := by
  obtain ⟨c, cs, starts, stops⟩ := name_stops attrs closed rest
  have named : readName (name.toList ++ (writeAttrs attrs ++ (ending closed ++ rest))) =
      some (name, writeAttrs attrs ++ (ending closed ++ rest)) := by
    rw [starts]
    exact isName.read stops
  have enough : attrs.length < (writeAttrs attrs ++ (ending closed ++ rest)).length + 1 := by
    have few := length_le_writeAttrs attrs
    rw [List.length_append]
    omega
  rw [readTag, named]
  simp only [Option.bind_eq_bind, Option.bind_some,
    readAttrs_written names distinct valued closed rest enough]

theorem readStop_written {name : String} (isName : IsName name) (rest : List Char) :
    readStop name ('<' :: '/' :: (name.toList ++ '>' :: rest)) = some rest := by
  have opened : behind "</" ('<' :: '/' :: (name.toList ++ '>' :: rest)) =
      some (name.toList ++ '>' :: rest) := rfl
  have closed : behind ">" (skipSpace ('>' :: rest)) = some rest := rfl
  rw [readStop, opened]
  simp only [Option.bind_eq_bind, Option.bind_some,
    isName.read (show isNameChar '>' = false from rfl), if_true, closed]

/-- Where a name follows `<` an element is read. -/
theorem readContent_name {name : String} (isName : IsName name) (fuel : Nat) (rest : List Char) :
    readContent (fuel + 1) ('<' :: (name.toList ++ rest)) =
      (readElement (readContent fuel) (name.toList ++ rest)).bind fun read =>
        (readContent fuel read.2).map fun more =>
          (.element read.1.name read.1.attrs read.1.inside more.1, more.2) := by
  obtain ⟨first, cs, chars, start, -⟩ := isName
  rw [chars, List.cons_append, readContent]
  · cases readElement (readContent fuel) (first :: (cs ++ rest)) with
    | none => rfl
    | some read =>
      cases more : readContent fuel read.2 with
      | none => simp [more]
      | some more' => simp [more]
  -- the marks that are no name
  · intro cs is
    cases is
    cases start
  · intro cs is
    cases is
    cases start
  · intro cs is
    cases is
    cases start

/-- An element behind its `<`. -/
def afterOpen (e : Element) : List Char :=
  match e.inside with
  | .nil => e.name.toList ++ (writeAttrs e.attrs ++ (ending true ++ []))
  | inside => e.name.toList ++ (writeAttrs e.attrs ++ (ending false ++ (render inside ++
      '<' :: '/' :: (e.name.toList ++ ['>']))))

theorem render_content (e : Element) (more : Content) :
    render (e.content more) = '<' :: (afterOpen e ++ render more) := by
  obtain ⟨name, attrs, inside⟩ := e
  cases inside <;> simp [Element.content, render, afterOpen, ending]

theorem afterOpen_name (e : Element) : ∃ rest, afterOpen e = e.name.toList ++ rest := by
  obtain ⟨name, attrs, inside⟩ := e
  cases inside <;> exact ⟨_, rfl⟩

theorem length_inside_le (e : Element) : (render e.inside).length ≤ (afterOpen e).length := by
  obtain ⟨name, attrs, inside⟩ := e
  cases inside with
  | nil => exact Nat.zero_le _
  | _ =>
    simp only [afterOpen, List.length_append]
    omega

/-- What holds of the element itself, and of its content. -/
def Element.Regular (e : Element) : Prop :=
  IsName e.name ∧ (∀ a ∈ e.attrs, IsName a.1 ∧ '"' ∉ a.2) ∧ (e.attrs.map Prod.fst).Nodup ∧
    e.inside.Regular

/-- An element is read by whatever reads its content. -/
theorem readElement_written {e : Element} (regular : e.Regular)
    (valued : ∀ a ∈ e.attrs, (attValue a.2).isSome = true)
    {content : List Char → Option (Content × List Char)}
    (reads : ∀ rest, content (render e.inside ++ '<' :: '/' :: rest) =
      some (e.inside.mapValues valueOf, '<' :: '/' :: rest)) (rest : List Char) :
    readElement content (afterOpen e ++ rest) = some (e.mapValues valueOf, rest) := by
  obtain ⟨name, attrs, inside⟩ := e
  obtain ⟨isName, names, distinct, -⟩ := regular
  have tag := readTag_written isName names distinct valued
  cases inside with
  | nil =>
    simp only [afterOpen, List.append_assoc, List.nil_append]
    rw [readElement, tag true rest]
    rfl
  | _ =>
    simp only [afterOpen, List.append_assoc, List.cons_append, List.nil_append]
    rw [readElement, tag false]
    simp only [Option.bind_eq_bind, Option.bind_some, Bool.false_eq_true, if_false, reads,
      readStop_written isName]
    rfl

/-- White space between elements is read as it stands. -/
theorem readContent_blank {c : Char} (blank : c = ' ' ∨ c = '\n') (fuel : Nat) (rest : List Char) :
    readContent (fuel + 1) (c :: rest) =
      (readContent fuel rest).map fun read => (.char c read.1, read.2) := by
  have noEnd : behind "]]>" (c :: rest) = none := by
    rcases blank with rfl | rfl <;> rfl
  rw [readContent, noEnd]
  · cases readContent fuel rest <;> rfl
  -- the marks that are no white space
  · rintro rfl
    rcases blank with is | is <;> cases is
  · rintro rfl
    rcases blank with is | is <;> cases is

/-- An element is read, and then what follows it. -/
theorem readContent_element {e : Element} (regular : e.Regular)
    (valued : ∀ a ∈ e.attrs, (attValue a.2).isSome = true) {fuel : Nat}
    (reads : ∀ rest, readContent fuel (render e.inside ++ '<' :: '/' :: rest) =
      some (e.inside.mapValues valueOf, '<' :: '/' :: rest)) (rest : List Char) :
    readContent (fuel + 1) ('<' :: (afterOpen e ++ rest)) =
      (readContent fuel rest).map fun read =>
        ((e.mapValues valueOf).content read.1, read.2) := by
  have element := readElement_written regular valued reads rest
  obtain ⟨behind_, spelled⟩ := afterOpen_name e
  rw [spelled, List.append_assoc] at element ⊢
  rw [readContent_name regular.1, element, Option.bind_some]
  rfl

/-- Written content is read up to the end tag behind it. -/
theorem readContent_render {c : Content} (regular : c.Regular)
    (valued : ∀ raw ∈ c.values, (attValue raw).isSome = true) {tail : List Char}
    (stops : tail = [] ∨ ∃ rest, tail = '<' :: '/' :: rest) {fuel : Nat}
    (enough : (render c).length < fuel) :
    readContent fuel (render c ++ tail) = some (c.mapValues valueOf, tail) := by
  induction c generalizing tail fuel with
  | nil =>
    obtain ⟨fuel, rfl⟩ : ∃ k, fuel = k + 1 := ⟨fuel - 1, by simp only [render] at enough; omega⟩
    rcases stops with rfl | ⟨rest, rfl⟩ <;> rfl
  | char c more ih =>
    obtain ⟨fuel, rfl⟩ : ∃ k, fuel = k + 1 := ⟨fuel - 1, by omega⟩
    have later := ih regular.2 valued stops (Nat.lt_of_succ_lt_succ enough)
    rw [render, List.cons_append, readContent_blank regular.1, later]
    rfl
  | element name attrs inside more ihInside ihMore =>
    obtain ⟨fuel, rfl⟩ : ∃ k, fuel = k + 1 := ⟨fuel - 1, by omega⟩
    obtain ⟨isName, names, distinct, inner, outer⟩ := regular
    have valuedHere : ∀ a ∈ attrs, (attValue a.2).isSome = true :=
      fun a mem => valued a.2 (List.mem_append_left _ (List.mem_map_of_mem mem))
    have valuedInside : ∀ raw ∈ inside.values, (attValue raw).isSome = true :=
      fun raw mem => valued raw (List.mem_append_right _ (List.mem_append_left _ mem))
    have valuedMore : ∀ raw ∈ more.values, (attValue raw).isSome = true :=
      fun raw mem => valued raw (List.mem_append_right _ (List.mem_append_right _ mem))
    let e : Element := ⟨name, attrs, inside⟩
    have whole : render (.element name attrs inside more) = '<' :: (afterOpen e ++ render more) :=
      render_content e more
    have within : (render inside).length ≤ (afterOpen e).length := length_inside_le e
    rw [whole, List.length_cons, List.length_append] at enough
    have room : (render inside).length < fuel ∧ (render more).length < fuel := by omega
    have reads (rest : List Char) := ihInside inner valuedInside (Or.inr ⟨rest, rfl⟩) room.1
    rw [whole, List.cons_append, List.append_assoc,
      readContent_element ⟨isName, names, distinct, inner⟩ valuedHere reads,
      ihMore outer valuedMore stops room.2]
    rfl

theorem lineEnds_cons {c : Char} (other : c ≠ '\r') (cs : List Char) :
    lineEnds (c :: cs) = c :: lineEnds cs := by
  rw [lineEnds]
  · intro rest is
    exact absurd is other
  · exact other

theorem mem_lineEnds {cs : List Char} {c : Char} (mem : c ∈ lineEnds cs) : c ∈ cs ∨ c = '\n' := by
  induction cs using lineEnds.induct with
  | case1 => cases mem
  | case2 cs ih =>
    simp only [lineEnds, List.mem_cons] at mem ⊢
    rcases mem with rfl | mem
    · exact Or.inr rfl
    · rcases ih mem with old | new
      · exact Or.inl (Or.inr (Or.inr old))
      · exact Or.inr new
  | case3 cs other ih =>
    rw [lineEnds, List.mem_cons] at mem
    · rcases mem with rfl | mem
      · exact Or.inr rfl
      · rcases ih mem with old | new
        · exact Or.inl (List.mem_cons_of_mem _ old)
        · exact Or.inr new
    · exact other
  | case4 d cs _ other ih =>
    rw [lineEnds_cons other, List.mem_cons] at mem
    rcases mem with rfl | mem
    · exact Or.inl List.mem_cons_self
    · rcases ih mem with old | new
      · exact Or.inl (List.mem_cons_of_mem _ old)
      · exact Or.inr new

/-- Texts are read apart where the second does not begin with a line feed. -/
theorem lineEnds_append (cs : List Char) {c : Char} (other : c ≠ '\n') (rest : List Char) :
    lineEnds (cs ++ c :: rest) = lineEnds cs ++ lineEnds (c :: rest) := by
  induction cs using lineEnds.induct with
  | case1 => rfl
  | case2 cs ih => simp only [List.cons_append, lineEnds, ih]
  | case3 cs noFeed ih =>
    have noFeed' : ∀ more, cs ++ c :: rest ≠ '\n' :: more := by
      intro more is
      cases cs with
      | nil => exact other (List.cons.inj is).1
      | cons d cs =>
        obtain ⟨rfl, -⟩ := List.cons.inj is
        exact noFeed cs rfl
    rw [List.cons_append, lineEnds, lineEnds, ih]
    · rfl
    · exact noFeed
    · intro more is
      exact noFeed' more is
  | case4 d cs _ noReturn ih =>
    rw [List.cons_append, lineEnds_cons noReturn, lineEnds_cons noReturn, ih, List.cons_append]

theorem lineEnds_plain {cs : List Char} (plain : '\r' ∉ cs) (rest : List Char) :
    lineEnds (cs ++ rest) = cs ++ lineEnds rest := by
  induction cs with
  | nil => rfl
  | cons c cs ih =>
    obtain ⟨other, plain⟩ := not_or.mp (mt List.mem_cons.mpr plain)
    rw [List.cons_append, lineEnds_cons (Ne.symm other), ih plain, List.cons_append]

theorem IsName.plain {name : String} (is : IsName name) : '\r' ∉ name.toList := by
  obtain ⟨c, cs, chars, start, others⟩ := is
  rw [chars, List.mem_cons, not_or]
  constructor
  · rintro rfl
    cases start
  · intro mem
    cases others _ mem

theorem lineEnds_writeAttrs {attrs : Attrs} (names : ∀ a ∈ attrs, IsName a.1) (rest : List Char) :
    lineEnds (writeAttrs attrs ++ rest) =
      writeAttrs (attrs.map fun a => (a.1, lineEnds a.2)) ++ lineEnds rest := by
  induction attrs with
  | nil => rfl
  | cons a attrs ih =>
    have plain := (names a List.mem_cons_self).plain
    have later := ih (fun b mem => names b (List.mem_cons_of_mem a mem))
    simp only [writeAttrs, List.map_cons, List.flatMap_cons, writeAttr, List.append_assoc,
      List.cons_append, List.nil_append] at later ⊢
    rw [lineEnds_cons (by decide), lineEnds_plain plain, lineEnds_cons (by decide),
      lineEnds_cons (by decide), lineEnds_append _ (by decide), lineEnds_cons (by decide), later]

theorem lineEnds_render {c : Content} (regular : c.Regular) (rest : List Char) :
    lineEnds (render c ++ rest) = render (c.mapValues lineEnds) ++ lineEnds rest := by
  induction c generalizing rest with
  | nil => rfl
  | char c more ih =>
    have plain : c ≠ '\r' := by rcases regular.1 with rfl | rfl <;> decide
    simp only [render, Content.mapValues, List.cons_append]
    rw [lineEnds_cons plain, ih regular.2]
  | element name attrs inside more ihInside ihMore =>
    obtain ⟨isName, names, -, inner, outer⟩ := regular
    have plain := isName.plain
    have attributes := lineEnds_writeAttrs (fun a mem => (names a mem).1)
    cases inside with
    | nil =>
      simp only [render, Content.mapValues, List.cons_append, List.append_assoc]
      rw [lineEnds_cons (by decide), lineEnds_plain plain, attributes, lineEnds_cons (by decide),
        lineEnds_cons (by decide), ihMore outer]
    | _ =>
      have within := ihInside inner
      simp only [render, Content.mapValues, List.cons_append, List.append_assoc] at within ⊢
      rw [lineEnds_cons (by decide), lineEnds_plain plain, attributes, lineEnds_cons (by decide),
        within, lineEnds_cons (by decide), lineEnds_cons (by decide), lineEnds_plain plain,
        lineEnds_cons (by decide), ihMore outer]

theorem Content.Regular.lineEnds {c : Content} (regular : c.Regular) :
    (c.mapValues Xml.lineEnds).Regular := by
  induction c with
  | nil => trivial
  | char c more ih => exact ⟨regular.1, ih regular.2⟩
  | element name attrs inside more ihInside ihMore =>
    obtain ⟨isName, names, distinct, inner, outer⟩ := regular
    refine ⟨isName, ?_, ?_, ihInside inner, ihMore outer⟩
    · intro a mem
      obtain ⟨b, old, rfl⟩ := List.mem_map.mp mem
      refine ⟨(names b old).1, ?_⟩
      intro quote
      rcases mem_lineEnds quote with kept | new
      · exact (names b old).2 kept
      · cases new
    · rwa [List.map_map]

theorem isChar_of_range {c : Char} (low : 0x20 ≤ c.toNat) (high : c.toNat ≤ 0xD7FF ∨
    0xE000 ≤ c.toNat ∧ c.toNat ≤ 0xFFFD ∨ 0x10000 ≤ c.toNat ∧ c.toNat ≤ 0x10FFFF) :
    isChar c = true := by
  simp only [isChar, inRanges, List.any_cons, List.any_nil, Bool.or_eq_true, Bool.and_eq_true,
    decide_eq_true_eq]
  omega

theorem isChar_of_isNameStart {c : Char} (start : isNameStart c = true) : isChar c = true := by
  simp only [isNameStart, inRanges, List.any_cons, List.any_nil, Bool.or_eq_true,
    Bool.and_eq_true, decide_eq_true_eq, Bool.false_eq_true, or_false] at start
  rcases start with ((rfl | rfl) | letter) | ranges
  · rfl
  · rfl
  · have small : (65 ≤ c.toNat ∧ c.toNat ≤ 90) ∨ 97 ≤ c.toNat ∧ c.toNat ≤ 122 := by
      rcases Bool.or_eq_true_iff.mp letter with upper | lower
      · exact Or.inl (of_decide_eq_true upper)
      · exact Or.inr ((Bool.and_eq_true_iff.mp lower).imp of_decide_eq_true of_decide_eq_true)
    exact isChar_of_range (by omega) (by omega)
  · exact isChar_of_range (by omega) (by omega)

theorem isChar_of_isNameChar {c : Char} (name : isNameChar c = true) : isChar c = true := by
  simp only [isNameChar, inRanges, List.any_cons, List.any_nil, Bool.or_eq_true, Bool.and_eq_true,
    decide_eq_true_eq, Bool.false_eq_true, or_false, Char.isDigit_iff_toNat] at name
  rcases name with (((start | rfl) | rfl) | digit) | ranges
  · exact isChar_of_isNameStart start
  · rfl
  · rfl
  · have bounds : 0x30 ≤ c.toNat ∧ c.toNat ≤ 0x39 := digit
    exact isChar_of_range (by omega) (by omega)
  · exact isChar_of_range (by omega) (by omega)

theorem IsName.legal {name : String} (is : IsName name) : ∀ c ∈ name.toList, isChar c = true := by
  obtain ⟨c, cs, chars, start, others⟩ := is
  intro d mem
  rw [chars] at mem
  rcases List.mem_cons.mp mem with rfl | mem
  · exact isChar_of_isNameChar (by simp [isNameChar, start])
  · exact isChar_of_isNameChar (others d mem)

/-- All characters are legal. -/
def Legal (cs : List Char) : Prop := ∀ c ∈ cs, isChar c = true

theorem legal_append {cs ds : List Char} : Legal (cs ++ ds) ↔ Legal cs ∧ Legal ds := by
  unfold Legal
  simp only [List.mem_append, or_imp, forall_and]

theorem legal_cons {c : Char} {cs : List Char} (legal : isChar c = true) :
    Legal (c :: cs) ↔ Legal cs := by
  unfold Legal
  simp [legal]

theorem legal_writeAttrs {attrs : Attrs} (names : ∀ a ∈ attrs, IsName a.1) :
    Legal (writeAttrs attrs) ↔ ∀ raw ∈ attrs.map Prod.snd, Legal raw := by
  induction attrs with
  | nil => simp [writeAttrs, Legal]
  | cons a attrs ih =>
    have name : Legal a.1.toList := (names a List.mem_cons_self).legal
    have later := ih (fun b mem => names b (List.mem_cons_of_mem a mem))
    have quote : Legal ['"'] := List.forall_mem_singleton.mpr rfl
    simp only [writeAttrs, List.map_cons, List.flatMap_cons, List.forall_mem_cons] at later ⊢
    rw [legal_append, later, writeAttr, legal_cons rfl, legal_append, legal_cons rfl, legal_cons rfl,
      legal_append]
    simp only [name, quote, true_and, and_true]

/-- What is written is legal exactly where the quoted texts are. -/
theorem legal_render {c : Content} (regular : c.Regular) :
    Legal (render c) ↔ ∀ raw ∈ c.values, Legal raw := by
  induction c with
  | nil => simp [render, Content.values, Legal]
  | char c more ih =>
    have legal : isChar c = true := by rcases regular.1 with rfl | rfl <;> rfl
    rw [render, legal_cons legal, ih regular.2]
    rfl
  | element name attrs inside more ihInside ihMore =>
    obtain ⟨isName, names, -, inner, outer⟩ := regular
    have named : Legal name.toList := isName.legal
    have within := ihInside inner
    have behind_ := ihMore outer
    have attributes := legal_writeAttrs (fun a mem => (names a mem).1)
    simp only [Content.values, List.forall_mem_append, ← attributes, ← within, ← behind_]
    have marks : isChar '<' = true ∧ isChar '>' = true ∧ isChar '/' = true := ⟨rfl, rfl, rfl⟩
    obtain ⟨opens, closes, slash⟩ := marks
    cases inside with
    | nil =>
      have empty : Legal [] := fun c mem => by cases mem
      simp only [render]
      rw [legal_cons opens, legal_append, legal_append, legal_cons slash, legal_cons closes]
      simp only [named, empty, true_and]
    | _ =>
      simp only [render]
      rw [legal_cons opens, legal_append, legal_append, legal_cons closes, legal_append,
        legal_cons opens, legal_cons slash, legal_append, legal_cons closes]
      simp only [named, true_and]

/-- All quoted texts of an element. -/
def Element.values (e : Element) : List (List Char) := (e.content .nil).values

section
variable {root : Element}

theorem toList_document (root : Element) :
    (document root).toList = declaration.toList ++ render (root.content (.char '\n' .nil)) := by
  rw [document, String.toList_ofList]

theorem regular_content (regular : root.Regular) : (root.content (.char '\n' .nil)).Regular := by
  obtain ⟨isName, names, distinct, inner⟩ := regular
  exact ⟨isName, names, distinct, inner, Or.inr rfl, trivial⟩

/-- A document is legal exactly where its quoted texts are. -/
theorem legal_document (regular : root.Regular) :
    Legal (document root).toList ↔ ∀ raw ∈ root.values, Legal raw := by
  have allowed : declaration.toList.all isChar = true := by decide
  have declared : Legal declaration.toList := List.all_eq_true.mp allowed
  rw [toList_document, legal_append, legal_render (regular_content regular)]
  simp only [declared, true_and]
  rfl

theorem skipDecl_written (rest : List Char) :
    skipDecl (declaration.toList ++ rest) = some ('\n' :: rest) := rfl

theorem skipMisc_root (regular : root.Regular) (rest : List Char) (fuel : Nat) :
    skipMisc (fuel + 2) ('\n' :: '<' :: (afterOpen root ++ rest)) =
      some ('<' :: (afterOpen root ++ rest)) := by
  obtain ⟨behind_, spelled⟩ := afterOpen_name root
  obtain ⟨first, cs, chars, start, -⟩ := regular.1
  have whole : afterOpen root ++ rest = first :: (cs ++ (behind_ ++ rest)) := by
    rw [spelled, chars, List.append_assoc, List.cons_append]
  have bang : '!' ≠ first := by
    rintro rfl
    cases start
  have question : '?' ≠ first := by
    rintro rfl
    cases start
  have comment : behind "<!--" ('<' :: (afterOpen root ++ rest)) = none := by
    rw [whole, behind, show "<!--".toList = ['<', '!', '-', '-'] from rfl]
    simp [bang]
  have instruction : behind "<?" ('<' :: (afterOpen root ++ rest)) = none := by
    rw [whole, behind, show "<?".toList = ['<', '?'] from rfl]
    simp [question]
  have feed : skipMisc (fuel + 2) ('\n' :: '<' :: (afterOpen root ++ rest)) =
      skipMisc (fuel + 1) ('<' :: (afterOpen root ++ rest)) := rfl
  rw [feed, skipMisc, comment, instruction]
  rfl

theorem Content.mapValues_mapValues (f g : List Char → List Char) (c : Content) :
    (c.mapValues f).mapValues g = c.mapValues fun raw => g (f raw) := by
  induction c with
  | nil => rfl
  | char c more ih => rw [mapValues, mapValues, ih, mapValues]
  | element name attrs inside more ihInside ihMore =>
    rw [mapValues, mapValues, ihInside, ihMore, mapValues, List.map_map]
    rfl

theorem Element.mapValues_mapValues (f g : List Char → List Char) (e : Element) :
    (e.mapValues f).mapValues g = e.mapValues fun raw => g (f raw) := by
  simp only [mapValues, Content.mapValues_mapValues, List.map_map]
  rfl

theorem Content.values_mapValues (f : List Char → List Char) (c : Content) :
    (c.mapValues f).values = c.values.map f := by
  induction c with
  | nil => rfl
  | char c more ih => exact ih
  | element name attrs inside more ihInside ihMore =>
    rw [mapValues, values, values, ihInside, ihMore, List.map_append, List.map_append, List.map_map,
      List.map_map]
    rfl

/-- The part of the reader behind the declaration. -/
theorem readRoot_written (regular : root.Regular)
    (valued : ∀ raw ∈ root.values, (attValue raw).isSome = true) (fuel : Nat)
    (enough : (render root.inside).length < fuel) (rest : List Char) :
    readElement (readContent fuel) (afterOpen root ++ rest) = some (root.mapValues valueOf, rest) := by
  refine readElement_written regular ?_ ?_ rest
  · intro a mem
    exact valued a.2 (List.mem_append_left _ (List.mem_map_of_mem mem))
  · intro rest
    refine readContent_render regular.2.2.2 ?_ (Or.inr ⟨rest, rfl⟩) enough
    intro raw mem
    exact valued raw (List.mem_append_right _ (List.mem_append_left _ mem))

/-- A reader gets the elements of a legal document with the values of their texts. -/
theorem parse_document (regular : root.Regular) (legal : ∀ raw ∈ root.values, Legal raw)
    (valued : ∀ raw ∈ root.values, (attValue (lineEnds raw)).isSome = true) :
    parse (document root) = some (root.mapValues fun raw => valueOf (lineEnds raw)) := by
  have allowed : (document root).toList.all isChar = true :=
    List.all_eq_true.mpr ((legal_document regular).mpr legal)
  have plain : '\r' ∉ declaration.toList := by decide
  have read := lineEnds_render (regular_content regular) []
  rw [List.append_nil] at read
  -- what the reader works on, with the line ends of the quoted texts normalised
  let e : Element := root.mapValues lineEnds
  have regular' : e.Regular := by
    obtain ⟨isName, names, distinct, inner, -⟩ := (regular_content regular).lineEnds
    exact ⟨isName, names, distinct, inner⟩
  have valued' : ∀ raw ∈ e.values, (attValue raw).isSome = true := by
    have mapped : e.values = root.values.map lineEnds :=
      Content.values_mapValues lineEnds (root.content .nil)
    intro raw mem
    rw [mapped] at mem
    obtain ⟨old, here, rfl⟩ := List.mem_map.mp mem
    exact valued old here
  have text : lineEnds (document root).toList =
      declaration.toList ++ '<' :: (afterOpen e ++ ['\n']) := by
    have same : render ((root.content (.char '\n' .nil)).mapValues lineEnds) =
        '<' :: (afterOpen e ++ ['\n']) := render_content e (.char '\n' .nil)
    rw [toList_document, lineEnds_plain plain, read, same]
    exact congrArg _ (List.append_nil _)
  have long : (render e.inside).length < (afterOpen e ++ ['\n']).length := by
    rw [List.length_append]
    exact Nat.lt_succ_of_le (length_inside_le e)
  have misc : skipMisc ('\n' :: '<' :: (afterOpen e ++ ['\n'])).length
      ('\n' :: '<' :: (afterOpen e ++ ['\n'])) = some ('<' :: (afterOpen e ++ ['\n'])) :=
    skipMisc_root regular' ['\n'] _
  have opened : behind "<" ('<' :: (afterOpen e ++ ['\n'])) = some (afterOpen e ++ ['\n']) := rfl
  have ended : skipMisc ['\n'].length ['\n'] = some [] := rfl
  rw [parse, if_pos allowed, text, skipDecl_written]
  simp only [Option.bind_eq_bind, Option.bind_some, misc, opened,
    readRoot_written regular' valued' _ long, ended, if_true]
  exact congrArg some (root.mapValues_mapValues lineEnds valueOf)

theorem legal_of_parse (regular : root.Regular) {e : Element}
    (parsed : parse (document root) = some e) : ∀ raw ∈ root.values, Legal raw := by
  rw [← legal_document regular]
  by_contra illegal
  have refused : ¬ (document root).toList.all isChar = true := by
    rwa [List.all_eq_true]
  rw [parse, if_neg refused] at parsed
  cases parsed

end

end Xml
