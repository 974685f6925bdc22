import BVault.Lib.XmlWritten

/-!
# Elements on lines of their own

A writer that gives every element its line, indents what is inside, and escapes
the texts of attributes. Its documents are well-formed exactly when the texts are
legal, and a reader gets each text with its white space normalised.
-/

namespace Xml

instance (name : String) : Decidable (IsName name) :=
  decidable_of_iff (name.toList.head?.any isNameStart && name.toList.tail.all isNameChar) (by
    rw [IsName]
    cases name.toList with
    | nil => simp
    | cons c cs => simp)

namespace Content

/-- An element between spaces and a line feed. -/
def line (indent : Nat) (e : Element) (more : Content) : Content :=
  text (List.replicate indent ' ') (e.content (.char '\n' more))

def lines (indent : Nat) (es : List Element) (more : Content) : Content :=
  es.foldr (line indent) more

/-- What stands inside an element that has its children on lines of their own. -/
def block (indent : Nat) (es : List Element) : Content :=
  .char '\n' (lines (indent + 2) es (text (List.replicate indent ' ') .nil))

end Content

/-- What is written for an element and its line. -/
def lineOf (indent : Nat) (e : Element) : List Char :=
  List.replicate indent ' ' ++ '<' :: (afterOpen e ++ ['\n'])

theorem render_text (cs : List Char) (more : Content) :
    render (.text cs more) = cs ++ render more := by
  induction cs with
  | nil => rfl
  | cons c cs ih => exact congrArg (c :: ·) ih

theorem render_lines (indent : Nat) (es : List Element) (more : Content) :
    render (.lines indent es more) = es.flatMap (lineOf indent) ++ render more := by
  induction es with
  | nil => rfl
  | cons e es ih =>
    have first : render (.lines indent (e :: es) more) = List.replicate indent ' ' ++
        '<' :: (afterOpen e ++ '\n' :: render (.lines indent es more)) := by
      rw [show Content.lines indent (e :: es) more =
        .text (List.replicate indent ' ') (e.content (.char '\n' (.lines indent es more))) from rfl,
        render_text, render_content, render]
    rw [first, ih, List.flatMap_cons, lineOf]
    simp only [List.append_assoc, List.cons_append, List.nil_append]

theorem lineOf_empty (indent : Nat) (name : String) (attrs : Attrs) :
    lineOf indent ⟨name, attrs, .nil⟩ = List.replicate indent ' ' ++
      '<' :: (name.toList ++ (writeAttrs attrs ++ ['/', '>', '\n'])) := by
  simp [lineOf, afterOpen, ending]

theorem lineOf_block (indent : Nat) (name : String) (attrs : Attrs) (es : List Element) :
    lineOf indent ⟨name, attrs, .block indent es⟩ = List.replicate indent ' ' ++
      '<' :: (name.toList ++ (writeAttrs attrs ++ '>' :: '\n' ::
        (es.flatMap (lineOf (indent + 2)) ++ (List.replicate indent ' ' ++
          '<' :: '/' :: (name.toList ++ ['>', '\n']))))) := by
  have inside : render (.block indent es) = '\n' :: (es.flatMap (lineOf (indent + 2)) ++
      List.replicate indent ' ') := by
    rw [Content.block, render, render_lines, render_text, render, List.append_nil]
  have opened : afterOpen ⟨name, attrs, .block indent es⟩ = name.toList ++ (writeAttrs attrs ++
      (ending false ++ (render (.block indent es) ++ '<' :: '/' :: (name.toList ++ ['>'])))) := rfl
  rw [lineOf, opened, inside]
  simp [ending]

theorem document_eq (root : Element) :
    (document root).toList = declaration.toList ++ lineOf 0 root := by
  rw [toList_document, render_content]
  rfl

section
variable (indent : Nat) (es : List Element) (more : Content)

theorem regular_text {cs : List Char} (blank : ∀ c ∈ cs, c = ' ' ∨ c = '\n') {more : Content} :
    (Content.text cs more).Regular ↔ more.Regular := by
  induction cs with
  | nil => exact Iff.rfl
  | cons c cs ih =>
    obtain ⟨first, blank⟩ := List.forall_mem_cons.mp blank
    exact (and_iff_right first).trans (ih blank)

theorem regular_spaces {n : Nat} {more : Content} :
    (Content.text (List.replicate n ' ') more).Regular ↔ more.Regular :=
  regular_text fun _ mem => Or.inl (List.eq_of_mem_replicate mem)

theorem regular_lines {es : List Element} {more : Content} (each : ∀ e ∈ es, e.Regular)
    (rest : more.Regular) : (Content.lines indent es more).Regular := by
  induction es with
  | nil => exact rest
  | cons e es ih =>
    obtain ⟨⟨isName, names, distinct, inner⟩, each⟩ := List.forall_mem_cons.mp each
    exact regular_spaces.mpr ⟨isName, names, distinct, inner, Or.inr rfl, ih each⟩

theorem regular_block {es : List Element} (each : ∀ e ∈ es, e.Regular) :
    (Content.block indent es).Regular :=
  ⟨Or.inr rfl, regular_lines _ each (regular_spaces.mpr trivial)⟩

theorem values_text (cs : List Char) : (Content.text cs more).values = more.values := by
  induction cs with
  | nil => rfl
  | cons c cs ih => exact ih

theorem values_element (name : String) (attrs : Attrs) (inside : Content) :
    (Element.mk name attrs inside).values = attrs.map Prod.snd ++ inside.values := by
  rw [Element.values, Element.content, Content.values, Content.values, List.append_nil]

theorem values_lines :
    (Content.lines indent es more).values = es.flatMap Element.values ++ more.values := by
  induction es with
  | nil => rfl
  | cons e es ih =>
    have first : (Content.lines indent (e :: es) more).values =
        e.attrs.map Prod.snd ++ (e.inside.values ++ (Content.lines indent es more).values) :=
      values_text _ _
    rw [first, ih, List.flatMap_cons, show e = Element.mk e.name e.attrs e.inside from rfl,
      values_element]
    simp only [List.append_assoc]

theorem values_block : (Content.block indent es).values = es.flatMap Element.values := by
  rw [Content.block, Content.values, values_lines, values_text, Content.values, List.append_nil]

theorem named_text (name : String) (cs : List Char) :
    (Content.text cs more).named name = more.named name := by
  induction cs with
  | nil => rfl
  | cons c cs ih => exact ih

theorem named_lines (name : String) :
    (Content.lines indent es more).named name =
      es.filter (fun e => e.name = name) ++ more.named name := by
  induction es with
  | nil => rfl
  | cons e es ih =>
    have first : (Content.lines indent (e :: es) more).named name =
        (e.content (.char '\n' (.lines indent es more))).named name := named_text _ _ _
    rw [first, Element.content, Content.named, Content.named, ih]
    by_cases same : e.name = name
    · rw [if_pos same, List.filter_cons_of_pos (by simpa using same), List.cons_append]
    · rw [if_neg same, List.filter_cons_of_neg (by simpa using same)]

theorem named_block (name : String) :
    (Content.block indent es).named name = es.filter fun e => e.name = name := by
  rw [Content.block, Content.named, named_lines, named_text, Content.named, List.append_nil]

end

theorem named_mapValues (f : List Char → List Char) (c : Content) (name : String) :
    (c.mapValues f).named name = (c.named name).map (Element.mapValues f) := by
  induction c with
  | nil => rfl
  | char c more ih => exact ih
  | element n attrs inside more _ ih =>
    rw [Content.mapValues, Content.named, Content.named, ih]
    by_cases same : n = name
    · rw [if_pos same, if_pos same, List.map_cons]
      rfl
    · rw [if_neg same, if_neg same]

theorem attr_mapValues (f : List Char → List Char) (e : Element) (name : String) :
    (e.mapValues f).attr name = (e.attr name).map f := by
  obtain ⟨n, attrs, inside⟩ := e
  rw [Element.attr, Element.attr, Element.mapValues]
  induction attrs with
  | nil => rfl
  | cons a attrs ih =>
    rw [List.map_cons, List.lookup_cons, List.lookup_cons]
    cases name == a.1 with
    | true => rfl
    | false => exact ih

/-- A way to write characters between quotes: white space as it is, the rest so that it is read. -/
structure Escapes (f : Char → List Char) : Prop where
  space : ∀ c, isSpace c = true → f c = [c]
  visible : ∀ c, isSpace c = false → ∀ d ∈ f c, isSpace d = false
  read : ∀ c rest, valueFrom none (f c ++ rest) = (valueFrom none rest).map (spaced c :: ·)
  quote : ∀ c, '"' ∉ f c
  legal : ∀ c, Legal (f c) ↔ isChar c = true

/-- What becomes of a text: line ends and other white space count as spaces. -/
def normal (cs : List Char) : List Char := (lineEnds cs).map spaced

section
variable {f : Char → List Char}

/-- Something stands for every character. -/
theorem Escapes.ne_nil (escapes : Escapes f) (c : Char) : f c ≠ [] := by
  intro none_
  have read := escapes.read c []
  rw [none_] at read
  cases read

theorem Escapes.plain (escapes : Escapes f) {c : Char} (other : c ≠ '\r') : '\r' ∉ f c := by
  intro mem
  by_cases space : isSpace c = true
  · rw [escapes.space c space] at mem
    exact other (List.mem_singleton.mp mem).symm
  · have visible := escapes.visible c (Bool.eq_false_iff.mpr space) '\r' mem
    cases visible

/-- A line feed is written for a line feed only. -/
theorem Escapes.feed (escapes : Escapes f) {c : Char} (other : c ≠ '\n') (rest more : List Char) :
    f c ++ rest ≠ '\n' :: more := by
  intro same
  obtain ⟨d, ds, written⟩ := List.exists_cons_of_ne_nil (escapes.ne_nil c)
  rw [written, List.cons_append] at same
  obtain ⟨rfl, -⟩ := List.cons.inj same
  by_cases space : isSpace c = true
  · rw [escapes.space c space] at written
    exact other (List.cons.inj written).1
  · have visible := escapes.visible c (Bool.eq_false_iff.mpr space) '\n' (by simp [written])
    cases visible

/-- Line ends are what they were before. -/
theorem Escapes.lineEnds (escapes : Escapes f) (cs : List Char) :
    Xml.lineEnds (cs.flatMap f) = (Xml.lineEnds cs).flatMap f := by
  have return_ : f '\r' = ['\r'] := escapes.space _ rfl
  have feed : f '\n' = ['\n'] := escapes.space _ rfl
  induction cs using lineEnds.induct with
  | case1 => rfl
  | case2 cs ih =>
    rw [List.flatMap_cons, List.flatMap_cons, return_, feed, Xml.lineEnds, List.flatMap_cons, feed,
      ← ih]
    rfl
  | case3 cs noFeed ih =>
    have noFeed' : ∀ more, cs.flatMap f ≠ '\n' :: more := by
      cases cs with
      | nil => simp
      | cons d ds =>
        rw [List.flatMap_cons]
        refine escapes.feed ?_ _
        rintro rfl
        exact noFeed ds rfl
    rw [List.flatMap_cons, return_, List.singleton_append, Xml.lineEnds, Xml.lineEnds, ih,
      List.flatMap_cons, feed, List.singleton_append]
    · exact noFeed
    · exact noFeed'
  | case4 d cs _ noReturn ih =>
    rw [List.flatMap_cons, lineEnds_cons noReturn, lineEnds_plain (escapes.plain noReturn), ih,
      List.flatMap_cons]

theorem Escapes.attValue (escapes : Escapes f) (cs : List Char) :
    Xml.attValue (cs.flatMap f) = some (cs.map spaced) := by
  induction cs with
  | nil => rfl
  | cons c cs ih =>
    rw [Xml.attValue] at ih ⊢
    rw [List.flatMap_cons, escapes.read, ih]
    rfl

theorem Escapes.reads (escapes : Escapes f) (cs : List Char) :
    Xml.attValue (Xml.lineEnds (cs.flatMap f)) = some (normal cs) := by
  rw [escapes.lineEnds, escapes.attValue]
  rfl

theorem Escapes.valueOf (escapes : Escapes f) (cs : List Char) :
    Xml.valueOf (Xml.lineEnds (cs.flatMap f)) = normal cs := by
  rw [Xml.valueOf, escapes.reads, Option.getD_some]

theorem Escapes.quote_not_mem (escapes : Escapes f) (cs : List Char) : '"' ∉ cs.flatMap f := by
  intro mem
  obtain ⟨c, -, inside⟩ := List.mem_flatMap.mp mem
  exact escapes.quote c inside

theorem Escapes.legal_flatMap (escapes : Escapes f) (cs : List Char) :
    Legal (cs.flatMap f) ↔ Legal cs := by
  constructor
  · intro legal c mem
    exact (escapes.legal c).mp fun d inside => legal d (List.mem_flatMap.mpr ⟨c, mem, inside⟩)
  · intro legal d mem
    obtain ⟨c, here, inside⟩ := List.mem_flatMap.mp mem
    exact (escapes.legal c).mpr (legal c here) d inside

/-- A text is read as it was exactly when its only white space are spaces. -/
theorem normal_eq_self_iff {cs : List Char} :
    normal cs = cs ↔ '\t' ∉ cs ∧ '\n' ∉ cs ∧ '\r' ∉ cs := by
  constructor
  · intro same
    have none_ : ∀ c, isSpace c = true → c ≠ ' ' → c ∉ cs := by
      intro c space other mem
      rw [← same, normal] at mem
      obtain ⟨d, -, made⟩ := List.mem_map.mp mem
      rw [spaced] at made
      split at made
      · exact other made.symm
      · rename_i visible
        exact visible (made ▸ space)
    exact ⟨none_ _ rfl (by decide), none_ _ rfl (by decide), none_ _ rfl (by decide)⟩
  · rintro ⟨tab, feed, return_⟩
    have ends : lineEnds cs = cs := by
      have plain := lineEnds_plain return_ []
      rwa [List.append_nil, lineEnds, List.append_nil] at plain
    have each : ∀ c ∈ cs, spaced c = c := by
      intro c mem
      rw [spaced]
      split
      · rename_i space
        simp only [isSpace, Bool.or_eq_true, decide_eq_true_eq] at space
        rcases space with ((rfl | rfl) | rfl) | rfl
        · rfl
        · exact absurd mem tab
        · exact absurd mem feed
        · exact absurd mem return_
      · rfl
    rw [normal, ends, List.map_congr_left each, List.map_id']

/-- A regular element with escaped texts only. -/
structure Element.Escaped (f : Char → List Char) (e : Element) : Prop where
  regular : e.Regular
  escaped : ∀ raw ∈ e.values, ∃ cs : List Char, raw = cs.flatMap f

/-- Proper attributes, none twice, with an escaped text each. -/
structure Attrs.Escaped (f : Char → List Char) (attrs : Attrs) : Prop where
  names : ∀ a ∈ attrs, IsName a.1
  distinct : (attrs.map Prod.fst).Nodup
  escaped : ∀ a ∈ attrs, ∃ cs : List Char, a.2 = cs.flatMap f

variable {name : String} {attrs : Attrs} {root : Element}

theorem Attrs.Escaped.regular (proper : Attrs.Escaped f attrs) (escapes : Escapes f) :
    ∀ a ∈ attrs, IsName a.1 ∧ '"' ∉ a.2 := by
  intro a mem
  obtain ⟨cs, same⟩ := proper.escaped a mem
  exact ⟨proper.names a mem, same ▸ escapes.quote_not_mem cs⟩

theorem escaped_empty (escapes : Escapes f) (isName : IsName name)
    (proper : Attrs.Escaped f attrs) : (Element.mk name attrs .nil).Escaped f := by
  refine ⟨⟨isName, proper.regular escapes, proper.distinct, trivial⟩, ?_⟩
  intro raw mem
  rw [values_element, Content.values, List.append_nil] at mem
  obtain ⟨a, there, rfl⟩ := List.mem_map.mp mem
  exact proper.escaped a there

theorem escaped_block (escapes : Escapes f) (isName : IsName name)
    (proper : Attrs.Escaped f attrs) {es : List Element} (each : ∀ e ∈ es, e.Escaped f)
    (indent : Nat) : (Element.mk name attrs (.block indent es)).Escaped f := by
  refine ⟨⟨isName, proper.regular escapes, proper.distinct,
    regular_block indent fun e mem => (each e mem).regular⟩, ?_⟩
  intro raw mem
  rw [values_element, values_block] at mem
  rcases List.mem_append.mp mem with here | inside
  · obtain ⟨a, there, rfl⟩ := List.mem_map.mp here
    exact proper.escaped a there
  · obtain ⟨e, mem, inside⟩ := List.mem_flatMap.mp inside
    exact (each e mem).escaped raw inside

/-- A reader gets the elements of a document with legal texts. -/
theorem parse_escaped (escapes : Escapes f) (proper : root.Escaped f)
    (legal : ∀ raw ∈ root.values, Legal raw) :
    parse (document root) = some (root.mapValues fun raw => valueOf (lineEnds raw)) := by
  refine parse_document proper.regular legal ?_
  intro raw mem
  obtain ⟨cs, rfl⟩ := proper.escaped raw mem
  rw [escapes.reads]
  rfl

/-- Such a document is well-formed exactly when its texts are legal. -/
theorem parse_escaped_iff (escapes : Escapes f) (proper : root.Escaped f) {e : Element} :
    parse (document root) = some e ↔ (∀ raw ∈ root.values, Legal raw) ∧
      (root.mapValues fun raw => valueOf (lineEnds raw)) = e := by
  constructor
  · intro parsed
    have legal := legal_of_parse proper.regular parsed
    rw [parse_escaped escapes proper legal] at parsed
    exact ⟨legal, Option.some.inj parsed⟩
  · rintro ⟨legal, rfl⟩
    exact parse_escaped escapes proper legal

end

end Xml
