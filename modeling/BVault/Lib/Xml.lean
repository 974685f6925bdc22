import BVault.Lib.Hex

/-!
# XML 1.0

A reader of documents without a document type declaration, production by
production: what it accepts is well-formed, and what it returns is what an
application gets of the elements, their attributes and the character data.
Comments and processing instructions are checked and dropped.
-/

namespace Xml

def inRanges (ranges : List (Nat × Nat)) (c : Char) : Bool :=
  ranges.any fun r => r.1 ≤ c.toNat && c.toNat ≤ r.2

def isSpace (c : Char) : Bool := c = ' ' || c = '\t' || c = '\n' || c = '\r'

/-- The characters a document may have. -/
def isChar (c : Char) : Bool :=
  c = '\t' || c = '\n' || c = '\r' ||
    inRanges [(0x20, 0xD7FF), (0xE000, 0xFFFD), (0x10000, 0x10FFFF)] c

def isNameStart (c : Char) : Bool :=
  c = ':' || c = '_' || c.isAlpha ||
    inRanges [(0xC0, 0xD6), (0xD8, 0xF6), (0xF8, 0x2FF), (0x370, 0x37D), (0x37F, 0x1FFF),
      (0x200C, 0x200D), (0x2070, 0x218F), (0x2C00, 0x2FEF), (0x3001, 0xD7FF), (0xF900, 0xFDCF),
      (0xFDF0, 0xFFFD), (0x10000, 0xEFFFF)] c

def isNameChar (c : Char) : Bool :=
  isNameStart c || c = '-' || c = '.' || c.isDigit ||
    inRanges [(0xB7, 0xB7), (0x300, 0x36F), (0x203F, 0x2040)] c

/-- Line ends as a reader passes them on. -/
def lineEnds : List Char → List Char
  | [] => []
  | '\r' :: '\n' :: cs => '\n' :: lineEnds cs
  | '\r' :: cs => '\n' :: lineEnds cs
  | c :: cs => c :: lineEnds cs

/-- What stands behind a mark. -/
def behind (mark : String) (cs : List Char) : Option (List Char) :=
  if mark.toList.isPrefixOf cs then some (cs.drop mark.toList.length) else none

def skipSpace (cs : List Char) : List Char := cs.dropWhile isSpace

def readName : List Char → Option (String × List Char)
  | [] => none
  | c :: cs =>
    if isNameStart c then
      some (String.ofList (c :: cs.takeWhile isNameChar), cs.dropWhile isNameChar)
    else none

def pushDecimal (n : Nat) (c : Char) : Option Nat :=
  if c.isDigit ∧ n < 0x110000 then some (n * 10 + (c.toNat - 48)) else none

/-- The character of a code point, if a document may have it. -/
def charOf (n : Nat) : Option Char :=
  let c := Char.ofNat n
  if isChar c then some c else none

/-- What the text between `&` and `;` refers to. -/
def reference : List Char → Option Char
  | '#' :: 'x' :: digits => (Hex.value 0x110000 digits).bind charOf
  | '#' :: digits => (digits.foldlM pushDecimal 0).bind charOf
  | ['a', 'm', 'p'] => some '&'
  | ['l', 't'] => some '<'
  | ['g', 't'] => some '>'
  | ['q', 'u', 'o', 't'] => some '"'
  | ['a', 'p', 'o', 's'] => some '\''
  | _ => none

/-- A reference and what follows it, behind its `&`. -/
def readReference (cs : List Char) : Option (Char × List Char) :=
  match cs.dropWhile (· ≠ ';') with
  | _ :: rest => (reference (cs.takeWhile (· ≠ ';'))).map fun c => (c, rest)
  | [] => none

/-- White space in a value counts as a space. -/
def spaced (c : Char) : Char := if isSpace c then ' ' else c

/-- The value of what stands between the quotes: references resolved, white space normalised.
The first argument is the front of a reference that has begun. -/
def valueFrom : Option (List Char) → List Char → Option (List Char)
  | none, [] => some []
  | some _, [] => none
  | none, c :: cs =>
    if c = '&' then valueFrom (some []) cs
    else if c = '<' then none
    else (valueFrom none cs).map (spaced c :: ·)
  | some name, c :: cs =>
    if c = ';' then (reference name).bind fun d => (valueFrom none cs).map (d :: ·)
    else valueFrom (some (name ++ [c])) cs

def attValue (raw : List Char) : Option (List Char) := valueFrom none raw

/-- A quoted text and what follows it. -/
def readQuoted : List Char → Option (List Char × List Char)
  | [] => none
  | quote :: cs =>
    if quote = '"' ∨ quote = '\'' then
      match cs.dropWhile (· ≠ quote) with
      | _ :: rest => some (cs.takeWhile (· ≠ quote), rest)
      | [] => none
    else none

def readEq (cs : List Char) : Option (List Char) := (behind "=" (skipSpace cs)).map skipSpace

abbrev Attrs := List (String × List Char)

/-- The attributes of a tag up to its end, and whether it ends an empty element. Each begins with
white space, and no name comes twice. -/
def readAttrs : Nat → List Char → Option (Attrs × Bool × List Char)
  | 0, _ => none
  | fuel + 1, cs =>
    match behind ">" (skipSpace cs), behind "/>" (skipSpace cs) with
    | some rest, _ => some ([], false, rest)
    | none, some rest => some ([], true, rest)
    | none, none =>
      if skipSpace cs = cs then none
      else do
        let (name, cs) ← readName (skipSpace cs)
        let cs ← readEq cs
        let (raw, cs) ← readQuoted cs
        let value ← attValue raw
        let (attrs, closed, rest) ← readAttrs fuel cs
        if name ∈ attrs.map Prod.fst then none else some ((name, value) :: attrs, closed, rest)

/-- Behind `<!--`: no two hyphens come before the end. -/
def skipComment : List Char → Option (List Char)
  | '-' :: '-' :: '>' :: cs => some cs
  | '-' :: '-' :: _ => none
  | _ :: cs => skipComment cs
  | [] => none

def skipInstruction : List Char → Option (List Char)
  | '?' :: '>' :: cs => some cs
  | _ :: cs => skipInstruction cs
  | [] => none

/-- Behind `<?`: a target other than `xml`, and white space before anything else. -/
def skipPI (cs : List Char) : Option (List Char) := do
  let (target, cs) ← readName cs
  if target.toLower = "xml" then none
  else if skipSpace cs = cs then behind "?>" cs
  else skipInstruction cs

/-- Behind `<![CDATA[`. -/
def readCData : List Char → Option (List Char × List Char)
  | ']' :: ']' :: '>' :: cs => some ([], cs)
  | c :: cs => (readCData cs).map fun (text, rest) => (c :: text, rest)
  | [] => none

/-- Elements and characters in their order. -/
inductive Content where
  | nil
  | char (c : Char) (more : Content)
  | element (name : String) (attrs : Attrs) (inside more : Content)
  deriving DecidableEq

structure Element where
  name : String
  attrs : Attrs
  inside : Content
  deriving DecidableEq

namespace Content

/-- Characters in front. -/
def text (cs : List Char) (more : Content) : Content := cs.foldr Content.char more

/-- The elements of a name, not those inside others. -/
def named (name : String) : Content → List Element
  | nil => []
  | char _ more => more.named name
  | element n attrs inside more =>
    if n = name then ⟨n, attrs, inside⟩ :: more.named name else more.named name

end Content

def Element.attr (e : Element) (name : String) : Option (List Char) := e.attrs.lookup name

/-- Behind `<`: the name, the attributes and whether the element is empty. -/
def readTag (cs : List Char) : Option (String × Attrs × Bool × List Char) := do
  let (name, cs) ← readName cs
  let (attrs, closed, rest) ← readAttrs (cs.length + 1) cs
  some (name, attrs, closed, rest)

/-- The end tag of an element. -/
def readStop (name : String) (cs : List Char) : Option (List Char) := do
  let cs ← behind "</" cs
  let (stopped, cs) ← readName cs
  if stopped = name then behind ">" (skipSpace cs) else none

/-- An element behind its `<`, with a reader of content. -/
def readElement (content : List Char → Option (Content × List Char)) (cs : List Char) :
    Option (Element × List Char) := do
  let (name, attrs, closed, cs) ← readTag cs
  if closed then some (⟨name, attrs, .nil⟩, cs)
  else do
    let (inside, cs) ← content cs
    let cs ← readStop name cs
    some (⟨name, attrs, inside⟩, cs)

/-- Content up to an end tag or the end. -/
def readContent : Nat → List Char → Option (Content × List Char)
  | 0, _ => none
  | _ + 1, [] => some (.nil, [])
  | fuel + 1, '<' :: cs =>
    match cs with
    | '/' :: _ => some (.nil, '<' :: cs)
    | '!' :: cs =>
      match behind "--" cs, behind "[CDATA[" cs with
      | some cs, _ => (skipComment cs).bind (readContent fuel)
      | none, some cs => do
        let (chars, cs) ← readCData cs
        let (more, rest) ← readContent fuel cs
        some (.text chars more, rest)
      | none, none => none
    | '?' :: cs => (skipPI cs).bind (readContent fuel)
    | cs => do
      let (e, cs) ← readElement (readContent fuel) cs
      let (more, rest) ← readContent fuel cs
      some (.element e.name e.attrs e.inside more, rest)
  | fuel + 1, '&' :: cs => do
    let (c, cs) ← readReference cs
    let (more, rest) ← readContent fuel cs
    some (.char c more, rest)
  | fuel + 1, c :: cs =>
    if (behind "]]>" (c :: cs)).isSome then none
    else do
      let (more, rest) ← readContent fuel cs
      some (.char c more, rest)

/-- Comments, processing instructions and white space around the root element. -/
def skipMisc : Nat → List Char → Option (List Char)
  | 0, cs => some cs
  | fuel + 1, cs =>
    match behind "<!--" cs, behind "<?" cs with
    | some cs, _ => (skipComment cs).bind (skipMisc fuel)
    | none, some cs => (skipPI cs).bind (skipMisc fuel)
    | none, none =>
      match cs with
      | [] => some []
      | c :: cs => if isSpace c then skipMisc fuel cs else some (c :: cs)

/-- An item of the XML declaration, if it is there. -/
def declared (name : String) (allowed : List Char → Bool) (cs : List Char) : Option (List Char) := do
  let cs' ← behind name (skipSpace cs)
  let cs' ← readEq cs'
  let (raw, rest) ← readQuoted cs'
  if skipSpace cs ≠ cs ∧ allowed raw then some rest else none

def isVersion (raw : List Char) : Bool :=
  match raw with
  | '1' :: '.' :: digits => !digits.isEmpty && digits.all Char.isDigit
  | _ => false

def isEncoding (raw : List Char) : Bool :=
  match raw with
  | c :: cs => c.isAlpha && cs.all fun c => c.isAlphanum || c = '.' || c = '_' || c = '-'
  | [] => false

def isStandalone (raw : List Char) : Bool := raw = "yes".toList || raw = "no".toList

/-- What follows the XML declaration, if there is one. -/
def skipDecl (cs : List Char) : Option (List Char) :=
  match behind "<?xml" cs with
  | some rest =>
    if skipSpace rest = rest then some cs
    else do
      let rest ← declared "version" isVersion rest
      let rest := (declared "encoding" isEncoding rest).getD rest
      let rest := (declared "standalone" isStandalone rest).getD rest
      behind "?>" (skipSpace rest)
  | none => some cs

/-- The root element of a well-formed document. -/
def parse (document : String) : Option Element :=
  if document.toList.all isChar then do
    let cs ← skipDecl (lineEnds document.toList)
    let cs ← skipMisc cs.length cs
    let cs ← behind "<" cs
    let (root, cs) ← readElement (readContent cs.length) cs
    let cs ← skipMisc cs.length cs
    if cs = [] then some root else none
  else none

end Xml
