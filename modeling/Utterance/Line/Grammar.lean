import Utterance.Collection
import Utterance.Line.Keyword

/-!
# The grammar of lines

A cleaned line is a declaration with a keyword, the definition of a
variable, or else a sentence. A parsed line keeps the spaces between its
parts, so that it gives back the text it was read from (`text_of_parse`).
A line with a keyword can fail to have its keyword's form; the failure
names what could have stood at the furthest place reached. A line without
a keyword is refused only when it is empty.
-/

namespace Utterance

/-- The rules of the grammar. -/
inductive Rule where
  /-- The end of the line. -/
  | endOfLine
  /-- Any text that is not empty. -/
  | text
  /-- An identifier. -/
  | identifier
  /-- The name of a type. -/
  | typeName
  /-- A language code. -/
  | languageCode
  /-- The name of a variable. -/
  | variableName
  /-- A declaration of the invocation name. -/
  | invocation
  /-- A declaration of the language. -/
  | language
  /-- The opening of an intent. -/
  | intent
  /-- The opening of an entity. -/
  | entity
  /-- A declaration of a slot. -/
  | slot
  /-- The type of a slot. -/
  | slotType
  /-- The example of a slot. -/
  | slotExample
  /-- The definition of a variable. -/
  | variableDefinition
  /-- The text that a variable stands for. -/
  | definition
  /-- A sentence. -/
  | sentence
  /-- A whole line. -/
  | line
  deriving Repr, DecidableEq

namespace Rule

/-- The name of a rule in messages and parse trees. -/
def name : Rule → String
  | endOfLine => "EOI"
  | text => "text"
  | identifier => "identifier"
  | typeName => "type_name"
  | languageCode => "lang_code"
  | variableName => "variable_name"
  | invocation => "invocation_decl"
  | language => "lang_decl"
  | intent => "intent_decl"
  | entity => "entity_decl"
  | slot => "slot_decl"
  | slotType => "slot_type"
  | slotExample => "slot_example"
  | variableDefinition => "variable_decl"
  | definition => "definition"
  | sentence => "sentence"
  | line => "line"

/-- A list of rules in words: `a`, `a or b`, `a, b, or c`. -/
def alternatives : List Rule → String
  | [] => ""
  | [a] => a.name
  | [a, b] => s!"{a.name} or {b.name}"
  | rules =>
    let names := rules.map name
    String.intercalate ", " names.dropLast ++ ", or " ++ names.getLastD ""

end Rule

/-- The rules of which one had to hold at the furthest place reached. -/
structure Expected where
  /-- The rules, the end of the line first. -/
  rules : List Rule
  deriving Repr, DecidableEq

namespace Expected

/-- The text of a failure. -/
def message (e : Expected) : String :=
  s!"parsing error: expected {Rule.alternatives e.rules}"

end Expected

/-- A part of a declaration with the spaces before it. -/
structure Spaced where
  /-- The spaces. -/
  gap : Text
  /-- The part. -/
  text : Text
  deriving Repr, DecidableEq

/-- The text of a part with the spaces before it. -/
def Spaced.full (s : Spaced) : Text :=
  s.gap ++ s.text

/-- A line, with its keyword as it is written and its spaces. -/
inductive Line where
  /-- The invocation name. -/
  | invocation (keyword : Text) (name : Spaced)
  /-- The language. -/
  | language (keyword : Text) (code : Spaced)
  /-- The opening of an intent or entity. -/
  | opening (kind : Kind) (keyword : Text) (name : Spaced)
  /-- A slot: its name, spaces, its type after a colon, spaces, its example
  after a tilde. -/
  | slot (keyword : Text) (name : Spaced) (beforeType : Text) (type : Option Spaced)
      (beforeExample : Text) («example» : Option Spaced)
  /-- A variable: its name, spaces, its definition after an equals sign. -/
  | definition (name beforeSign : Text) (text : Spaced)
  /-- A sentence. -/
  | sentence (text : Text)
  deriving Repr, DecidableEq

namespace Line

/-- The characters in the name of a type. -/
def isTypeChar (c : Char) : Bool :=
  c.isAlphanum || c == '_' || c == '-' || c == '.'

/-- The spaces at the head of a text, and the rest. -/
def spaces (s : Text) : Text × Text :=
  (s.takeWhile (· == ' '), s.dropWhile (· == ' '))

/-- The later parts of a language code, each a hyphen and letters or
digits, and the rest. -/
def languageParts (s : Text) : Text × Text :=
  match s with
  | '-' :: r =>
    match _h : r.takeWhile Char.isAlphanum with
    | [] => ([], '-' :: r)
    | part =>
      let (more, rest) := languageParts (r.dropWhile Char.isAlphanum)
      ('-' :: part ++ more, rest)
  | s => ([], s)
termination_by s.length
decreasing_by
  have := (List.dropWhile_sublist Char.isAlphanum (l := r)).length_le
  simp only [List.length_cons]
  omega

/-- The longest language code at the head of a text, and the rest. -/
def languageCode? (s : Text) : Option (Text × Text) :=
  match s.takeWhile Char.isAlpha with
  | [] => none
  | letters =>
    let (more, rest) := languageParts (s.dropWhile Char.isAlpha)
    some (letters ++ more, rest)

/-- A slot's example after a tilde, at the end of the line. -/
def parseExample (keyword : Text) (name : Spaced) (beforeType : Text) (type : Option Spaced)
    (beforeExample : Text) (otherwise : Expected) : Text → Except Expected Line
  | [] => .ok (.slot keyword name beforeType type beforeExample none)
  | '~' :: r =>
    match spaces r with
    | (_, []) => .error ⟨[.text]⟩
    | (gap, text) => .ok (.slot keyword name beforeType type beforeExample (some ⟨gap, text⟩))
  | _ => .error otherwise

/-- The rest of a slot's declaration after its name and spaces. -/
def parseSlot (keyword : Text) (name : Spaced) (beforeType : Text) :
    Text → Except Expected Line
  | ':' :: r =>
    let (gap, r) := spaces r
    match r.takeWhile isTypeChar with
    | [] => .error ⟨[.typeName]⟩
    | type =>
      let (beforeExample, rest) := spaces (r.dropWhile isTypeChar)
      parseExample keyword name beforeType (some ⟨gap, type⟩) beforeExample
        ⟨[.endOfLine, .slotExample]⟩ rest
  | rest =>
    parseExample keyword name beforeType none [] ⟨[.endOfLine, .slotType, .slotExample]⟩ rest

/-- A declaration, given what follows its keyword. -/
def parseDeclaration (keyword : Text) (k : Keyword) (rest : Text) : Except Expected Line :=
  let (gap, r) := spaces rest
  match k with
  | .invocation =>
    if r.isEmpty then .error ⟨[.text]⟩ else .ok (.invocation keyword ⟨gap, r⟩)
  | .language =>
    match languageCode? r with
    | none => .error ⟨[.languageCode]⟩
    | some (code, []) => .ok (.language keyword ⟨gap, code⟩)
    | some _ => .error ⟨[.endOfLine]⟩
  | .intent => parseOpening .intent gap r
  | .entity => parseOpening .entity gap r
  | .slot =>
    match identifier? r with
    | none => .error ⟨[.identifier]⟩
    | some (name, r) =>
      let (beforeType, rest) := spaces r
      parseSlot keyword ⟨gap, name⟩ beforeType rest
where
  /-- The name of a collection, at the end of the line. -/
  parseOpening (kind : Kind) (gap r : Text) : Except Expected Line :=
    match identifier? r with
    | none => .error ⟨[.identifier]⟩
    | some (name, []) => .ok (.opening kind keyword ⟨gap, name⟩)
    | some _ => .error ⟨[.endOfLine]⟩

/-- The definition of a variable, if the line is one. -/
def definition? (line : Text) : Option Line :=
  match line.takeWhile isIdentChar with
  | [] => none
  | name =>
    match spaces (line.dropWhile isIdentChar) with
    | (beforeSign, '=' :: r) =>
      let (gap, text) := spaces r
      some (.definition name beforeSign ⟨gap, text⟩)
    | _ => none

/-- **Read a cleaned line.** -/
def parse (line : Text) : Except Expected Line :=
  match Keyword.leading? line with
  | some k => parseDeclaration (line.take k.word.length) k (line.drop k.word.length)
  | none =>
    -- what is no definition is a sentence
    match definition? line with
    | some l => .ok l
    | none => if line.isEmpty then .error ⟨[.line]⟩ else .ok (.sentence line)

/-- The text of a line. -/
def text : Line → Text
  | invocation keyword name => keyword ++ name.full
  | language keyword code => keyword ++ code.full
  | opening _ keyword name => keyword ++ name.full
  | slot keyword name beforeType type beforeExample «example» =>
    keyword ++ name.full ++ beforeType ++ (type.map fun t => ':' :: t.full).getD [] ++
      beforeExample ++ (example.map fun e => '~' :: e.full).getD []
  | definition name beforeSign text => name ++ beforeSign ++ '=' :: text.full
  | sentence text => text

/-! ## A parsed line gives back its text -/

theorem spaces_append (s : Text) : (spaces s).1 ++ (spaces s).2 = s :=
  List.takeWhile_append_dropWhile

private theorem eq_of_spaces {s gap r : Text} (h : spaces s = (gap, r)) : s = gap ++ r := by
  rw [← spaces_append s, h]

private theorem eq_of_takeWhile (p : Char → Bool) (s : Text) :
    s = s.takeWhile p ++ s.dropWhile p :=
  List.takeWhile_append_dropWhile.symm

theorem languageParts_append (s : Text) : (languageParts s).1 ++ (languageParts s).2 = s := by
  fun_induction languageParts s with
  | case1 => rfl
  | case2 r more rest hr _ ih =>
    rw [hr] at ih
    simp only [List.cons_append, List.append_assoc] at ih ⊢
    rw [ih, ← eq_of_takeWhile]
  | case3 => rfl

/-- A language code and the rest make up the text. -/
theorem eq_of_languageCode? {s code rest : Text} (h : languageCode? s = some (code, rest)) :
    s = code ++ rest := by
  unfold languageCode? at h
  split at h
  · simp at h
  · obtain ⟨rfl, rfl⟩ := Prod.mk.inj (Option.some.inj h)
    rw [List.append_assoc, languageParts_append]
    exact eq_of_takeWhile Char.isAlpha s

private theorem text_of_parseExample {keyword r : Text} {name : Spaced} {beforeType : Text}
    {type : Option Spaced} {beforeExample : Text} {otherwise : Expected} {l : Line}
    (h : parseExample keyword name beforeType type beforeExample otherwise r = .ok l) :
    l.text = keyword ++ name.full ++ beforeType ++ (type.map fun t => ':' :: t.full).getD [] ++
      beforeExample ++ r := by
  unfold parseExample at h
  split at h
  · cases h
    simp [text]
  · split at h
    · cases h
    · rename_i hs
      cases h
      simp [text, Spaced.full, eq_of_spaces hs]
  · cases h

private theorem text_of_parseSlot {keyword r : Text} {name : Spaced} {beforeType : Text} {l : Line}
    (h : parseSlot keyword name beforeType r = .ok l) :
    l.text = keyword ++ name.full ++ beforeType ++ r := by
  unfold parseSlot at h
  split at h
  · rename_i r
    split at h
    rename_i gap r' hs
    split at h
    · cases h
    · split at h
      rename_i hb
      have hr := eq_of_takeWhile isTypeChar r'
      rw [eq_of_spaces hb] at hr
      rw [text_of_parseExample h, eq_of_spaces hs]
      simpa [Spaced.full] using hr.symm
  · rw [text_of_parseExample h]
    simp

private theorem text_of_parseDeclaration {keyword rest : Text} {k : Keyword} {l : Line}
    (h : parseDeclaration keyword k rest = .ok l) : l.text = keyword ++ rest := by
  unfold parseDeclaration at h
  split at h
  rename_i gap r hs
  rw [eq_of_spaces hs]
  have opening : ∀ kind, parseDeclaration.parseOpening keyword kind gap r = .ok l →
      l.text = keyword ++ (gap ++ r) := by
    intro kind h
    unfold parseDeclaration.parseOpening at h
    split at h
    · cases h
    · rename_i hid
      cases h
      simp [text, Spaced.full, (identifier?_eq_some.1 hid).1]
    · cases h
  split at h
  · split at h
    · cases h
    · cases h
      simp [text, Spaced.full]
  · split at h
    · cases h
    · rename_i hc
      cases h
      simp [text, Spaced.full, eq_of_languageCode? hc]
    · cases h
  · exact opening _ h
  · exact opening _ h
  · split at h
    · cases h
    · rename_i hid
      split at h
      rename_i hb
      rw [text_of_parseSlot h, (identifier?_eq_some.1 hid).1, eq_of_spaces hb]
      simp [Spaced.full]

private theorem text_of_definition? {line : Text} {l : Line} (h : definition? line = some l) :
    l.text = line := by
  unfold definition? at h
  split at h
  · cases h
  · split at h
    · rename_i beforeSign r hs
      split at h
      rename_i gap text hd
      cases h
      have hl := eq_of_takeWhile isIdentChar line
      rw [eq_of_spaces hs, eq_of_spaces hd] at hl
      simpa [Line.text, Spaced.full] using hl.symm
    · cases h

/-- **A parsed line gives back its text.** -/
theorem text_of_parse {line : Text} {l : Line} (h : parse line = .ok l) : l.text = line := by
  unfold parse at h
  split at h
  · rw [text_of_parseDeclaration h, List.take_append_drop]
  · split at h
    · rename_i hd
      cases h
      exact text_of_definition? hd
    · split at h
      · cases h
      · cases h
        rfl

end Line

end Utterance
