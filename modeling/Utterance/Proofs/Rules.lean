import Utterance.Proofs.Expressions
import Utterance.Proofs.Readings

/-!
# Rules — the grammar behind the parser

The lines are described by rules, of which none gives back what it has read. So
the rules of the lines (`Grammar.line`) could say less than their alternatives
one by one: one that is left half-way is not tried again, and one that reads the
beginning of a line hides those behind it. `Grammar.read_line` shows that none
does. The rules read a line exactly when it parses, and then with its parse tree.
The word of a keyword is told by the bytes at the head of the line, which no
character of several bytes can be taken for (`Keyword.any_bytePrefix?`).
-/

namespace Utterance

/-! ## The rules -/

/-- The rule of a keyword's declaration. -/
def Keyword.rule : Keyword → Rule
  | .invocation => .invocation
  | .language => .language
  | .intent => .intent
  | .entity => .entity
  | .slot => .slot

namespace Grammar

open Expression

/-- Spaces, or none. -/
def spaces : Expression :=
  many (one (· == ' '))

/-- A sign. -/
def sign (c : Char) : Expression :=
  one (· == c)

/-- Any text that is not empty. -/
def text : Expression :=
  part .text (oneOrMore fun _ => true)

/-- An identifier. -/
def identifier : Expression :=
  part .identifier (one isIdentStart ++ many (one isIdentChar))

/-- The name of a type. -/
def typeName : Expression :=
  part .typeName (oneOrMore Line.isTypeChar)

/-- A later part of a language code. -/
def languagePart : Expression :=
  sign '-' ++ oneOrMore Char.isAlphanum

/-- A language code. -/
def languageCode : Expression :=
  part .languageCode (oneOrMore Char.isAlpha ++ many languagePart)

/-- The name of a variable. -/
def variableName : Expression :=
  part .variableName (oneOrMore isIdentChar)

/-- The type of a slot. -/
def slotType : Expression :=
  part .slotType (sign ':' ++ spaces ++ typeName)

/-- The example of a slot. -/
def slotExample : Expression :=
  part .slotExample (sign '~' ++ spaces ++ text)

/-- What a keyword declares. -/
def declared : Keyword → Expression
  | .invocation => text
  | .language => languageCode
  | .intent => identifier
  | .entity => identifier
  | .slot => identifier ++ spaces ++ optional slotType ++ spaces ++ optional slotExample

/-- The declaration of a keyword. -/
def declaration (k : Keyword) : Expression :=
  part k.rule (word k.word ++ spaces ++ declared k)

/-- The text that a variable stands for. -/
def definition : Expression :=
  part .definition (many (one fun _ => true))

/-- The definition of a variable. -/
def variableDefinition : Expression :=
  part .variableDefinition (variableName ++ spaces ++ sign '=' ++ spaces ++ definition)

/-- Any keyword. -/
def keyword : Expression :=
  word Keyword.invocation.word <|> word Keyword.language.word <|> word Keyword.intent.word <|>
    word Keyword.entity.word <|> word Keyword.slot.word

/-- A sentence. -/
def sentence : Expression :=
  part .sentence (absent keyword ++ oneOrMore fun _ => true)

/-- **A line**: one of the alternatives, and then its end. -/
def line : Expression :=
  part .line
    ((declaration .invocation <|> declaration .language <|> declaration .intent <|>
        declaration .entity <|> declaration .slot <|> variableDefinition <|> sentence) ++
      part .endOfLine atEnd)

/-! ## What the parts read -/

theorem read_spaces (start : Nat) (s : Text) :
    spaces.read start s = some ⟨(Line.spaces s).1, [], (Line.spaces s).2⟩ :=
  congrArg some (readMany_one ..)

theorem read_sign_cons (c : Char) (start : Nat) (s : Text) :
    (sign c).read start (c :: s) = some ⟨[c], [], s⟩ := by
  simp [sign, Expression.read]

theorem read_sign_of_ne {c : Char} {s : Text} (h : s.head? ≠ some c) (start : Nat) :
    (sign c).read start s = none := by
  cases s with
  | nil => rfl
  | cons d s =>
    have hne : d ≠ c := by simpa using h
    simp [sign, Expression.read, hne]

/-- Any text is read to its end. -/
theorem read_text (start : Nat) (s : Text) :
    text.read start s = if s = [] then none else some ⟨s, [Line.leaf .text start s], []⟩ := by
  rw [text, Expression.read, read_oneOrMore_true]
  split <;> rfl

/-- An identifier is read as far as it goes. -/
theorem read_identifier (start : Nat) (s : Text) :
    identifier.read start s = (identifier? s).map fun (name, rest) =>
      ⟨name, [Line.leaf .identifier start name], rest⟩ := by
  rw [identifier, Expression.read, read_seq]
  cases s with
  | nil => rfl
  | cons c s =>
    cases hc : isIdentStart c with
    | true => simp [identifier?, hc, Expression.read, readMany_one, Taken.append, Line.leaf]
    | false => simp [identifier?, hc, Expression.read]

/-- The name of a type is read as far as it goes. -/
theorem read_typeName (start : Nat) (s : Text) :
    typeName.read start s =
      if s.takeWhile Line.isTypeChar = [] then none
      else some ⟨s.takeWhile Line.isTypeChar,
        [Line.leaf .typeName start (s.takeWhile Line.isTypeChar)],
        s.dropWhile Line.isTypeChar⟩ := by
  rw [typeName, Expression.read, read_oneOrMore]
  split <;> rfl

/-- The name of a variable is read as far as it goes. -/
theorem read_variableName (start : Nat) (s : Text) :
    variableName.read start s =
      if s.takeWhile isIdentChar = [] then none
      else some ⟨s.takeWhile isIdentChar,
        [Line.leaf .variableName start (s.takeWhile isIdentChar)], s.dropWhile isIdentChar⟩ := by
  rw [variableName, Expression.read, read_oneOrMore]
  split <;> rfl

/-- The later parts of a language code are read as far as they go: a hyphen
without letters and digits behind it is left where it is. -/
theorem readMany_languagePart (start : Nat) (s : Text) :
    readMany languagePart.read start s =
      ⟨(Line.languageParts s).1, [], (Line.languageParts s).2⟩ := by
  fun_induction Line.languageParts s generalizing start with
  | case1 r h =>
    refine readMany_of_none ?_
    rw [languagePart, read_seq, read_sign_cons, Option.bind_some, read_oneOrMore, if_pos h]
    rfl
  | case2 r more rest hr hne ih =>
    have hpart : languagePart.read start ('-' :: r) =
        some ⟨'-' :: r.takeWhile Char.isAlphanum, [], r.dropWhile Char.isAlphanum⟩ := by
      rw [languagePart, read_seq, read_sign_cons, Option.bind_some, read_oneOrMore, if_neg hne]
      rfl
    have hshorter : (r.dropWhile Char.isAlphanum).length < ('-' :: r).length :=
      Nat.lt_succ_of_le (List.dropWhile_sublist _).length_le
    rw [readMany_of_some hpart hshorter, ih, hr]
    rfl
  | case3 s h =>
    refine readMany_of_none ?_
    have hhead : s.head? ≠ some '-' := by
      intro hhead
      obtain ⟨r, rfl⟩ := List.head?_eq_some_iff.1 hhead
      exact h r rfl
    rw [languagePart, read_seq, read_sign_of_ne hhead]
    rfl

/-- A language code is read as far as it goes. -/
theorem read_languageCode (start : Nat) (s : Text) :
    languageCode.read start s = (Line.languageCode? s).map fun (code, rest) =>
      ⟨code, [Line.leaf .languageCode start code], rest⟩ := by
  rw [languageCode, Expression.read, read_seq, read_oneOrMore, Line.languageCode?]
  cases s.takeWhile Char.isAlpha with
  | nil => rfl
  | cons c letters => simp [Expression.read, readMany_languagePart, Taken.append, Line.leaf]

/-- The sign that a part begins with is followed by spaces and what stands
behind them. -/
theorem read_signed {c : Char} {rule : Rule} {e : Expression} (start : Nat) (s : Text) :
    (part rule (sign c ++ spaces ++ e)).read start (c :: s) =
      (e.read (start + c.utf8Size + (Line.spaces s).1.byteSize) (Line.spaces s).2).map fun x =>
        ⟨c :: ((Line.spaces s).1 ++ x.text),
          [.node rule start (c :: ((Line.spaces s).1 ++ x.text)) x.parts], x.rest⟩ := by
  simp only [Expression.read, read_seq, read_sign_cons, read_spaces, Option.bind_some,
    Option.map_some, Option.map_map]
  simp [Taken.append, Function.comp_def, Nat.add_assoc]

theorem read_signed_of_ne {c : Char} {rule : Rule} {e : Expression} {s : Text}
    (h : s.head? ≠ some c) (start : Nat) :
    (part rule (sign c ++ spaces ++ e)).read start s = none := by
  simp only [Expression.read, read_seq, read_sign_of_ne h, Option.bind_none, Option.map_none]

end Grammar

/-! ## Keywords -/

namespace Keyword

theorem utf8Size_of_lt {c : Char} (h : c.toNat < 0x80) : c.utf8Size = 1 :=
  Char.utf8Size_eq_one_iff.2 (UInt32.le_iff_toNat_le.2 (Nat.le_of_lt_succ h))

/-- A character with the upper case of an ASCII character takes one byte. -/
theorem utf8Size_of_toUpper {c : Char} (h : c.toUpper.toNat < 0x80) : c.utf8Size = 1 := by
  refine utf8Size_of_lt ?_
  unfold Char.toUpper at h
  split at h
  · rename_i hlower
    have hrange : 97 ≤ c.val.toNat ∧ c.val.toNat ≤ 122 := hlower
    exact Nat.lt_of_le_of_lt hrange.2 (by decide)
  · exact h

/-- What is a keyword in upper case takes as many bytes as the keyword. -/
theorem byteSize_of_map_toUpper {cut : Text} {k : Keyword} (h : cut.map Char.toUpper = k.word) :
    cut.byteSize = k.word.byteSize := by
  have hlength {s : Text} (hs : ∀ c ∈ s, c.utf8Size = 1) : s.byteSize = s.length := by
    induction s with
    | nil => rfl
    | cons c s ih =>
      rw [Text.byteSize_cons, hs c (by simp), ih fun d hd => hs d (by simp [hd]), List.length_cons,
        Nat.add_comm]
  have hascii : k.word.all (fun c => c.toNat < 0x80) = true := by
    cases k <;> decide
  have hword : ∀ c ∈ k.word, c.toNat < 0x80 := by simpa using hascii
  have hcut : ∀ c ∈ cut, c.utf8Size = 1 := fun c hc =>
    utf8Size_of_toUpper (hword c.toUpper (h ▸ List.mem_map_of_mem hc))
  rw [hlength hcut, hlength fun c hc => utf8Size_of_lt (hword c hc), ← h, List.length_map]

/-- The bytes at the head of a line are its first characters where these are a
keyword in upper case. -/
theorem bytePrefix?_of_opens {line : Text} {k : Keyword} (h : opens line k = true) :
    line.bytePrefix? k.word.byteSize = some (line.take k.word.length) := by
  have hcut : (line.take k.word.length).map Char.toUpper = k.word := beq_iff_eq.1 h
  have hsplit := Text.bytePrefix?_append (line.take k.word.length) (line.drop k.word.length)
  rwa [List.take_append_drop, byteSize_of_map_toUpper hcut] at hsplit

theorem opens_of_bytePrefix? {line cut : Text} {k : Keyword} {n : Nat}
    (hcut : line.bytePrefix? n = some cut) (h : cut.map Char.toUpper = k.word) :
    opens line k = true := by
  obtain ⟨rest, rfl⟩ := (Text.bytePrefix?_spec hcut).1
  rw [opens_iff, List.map_append, h]
  exact List.prefix_append ..

/-- **A keyword is told by the bytes** at the head of a line. They are cut off
between two characters, and their letters are compared in upper case. -/
theorem any_bytePrefix? (line : Text) (k : Keyword) :
    (line.bytePrefix? k.word.byteSize).any (fun cut => cut.map Char.toUpper == k.word) =
      opens line k := by
  cases hopens : opens line k with
  | true =>
    rw [bytePrefix?_of_opens hopens]
    exact hopens
  | false =>
    refine (Option.any_eq_false ..).2 fun cut hcut => beq_false_of_ne fun h => ?_
    rw [opens_of_bytePrefix? hcut h] at hopens
    cases hopens

end Keyword

namespace Grammar

open Expression

theorem read_word_of_opens {s : Text} {k : Keyword} (h : k.opens s = true) (start : Nat) :
    (word k.word).read start s =
      some ⟨s.take k.word.length, [], s.drop k.word.length⟩ := by
  have hcut : (s.take k.word.length).map Char.toUpper = k.word := beq_iff_eq.1 h
  have hlength : (s.take k.word.length).length = k.word.length := by
    rw [← List.length_map, hcut]
  rw [Expression.read, Keyword.bytePrefix?_of_opens h, Option.bind_some, if_pos hcut, hlength]

theorem read_word_of_not_opens {s : Text} {k : Keyword} (h : k.opens s = false) (start : Nat) :
    (word k.word).read start s = none := by
  refine Option.bind_eq_none_iff.2 fun cut hcut => if_neg fun hword => ?_
  rw [Keyword.opens_of_bytePrefix? hcut hword] at h
  cases h

end Grammar

namespace Line

/-- The parts of the parse tree of a declaration. -/
def parts : Line → List ParseTree
  | invocation keyword name => [leafAfter .text keyword.byteSize name]
  | language keyword code => [leafAfter .languageCode keyword.byteSize code]
  | opening _ keyword name => [leafAfter .identifier keyword.byteSize name]
  | slot keyword name beforeType type beforeExample «example» =>
    let typeStart := (keyword ++ name.full ++ beforeType).byteSize
    let typeSize := (type.map fun t => Text.byteSize (':' :: t.full)).getD 0
    leafAfter .identifier keyword.byteSize name ::
      (type.map (signed ':' .slotType .typeName typeStart)).toList ++
      (example.map (signed '~' .slotExample .text
        (typeStart + typeSize + beforeExample.byteSize))).toList
  | definition name beforeSign text =>
    [leaf .variableName 0 name, leafAfter .definition ((name ++ beforeSign).byteSize + 1) text]
  | sentence _ => []

theorem branch_eq {l : Line} {k : Keyword} (h : l.keyword? = some k) :
    l.branch = .node k.rule 0 l.text l.parts := by
  cases l with
  | opening kind keyword name =>
    obtain rfl := Option.some.inj h
    cases kind <;> rfl
  | definition => cases h
  | sentence => cases h
  | _ =>
    obtain rfl := Option.some.inj h
    rfl

end Line

namespace Grammar

open Expression Line

/-! ## Declarations -/

theorem parts?_slotExample_of_ne {start : Nat} {s : Text} (h : s.head? ≠ some '~') :
    (optional slotExample).parts? start s = if s = [] then some [] else none := by
  rw [parts?, Expression.read, slotExample, read_signed_of_ne h]
  rfl

/-- The rules find the example of a slot where the parser does. -/
theorem parts?_slotExample (written : Text) (name : Spaced) (beforeType : Text)
    (type : Option Spaced) (beforeExample : Text) (otherwise : Expected) (s : Text) :
    let typeStart := (written ++ name.full ++ beforeType).byteSize
    let typeSize := (type.map fun t => Text.byteSize (':' :: t.full)).getD 0
    ((optional slotExample).parts? (typeStart + typeSize + beforeExample.byteSize) s).map
        ((type.map (signed ':' .slotType .typeName typeStart)).toList ++ ·) =
      (parseExample written name beforeType type beforeExample otherwise s).toOption.map
        fun l => l.parts.tail := by
  intro typeStart typeSize
  unfold parseExample
  split
  · rw [parts?_slotExample_of_ne (by simp)]
    rfl
  · rename_i r
    rw [parts?, Expression.read, slotExample, read_signed, read_text]
    rcases Line.spaces r with ⟨gap, text⟩
    cases text with
    | nil => rfl
    | cons c text =>
      simp [parts, signed, leafAfter, leaf, Spaced.full, Except.toOption, typeStart, typeSize,
        Nat.add_assoc]
  · rename_i hnil htilde
    have hhead : s.head? ≠ some '~' := by
      intro hhead
      obtain ⟨r, rfl⟩ := List.head?_eq_some_iff.1 hhead
      exact htilde r rfl
    rw [parts?_slotExample_of_ne hhead, if_neg hnil]
    rfl

/-- The rules find the type and the example of a slot where the parser does. -/
theorem parts?_slotTail (written : Text) (name : Spaced) (beforeType : Text) {s : Text}
    (h : s.head? ≠ some ' ') :
    (optional slotType ++ (spaces ++ optional slotExample)).parts?
        (written ++ name.full ++ beforeType).byteSize s =
      (parseSlot written name beforeType s).toOption.map fun l => l.parts.tail := by
  have hspaces : Line.spaces s = ([], s) := spaces_eq_iff.2 ⟨rfl, by simp [IsGap], h⟩
  -- without a type the example is looked for where the type could have been
  have huntyped (hnone : ∀ start, slotType.read start s = none) :
      (optional slotType ++ (spaces ++ optional slotExample)).parts?
          (written ++ name.full ++ beforeType).byteSize s =
        (optional slotExample).parts? (written ++ name.full ++ beforeType).byteSize s := by
    rw [parts?_seq, Expression.read, hnone, Option.getD_none, Option.bind_some, parts?_seq,
      read_spaces, hspaces, Option.bind_some, Option.map_map]
    simp [Function.comp_def]
  unfold parseSlot
  split
  · rename_i r
    rcases hgap : Line.spaces r with ⟨gap, r'⟩
    dsimp only
    split
    · rename_i htype
      have hnone (start : Nat) : slotType.read start (':' :: r) = none := by
        rw [slotType, read_signed, hgap, read_typeName, if_pos htype]
        rfl
      rw [huntyped hnone, parts?_slotExample_of_ne (by simp), if_neg (by simp)]
      rfl
    · rename_i hne
      have htype (start : Nat) : slotType.read start (':' :: r) =
          some ⟨':' :: (gap ++ r'.takeWhile isTypeChar),
            [signed ':' .slotType .typeName start ⟨gap, r'.takeWhile isTypeChar⟩],
            r'.dropWhile isTypeChar⟩ := by
        rw [slotType, read_signed, hgap, read_typeName, if_neg hne]
        rfl
      have hexample := parts?_slotExample written name beforeType
        (some ⟨gap, r'.takeWhile isTypeChar⟩) (Line.spaces (r'.dropWhile isTypeChar)).1
        ⟨[.endOfLine, .slotExample]⟩ (Line.spaces (r'.dropWhile isTypeChar)).2
      rw [← hexample, parts?_seq, Expression.read, htype, Option.getD_some, Option.bind_some,
        parts?_seq, read_spaces, Option.bind_some]
      simp [Spaced.full]
  · rename_i hcolon
    have hhead : s.head? ≠ some ':' := by
      intro hhead
      obtain ⟨r, rfl⟩ := List.head?_eq_some_iff.1 hhead
      exact hcolon r rfl
    rw [huntyped fun start => read_signed_of_ne hhead start]
    have hexample := parts?_slotExample written name beforeType none []
      ⟨[.endOfLine, .slotType, .slotExample]⟩ s
    simpa using hexample

theorem parts?_declared {k : Keyword} {written rest gap r : Text}
    (h : Line.spaces rest = (gap, r)) :
    (declared k).parts? (written.byteSize + gap.byteSize) r =
      (parseDeclaration written k rest).toOption.map Line.parts := by
  cases k with
  | invocation =>
    simp only [declared, parts?, read_text, parseDeclaration, h]
    cases r <;> rfl
  | language =>
    simp only [declared, parts?, read_languageCode, parseDeclaration, h]
    rcases languageCode? r with _ | ⟨code, _ | ⟨c, rest⟩⟩ <;> rfl
  | intent =>
    simp only [declared, parts?, read_identifier, parseDeclaration, h,
      parseDeclaration.parseOpening]
    rcases identifier? r with _ | ⟨name, _ | ⟨c, rest⟩⟩ <;> rfl
  | entity =>
    simp only [declared, parts?, read_identifier, parseDeclaration, h,
      parseDeclaration.parseOpening]
    rcases identifier? r with _ | ⟨name, _ | ⟨c, rest⟩⟩ <;> rfl
  | slot =>
    have hgrouped (start : Nat) : (declared .slot).parts? start r =
        (identifier ++ (spaces ++ (optional slotType ++ (spaces ++ optional slotExample)))).parts?
          start r := by
      rw [declared, parts?_assoc, parts?_assoc, parts?_assoc]
    simp only [parseDeclaration, h]
    rw [hgrouped, parts?_seq, read_identifier]
    cases identifier? r with
    | none => rfl
    | some read =>
      obtain ⟨name, r⟩ := read
      rcases hspaces : Line.spaces r with ⟨beforeType, rest⟩
      have htail := parts?_slotTail written ⟨gap, name⟩ beforeType (spaces_eq_iff.1 hspaces).2.2
      have hstart : written.byteSize + gap.byteSize + name.byteSize + beforeType.byteSize =
          (written ++ Spaced.full ⟨gap, name⟩ ++ beforeType).byteSize := by
        simp [Spaced.full, Nat.add_assoc]
      simp only [Option.map_some, Option.bind_some, parts?_seq spaces, read_spaces, hspaces, hstart,
        htail]
      cases hparse : parseSlot written ⟨gap, name⟩ beforeType rest with
      | error => rfl
      | ok l =>
        obtain ⟨type, beforeExample, «example», -, -, rfl⟩ := parseSlot_eq_ok_iff.1 hparse
        rfl

variable {t : Text}

/-- **The rules read the declaration of a keyword** where the parser does. -/
theorem parts?_declaration {k : Keyword} (h : Keyword.leading? t = some k) :
    (declaration k).parts? 0 t = (parse t).toOption.map fun l => [l.branch] := by
  have hopens : k.opens t = true := Keyword.leading?_eq_some_iff.1 h
  rcases hspaces : Line.spaces (t.drop k.word.length) with ⟨gap, r⟩
  have hparts : (declaration k).parts? 0 t =
      ((parseDeclaration (t.take k.word.length) k (t.drop k.word.length)).toOption.map
        Line.parts).map fun parts => [.node k.rule 0 t parts] := by
    rw [← parts?_declared hspaces, declaration, parts?_part, parts?_assoc, parts?_seq,
      read_word_of_opens hopens, Option.bind_some, parts?_seq, read_spaces, hspaces]
    simp
  have hparse : parse t = parseDeclaration (t.take k.word.length) k (t.drop k.word.length) := by
    rw [parse, h]
  rw [hparts, ← hparse]
  cases hl : parse t with
  | error => rfl
  | ok l =>
    have hbranch := branch_eq ((parse_eq_ok_iff_declares h).1 hl).keyword?
    rw [text_of_parse hl] at hbranch
    simp [Except.toOption, hbranch]

theorem read_declaration_of_not_opens {k : Keyword} (h : k.opens t = false) :
    (declaration k).read 0 t = none := by
  rw [declaration, Expression.read, read_seq, read_seq, read_word_of_not_opens h]
  rfl

/-! ## Lines without a keyword -/

theorem read_definition (start : Nat) (s : Text) :
    Grammar.definition.read start s = some ⟨s, [leaf .definition start s], []⟩ := by
  rw [Grammar.definition, Expression.read, read_many_true]
  rfl

/-- **The rules read a definition** where the parser does. -/
theorem read_variableDefinition (t : Text) :
    variableDefinition.read 0 t = (definition? t).map fun l => ⟨t, [l.branch], []⟩ := by
  rw [variableDefinition, Expression.read, read_assoc, read_assoc, read_assoc, read_seq,
    read_variableName, definition?]
  cases hname : t.takeWhile isIdentChar with
  | nil => rfl
  | cons c name =>
    rw [if_neg (List.cons_ne_nil c name), Option.bind_some, read_seq, read_spaces,
      Option.bind_some, read_seq]
    rcases hspaces : Line.spaces (t.dropWhile isIdentChar) with ⟨beforeSign, rest⟩
    dsimp only
    by_cases hsign : rest.head? = some '='
    · obtain ⟨r, rfl⟩ := List.head?_eq_some_iff.1 hsign
      rcases hgap : Line.spaces r with ⟨gap, text⟩
      have hline : c :: (name ++ (beforeSign ++ '=' :: (gap ++ text))) = t := by
        rw [← (spaces_eq_iff.1 hgap).1, ← (spaces_eq_iff.1 hspaces).1, ← List.cons_append, ← hname,
          List.takeWhile_append_dropWhile]
      rw [read_sign_cons, Option.bind_some, read_seq, read_spaces, Option.bind_some]
      simp [hgap, read_definition, Taken.append, branch, leafAfter, Line.text, Spaced.full, hline]
      rfl
    · rw [read_sign_of_ne hsign]
      cases rest with
      | nil => rfl
      | cons d rest =>
        have hne : d ≠ '=' := by simpa using hsign
        simp [hne]

theorem isSome_read_keyword {k : Keyword} (h : k.opens t = true) :
    (keyword.read 0 t).isSome = true := by
  have hword := read_word_of_opens h 0
  cases k <;> simp [keyword, read_choice, hword]

theorem read_keyword_eq_none (h : ∀ k : Keyword, k.opens t = false) :
    keyword.read 0 t = none := by
  simp [keyword, read_choice, read_word_of_not_opens (h _)]

/-- What begins with no keyword is a sentence. -/
theorem read_sentence (h : ∀ k : Keyword, k.opens t = false) :
    sentence.read 0 t = if t = [] then none else some ⟨t, [leaf .sentence 0 t], []⟩ := by
  rw [sentence, Expression.read, read_seq, Expression.read, read_keyword_eq_none h,
    Option.isSome_none, if_neg (by simp), Option.bind_some, read_oneOrMore_true]
  split <;> rfl

theorem read_sentence_of_opens {k : Keyword} (h : k.opens t = true) : sentence.read 0 t = none := by
  rw [sentence, Expression.read, read_seq, Expression.read, if_pos (isSome_read_keyword h)]
  rfl

/-! ## Lines -/

/-- The end of the line is a part of its own. -/
theorem read_toEnd (e : Expression) (t : Text) :
    (part .line (e ++ part .endOfLine atEnd)).read 0 t =
      (e.parts? 0 t).map fun parts =>
        ⟨t, [.node .line 0 t (parts ++ [leaf .endOfLine t.byteSize []])], []⟩ := by
  rw [Expression.read, read_seq, parts?]
  cases h : e.read 0 t with
  | none => rfl
  | some x =>
    by_cases hrest : x.rest = []
    · have htext : t = x.text := by simpa [hrest] using eq_append_of_read h
      simp [hrest, htext, Expression.read, Taken.append, leaf]
    · simp [hrest, Expression.read]

/-- **The rules read what the parser reads**, whatever the line is, and the parse
tree is that of the line it is parsed to. -/
theorem read_line (t : Text) :
    line.read 0 t = (parse t).toOption.map fun l => ⟨t, [l.tree], []⟩ := by
  have hend : ((parse t).toOption.map fun l => [l.branch]).map (fun parts => (⟨t,
      [ParseTree.node .line 0 t (parts ++ [leaf .endOfLine t.byteSize []])], []⟩ : Taken)) =
        (parse t).toOption.map fun l => ⟨t, [l.tree], []⟩ := by
    cases hl : parse t with
    | error => rfl
    | ok l => simp [Except.toOption, tree, text_of_parse hl]
  rw [line, read_toEnd, ← hend]
  congr 1
  cases hleading : Keyword.leading? t with
  | some k =>
    have hopens : k.opens t = true := Keyword.leading?_eq_some_iff.1 hleading
    have hother {j : Keyword} (hne : j ≠ k) : (declaration j).read 0 t = none := by
      refine read_declaration_of_not_opens (Bool.eq_false_iff.2 fun hj => hne ?_)
      rw [Keyword.leading?_eq_some_iff.2 hj] at hleading
      exact Option.some.inj hleading
    have hdefinition : variableDefinition.read 0 t = none := by
      rw [read_variableDefinition,
        definition?_eq_none_iff.2 (not_isDefinition_of_leading? hleading)]
      rfl
    have hsentence : sentence.read 0 t = none := read_sentence_of_opens hopens
    rw [← parts?_declaration hleading]
    cases k <;> simp [parts?, read_choice, hother, hdefinition, hsentence]
  | none =>
    have hnot (k : Keyword) : k.opens t = false := by
      refine Bool.eq_false_iff.2 fun hk => ?_
      rw [Keyword.leading?_eq_some_iff.2 hk] at hleading
      cases hleading
    have hdeclaration (k : Keyword) : (declaration k).read 0 t = none :=
      read_declaration_of_not_opens (hnot k)
    simp only [parts?, read_choice, hdeclaration, Option.none_or, read_variableDefinition,
      read_sentence hnot, parse, hleading]
    cases definition? t with
    | some l => rfl
    | none => cases t <;> rfl

/-- **The grammar of lines means what its rules say.** Let t be a line after
cleaning that is not empty.

The rules read t exactly when it parses, and then to its end, with the parse tree
of the line it is parsed to. The keyword in front of t is the one whose letters
are the bytes there. With a keyword, t parses exactly when the keyword declares
what stands behind it, and then as that; without one it always parses, as the
definition it has the form of, or else as a sentence. Either way the line it is
parsed to has the keyword of t, or none.

So a load fails only for the size of its source or with errors of lines, of which
none is unrecognized. -/
theorem line_meaning :
    (∀ raw : Text, clean raw ≠ [] →
      let t := clean raw
      line.read 0 t = (parse t).toOption.map (fun l => ⟨t, [l.tree], []⟩) ∧
      Keyword.leading? t = Keyword.all.find? (fun k =>
        (t.bytePrefix? k.word.byteSize).any fun cut => cut.map Char.toUpper == k.word) ∧
      (∀ k, Keyword.leading? t = some k → ∀ l, parse t = .ok l ↔
        k.Declares (t.take k.word.length) (t.drop k.word.length) l) ∧
      (Keyword.leading? t = none →
        (∃ l, parse t = .ok l) ∧ ∀ l, parse t = .ok l ↔ Means t l) ∧
      ∀ l, parse t = .ok l → l.keyword? = Keyword.leading? t) ∧
    ∀ (limit : Nat) (m : Model) (text : Text) (source : Option Text) (e : Error),
      (m.load limit text source).value = .error e →
        (∃ size, e = .limit size) ∨ ∃ errors : List LineError, e = .ofList (errors.map .line) ∧
          ∀ error ∈ errors, ∀ expected, error.fault ≠ .unrecognized expected := by
  refine ⟨fun raw hne => ?_, fun limit m text source e => Model.error_of_load⟩
  intro t
  refine ⟨read_line t, ?keyword, fun k h l => parse_eq_ok_iff_declares h, fun h => ?meant,
    fun l => keyword?_of_parse⟩
  case keyword =>
    simp only [Keyword.any_bytePrefix?]
    rfl
  case meant =>
    obtain ⟨l, hl⟩ := exists_means t
    exact ⟨⟨l, parse_of_means hne h hl⟩, fun l => parse_eq_ok_iff_means hne h⟩

/-- A slot with all its parts, a sentence that begins like a keyword, and a source
that is refused for it. -/
theorem line_meaning_slot :
    let slot : Text := clean "\tSlot:  size:Cup ~ große\u00a0Tasse # note".toList
    let read : Line := .slot "Slot:".toList ⟨[' '], "size".toList⟩ []
      (some ⟨[], "Cup".toList⟩) [' '] (some ⟨[' '], "große Tasse".toList⟩)
    let sentence : Text := clean " intent é = \t x".toList
    (Keyword.slot.Declares (slot.take 5) (slot.drop 5) read ∧
      line.read 0 slot = some ⟨slot, [read.tree], []⟩) ∧
    (Means sentence (.sentence "intent é = x".toList) ∧
      line.read 0 sentence = some ⟨sentence, [(Line.sentence sentence).tree], []⟩) ∧
    ∃ e, (({} : Model).load 1000 sentence none).value = .error e ∧
      ((∃ size, e = .limit size) ∨ ∃ errors : List LineError, e = .ofList (errors.map .line) ∧
        ∀ error ∈ errors, ∀ expected, error.fault ≠ .unrecognized expected) := by
  intro slot read sentence
  obtain ⟨hlines, hloads⟩ := line_meaning
  refine ⟨?_, ?_, ?_⟩
  · obtain ⟨htree, -, hdeclares, -, -⟩ :=
      hlines "\tSlot:  size:Cup ~ große\u00a0Tasse # note".toList (by decide +kernel)
    have hparse : parse slot = .ok read := by decide +kernel
    exact ⟨(hdeclares .slot (by decide +kernel) read).1 hparse, by rw [htree, hparse]; rfl⟩
  · obtain ⟨htree, -, -, hmeans, -⟩ := hlines " intent é = \t x".toList (by decide +kernel)
    have hparse : parse sentence = .ok (.sentence sentence) := by decide +kernel
    have htext : sentence = "intent é = x".toList := by decide +kernel
    refine ⟨htext ▸ ((hmeans (by decide +kernel)).2 _).1 hparse, by rw [htree, hparse]; rfl⟩
  · have hrefused : (({} : Model).load 1000 sentence none).value.toOption = none := by
      decide +kernel
    cases hload : (({} : Model).load 1000 sentence none).value with
    | ok m => rw [hload] at hrefused; cases hrefused
    | error e => exact ⟨e, rfl, hloads _ _ _ _ e hload⟩

end Grammar

end Utterance
