import Utterance.Error
import Utterance.Event
import Utterance.Model
import Utterance.Text.Lines

/-!
# Loading a source

A source is read line by line. Every line that is not empty after
cleaning is parsed and applied to a copy of the model, together with the
collection that is open at that point; the errors of bad lines are
collected, and reading goes on. Only when there is none does the copy
become the new model (`load`), so a refused source leaves no trace.
-/

namespace Utterance

/-- A line of a source as it stands, with its span. -/
structure SourceLine where
  /-- The raw text. -/
  raw : Text
  /-- Where it stands, without the blanks at both ends. -/
  span : Span
  deriving Repr, DecidableEq

namespace SourceLine

/-- The lines with their spans, the first of which starts at a given byte
and has a given number. -/
def number (start line : Nat) (raws : List Text) : List SourceLine :=
  go [] start line raws
where
  /-- The numbering, with the lines already numbered in reverse. -/
  go (done : List SourceLine) (start line : Nat) : List Text → List SourceLine
    | [] => done.reverse
    | raw :: rest =>
      go (⟨raw, .ofLine start raw line⟩ :: done) (start + raw.byteSize + 1) (line + 1) rest

/-- The lines of a text. -/
def ofText (text : Text) : List SourceLine :=
  number 0 1 text.lines

private theorem go_eq (done : List SourceLine) (start line : Nat) (raws : List Text) :
    number.go done start line raws = done.reverse ++ number start line raws := by
  induction raws generalizing done start line with
  | nil => simp [number, number.go]
  | cons raw rest ih =>
    simp only [number, number.go]
    rw [ih, ih [_]]
    simp

/-- The next line starts one byte after the end of the one before. -/
theorem number_cons (start line : Nat) (raw : Text) (rest : List Text) :
    number start line (raw :: rest) =
      ⟨raw, .ofLine start raw line⟩ :: number (start + raw.byteSize + 1) (line + 1) rest := by
  simp only [number, number.go]
  rw [go_eq]
  rfl

@[simp] theorem number_nil (start line : Nat) : number start line [] = [] := rfl

end SourceLine

/-- The model as far as it is read, with the collection that is open. -/
structure Reading where
  /-- The model. -/
  model : Model
  /-- The kind and name of the open collection. -/
  current : Option (Kind × Text) := none
  deriving Repr, DecidableEq

namespace Reading

/-- Open a collection and make it the current one. -/
def openCollection (r : Reading) (kind : Kind) (name : Text) : Reading :=
  ⟨r.model.openCollection kind name, some (kind, name)⟩

/-- The slot that the parts of a declaration describe. -/
def declaredSlot (name : Spaced) (type «example» : Option Spaced) : Slot :=
  { name := name.text, type := type.map Spaced.text, «example» := example.map Spaced.text }

/-- **What a line does**, or what is wrong with it. A template remembers
the source and the span of its line. -/
def apply (source : Text) (span : Span) (r : Reading) : Line → Except Fault Reading
  | .invocation _ name => .ok { r with model := { r.model with invocationName := some name.text } }
  | .language _ code => .ok { r with model := { r.model with language := code.text } }
  | .opening kind _ name => .ok (r.openCollection kind name.text)
  | .slot _ name _ type _ «example» =>
    match r.current with
    | some (.intent, intent) =>
      let slot := declaredSlot name type «example»
      .ok { r with model := r.model.modifyCollection .intent intent (·.declareSlot slot) }
    | _ => .error (.slotOutsideIntent name.text)
  | .definition name _ text => .ok { r with model := r.model.defineVariable name text.text }
  | .sentence text =>
    match r.current with
    | some (kind, name) =>
      let template : Template := { text, source := some source, span := some span }
      .ok { r with model := r.model.modifyCollection kind name (·.addTemplate template) }
    | none => .error .sentenceOutside

/-- What a line tells the log. -/
def events (r : Reading) : Line → List Event
  | .invocation _ name => [.invocationRead name.text]
  | .language _ code => [.languageRead code.text]
  | .opening kind _ name => [.opened kind name.text]
  | .slot _ name _ type _ «example» =>
    let slot := declaredSlot name type «example»
    let repeated := match r.current with
      | some (.intent, intent) =>
        ((r.model.collection? .intent intent).bind (·.slot? slot.name)).isSome
      | _ => false
    let intent := (r.current.map Prod.snd).getD []
    .slotRead slot :: if repeated then [.slotRepeated slot.name intent] else []
  | .definition name _ text => [.variableRead name.lower text.text]
  | .sentence _ => []

/-- What is wrong with a cleaned line that does not parse. -/
def parseFault (line : Text) (expected : Expected) : Fault :=
  match Keyword.leading? line with
  | some k => .malformed k expected
  | none => .unrecognized expected

/-- Read one line of a source: what comes of it, and what it tells the
log. A line that is empty after cleaning does nothing. -/
def readLine (source : Text) (r : Reading) (line : SourceLine) : Logged (Except Fault Reading) :=
  let cleaned := Line.clean line.raw
  if cleaned.isEmpty then ⟨.ok r, []⟩
  else
    match Line.parse cleaned with
    | .error expected => ⟨.error (parseFault cleaned expected), []⟩
    -- a line that is read well tells the log even if it is refused here
    | .ok l => ⟨r.apply source line.span l, r.events l⟩

end Reading

/-- A source as far as it is read: the model with the open collection, the
errors and the events, both in reverse. -/
structure Progress where
  /-- The model with the open collection. -/
  reading : Reading
  /-- The errors so far, the last one first. -/
  errors : List LineError := []
  /-- The events so far, the last one first. -/
  events : List Event := []

namespace Progress

/-- Read the next line; a bad line is noted and changes nothing else. -/
def next (source sourceText : Text) (p : Progress) (line : SourceLine) : Progress :=
  let read := p.reading.readLine source line
  let events := read.events.reverse ++ p.events
  match read.value with
  | .ok reading => { p with reading, events }
  | .error fault =>
    { p with errors := { fault, span := line.span, source, sourceText } :: p.errors, events }

end Progress

/-- The name of a source that has none. -/
def unnamedSource : Text :=
  "<input>".toList

namespace Model

/-- **Load a source into a model.** A source above the size limit is
refused unread; any other is read to its end and refused when a line is
bad. -/
def load (limit : Nat) (m : Model) (text : Text) (source : Option Text) :
    Logged (Except Error Model) :=
  let size := text.byteSize
  if limit < size then ⟨.error (.limit (.sourceSize limit size)), []⟩
  else
    let source := source.getD unnamedSource
    let sourceText := text.unixLineEnds
    let read := (SourceLine.ofText sourceText).foldl (Progress.next source sourceText)
      { reading := { model := m } }
    let value := match read.errors.reverse with
      | [] => .ok read.reading.model
      | errors => .error (.ofList (errors.map .line))
    ⟨value, read.events.reverse⟩

end Model

end Utterance
