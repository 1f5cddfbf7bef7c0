import Utterance.Diagnostic
import Utterance.Fragment

/-!
# Events — the log

What the library does is told in events, one line of the log each: the
level, a message, and fields with what the event is about. A character of
the message that could command a terminal is written out (`escape`); the
fields are shown as they are. An operation that has something to tell
returns its value together with its events (`Logged`); whether and where
they are printed is decided by the caller, by level.
-/

namespace Utterance

/-- How important an event is. -/
inductive Level where
  /-- Every step. -/
  | trace
  /-- What a developer of templates may want to follow. -/
  | debug
  /-- Progress. -/
  | info
  /-- What may be wrong with the templates. -/
  | warn
  deriving Repr, DecidableEq

namespace Level

/-- The word for a level. -/
def name : Level → String
  | trace => "TRACE"
  | debug => "DEBUG"
  | info => "INFO"
  | warn => "WARN"

/-- The position in ascending order of importance. -/
def rank : Level → Nat
  | trace => 0
  | debug => 1
  | info => 2
  | warn => 3

end Level

/-- Something the library did. -/
inductive Event where
  /-- A fragment was taken from the worklist. -/
  | visited (fragment : Text) (shape : Shape)
  /-- An expansion came out empty and was dropped. -/
  | discarded (template : Text)
  /-- Something was found in a template. -/
  | diagnosed (diagnostic : Diagnostic)
  /-- A template was expanded. -/
  | expanded (template : Text) (steps sentences : Nat)
  /-- A collection is being expanded. -/
  | processing (kind : Kind) (name : Text) (templates : Nat)
  /-- A model was compiled. -/
  | compiled (intents entities sentences : Nat)
  /-- An invocation name was read. -/
  | invocationRead (name : Text)
  /-- A language was read. -/
  | languageRead (code : Text)
  /-- A collection was opened. -/
  | opened (kind : Kind) (name : Text)
  /-- A variable was read; the name is in lower case. -/
  | variableRead (name definition : Text)
  /-- A slot was read. -/
  | slotRead (slot : Slot)
  /-- A slot was declared a second time. -/
  | slotRepeated (slot intent : Text)
  /-- A source was added to the workspace. -/
  | loaded (source : Text)
  /-- A source file is being read. -/
  | reading (path : Text)
  /-- A document is written. -/
  | writing (path : Text)
  /-- All documents were written. -/
  | wrote (files : Nat)
  /-- Collections are being listed. -/
  | listing (collections : Nat)
  /-- A document wants an invocation name and there is none. -/
  | invocationMissing
  deriving Repr, DecidableEq

namespace Event

/-- How important an event is. -/
def level : Event → Level
  | visited .. => .trace
  | discarded .. | expanded .. | invocationRead .. | languageRead .. | opened ..
  | variableRead .. | slotRead .. | slotRepeated .. => .debug
  | processing .. | compiled .. | loaded .. | reading .. | writing .. | wrote ..
  | listing .. => .info
  | diagnosed .. | invocationMissing => .warn

/-- What happened, in words. -/
def message : Event → String
  | visited .. => "rewriting fragment"
  | discarded _ => "discarding empty expansion"
  | diagnosed diagnostic => diagnostic.message
  | expanded .. => "template expanded"
  | processing kind name templates =>
    s!"Processing {kind.name} '{name.str}' ({templates} templates)"
  | compiled intents entities sentences =>
    s!"Expanded {intents} intents and {entities} entities into {sentences} sentences"
  | invocationRead name => s!"Got invocation name: \"{name.str}\""
  | languageRead code => s!"Got language: \"{code.str}\""
  | opened kind name => s!"Got {kind.name}: \"{name.str}\""
  | variableRead name definition => s!"Got variable: \"{name.str}\" = \"{definition.str}\""
  | slotRead slot => s!"Got slot: \"{slot.name.str}:{slot.typeName.str}\""
  | slotRepeated slot intent =>
    s!"Slot '{slot.str}' already declared on '{intent.str}'; keeping the first"
  | loaded source => s!"Loaded source {source.str}"
  | reading path => s!"Reading {path.str}"
  | writing path => s!"Writing to {path.str}"
  | wrote files => s!"Wrote {files} output files"
  | listing collections => s!"Listing {collections} collections"
  | invocationMissing => "No INVOCATION: declared; Alexa invocation name left empty"

/-- What an event is about, by name, each as it is shown. -/
def fields : Event → List (String × String)
  | visited fragment shape => [("fragment", fragment.str), ("case", s!"\"{shape.name}\"")]
  | discarded template => [("template", template.str)]
  | expanded template steps sentences =>
    [("template", template.str), ("steps", steps.repr), ("sentences", sentences.repr)]
  | _ => []

/-- The digits of a number to the base sixteen. -/
def hexadecimal (n : Nat) : String :=
  String.ofList (Nat.toDigits 16 n)

/-- A character of a message as the log shows it. The control characters
that terminals obey are written as their numbers. -/
def escape (c : Char) : String :=
  let n := c.toNat
  if n = 0x07 ∨ n = 0x08 ∨ n = 0x0C then "\\x0" ++ hexadecimal n
  else if n = 0x1B ∨ n = 0x7F then "\\x" ++ hexadecimal n
  else if 0x80 ≤ n ∧ n ≤ 0x9F then "\\u\x7b" ++ hexadecimal n ++ "\x7d"
  else c.toString

/-- A message as the log shows it. -/
def escapeAll (message : String) : String :=
  message.toList.foldl (fun out c => out ++ escape c) ""

/-- The line of the log. -/
def line (event : Event) : String :=
  event.fields.foldl (fun out (name, value) => out ++ s!" {name}={value}")
    s!"{event.level.name} {escapeAll event.message}"

end Event

/-- A value and the events on the way to it, in order. -/
structure Logged (α : Type) where
  /-- The value. -/
  value : α
  /-- The events. -/
  events : List Event

end Utterance
