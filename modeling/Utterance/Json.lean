import Utterance.Text.Basic

/-!
# JSON documents

The values that documents are made of, and their text: two spaces for
each level, one item or field on a line, and nothing between the brackets
of an empty array or object. In a string the quote, the backslash and the
control characters below the space are escaped, and nothing else.
-/

namespace Utterance

/-- A JSON value. Numbers are natural numbers, and the fields of an object
keep their order. -/
inductive Json where
  /-- A truth value. -/
  | bool (b : Bool)
  /-- A number. -/
  | num (n : Nat)
  /-- A string. -/
  | str (s : Text)
  /-- An array. -/
  | arr (items : List Json)
  /-- An object. -/
  | obj (fields : List (String × Json))

namespace Json

/-- The hexadecimal digit of a number below sixteen. -/
def hexDigit (n : Nat) : Char :=
  Char.ofNat (if n < 10 then 0x30 + n else 0x57 + n)

/-- A character as it stands in a string. -/
def escape (c : Char) : Text :=
  match c with
  | '"' => ['\\', '"']
  | '\\' => ['\\', '\\']
  | '\n' => ['\\', 'n']
  | '\r' => ['\\', 'r']
  | '\t' => ['\\', 't']
  | '\x08' => ['\\', 'b']
  | '\x0c' => ['\\', 'f']
  | c =>
    if c.toNat < 0x20 then
      ['\\', 'u', '0', '0', hexDigit (c.toNat / 16), hexDigit (c.toNat % 16)]
    else [c]

/-- A string between quotes. -/
def quote (s : Text) : String :=
  "\"" ++ Text.str (s.flatMap escape) ++ "\""

/-- A new line at a level. -/
def newline (level : Nat) : String :=
  "\n" ++ Text.str (List.replicate (2 * level) ' ')

mutual

/-- Write a value after a text; its inside stands one level deeper. -/
def write (level : Nat) (out : String) : Json → String
  | bool b => out ++ if b then "true" else "false"
  | num n => out ++ n.repr
  | str s => out ++ quote s
  | arr [] => out ++ "[]"
  | arr (item :: rest) =>
    let first := item.write (level + 1) (out ++ "[" ++ newline (level + 1))
    writeItems (level + 1) first rest ++ newline level ++ "]"
  | obj [] => out ++ "\x7b\x7d"
  | obj ((name, value) :: rest) =>
    let start := out ++ "\x7b" ++ newline (level + 1) ++ quote name.toList ++ ": "
    writeFields (level + 1) (value.write (level + 1) start) rest ++ newline level ++ "\x7d"

/-- Write the later items of an array. -/
def writeItems (level : Nat) (out : String) : List Json → String
  | [] => out
  | item :: rest => writeItems level (item.write level (out ++ "," ++ newline level)) rest

/-- Write the later fields of an object. -/
def writeFields (level : Nat) (out : String) : List (String × Json) → String
  | [] => out
  | (name, value) :: rest =>
    let start := out ++ "," ++ newline level ++ quote name.toList ++ ": "
    writeFields level (value.write level start) rest

end

/-- The text of a document, with a line feed at its end. -/
def document (value : Json) : String :=
  value.write 0 "" ++ "\n"

end Json

end Utterance
