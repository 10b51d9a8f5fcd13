import SymbolDocs.Data.Basic
import SymbolDocs.Text.Quoted

/-!
# Printing JSON

`Json.print` writes a value over several lines, each level indented by two more spaces. Characters outside ASCII are
written as escapes of UTF-16 units.
-/

namespace SymbolDocs.Json

open SymbolDocs.Text

/-- An escape of one UTF-16 unit. -/
def unitEscape (n : Nat) : List Char := '\\' :: 'u' :: hexDigits 4 n

/-- One character between double quotes. -/
def escaped (c : Char) : List Char :=
  if c = '"' || c = '\\' then ['\\', c]
  else if c = '\n' then ['\\', 'n']
  else if c = '\r' then ['\\', 'r']
  else if c = '\t' then ['\\', 't']
  else if c = '\x08' then ['\\', 'b']
  else if c = '\x0c' then ['\\', 'f']
  else if ' ' ≤ c && c ≤ '~' then [c]
  else if c.toNat < 0x10000 then unitEscape c.toNat
  else
    let n := c.toNat - 0x10000
    unitEscape (0xD800 + n / 0x400) ++ unitEscape (0xDC00 + n % 0x400)

/-- A text between double quotes. -/
def quotedText (s : String) : List Char := '"' :: s.toList.flatMap escaped ++ ['"']

/-- A new line at a level. -/
def newline (level : Nat) : List Char := '\n' :: List.replicate (2 * level) ' '

mutual

/-- The text of a value whose first line starts at the given level. -/
def printAt (level : Nat) : Data → List Char
  | .null => "null".toList
  | .flag true => "true".toList
  | .flag false => "false".toList
  | .int n => (toString n).toList
  | .decimal s => s.toList
  | .text s => quotedText s
  | .list [] => ['[', ']']
  | .list (a :: as) =>
    '[' :: newline (level + 1) ++ printAt (level + 1) a ++ printItems (level + 1) as ++ newline level ++ [']']
  | .mapping [] => ['\x7b', '\x7d']
  | .mapping (e :: es) =>
    '\x7b' :: newline (level + 1) ++ printEntry (level + 1) e ++ printEntries (level + 1) es ++ newline level ++
      ['\x7d']

/-- The further items of a list. -/
def printItems (level : Nat) : List Data → List Char
  | [] => []
  | a :: as => ',' :: newline level ++ printAt level a ++ printItems level as

/-- An entry of a mapping. -/
def printEntry (level : Nat) : DataEntry → List Char
  | .entry key value => quotedText key ++ ':' :: ' ' :: printAt level value

/-- The further entries of a mapping. -/
def printEntries (level : Nat) : List DataEntry → List Char
  | [] => []
  | e :: es => ',' :: newline level ++ printEntry level e ++ printEntries level es

end

/-- The text of a value. -/
def print (d : Data) : String := String.ofList (printAt 0 d)

end SymbolDocs.Json
