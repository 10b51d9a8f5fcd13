import SymbolDocs.Text.Line
import SymbolDocs.Yaml.Flow

/-!
# Lists and mappings in lines

`Yaml.read?` gives the value that a text writes: lists and mappings over several lines, in which the indentation shows
what belongs together, with scalars and bracketed values in them. Anchors, aliases, tags, block texts, explicit keys
and second documents are not read.
-/

namespace SymbolDocs.Yaml

open SymbolDocs.Text (cutAt joinNewline)

/-! ## Rows -/

/-- What stands in a row: the dash of a list item, or a text. -/
inductive RowText where
  | dash
  | line (text : List Char)

/-- A piece of a line, with its column. -/
structure Row where
  column : Nat
  text : RowText

/-- Whether a text is blank or a comment. -/
def isVoid (cs : List Char) : Bool :=
  match cs.dropWhile isSpace with
  | [] => true
  | c :: _ => c = '#'

/-- The rows of a line that starts at a column. Each dash has a row of its own. -/
def rowsAt (column : Nat) (cs : List Char) : List Row :=
  match cs with
  | [] => []
  | ' ' :: cs => rowsAt (column + 1) cs
  | '-' :: cs =>
    if endsWord cs then ⟨column, .dash⟩ :: (if isVoid cs then [] else rowsAt (column + 1) cs)
    else [⟨column, .line ('-' :: cs)⟩]
  | cs => [⟨column, .line cs⟩]

/-! ## Nesting -/

/-- A row with the rows that are indented further. -/
inductive Outline where
  | node (row : Row) (inner : List Outline)

/-- The rows up to the first one that is not indented further than a column. -/
def deeperRows (column : Nat) (rows : List Row) : List Row := rows.takeWhile (column < ·.column)

theorem length_deeperRows_le (column : Nat) (rows : List Row) : (deeperRows column rows).length ≤ rows.length :=
  (List.takeWhile_sublist _).length_le

/-- Nests rows by their indentation. -/
def outline (rows : List Row) : List Outline :=
  match rows with
  | [] => []
  | row :: rows =>
    have := length_deeperRows_le row.column rows
    .node row (outline (deeperRows row.column rows)) :: outline (rows.drop (deeperRows row.column rows).length)
termination_by rows.length
decreasing_by all_goals simp only [List.length_cons, List.length_drop]; omega

/-- The characters of a row. -/
def RowText.chars : RowText → List Char
  | .dash => ['-']
  | .line text => text

mutual

/-- The texts of a row and of the rows in it. -/
def Outline.lines : Outline → List (List Char)
  | .node row inner => row.text.chars :: linesOf inner

/-- The texts of several rows and of the rows in them. -/
def linesOf : List Outline → List (List Char)
  | [] => []
  | o :: os => o.lines ++ linesOf os

end

/-! ## Reading -/

/-- Reads a value that is not a list or mapping in lines. -/
def inline (cs : List Char) : Option Data :=
  match cs.dropWhile isSpace with
  | [] => some .null
  | '[' :: cs => readFlow ('[' :: cs)
  | '\x7b' :: cs => readFlow ('\x7b' :: cs)
  | cs =>
    match scanQuoted cs with
    | some (text, size) => if (skipComment (cs.drop size)).isEmpty then some (.text text) else none
    | none =>
      let chars := plainChars false cs
      if startsPlain false cs && (skipComment (cs.drop chars.length)).isEmpty then some (resolve (plainText chars))
      else none

/-- A key at the start of a line, and what follows its colon. -/
def splitKey (cs : List Char) : Option (String × List Char) :=
  let (key, rest) := match scanQuoted cs with
    | some (text, size) => (text, (cs.drop size).dropWhile isSpace)
    | none =>
      let chars := if startsPlain false cs then plainChars false cs else []
      (String.ofList (plainText chars), if chars.isEmpty then [] else cs.drop chars.length)
  match rest with
  | ':' :: after => if endsWord after then some (key, after) else none
  | _ => none

/-- What a row and the rows in it make. -/
inductive Piece where
  | item (value : Data)
  /-- An entry; one without value may get the list items that follow it. -/
  | entry (key : String) (value : Option Data)
  /-- A text that is neither item nor entry. -/
  | loose (text : List Char)

/-- The values of pieces that are list items, if all are. -/
def itemsOf? (pieces : List Piece) : Option (List Data) :=
  pieces.mapM fun
    | .item d => some d
    | _ => none

/-- The texts of pieces that are neither item nor entry, if all are. -/
def looseOf? (pieces : List Piece) : Option (List (List Char)) :=
  pieces.mapM fun
    | .loose text => some text
    | _ => none

/-- Adds a piece in front of the entries and of the list items before them that await their key. -/
def addPiece (piece : Piece) (found : List Data × List DataEntry) : Option (List Data × List DataEntry) :=
  match piece, found with
  | .item d, (items, entries) => some (d :: items, entries)
  | .entry key (some d), ([], entries) => some ([], .entry key d :: entries)
  | .entry key none, ([], entries) => some ([], .entry key .null :: entries)
  | .entry key none, (items, entries) => some ([], .entry key (.list items) :: entries)
  | _, _ => none

/-- The entries that pieces make, if the first one is an entry and the others are entries or their list items. -/
def entriesOf? (pieces : List Piece) : Option (List DataEntry) := do
  match ← pieces.foldrM addPiece ([], []) with
  | ([], entries) => some entries
  | _ => none

/-- Whether all rows start at the same column. -/
def aligned (os : List Outline) : Bool :=
  match os.map fun (.node row _) => row.column with
  | [] => true
  | c :: cs => cs.all (· = c)

/-- The value that rows make. Items and entries have to start at the same column. -/
def assemble (os : List Outline) (pieces : List Piece) : Option Data :=
  match looseOf? pieces with
  | some lines => inline (joinNewline lines)
  | none =>
    if aligned os then ((itemsOf? pieces).map Data.list).or ((entriesOf? pieces).map Data.mapping) else none

mutual

/-- What a row and the rows in it make. -/
def Outline.piece : Outline → Option Piece
  | .node row inner =>
    match row.text with
    | .dash => ((pieces inner).bind (assemble inner)).map .item
    | .line text =>
      match splitKey text with
      | none => some (.loose (joinNewline (text :: linesOf inner)))
      | some (key, after) =>
        if !isVoid after then (inline (joinNewline (after :: linesOf inner))).map fun d => .entry key (some d)
        else if inner.isEmpty then some (.entry key none)
        else ((pieces inner).bind (assemble inner)).map fun d => .entry key (some d)

/-- What several rows make. -/
def pieces : List Outline → Option (List Piece)
  | [] => some []
  | o :: os => do
    let p ← o.piece
    let ps ← pieces os
    pure (p :: ps)

end

/-- The value that lines make. A bracket at the start opens a value that may extend over all lines. -/
def readLines (lines : List (List Char)) : Option Data :=
  match (lines.headD []).dropWhile isSpace with
  | '[' :: _ | '\x7b' :: _ => readFlow (joinNewline lines)
  | _ =>
    let os := outline (lines.flatMap (rowsAt 0))
    (pieces os).bind (assemble os)

/-! ## Documents -/

/-- A character that may stand in a document. -/
def isAllowed (c : Char) : Bool :=
  let n := c.toNat
  n = 9 || n = 10 || n = 13 || (0x20 ≤ n && n ≤ 0x7E) || n = 0x85 || (0xA0 ≤ n && n ≠ 0xFFFE && n ≠ 0xFFFF)

/-- A character that ends a line. -/
def isBreak (c : Char) : Bool := c = '\n' || c = '\r' || c = '\u0085' || c = '\u2028' || c = '\u2029'

/-- A line without blanks at its end. -/
def trimLine (cs : List Char) : List Char := (cs.reverse.dropWhile (· = ' ')).reverse

/-- The lines of a document that hold more than comments. -/
def contentLines (cs : List Char) : List (List Char) := ((cutAt isBreak cs).map trimLine).filter (!isVoid ·)

/-- What follows a marker of three equal characters at the start of a line. -/
def afterMarker (marker line : List Char) : Option (List Char) :=
  if marker.isPrefixOf line && endsWord (line.drop marker.length) then some (line.drop marker.length) else none

/-- The mark at which a document starts. -/
def startMarker : List Char := ['-', '-', '-']

/-- The mark at which a document ends. -/
def endMarker : List Char := ['.', '.', '.']

/-- Whether a line opens or closes a document. -/
def isMarker (line : List Char) : Bool := (afterMarker startMarker line).isSome || (afterMarker endMarker line).isSome

/-- The lines before the mark at the end of a document, behind which nothing may stand. -/
def beforeEnd (lines : List (List Char)) : Option (List (List Char)) :=
  let body := lines.takeWhile (!isMarker ·)
  match lines.drop body.length with
  | [] => some body
  | [line] => (afterMarker endMarker line).bind fun rest => if isVoid rest then some body else none
  | _ => none

/-- The value that a text writes, if the text is one YAML document. -/
def read? (text : String) : Option Data :=
  let cs := if text.toList.head? = some '\uFEFF' then text.toList.drop 1 else text.toList
  if !cs.all isAllowed then none
  else match contentLines cs with
    | [] => some .null
    | line :: lines =>
      match afterMarker startMarker line with
      | none => (beforeEnd (line :: lines)).bind readLines
      | some rest =>
        (beforeEnd lines).bind fun lines =>
          if isVoid rest then readLines lines else inline (joinNewline (rest :: lines))

end SymbolDocs.Yaml
