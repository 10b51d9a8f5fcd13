import SymbolDocs.Text.Line
import SymbolDocs.Text.Word

/-!
# Tags as they stand in a comment

`rawTags` cuts the text of a comment at the lines that start with a marker `@title`. A marker inside an open brace
or bracket does not count; if the braces and brackets of the text never close, every marker counts. Text before the
first marker is an implicit description.
-/

namespace SymbolDocs

open SymbolDocs.Text

/-- A tag title and the text that follows it. An implicit tag has no marker of its own. -/
structure RawTag where
  title : String
  text : String
  implicit : Bool := false
  deriving DecidableEq, Repr

namespace Comment

/-- A line of a comment: one that opens a tag, with the title and the text behind it, or any other. -/
inductive TagLine where
  | opening (title : List Char) (text : List Char)
  | plain (line : List Char)

/-- A character of a tag title behind the first one. -/
def isTitleChar (c : Char) : Bool := isWord c || c = '$' || c = '-'

/-- The text behind an exclamation mark, which may end a marker. -/
def dropBang : List Char → List Char
  | '!' :: cs => cs
  | cs => cs

/-- The title and the remaining text of a line that starts with a marker. -/
def marker? (line : List Char) : Option (List Char × List Char) :=
  match trimLeft line with
  | '@' :: c :: cs =>
    if isWord c then some (c :: cs.takeWhile isTitleChar, dropBang (cs.dropWhile isTitleChar)) else none
  | _ => none

/-- The line as an opening, if it starts with a marker. -/
def openIfMarked (line : List Char) : TagLine :=
  match marker? line with
  | some (title, text) => .opening title text
  | none => .plain line

/-- How many braces and brackets are open behind a line that starts with `depth` open ones. Closing more than are
open counts as closing all. -/
def depthAfter (depth : Nat) (line : List Char) : Nat :=
  depth + line.countP (fun c => c = '\x7b' || c = '[') - line.countP (fun c => c = '\x7d' || c = ']')

/-- The lines of a text, where markers count outside braces and brackets, and the number of those left open. -/
def nestedTagLines (depth : Nat) : List (List Char) → List TagLine × Nat
  | [] => ([], depth)
  | line :: lines =>
    let here := if depth = 0 then openIfMarked line else .plain line
    let (rest, last) := nestedTagLines (depthAfter depth line) lines
    (here :: rest, last)

/-- The lines of a text with the markers that count. -/
def tagLines (lines : List (List Char)) : List TagLine :=
  match nestedTagLines 0 lines with
  | (found, 0) => found
  | _ => lines.map openIfMarked

/-- The lines before the first opening, and each opening with its title and lines. -/
def groupLines : List TagLine → List (List Char) × List (List Char × List (List Char))
  | [] => ([], [])
  | .plain line :: rest =>
    let (lead, tags) := groupLines rest
    (line :: lead, tags)
  | .opening title text :: rest =>
    let (lead, tags) := groupLines rest
    ([], (title, text :: lead) :: tags)

/-- The tag that the lines before the first marker make, unless they are blank. -/
def implicitTag (lead : List (List Char)) : List RawTag :=
  let body := joinNewline lead
  if body.all isBlank then [] else [{ title := "description", text := String.ofList body, implicit := true }]

/-- The tags of a comment's text, in order. -/
def rawTags (text : String) : List RawTag :=
  let (lead, tags) := groupLines (tagLines (splitLines text.toList))
  implicitTag lead ++
    tags.map fun (title, lines) => { title := String.ofList title, text := String.ofList (joinNewline lines) }

end Comment
end SymbolDocs
