import SymbolDocs.Text.Line

/-!
# Comment bodies

`body` takes a documentation comment to the text it carries. Of a block comment it removes the delimiters and the
gutter of each line, of any other text the shared indentation.
-/

namespace SymbolDocs.Comment

open SymbolDocs.Text

/-- The text behind an opening delimiter: a slash and at least two asterisks, of which all go. -/
def dropOpening : List Char → List Char
  | '/' :: '*' :: '*' :: cs => cs.dropWhile (· = '*')
  | cs => cs

/-- The text before a closing delimiter: asterisks and a slash at the end, with the blanks in front of them. -/
def dropClosing (cs : List Char) : List Char :=
  match cs.reverse with
  | '/' :: '*' :: rest => trimRight (dropEndWhile (· = '*') rest.reverse)
  | _ => cs

/-- The line without its gutter: blanks, then perhaps an asterisk and one space. -/
def dropGutter (line : List Char) : List Char :=
  match trimLeft line with
  | '*' :: ' ' :: cs => cs
  | '*' :: cs => cs
  | cs => cs

/-- The text of a comment whose characters are given without blanks around them. -/
def bodyOfTrimmed : List Char → List Char
  | '/' :: '*' :: cs =>
    trimNewlines (joinNewline ((splitLines (dropClosing (dropOpening ('/' :: '*' :: cs)))).map dropGutter))
  | cs => trimNewlines (dedent cs)

/-- The text that a comment carries. -/
def body (comment : String) : String := String.ofList (bodyOfTrimmed (trim comment.toList))

end SymbolDocs.Comment
