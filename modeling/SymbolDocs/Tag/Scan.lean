import SymbolDocs.Text.Blank
import SymbolDocs.Text.Quoted

/-!
# Cutting the text of a tag

`scanWord` reads the first word of a text, where blanks inside quotes or brackets do not end a word.
`scanEnclosed` reads up to the bracket that closes the first one. Both give the part read and the rest.
-/

namespace SymbolDocs.Tag

open SymbolDocs.Text

/-- Why a text cannot be cut. -/
inductive ScanFault where
  /-- A closing bracket has no opening bracket of its kind before it. -/
  | unbalanced (closer : Char)
  /-- The text ends inside a quote or bracket. -/
  | unterminated
  /-- An opening bracket is never closed. -/
  | unclosed (opener : Char)
  deriving DecidableEq, Repr

/-- The wording of a fault. -/
def ScanFault.detail : ScanFault → String
  | .unbalanced closer => "unbalanced " ++ quoted (String.singleton closer)
  | .unterminated => "unterminated quote or bracket"
  | .unclosed opener => "unterminated " ++ quoted (String.singleton opener)

/-- A quote. -/
def isQuote (c : Char) : Bool := c = '"' || c = '\''

/-- The bracket that closes an opening bracket. -/
def closerOf? (c : Char) : Option Char :=
  if c = '\x7b' then some '\x7d' else if c = '[' then some ']' else if c = '(' then some ')' else none

/-- A closing bracket. -/
def isCloser (c : Char) : Bool := c = '\x7d' || c = ']' || c = ')'

/-- The part read, with one more character in front. -/
def consFst (c : Char) (p : List Char × List Char) : List Char × List Char := (c :: p.1, p.2)

mutual

/-- Reads a word from outside every quote; `closers` lists the brackets still to be closed, innermost first. -/
def scanOutside (closers : List Char) : List Char → Except ScanFault (List Char × List Char)
  | [] => if closers.isEmpty then .ok ([], []) else .error .unterminated
  | c :: cs =>
    if isQuote c then (scanInside c closers cs).map (consFst c)
    else match closerOf? c with
      | some closer => (scanOutside (closer :: closers) cs).map (consFst c)
      | none =>
        if isCloser c then
          match closers with
          | closer :: closers =>
            if closer = c then (scanOutside closers cs).map (consFst c) else .error (.unbalanced c)
          | [] => .error (.unbalanced c)
        else if isBlank c && closers.isEmpty then .ok ([], c :: cs)
        else (scanOutside closers cs).map (consFst c)

/-- Reads a word from inside a quote. A backslash takes the next character with it. -/
def scanInside (quote : Char) (closers : List Char) : List Char → Except ScanFault (List Char × List Char)
  | [] => .error .unterminated
  | ['\\'] => .error .unterminated
  | '\\' :: c :: cs => (scanInside quote closers cs).map (consFst '\\' ∘ consFst c)
  | c :: cs =>
    if c = quote then (scanOutside closers cs).map (consFst c)
    else (scanInside quote closers cs).map (consFst c)

end

/-- Reads the first word of a text. Blanks inside quotes and brackets belong to the word. -/
def scanWord (cs : List Char) : Except ScanFault (List Char × List Char) := scanOutside [] cs

/-- Reads from behind an opening bracket up to the closing one. `depth` counts the brackets of the same kind opened
since; inside a quote brackets do not count. -/
def scanEnclosedFrom (opener closer : Char) (quotes : Bool) (depth : Nat) (quote : Option Char) :
    List Char → Option (List Char × List Char)
  | [] => none
  | c :: cs =>
    match quote with
    | some q =>
      (scanEnclosedFrom opener closer quotes depth (if c = q then none else some q) cs).map (consFst c)
    | none =>
      if quotes && isQuote c then (scanEnclosedFrom opener closer quotes depth (some c) cs).map (consFst c)
      else if c = opener then (scanEnclosedFrom opener closer quotes (depth + 1) none cs).map (consFst c)
      else if c = closer then
        match depth with
        | 0 => some ([], cs)
        | depth + 1 => (scanEnclosedFrom opener closer quotes depth none cs).map (consFst c)
      else (scanEnclosedFrom opener closer quotes depth none cs).map (consFst c)

/-- Reads what braces enclose, from behind the opening brace. Quotes do not matter. -/
def scanBraces (cs : List Char) : Except ScanFault (List Char × List Char) :=
  match scanEnclosedFrom '\x7b' '\x7d' false 0 none cs with
  | some p => .ok p
  | none => .error (.unclosed '\x7b')

/-- Reads what square brackets enclose, from behind the opening bracket. Brackets inside quotes do not count. -/
def scanBrackets (cs : List Char) : Except ScanFault (List Char × List Char) :=
  match scanEnclosedFrom '[' ']' true 0 none cs with
  | some p => .ok p
  | none => .error (.unclosed '[')

end SymbolDocs.Tag
