import SymbolDocs.Json.Token

/-!
# Scalars of YAML

A scalar is quoted or plain. A quoted scalar is a text; a plain one may also be null, a yes or no, or a number. The
words for yes and no are those of YAML 1.1.
-/

namespace SymbolDocs.Yaml

open SymbolDocs.Json (hexValue? charOf joinUnits decimalValue)

/-! ## Plain scalars -/

/-- The words for null. -/
def nullWords : List String := ["", "~", "null", "Null", "NULL"]

/-- The words for yes and for no. -/
def flagWords : List (String × Bool) :=
  [("yes", true), ("Yes", true), ("YES", true), ("no", false), ("No", false), ("NO", false), ("true", true),
    ("True", true), ("TRUE", true), ("false", false), ("False", false), ("FALSE", false), ("on", true), ("On", true),
    ("ON", true), ("off", false), ("Off", false), ("OFF", false)]

/-- Whether all characters are of a class or underscores, and one is of the class. -/
def isNumeral (digit : Char → Bool) (cs : List Char) : Bool := cs.any digit && cs.all fun c => digit c || c = '_'

/-- The number that digits of a base write, whatever underscores stand between them. -/
def numeral (base : Nat) (cs : List Char) : Nat :=
  (cs.filter (· ≠ '_')).foldl (fun n c => base * n + ((Json.hexDigit? c).getD 0)) 0

/-- The number without sign that a plain scalar writes: in base ten, or behind a zero in base two, eight or sixteen. -/
def natural? : List Char → Option Nat
  | ['0'] => some 0
  | '0' :: 'b' :: cs => if isNumeral (fun c => c = '0' || c = '1') cs then some (numeral 2 cs) else none
  | '0' :: 'x' :: cs => if isNumeral (fun c => (Json.hexDigit? c).isSome) cs then some (numeral 16 cs) else none
  | '0' :: cs => if isNumeral (fun c => '0' ≤ c && c ≤ '7') cs then some (numeral 8 cs) else none
  | c :: cs => if c.isDigit && cs.all (fun c => c.isDigit || c = '_') then some (numeral 10 (c :: cs)) else none
  | [] => none

/-- A sign and what follows it. -/
def splitSign : List Char → Bool × List Char
  | '-' :: cs => (true, cs)
  | '+' :: cs => (false, cs)
  | cs => (false, cs)

/-- The number that a plain scalar writes. -/
def integer? (cs : List Char) : Option Data :=
  let (negative, body) := splitSign cs
  (natural? body).map fun n => .int (if negative then -n else n)

/-- The number with a point that a plain scalar writes. One that starts with the point has no sign. -/
def decimal? (cs : List Char) : Option Data :=
  let (negative, body) := splitSign cs
  let whole := body.takeWhile (· ≠ '.')
  match body.drop whole.length with
  | '.' :: fraction =>
    let wellFormed :=
      if whole.isEmpty then body == cs && fraction.head?.any Char.isDigit
      else whole.head?.any Char.isDigit && whole.all fun c => c.isDigit || c = '_'
    if wellFormed && fraction.all fun c => c.isDigit || c = '_' then
      let digits := (whole ++ fraction).filter (· ≠ '_')
      some (.ofDecimal negative digits (fraction.filter (· ≠ '_')).length)
    else none
  | _ => none

/-- The value of a plain scalar. -/
def resolve (cs : List Char) : Data :=
  let text := String.ofList cs
  if nullWords.contains text then .null
  else match flagWords.lookup text with
    | some b => .flag b
    | none => ((integer? cs).or (decimal? cs)).getD (.text text)

/-! ## Quoted scalars -/

/-- The character that a letter behind a backslash stands for. -/
def escape? : Char → Option Char
  | '0' => some '\x00'
  | 'a' => some '\x07'
  | 'b' => some '\x08'
  | 't' => some '\t'
  | '\t' => some '\t'
  | 'n' => some '\n'
  | 'v' => some '\x0b'
  | 'f' => some '\x0c'
  | 'r' => some '\r'
  | 'e' => some '\x1b'
  | ' ' => some ' '
  | '"' => some '"'
  | '\\' => some '\\'
  | '/' => some '/'
  | 'N' => some '\u0085'
  | '_' => some '\u00a0'
  | 'L' => some '\u2028'
  | 'P' => some '\u2029'
  | _ => none

/-- How many digits in base sixteen follow a letter behind a backslash. -/
def escapeWidth? : Char → Option Nat
  | 'x' => some 2
  | 'u' => some 4
  | 'U' => some 8
  | _ => none

/-- Reads a text from behind its opening double quote through the closing one. Gives the numbers of the characters and
how many characters were read. A line break counts as a space. -/
def scanDouble (cs : List Char) : Option (List Nat × Nat) :=
  let further (n : Nat) (step : Nat) (r : Option (List Nat × Nat)) := r.map fun p => (n :: p.1, p.2 + step)
  match cs with
  | [] => none
  | '"' :: _ => some ([], 1)
  | ['\\'] => none
  | '\\' :: c :: cs =>
    match escape? c, escapeWidth? c with
    | some e, _ => further e.toNat 2 (scanDouble cs)
    | none, some width =>
      if cs.length < width then none
      else (hexValue? (cs.take width)).bind fun n => further n (2 + width) (scanDouble (cs.drop width))
    | none, none => none
  | c :: cs => further (if c = '\n' then ' '.toNat else c.toNat) 1 (scanDouble cs)
termination_by cs.length
decreasing_by all_goals simp only [List.length_cons, List.length_drop]; omega

/-- Reads a text from behind its opening single quote through the closing one; two quotes write one. Gives the
characters and how many characters were read. A line break counts as a space. -/
def scanSingle : List Char → Option (List Char × Nat)
  | [] => none
  | '\'' :: '\'' :: cs => (scanSingle cs).map fun p => ('\'' :: p.1, p.2 + 2)
  | '\'' :: _ => some ([], 1)
  | c :: cs => (scanSingle cs).map fun p => ((if c = '\n' then ' ' else c) :: p.1, p.2 + 1)

/-- Reads a quoted scalar and says how many characters it has with its quotes. -/
def scanQuoted : List Char → Option (String × Nat)
  | '"' :: cs => (scanDouble cs).map fun p => (String.ofList (joinUnits p.1), p.2 + 1)
  | '\'' :: cs => (scanSingle cs).map fun p => (String.ofList p.1, p.2 + 1)
  | _ => none

/-! ## The extent of plain scalars -/

/-- A character that separates tokens. A tab does not. -/
def isSpace (c : Char) : Bool := c = ' ' || c = '\n'

/-- A character that has a meaning inside brackets. -/
def isFlowMark (c : Char) : Bool := c = ',' || c = '[' || c = ']' || c = '\x7b' || c = '\x7d'

/-- A character that no plain scalar starts with. -/
def isIndicator (c : Char) : Bool :=
  isFlowMark c || c = '#' || c = '&' || c = '*' || c = '!' || c = '|' || c = '>' || c = '\'' || c = '"' || c = '%' ||
    c = '@' || c = '\x60' || c = '\t'

/-- Whether a word ends before these characters. -/
def endsWord : List Char → Bool
  | c :: _ => isSpace c || c = '\t'
  | [] => true

/-- Whether a plain scalar starts here, inside brackets or outside. A dash, a colon or a question mark starts one only
as part of a word, the latter two only outside brackets. -/
def startsPlain (inside : Bool) : List Char → Bool
  | [] => false
  | c :: cs =>
    if c = '-' then !endsWord cs
    else if c = ':' || c = '?' then !inside && !endsWord cs
    else !isIndicator c && !isSpace c

/-- Whether a colon before these characters ends a key. -/
def endsKey (inside : Bool) (cs : List Char) : Bool := endsWord cs || (inside && cs.head?.any isFlowMark)

/-- The characters of a plain scalar, with blanks at its end. -/
def plainChars (inside : Bool) : List Char → List Char
  | [] => []
  | c :: cs =>
    if c = '\t' || (inside && (isFlowMark c || c = '?')) || (c = ':' && endsKey inside cs) ||
        (isSpace c && cs.head? = some '#') then []
    else c :: plainChars inside cs

/-- The text of a plain scalar, in which blanks at the ends do not count and a line break is a space. -/
def plainText (cs : List Char) : List Char :=
  let words := cs.map fun c => if c = '\n' then ' ' else c
  ((words.dropWhile isSpace).reverse.dropWhile isSpace).reverse

/-- What follows blanks and a comment. -/
def skipComment (cs : List Char) : List Char :=
  match cs.dropWhile isSpace with
  | '#' :: rest => rest.dropWhile (· ≠ '\n')
  | rest => rest

end SymbolDocs.Yaml
