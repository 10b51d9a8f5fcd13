import SymbolDocs.Data.Decimal

/-!
# Tokens of JSON

`tokensOf` cuts a text into marks, texts, and other values. What cannot be cut is a token too, so that a reader meets
the faults of a text in their order.
-/

namespace SymbolDocs.Json

/-! ## Faults -/

/-- What is wrong with a text that is not JSON. -/
inductive Cause where
  | byteOrderMark | noValue | noKey | noColon | noComma | extraData | openText | controlChar | badEscape | badUnit
  deriving DecidableEq, Repr

/-- Why a text is not JSON, and where. -/
structure Fault where
  cause : Cause
  pos : Nat
  deriving DecidableEq, Repr

/-- The wording of a cause. -/
def Cause.text : Cause → String
  | .byteOrderMark => "Unexpected UTF-8 BOM (decode using utf-8-sig)"
  | .noValue => "Expecting value"
  | .noKey => "Expecting property name enclosed in double quotes"
  | .noColon => "Expecting ':' delimiter"
  | .noComma => "Expecting ',' delimiter"
  | .extraData => "Extra data"
  | .openText => "Unterminated string starting at"
  | .controlChar => "Invalid control character at"
  | .badEscape => "Invalid \\escape"
  | .badUnit => "Invalid \\uXXXX escape"

/-- The wording of a fault, with its line and its column, which count from one. -/
def Fault.message (text : List Char) (f : Fault) : String :=
  let front := text.take f.pos
  let line := front.count '\n' + 1
  let column := (front.reverse.takeWhile (· ≠ '\n')).length + 1
  f.cause.text ++ ": line " ++ toString line ++ " column " ++ toString column ++ " (char " ++ toString f.pos ++ ")"

/-! ## Tokens -/

/-- The marks of JSON. -/
inductive Mark where
  | openList | closeList | openMapping | closeMapping | colon | comma
  deriving DecidableEq, Repr

/-- What a token is. -/
inductive Lexeme where
  | mark (m : Mark)
  | text (s : String)
  | scalar (d : Data)
  /-- A text that cannot be read. -/
  | broken (f : Fault)
  | other

/-- A lexeme and the offset at which it starts. -/
structure Token where
  lexeme : Lexeme
  pos : Nat

/-- The mark that a character is. -/
def mark? : Char → Option Mark
  | '[' => some .openList
  | ']' => some .closeList
  | '\x7b' => some .openMapping
  | '\x7d' => some .closeMapping
  | ':' => some .colon
  | ',' => some .comma
  | _ => none

/-- A character that separates tokens. -/
def isSpace (c : Char) : Bool := c = ' ' || c = '\t' || c = '\n' || c = '\r'

/-! ## Texts -/

/-- The value of a digit in base sixteen. -/
def hexDigit? (c : Char) : Option Nat :=
  if c.isDigit then some (c.toNat - '0'.toNat)
  else if 'a' ≤ c && c ≤ 'f' then some (c.toNat - 'a'.toNat + 10)
  else if 'A' ≤ c && c ≤ 'F' then some (c.toNat - 'A'.toNat + 10)
  else none

/-- The number that digits in base sixteen write. -/
def hexValue? (digits : List Char) : Option Nat := digits.foldlM (fun n c => (hexDigit? c).map (16 * n + ·)) 0

/-- The UTF-16 unit that the first four of at least five characters write. -/
def unit? (cs : List Char) : Option Nat := if cs.length < 5 then none else hexValue? (cs.take 4)

/-- The character that a letter behind a backslash stands for. -/
def escape? : Char → Option Char
  | '"' => some '"'
  | '\\' => some '\\'
  | '/' => some '/'
  | 'b' => some '\x08'
  | 'f' => some '\x0c'
  | 'n' => some '\n'
  | 'r' => some '\r'
  | 't' => some '\t'
  | _ => none

/-- Reads a text from behind its opening quote, which is at `start`, through its closing quote. Gives the numbers of
the characters and how many characters were read. -/
def scanText (start pos : Nat) (cs : List Char) : Except Fault (List Nat × Nat) :=
  let further (n : Nat) (step : Nat) (r : Except Fault (List Nat × Nat)) := r.map fun p => (n :: p.1, p.2 + step)
  match cs with
  | [] => .error ⟨.openText, start⟩
  | '"' :: _ => .ok ([], 1)
  | ['\\'] => .error ⟨.openText, start⟩
  | '\\' :: 'u' :: cs =>
    match unit? cs with
    | some n => further n 6 (scanText start (pos + 6) (cs.drop 4))
    | none => .error ⟨.badUnit, pos + 1⟩
  | '\\' :: c :: cs =>
    match escape? c with
    | some e => further e.toNat 2 (scanText start (pos + 2) cs)
    | none => .error ⟨.badEscape, pos⟩
  | c :: cs =>
    if c.toNat < 0x20 then .error ⟨.controlChar, pos⟩ else further c.toNat 1 (scanText start (pos + 1) cs)
termination_by cs.length

/-- The character with a number. A surrogate unit that stands alone is none and gives the replacement character. -/
def charOf (n : Nat) : Char := if 0xD800 ≤ n && n < 0xE000 then '\uFFFD' else Char.ofNat n

/-- The characters with the given numbers, where two surrogate units make one character. -/
def joinUnits : List Nat → List Char
  | [] => []
  | [n] => [charOf n]
  | m :: n :: ns =>
    if 0xD800 ≤ m && m < 0xDC00 && 0xDC00 ≤ n && n < 0xE000 then
      Char.ofNat (0x10000 + (m - 0xD800) * 0x400 + (n - 0xDC00)) :: joinUnits ns
    else charOf m :: joinUnits (n :: ns)

/-! ## Other values -/

/-- The words that stand for a value. -/
def words : List (List Char × Data) :=
  [("null".toList, .null), ("true".toList, .flag true), ("false".toList, .flag false), ("NaN".toList, .decimal "nan"),
    ("Infinity".toList, .decimal "inf"), ("-Infinity".toList, .decimal "-inf")]

/-- Reads a word. -/
def scanWord (cs : List Char) : Option (Data × Nat) :=
  (words.find? fun w => w.1.isPrefixOf cs).map fun w => (w.2, w.1.length)

/-- The number that decimal digits write. -/
def decimalValue (digits : List Char) : Nat := digits.foldl (fun n c => 10 * n + (c.toNat - '0'.toNat)) 0

/-- The digits at the start, where a zero at the start is the only one. -/
def wholeDigits : List Char → List Char
  | '0' :: _ => ['0']
  | cs => cs.takeWhile Char.isDigit

/-- A point at the start and the digits behind it, if there are any. -/
def fractionChars : List Char → List Char
  | '.' :: cs =>
    match cs.takeWhile Char.isDigit with
    | [] => []
    | ds => '.' :: ds
  | _ => []

/-- The sign at the start. -/
def signChars : List Char → List Char
  | '+' :: _ => ['+']
  | '-' :: _ => ['-']
  | _ => []

/-- An exponent at the start. -/
def exponentChars : List Char → List Char
  | c :: cs =>
    let sign := signChars cs
    match (cs.drop sign.length).takeWhile Char.isDigit with
    | [] => []
    | ds => if c = 'e' || c = 'E' then c :: sign ++ ds else []
  | [] => []

/-- Reads a number. One with an exponent keeps its text. -/
def scanNumber (cs : List Char) : Option (Data × Nat) :=
  let negative := cs.head? = some '-'
  let body := if negative then cs.drop 1 else cs
  match wholeDigits body with
  | [] => none
  | whole =>
    let fraction := fractionChars (body.drop whole.length)
    let exponent := exponentChars (body.drop (whole.length + fraction.length))
    let size := (if negative then 1 else 0) + whole.length + fraction.length + exponent.length
    let value :=
      if !exponent.isEmpty then .decimal (String.ofList (cs.take size))
      else if !fraction.isEmpty then .ofDecimal negative (whole ++ fraction.drop 1) (fraction.length - 1)
      else .int (if negative then -decimalValue whole else decimalValue whole)
    some (value, size)

/-! ## The tokens of a text -/

/-- Reads a token at the given offset and says how many characters it has. -/
def scanLexeme (pos : Nat) (c : Char) (cs : List Char) : Lexeme × Nat :=
  if c = '"' then
    match scanText pos (pos + 1) cs with
    | .ok (units, size) => (.text (String.ofList (joinUnits units)), size + 1)
    | .error fault => (.broken fault, 1)
  else match mark? c with
    | some m => (.mark m, 1)
    | none =>
      match (scanWord (c :: cs)).or (scanNumber (c :: cs)) with
      | some (d, size) => (.scalar d, size)
      | none => (.other, 1)

/-- The tokens of a text that starts at the given offset. -/
def tokensFrom (pos : Nat) (cs : List Char) : List Token :=
  match cs with
  | [] => []
  | c :: cs =>
    if isSpace c then tokensFrom (pos + 1) cs
    else
      let (lexeme, size) := scanLexeme pos c cs
      ⟨lexeme, pos⟩ :: tokensFrom (pos + 1 + (size - 1)) (cs.drop (size - 1))
termination_by cs.length

/-- The tokens of a text. -/
def tokensOf (cs : List Char) : List Token := tokensFrom 0 cs

end SymbolDocs.Json
