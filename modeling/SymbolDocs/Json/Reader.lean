import SymbolDocs.Json.Token

/-!
# Reading JSON

`Json.read` gives the value that a text writes, or the first fault of the text. It goes through the tokens once and
keeps the lists and mappings that are still open on a stack.
-/

namespace SymbolDocs.Json

/-- An open list or mapping, with what it holds so far, the last item first. -/
inductive Frame where
  | list (items : List Data)
  /-- A mapping also has the key of the value that comes next. -/
  | mapping (entries : List DataEntry) (key : String)

/-- What has to come next. -/
inductive Expected where
  | value | firstItem | firstKey | key | colon | comma
  /-- Nothing: the value is complete. -/
  | finish (value : Data)

/-- How far the reading got: the open frames, the innermost first, and what has to come. -/
structure Progress where
  frames : List Frame := []
  expected : Expected := .value

namespace Progress

/-- Puts a complete value into the innermost frame. -/
def put (d : Data) : List Frame → Progress
  | [] => { expected := .finish d }
  | .list items :: frames => { frames := .list (d :: items) :: frames, expected := .comma }
  | .mapping entries key :: frames => { frames := .mapping (.entry key d :: entries) "" :: frames, expected := .comma }

/-- Takes the first token of a value. -/
def start (frames : List Frame) : Lexeme → Option Progress
  | .scalar d => some (put d frames)
  | .text s => some (put (.text s) frames)
  | .mark .openList => some { frames := .list [] :: frames, expected := .firstItem }
  | .mark .openMapping => some { frames := .mapping [] "" :: frames, expected := .firstKey }
  | _ => none

/-- Takes a key. -/
def startKey (entries : List DataEntry) (frames : List Frame) : Lexeme → Option Progress
  | .text key => some { frames := .mapping entries key :: frames, expected := .colon }
  | _ => none

/-- Takes what follows an item: a comma or the end. -/
def separate : List Frame → Lexeme → Option Progress
  | .list items :: frames, .mark .closeList => some (put (.list items.reverse) frames)
  | .list items :: frames, .mark .comma => some { frames := .list items :: frames, expected := .value }
  | .mapping entries _ :: frames, .mark .closeMapping => some (put (.mapping entries.reverse) frames)
  | .mapping entries key :: frames, .mark .comma => some { frames := .mapping entries key :: frames, expected := .key }
  | _, _ => none

/-- Takes a token, if it can come next. -/
def next? (p : Progress) (lexeme : Lexeme) : Option Progress :=
  match p.expected, p.frames with
  | .value, frames => start frames lexeme
  | .firstItem, .list items :: frames =>
    match lexeme with
    | .mark .closeList => some (put (.list items) frames)
    | _ => start (.list items :: frames) lexeme
  | .firstKey, .mapping entries _ :: frames =>
    match lexeme with
    | .mark .closeMapping => some (put (.mapping entries) frames)
    | _ => startKey entries frames lexeme
  | .key, .mapping entries _ :: frames => startKey entries frames lexeme
  | .colon, frames =>
    match lexeme with
    | .mark .colon => some { frames, expected := .value }
    | _ => none
  | .comma, frames => separate frames lexeme
  | _, _ => none

/-- What is wrong if something else comes. -/
def cause (p : Progress) : Cause :=
  match p.expected with
  | .value | .firstItem => .noValue
  | .firstKey | .key => .noKey
  | .colon => .noColon
  | .comma => .noComma
  | .finish _ => .extraData

/-- Whether a text may come next. -/
def awaitsText (p : Progress) : Bool := p.cause = .noValue || p.cause = .noKey

/-- The fault that a token is. -/
def faultAt (p : Progress) (token : Token) : Fault :=
  match token.lexeme with
  | .broken fault => if p.awaitsText then fault else ⟨p.cause, token.pos⟩
  | _ => ⟨p.cause, token.pos⟩

/-- Takes a token. -/
def step (p : Progress) (token : Token) : Except Fault Progress :=
  match p.next? token.lexeme with
  | some next => .ok next
  | none => .error (p.faultAt token)

/-- The value, if it is complete at the given end of the text. -/
def finish (p : Progress) (stop : Nat) : Except Fault Data :=
  match p.expected with
  | .finish d => .ok d
  | _ => .error ⟨p.cause, stop⟩

end Progress

/-- The value that characters write. -/
def readChars (cs : List Char) : Except Fault Data := do
  if cs.head? = some '\uFEFF' then throw ⟨.byteOrderMark, 0⟩
  let progress ← (tokensOf cs).foldlM Progress.step {}
  progress.finish cs.length

/-- The value that a text writes, or what is wrong with the text. -/
def read (text : String) : Except String Data := (readChars text.toList).mapError (Fault.message text.toList)

end SymbolDocs.Json
