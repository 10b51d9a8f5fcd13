import SymbolDocs.TypeExpr.Basic
import SymbolDocs.TypeExpr.Token

/-!
# Reading type expressions

`TypeExpr.parse` reads the type that a text states. Each reading function takes the tokens ahead and gives the rest
of them together with a proof of how much was consumed: a type takes at least one token, a list of alternatives,
arguments or fields may take none.
-/

namespace SymbolDocs.TypeExpr

open SymbolDocs.Text

/-- What is left of some tokens. -/
abbrev Tail (ts : List Token) := { rest : List Token // rest.length ≤ ts.length }

/-- What is left of some tokens after at least one was taken. -/
abbrev ShorterTail (ts : List Token) := { rest : List Token // rest.length < ts.length }

/-- The tokens ahead do not meet an expectation; `stop` is the offset of the end of the text. -/
def unmet (stop : Nat) (expectation : Expectation) (ts : List Token) : Fault := .unmet expectation ts.head? stop

/-- Whether the tokens ahead can start a type. -/
def mayStart : List Token → Bool
  | ⟨.name _, _⟩ :: _ => true
  | ⟨.quoted _, _⟩ :: _ => true
  | ⟨.number _, _⟩ :: _ => true
  | ⟨.mark .star, _⟩ :: _ => true
  | ⟨.mark .openParen, _⟩ :: _ => true
  | ⟨.mark .openBrace, _⟩ :: _ => true
  | ⟨.mark .question, _⟩ :: _ => true
  | ⟨.mark .bang, _⟩ :: _ => true
  | _ => false

/-- Takes a mark, which has to be ahead. -/
def expectMark (stop : Nat) (m : Mark) (ts : List Token) : Except Fault (ShorterTail ts) :=
  match ts with
  | ⟨.mark m', pos⟩ :: rest =>
    if m' = m then .ok ⟨rest, by simp⟩ else .error (unmet stop (.mark m) (⟨.mark m', pos⟩ :: rest))
  | ts => .error (unmet stop (.mark m) ts)

/-! ## Modifiers -/

/-- Takes a mark of nullability in front of a type. A question mark counts only if a type follows it. -/
def readNullable (ts : List Token) : Option Bool × Tail ts :=
  match ts with
  | ⟨.mark .question, pos⟩ :: rest =>
    if mayStart rest then (some true, ⟨rest, by simp⟩)
    else (none, ⟨⟨.mark .question, pos⟩ :: rest, Nat.le_refl _⟩)
  | ⟨.mark .bang, _⟩ :: rest => (some false, ⟨rest, by simp⟩)
  | ts => (none, ⟨ts, Nat.le_refl _⟩)

/-- Takes the marks behind the type `t`: `=` any number of times, and one mark of nullability unless there was one
before. -/
def readSuffixes (t : TypeExpr) (optional : Bool) (nullable : Option Bool) (ts : List Token) :
    (Bool × Option Bool) × Tail ts :=
  match ts with
  | ⟨.mark .equals, _⟩ :: rest =>
    let (marks, ⟨tail, h⟩) := readSuffixes t true nullable rest
    (marks, ⟨tail, Nat.le_succ_of_le h⟩)
  | ⟨.mark .question, pos⟩ :: rest =>
    if nullable.isNone && !t.isUnknown then
      let (marks, ⟨tail, h⟩) := readSuffixes t optional (some true) rest
      (marks, ⟨tail, Nat.le_succ_of_le h⟩)
    else ((optional, nullable), ⟨⟨.mark .question, pos⟩ :: rest, Nat.le_refl _⟩)
  | ⟨.mark .bang, pos⟩ :: rest =>
    if nullable.isNone then
      let (marks, ⟨tail, h⟩) := readSuffixes t optional (some false) rest
      (marks, ⟨tail, Nat.le_succ_of_le h⟩)
    else ((optional, nullable), ⟨⟨.mark .bang, pos⟩ :: rest, Nat.le_refl _⟩)
  | ts => ((optional, nullable), ⟨ts, Nat.le_refl _⟩)

/-- Takes the marks behind a type and puts all its modifiers around it. -/
def modifyBy (t : TypeExpr) (nullable : Option Bool) (repeatable : Bool) (ts : List Token) : TypeExpr × Tail ts :=
  let ((optional, nullable), tail) := readSuffixes t false nullable ts
  (t.modify optional nullable repeatable, tail)

/-- Takes pairs of brackets, each of which makes an array type. -/
def readArrays (t : TypeExpr) (ts : List Token) : TypeExpr × Tail ts :=
  match ts with
  | ⟨.mark .openBracket, _⟩ :: ⟨.mark .closeBracket, _⟩ :: rest =>
    let (array, ⟨tail, h⟩) := readArrays (arrayOf t) rest
    (array, ⟨tail, Nat.le_succ_of_le (Nat.le_succ_of_le h)⟩)
  | ts => (t, ⟨ts, Nat.le_refl _⟩)

/-! ## Types -/

/-- A part of a parameter list: a parameter, or the type of `this` or of the constructed object. -/
inductive Param where
  | positional (type : TypeExpr)
  | this (type : TypeExpr)
  | new (type : TypeExpr)

/-- The function type with the given parameter list; of several types of `this` the last one counts. -/
def ofParams (params : List Param) (returns : Option TypeExpr) : TypeExpr :=
  .function (params.filterMap fun | .positional t => some t | _ => none) returns
    (params.reverse.findSome? fun | .this t => some t | _ => none)
    (params.reverse.findSome? fun | .new t => some t | _ => none)

/-- The text of a key of a record type, if the token can be one. -/
def keyText : Lexeme → Option String
  | .name text => some text
  | .quoted text => some text
  | .number text => some text
  | .mark _ => none

mutual

/-- Reads a type, which may be a union without parentheses. -/
def readUnion (stop : Nat) (ts : List Token) : Except Fault (TypeExpr × ShorterTail ts) := do
  let (first, ⟨rest, h⟩) ← readModified stop ts
  let (others, ⟨rest', h'⟩) ← readAlternatives stop rest
  pure (ofAlternatives first others, ⟨rest', Nat.lt_of_le_of_lt h' h⟩)
termination_by 6 * ts.length + 4

/-- Reads the further alternatives of a union. -/
def readAlternatives (stop : Nat) (ts : List Token) : Except Fault (List TypeExpr × Tail ts) :=
  match ts with
  | ⟨.mark .bar, _⟩ :: ts => do
    let (t, ⟨rest, h⟩) ← readModified stop ts
    let (others, ⟨rest', h'⟩) ← readAlternatives stop rest
    pure (t :: others, ⟨rest', by simp only [List.length_cons]; omega⟩)
  | ts => pure ([], ⟨ts, Nat.le_refl _⟩)
termination_by 6 * ts.length

/-- Reads a type with its modifiers. A repeatable mark alone stands for any type. -/
def readModified (stop : Nat) (ts : List Token) : Except Fault (TypeExpr × ShorterTail ts) :=
  match ts with
  | ⟨.mark .ellipsis, _⟩ :: ts =>
    let (nullable, ⟨rest, h⟩) := readNullable ts
    if mayStart rest then do
      let (t, ⟨rest', h'⟩) ← readPostfix stop rest
      let (t', ⟨rest'', h''⟩) := modifyBy t nullable true rest'
      pure (t', ⟨rest'', by simp only [List.length_cons]; omega⟩)
    else
      let (t', ⟨rest', h'⟩) := modifyBy .all nullable true rest
      pure (t', ⟨rest', by simp only [List.length_cons]; omega⟩)
  | ts => do
    let (nullable, ⟨rest, h⟩) := readNullable ts
    let (t, ⟨rest', h'⟩) ← readPostfix stop rest
    let (t', ⟨rest'', h''⟩) := modifyBy t nullable false rest'
    pure (t', ⟨rest'', by omega⟩)
termination_by 6 * ts.length + 3

/-- Reads a type with its pairs of brackets. -/
def readPostfix (stop : Nat) (ts : List Token) : Except Fault (TypeExpr × ShorterTail ts) := do
  let (t, ⟨rest, h⟩) ← readPrimary stop ts
  let (array, ⟨rest', h'⟩) := readArrays t rest
  pure (array, ⟨rest', Nat.lt_of_le_of_lt h' h⟩)
termination_by 6 * ts.length + 2

/-- Reads a type that starts with its own first token. -/
def readPrimary (stop : Nat) (ts : List Token) : Except Fault (TypeExpr × ShorterTail ts) :=
  match ts with
  | ⟨.mark .star, _⟩ :: ts => pure (.all, ⟨ts, by simp⟩)
  | ⟨.mark .question, _⟩ :: ts => pure (.unknown, ⟨ts, by simp⟩)
  | ⟨.mark .openParen, _⟩ :: ts => do
    let (t, ⟨rest, h⟩) ← readUnion stop ts
    let ⟨rest', h'⟩ ← expectMark stop .closeParen rest
    pure (t, ⟨rest', by simp only [List.length_cons]; omega⟩)
  | ⟨.mark .openBrace, _⟩ :: ⟨.mark .closeBrace, _⟩ :: ts =>
    pure (.record [], ⟨ts, by simp only [List.length_cons]; omega⟩)
  | ⟨.mark .openBrace, _⟩ :: ts => do
    let (fields, ⟨rest, h⟩) ← readFields stop ts
    let ⟨rest', h'⟩ ← expectMark stop .closeBrace rest
    pure (.record fields, ⟨rest', by simp only [List.length_cons]; omega⟩)
  | ⟨.quoted text, _⟩ :: ts => pure (.literal text, ⟨ts, by simp⟩)
  | ⟨.number text, _⟩ :: ts => pure (.literal text, ⟨ts, by simp⟩)
  | ⟨.name path, _⟩ :: ts =>
    if path = "function" then
      match ts with
      | ⟨.mark .openParen, _⟩ :: ⟨.mark .closeParen, _⟩ :: ts => do
        let (returns, ⟨rest, h⟩) ← readReturns stop ts
        pure (ofParams [] returns, ⟨rest, by simp only [List.length_cons]; omega⟩)
      | ⟨.mark .openParen, _⟩ :: ts => do
        let (params, ⟨rest, h⟩) ← readParams stop ts
        let ⟨rest', h'⟩ ← expectMark stop .closeParen rest
        let (returns, ⟨rest'', h''⟩) ← readReturns stop rest'
        pure (ofParams params returns, ⟨rest'', by simp only [List.length_cons]; omega⟩)
      | ts => do
        let (t, ⟨rest, h⟩) ← readArgs stop (.name path) ts
        pure (t, ⟨rest, by simp only [List.length_cons]; omega⟩)
    else if path = "null" then pure (.null, ⟨ts, by simp⟩)
    else if path = "undefined" then pure (.undefined, ⟨ts, by simp⟩)
    else do
      let (t, ⟨rest, h⟩) ← readArgs stop (.name path) ts
      pure (t, ⟨rest, by simp only [List.length_cons]; omega⟩)
  | ts => throw (unmet stop .type ts)
termination_by 6 * ts.length + 1

/-- Reads the type arguments of `base`, if there are any. -/
def readArgs (stop : Nat) (base : TypeExpr) (ts : List Token) : Except Fault (TypeExpr × Tail ts) :=
  match ts with
  | ⟨.mark .dotLess, _⟩ :: ts => do
    let (args, ⟨rest, h⟩) ← readArgList stop ts
    let ⟨rest', h'⟩ ← expectMark stop .greater rest
    pure (.application base args, ⟨rest', by simp only [List.length_cons]; omega⟩)
  | ⟨.mark .less, _⟩ :: ts => do
    let (args, ⟨rest, h⟩) ← readArgList stop ts
    let ⟨rest', h'⟩ ← expectMark stop .greater rest
    pure (.application base args, ⟨rest', by simp only [List.length_cons]; omega⟩)
  | ts => pure (base, ⟨ts, Nat.le_refl _⟩)
termination_by 6 * ts.length

/-- Reads types between commas. -/
def readArgList (stop : Nat) (ts : List Token) : Except Fault (List TypeExpr × ShorterTail ts) := do
  let (t, ⟨rest, h⟩) ← readUnion stop ts
  match rest, h with
  | ⟨.mark .comma, _⟩ :: rest, h => do
    have : rest.length < ts.length := by simp at h; omega
    let (others, ⟨rest', h'⟩) ← readArgList stop rest
    pure (t :: others, ⟨rest', by omega⟩)
  | rest, h => pure ([t], ⟨rest, h⟩)
termination_by 6 * ts.length + 5

/-- Reads the result type of a function, if there is one. -/
def readReturns (stop : Nat) (ts : List Token) : Except Fault (Option TypeExpr × Tail ts) :=
  match ts with
  | ⟨.mark .colon, _⟩ :: ts => do
    let (t, ⟨rest, h⟩) ← readModified stop ts
    pure (some t, ⟨rest, by simp only [List.length_cons]; omega⟩)
  | ts => pure (none, ⟨ts, Nat.le_refl _⟩)
termination_by 6 * ts.length

/-- Reads one part of a parameter list. -/
def readParam (stop : Nat) (ts : List Token) : Except Fault (Param × ShorterTail ts) :=
  match ts with
  | ⟨.name "this", _⟩ :: ⟨.mark .colon, _⟩ :: ts => do
    let (t, ⟨rest, h⟩) ← readUnion stop ts
    pure (.this t, ⟨rest, by simp only [List.length_cons]; omega⟩)
  | ⟨.name "new", _⟩ :: ⟨.mark .colon, _⟩ :: ts => do
    let (t, ⟨rest, h⟩) ← readUnion stop ts
    pure (.new t, ⟨rest, by simp only [List.length_cons]; omega⟩)
  | ts => do
    let (t, tail) ← readModified stop ts
    pure (.positional t, tail)
termination_by 6 * ts.length + 4

/-- Reads parameters between commas. -/
def readParams (stop : Nat) (ts : List Token) : Except Fault (List Param × ShorterTail ts) := do
  let (param, ⟨rest, h⟩) ← readParam stop ts
  match rest, h with
  | ⟨.mark .comma, _⟩ :: rest, h => do
    have : rest.length < ts.length := by simp at h; omega
    let (others, ⟨rest', h'⟩) ← readParams stop rest
    pure (param :: others, ⟨rest', by omega⟩)
  | rest, h => pure ([param], ⟨rest, h⟩)
termination_by 6 * ts.length + 5

/-- Reads one field of a record type. -/
def readField (stop : Nat) (ts : List Token) : Except Fault (TypeField × ShorterTail ts) :=
  match ts with
  | [] => throw (unmet stop .key [])
  | token :: ts =>
    match keyText token.lexeme with
    | none => throw (unmet stop .key (token :: ts))
    | some key =>
      match ts with
      | ⟨.mark .colon, _⟩ :: ts => do
        let (t, ⟨rest, h⟩) ← readUnion stop ts
        pure (.typed key t, ⟨rest, by simp only [List.length_cons]; omega⟩)
      | ts => pure (.bare key, ⟨ts, by simp⟩)
termination_by 6 * ts.length + 4

/-- Reads record fields between commas. -/
def readFields (stop : Nat) (ts : List Token) : Except Fault (List TypeField × ShorterTail ts) := do
  let (field, ⟨rest, h⟩) ← readField stop ts
  match rest, h with
  | ⟨.mark .comma, _⟩ :: rest, h => do
    have : rest.length < ts.length := by simp at h; omega
    let (others, ⟨rest', h'⟩) ← readFields stop rest
    pure (field :: others, ⟨rest', by omega⟩)
  | rest, h => pure ([field], ⟨rest, h⟩)
termination_by 6 * ts.length + 5

end

/-- Reads the type that all the tokens together state. -/
def ofTokens (stop : Nat) (ts : List Token) : Except Fault TypeExpr :=
  match ts with
  | [] => throw (unmet stop .anything [])
  | ts => do
    let (t, ⟨rest, _⟩) ← readUnion stop ts
    match rest with
    | [] => pure t
    | rest => throw (unmet stop .finish rest)

/-- Reads the type that a text states, blanks around it aside. -/
def parse (expression : String) : Except Fault TypeExpr := do
  let cs := trim expression.toList
  ofTokens cs.length (← tokensOf cs)

end SymbolDocs.TypeExpr
