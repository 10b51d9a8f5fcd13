import SymbolDocs.TypeExpr.Parser

/-!
# Reading types with notes

Types are read by functions that call one another, one for each level of the syntax, and some of them have a loop.
`trackUnion` and the functions below it read as the functions of `TypeExpr.parse` do, and note in passing which
functions are at work whenever one is entered, and where each iteration of a loop starts and ends.
-/

namespace SymbolDocs.TypeExpr

/-! ## Notes -/

/-- The levels of the syntax, each of which has a reading function. -/
inductive Level where
  | union | modified | arrayed | primary | function | record
  deriving DecidableEq, Repr

/-- A reading function at work, with the tokens that were ahead when it was entered. -/
structure Visit where
  level : Level
  ahead : List Token

/-- What is noted while a type is read. -/
inductive Note where
  /-- A function is entered: its visit and those that wait for it, innermost first. -/
  | entered (stack : List Visit)
  /-- The loop of a function has come once around: the tokens ahead before and after. In a list with commas that is
  from the start to the end of one of its parts. -/
  | repeated (level : Level) (before after : List Token)

/-- What a reading function gives, and the notes up to there. -/
structure Traced (α : Type) where
  notes : List Note
  outcome : Except Fault α

namespace Traced

variable {α β : Type}

/-- Notes something. -/
def note (n : Note) : Traced Unit := { notes := [n], outcome := .ok () }

/-- What is given without notes. -/
def lift (x : Except Fault α) : Traced α := { notes := [], outcome := x }

/-- Goes on with what is given. After a fault nothing more is noted. -/
def andThen (x : Traced α) (f : α → Traced β) : Traced β :=
  match x.outcome with
  | .ok a => { notes := x.notes ++ (f a).notes, outcome := (f a).outcome }
  | .error fault => { notes := x.notes, outcome := .error fault }

instance : Monad Traced where
  pure a := lift (.ok a)
  bind := andThen

end Traced

open Traced

/-! ## Loops without further functions -/

/-- `readSuffixes` with notes. -/
def trackSuffixes (t : TypeExpr) (optional : Bool) (nullable : Option Bool) (tokens : List Token) :
    Traced ((Bool × Option Bool) × Tail tokens) :=
  match tokens with
  | ⟨.mark .equals, pos⟩ :: rest => do
    note (.repeated .modified (⟨.mark .equals, pos⟩ :: rest) rest)
    let (marks, ⟨tail, h⟩) ← trackSuffixes t true nullable rest
    pure (marks, ⟨tail, .step h⟩)
  | ⟨.mark .question, pos⟩ :: rest =>
    if nullable.isNone && !t.isUnknown then do
      note (.repeated .modified (⟨.mark .question, pos⟩ :: rest) rest)
      let (marks, ⟨tail, h⟩) ← trackSuffixes t optional (some true) rest
      pure (marks, ⟨tail, .step h⟩)
    else pure ((optional, nullable), ⟨⟨.mark .question, pos⟩ :: rest, .refl⟩)
  | ⟨.mark .bang, pos⟩ :: rest =>
    if nullable.isNone then do
      note (.repeated .modified (⟨.mark .bang, pos⟩ :: rest) rest)
      let (marks, ⟨tail, h⟩) ← trackSuffixes t optional (some false) rest
      pure (marks, ⟨tail, .step h⟩)
    else pure ((optional, nullable), ⟨⟨.mark .bang, pos⟩ :: rest, .refl⟩)
  | ts => pure ((optional, nullable), ⟨ts, .refl⟩)

/-- `modifyBy` with notes. -/
def trackModifyBy (t : TypeExpr) (nullable : Option Bool) (repeatable : Bool) (ts : List Token) :
    Traced (TypeExpr × Tail ts) := do
  let ((optional, nullable), tail) ← trackSuffixes t false nullable ts
  pure (t.modify optional nullable repeatable, tail)

/-- `readArrays` with notes. -/
def trackArrays (t : TypeExpr) (tokens : List Token) : Traced (TypeExpr × Tail tokens) :=
  match tokens with
  | ⟨.mark .openBracket, pos⟩ :: ⟨.mark .closeBracket, pos'⟩ :: rest => do
    note (.repeated .arrayed (⟨.mark .openBracket, pos⟩ :: ⟨.mark .closeBracket, pos'⟩ :: rest) rest)
    let (array, ⟨tail, h⟩) ← trackArrays (arrayOf t) rest
    pure (array, ⟨tail, .step (.step h)⟩)
  | ts => pure (t, ⟨ts, .refl⟩)

/-! ## Functions that call one another -/

mutual

/-- `readUnion` with notes. -/
def trackUnion (stack : List Visit) (stop : Nat) (ts : List Token) : Traced (TypeExpr × ShorterTail ts) := do
  note (.entered (⟨.union, ts⟩ :: stack))
  let (first, ⟨rest, h⟩) ← trackModified (⟨.union, ts⟩ :: stack) stop ts
  let (others, ⟨rest', h'⟩) ← trackAlternatives (⟨.union, ts⟩ :: stack) stop rest
  pure (ofAlternatives first others, ⟨rest', Nat.lt_of_le_of_lt h' h⟩)
termination_by 6 * ts.length + 4

/-- `readAlternatives` with notes. -/
def trackAlternatives (stack : List Visit) (stop : Nat) (tokens : List Token) :
    Traced (List TypeExpr × Tail tokens) :=
  match tokens with
  | ⟨.mark .bar, pos⟩ :: ts => do
    let (t, ⟨rest, h⟩) ← trackModified stack stop ts
    note (.repeated .union (⟨.mark .bar, pos⟩ :: ts) rest)
    let (others, ⟨rest', h'⟩) ← trackAlternatives stack stop rest
    pure (t :: others, ⟨rest', by simp only [List.length_cons]; omega⟩)
  | ts => pure ([], ⟨ts, Nat.le_refl _⟩)
termination_by 6 * tokens.length

/-- `readModified` with notes. -/
def trackModified (stack : List Visit) (stop : Nat) (tokens : List Token) :
    Traced (TypeExpr × ShorterTail tokens) :=
  note (.entered (⟨.modified, tokens⟩ :: stack)) >>= fun _ =>
  match tokens with
  | ⟨.mark .ellipsis, pos⟩ :: ts =>
    let stack := ⟨.modified, ⟨.mark .ellipsis, pos⟩ :: ts⟩ :: stack
    let (nullable, ⟨rest, h⟩) := readNullable ts
    if mayStart rest then do
      let (t, ⟨rest', h'⟩) ← trackArrayed stack stop rest
      let (t', ⟨rest'', h''⟩) ← trackModifyBy t nullable true rest'
      pure (t', ⟨rest'', by simp only [List.length_cons]; omega⟩)
    else do
      let (t', ⟨rest', h'⟩) ← trackModifyBy .all nullable true rest
      pure (t', ⟨rest', by simp only [List.length_cons]; omega⟩)
  | ts => do
    let (nullable, ⟨rest, h⟩) := readNullable ts
    let (t, ⟨rest', h'⟩) ← trackArrayed (⟨.modified, ts⟩ :: stack) stop rest
    let (t', ⟨rest'', h''⟩) ← trackModifyBy t nullable false rest'
    pure (t', ⟨rest'', by omega⟩)
termination_by 6 * tokens.length + 3

/-- `readPostfix` with notes. -/
def trackArrayed (stack : List Visit) (stop : Nat) (ts : List Token) : Traced (TypeExpr × ShorterTail ts) := do
  note (.entered (⟨.arrayed, ts⟩ :: stack))
  let (t, ⟨rest, h⟩) ← trackPrimary (⟨.arrayed, ts⟩ :: stack) stop ts
  let (array, ⟨rest', h'⟩) ← trackArrays t rest
  pure (array, ⟨rest', Nat.lt_of_le_of_lt h' h⟩)
termination_by 6 * ts.length + 2

/-- `readPrimary` with notes. -/
def trackPrimary (stack : List Visit) (stop : Nat) (tokens : List Token) : Traced (TypeExpr × ShorterTail tokens) :=
  note (.entered (⟨.primary, tokens⟩ :: stack)) >>= fun _ =>
  match tokens with
  | ⟨.mark .star, _⟩ :: ts => pure (.all, ⟨ts, by simp⟩)
  | ⟨.mark .question, _⟩ :: ts => pure (.unknown, ⟨ts, by simp⟩)
  | ⟨.mark .openParen, pos⟩ :: ts => do
    let (t, ⟨rest, h⟩) ← trackUnion (⟨.primary, ⟨.mark .openParen, pos⟩ :: ts⟩ :: stack) stop ts
    let ⟨rest', h'⟩ ← lift (expectMark stop .closeParen rest)
    pure (t, ⟨rest', by simp only [List.length_cons]; omega⟩)
  | ⟨.mark .openBrace, pos⟩ :: ⟨.mark .closeBrace, pos'⟩ :: ts => do
    let tokens := ⟨.mark .openBrace, pos⟩ :: ⟨.mark .closeBrace, pos'⟩ :: ts
    note (.entered (⟨.record, tokens⟩ :: ⟨.primary, tokens⟩ :: stack))
    pure (.record [], ⟨ts, by simp only [List.length_cons]; omega⟩)
  | ⟨.mark .openBrace, pos⟩ :: ts => do
    let tokens := ⟨.mark .openBrace, pos⟩ :: ts
    let stack := ⟨.record, tokens⟩ :: ⟨.primary, tokens⟩ :: stack
    note (.entered stack)
    let (fields, ⟨rest, h⟩) ← trackFields stack stop ts
    let ⟨rest', h'⟩ ← lift (expectMark stop .closeBrace rest)
    pure (.record fields, ⟨rest', by simp only [List.length_cons]; omega⟩)
  | ⟨.quoted text, _⟩ :: ts => pure (.literal text, ⟨ts, by simp⟩)
  | ⟨.number text, _⟩ :: ts => pure (.literal text, ⟨ts, by simp⟩)
  | ⟨.name path, pos⟩ :: ts =>
    let tokens := ⟨.name path, pos⟩ :: ts
    if path = "function" then
      let inner := ⟨.function, tokens⟩ :: ⟨.primary, tokens⟩ :: stack
      match ts with
      | ⟨.mark .openParen, _⟩ :: ⟨.mark .closeParen, _⟩ :: ts => do
        note (.entered inner)
        let (returns, ⟨rest, h⟩) ← trackReturns inner stop ts
        pure (ofParams [] returns, ⟨rest, by simp only [List.length_cons]; omega⟩)
      | ⟨.mark .openParen, _⟩ :: ts => do
        note (.entered inner)
        let (params, ⟨rest, h⟩) ← trackParams inner stop ts
        let ⟨rest', h'⟩ ← lift (expectMark stop .closeParen rest)
        let (returns, ⟨rest'', h''⟩) ← trackReturns inner stop rest'
        pure (ofParams params returns, ⟨rest'', by simp only [List.length_cons]; omega⟩)
      | ts => do
        let (t, ⟨rest, h⟩) ← trackArgs (⟨.primary, tokens⟩ :: stack) stop (.name path) ts
        pure (t, ⟨rest, by simp only [List.length_cons]; omega⟩)
    else if path = "null" then pure (.null, ⟨ts, by simp⟩)
    else if path = "undefined" then pure (.undefined, ⟨ts, by simp⟩)
    else do
      let (t, ⟨rest, h⟩) ← trackArgs (⟨.primary, tokens⟩ :: stack) stop (.name path) ts
      pure (t, ⟨rest, by simp only [List.length_cons]; omega⟩)
  | ts => lift (.error (unmet stop .type ts))
termination_by 6 * tokens.length + 1

/-- `readArgs` with notes. -/
def trackArgs (stack : List Visit) (stop : Nat) (base : TypeExpr) (tokens : List Token) :
    Traced (TypeExpr × Tail tokens) :=
  match tokens with
  | ⟨.mark .dotLess, _⟩ :: ts => do
    let (args, ⟨rest, h⟩) ← trackArgList stack stop ts
    let ⟨rest', h'⟩ ← lift (expectMark stop .greater rest)
    pure (.application base args, ⟨rest', by simp only [List.length_cons]; omega⟩)
  | ⟨.mark .less, _⟩ :: ts => do
    let (args, ⟨rest, h⟩) ← trackArgList stack stop ts
    let ⟨rest', h'⟩ ← lift (expectMark stop .greater rest)
    pure (.application base args, ⟨rest', by simp only [List.length_cons]; omega⟩)
  | ts => pure (base, ⟨ts, Nat.le_refl _⟩)
termination_by 6 * tokens.length

/-- `readArgList` with notes. -/
def trackArgList (stack : List Visit) (stop : Nat) (ts : List Token) :
    Traced (List TypeExpr × ShorterTail ts) := do
  let (t, ⟨rest, h⟩) ← trackUnion stack stop ts
  note (.repeated .primary ts rest)
  match rest, h with
  | ⟨.mark .comma, _⟩ :: rest, h => do
    have : rest.length < ts.length := by simp at h; omega
    let (others, ⟨rest', h'⟩) ← trackArgList stack stop rest
    pure (t :: others, ⟨rest', by omega⟩)
  | rest, h => pure ([t], ⟨rest, h⟩)
termination_by 6 * ts.length + 5

/-- `readReturns` with notes. -/
def trackReturns (stack : List Visit) (stop : Nat) (tokens : List Token) :
    Traced (Option TypeExpr × Tail tokens) :=
  match tokens with
  | ⟨.mark .colon, _⟩ :: ts => do
    let (t, ⟨rest, h⟩) ← trackModified stack stop ts
    pure (some t, ⟨rest, by simp only [List.length_cons]; omega⟩)
  | ts => pure (none, ⟨ts, Nat.le_refl _⟩)
termination_by 6 * tokens.length

/-- `readParam` with notes. -/
def trackParam (stack : List Visit) (stop : Nat) (tokens : List Token) : Traced (Param × ShorterTail tokens) :=
  match tokens with
  | ⟨.name "this", _⟩ :: ⟨.mark .colon, _⟩ :: ts => do
    let (t, ⟨rest, h⟩) ← trackUnion stack stop ts
    pure (.this t, ⟨rest, by simp only [List.length_cons]; omega⟩)
  | ⟨.name "new", _⟩ :: ⟨.mark .colon, _⟩ :: ts => do
    let (t, ⟨rest, h⟩) ← trackUnion stack stop ts
    pure (.new t, ⟨rest, by simp only [List.length_cons]; omega⟩)
  | ts => do
    let (t, tail) ← trackModified stack stop ts
    pure (.positional t, tail)
termination_by 6 * tokens.length + 4

/-- `readParams` with notes. -/
def trackParams (stack : List Visit) (stop : Nat) (ts : List Token) : Traced (List Param × ShorterTail ts) := do
  let (param, ⟨rest, h⟩) ← trackParam stack stop ts
  note (.repeated .function ts rest)
  match rest, h with
  | ⟨.mark .comma, _⟩ :: rest, h => do
    have : rest.length < ts.length := by simp at h; omega
    let (others, ⟨rest', h'⟩) ← trackParams stack stop rest
    pure (param :: others, ⟨rest', by omega⟩)
  | rest, h => pure ([param], ⟨rest, h⟩)
termination_by 6 * ts.length + 5

/-- `readField` with notes. -/
def trackField (stack : List Visit) (stop : Nat) (tokens : List Token) : Traced (TypeField × ShorterTail tokens) :=
  match tokens with
  | [] => lift (.error (unmet stop .key []))
  | token :: ts =>
    match keyText token.lexeme with
    | none => lift (.error (unmet stop .key (token :: ts)))
    | some key =>
      match ts with
      | ⟨.mark .colon, _⟩ :: ts => do
        let (t, ⟨rest, h⟩) ← trackUnion stack stop ts
        pure (.typed key t, ⟨rest, by simp only [List.length_cons]; omega⟩)
      | ts => pure (.bare key, ⟨ts, by simp⟩)
termination_by 6 * tokens.length + 4

/-- `readFields` with notes. -/
def trackFields (stack : List Visit) (stop : Nat) (ts : List Token) :
    Traced (List TypeField × ShorterTail ts) := do
  let (field, ⟨rest, h⟩) ← trackField stack stop ts
  note (.repeated .record ts rest)
  match rest, h with
  | ⟨.mark .comma, _⟩ :: rest, h => do
    have : rest.length < ts.length := by simp at h; omega
    let (others, ⟨rest', h'⟩) ← trackFields stack stop rest
    pure (field :: others, ⟨rest', by omega⟩)
  | rest, h => pure ([field], ⟨rest, h⟩)
termination_by 6 * ts.length + 5

end

/-- `ofTokens` with notes. -/
def trackTokens (stop : Nat) (tokens : List Token) : Traced TypeExpr :=
  match tokens with
  | [] => lift (.error (unmet stop .anything []))
  | ts => do
    let (t, ⟨rest, _⟩) ← trackUnion [] stop ts
    match rest with
    | [] => pure t
    | rest => lift (.error (unmet stop .finish rest))

end SymbolDocs.TypeExpr
