/-!
# Type expressions

The types that a documentation tag can state, and their canonical text. `render` writes unions in parentheses,
applications with `.<` and modifiers in the fixed order repeatable, nullable, type, optional.
-/

namespace SymbolDocs

mutual

/-- A type. -/
inductive TypeExpr where
  /-- A symbol, by name or by name path. -/
  | name (path : String)
  /-- Any type, `*`. -/
  | all
  /-- An unknown type, `?`. -/
  | unknown
  | null
  | undefined
  /-- A quoted text or a number that stands for itself. -/
  | literal (text : String)
  | union (elements : List TypeExpr)
  /-- A generic type with its arguments. -/
  | application (base : TypeExpr) (args : List TypeExpr)
  | function (params : List TypeExpr) (returns this new : Option TypeExpr)
  | record (fields : List TypeField)
  /-- A type marked optional (`=`), nullable (`?`) or not nullable (`!`), or repeatable (`...`). -/
  | modified (inner : TypeExpr) (optional : Bool) (nullable : Option Bool) (repeatable : Bool)

/-- A field of a record type, with or without a type of its own. -/
inductive TypeField where
  | bare (key : String)
  | typed (key : String) (value : TypeExpr)

end

instance : Inhabited TypeExpr := ⟨.all⟩

/-- The key of a record field. -/
def TypeField.key : TypeField → String
  | .bare key => key
  | .typed key _ => key

namespace TypeExpr

/-! ## Canonical text -/

/-- Sequences put together with a separator between any two. -/
def separate {α : Type} (sep : List α) : List (List α) → List α
  | [] => []
  | [t] => t
  | t :: u :: ts => t ++ sep ++ separate sep (u :: ts)

/-- The marks that stand in front of a modified type. -/
def leadingMarks (nullable : Option Bool) (repeatable : Bool) : List Char :=
  (if repeatable then ['.', '.', '.'] else []) ++
    match nullable with
    | some true => ['?']
    | some false => ['!']
    | none => []

mutual

/-- The canonical text of a type. -/
def render : TypeExpr → List Char
  | .name path => path.toList
  | .all => ['*']
  | .unknown => ['?']
  | .null => ['n', 'u', 'l', 'l']
  | .undefined => ['u', 'n', 'd', 'e', 'f', 'i', 'n', 'e', 'd']
  | .literal text => text.toList
  | .union elements => '(' :: separate ['|'] (renderAll elements) ++ [')']
  | .application base args => render base ++ '.' :: '<' :: separate [',', ' '] (renderAll args) ++ ['>']
  | .function params returns this new =>
    let parts := renderLabelled ['t', 'h', 'i', 's', ':'] this ++ renderLabelled ['n', 'e', 'w', ':'] new ++
      renderAll params
    ['f', 'u', 'n', 'c', 't', 'i', 'o', 'n', '('] ++ separate [',', ' '] parts ++
      ')' :: (renderLabelled [':', ' '] returns).flatten
  | .record fields => '{' :: separate [',', ' '] (renderFields fields) ++ ['}']
  | .modified inner optional nullable repeatable =>
    leadingMarks nullable repeatable ++ render inner ++ if optional then ['='] else []

/-- The canonical texts of several types. -/
def renderAll : List TypeExpr → List (List Char)
  | [] => []
  | t :: ts => render t :: renderAll ts

/-- The canonical text of a type that may be absent, after a label. -/
def renderLabelled (label : List Char) : Option TypeExpr → List (List Char)
  | none => []
  | some t => [label ++ render t]

/-- The canonical text of a record field. -/
def renderField : TypeField → List Char
  | .bare key => key.toList
  | .typed key value => key.toList ++ ':' :: ' ' :: render value

/-- The canonical texts of several record fields. -/
def renderFields : List TypeField → List (List Char)
  | [] => []
  | f :: fs => renderField f :: renderFields fs

end

/-- The canonical text of a type, as a string. -/
def toText (t : TypeExpr) : String := String.ofList t.render

theorem renderAll_eq_map (ts : List TypeExpr) : renderAll ts = ts.map render := by
  induction ts with
  | nil => rfl
  | cons t ts ih => simp [renderAll, ih]

theorem renderFields_eq_map (fs : List TypeField) : renderFields fs = fs.map renderField := by
  induction fs with
  | nil => rfl
  | cons f fs ih => simp [renderFields, ih]

/-! ## Views -/

/-- The type without its outermost modifiers. -/
def bare : TypeExpr → TypeExpr
  | .modified inner _ _ _ => inner
  | t => t

/-- The texts of the alternatives of a type, each without modifiers: those of a union, or the type alone. -/
def alternatives (t : TypeExpr) : List String :=
  match t.bare with
  | .union elements => elements.map fun e => e.bare.toText
  | e => [e.toText]

/-- Whether the type is the unknown type. -/
def isUnknown : TypeExpr → Bool
  | .unknown => true
  | _ => false

/-- One type stands for itself, several make a union. -/
def ofAlternatives (first : TypeExpr) : List TypeExpr → TypeExpr
  | [] => first
  | others => .union (first :: others)

/-- The type of arrays with elements of the given type. -/
def arrayOf (element : TypeExpr) : TypeExpr := .application (.name "Array") [element]

/-- The type with modifiers, or the type itself when there are none. -/
def modify (t : TypeExpr) (optional : Bool) (nullable : Option Bool) (repeatable : Bool) : TypeExpr :=
  if repeatable || optional || nullable.isSome then .modified t optional nullable repeatable else t

end TypeExpr
end SymbolDocs
