import SymbolDocs.TypeExpr.Parser

/-!
# Type annotations

A `TypeSpec` is what a tag says about a type: the text of the expression, the names of its alternatives and its
outermost modifiers. An expression that cannot be read keeps its text as its only name.
-/

namespace SymbolDocs

open SymbolDocs.Text

/-- A type annotation, with its text as a fallback for a type that cannot be read. -/
structure TypeSpec where
  expression : String
  names : List String := []
  parsed : Option TypeExpr := none
  optional : Option Bool := none
  nullable : Option Bool := none
  repeatable : Option Bool := none

namespace TypeSpec

/-- `true` is stated, `false` is left out. -/
def stated (b : Bool) : Option Bool := if b then some true else none

/-- The annotation that a type makes, given the text it was read from. -/
def ofType (expression : String) (t : TypeExpr) : TypeSpec :=
  let plain : TypeSpec := { expression, names := t.alternatives, parsed := some t }
  match t with
  | .modified _ optional nullable repeatable =>
    { plain with optional := stated optional, nullable, repeatable := stated repeatable }
  | _ => plain

/-- The annotation for an expression that cannot be read. -/
def unread (expression : String) : TypeSpec :=
  { expression := strip expression, names := [strip expression] }

/-- The annotation that an expression makes. -/
def parse (expression : String) : Except TypeExpr.Fault TypeSpec :=
  (TypeExpr.parse expression).map (ofType (strip expression))

end TypeSpec
end SymbolDocs
