import SymbolDocs.TypeExpr.Spec

/-!
# Tag values

What the text of a tag means once it is read: plain text (also a name path), a type annotation, or a structured value
with a type, a name and a description.
-/

namespace SymbolDocs

/-- The value of a tag of the form `{type} [name=default] - description`. -/
structure NamedValue where
  type : Option TypeSpec := none
  name : Option String := none
  description : Option String := none
  optional : Option Bool := none
  defaultValue : Option String := none
  repeatable : Option Bool := none
  nullable : Option Bool := none

/-- The value of a tag. -/
inductive TagValue where
  | text (text : String)
  | type (spec : TypeSpec)
  | named (value : NamedValue)

/-- A tag of a comment with its value. The title is that of the tag's definition, `originalTitle` the one in the
comment. -/
structure Tag where
  title : String
  text : String := ""
  originalTitle : Option String := none
  value : Option TagValue := none

namespace TagValue

/-- The text of a value that is plain text. -/
def text? : TagValue → Option String
  | .text t => some t
  | _ => none

/-- The type annotation that a value consists of. -/
def type? : TagValue → Option TypeSpec
  | .type spec => some spec
  | _ => none

/-- Whether a value is the empty text. -/
def isEmptyText : TagValue → Bool
  | .text t => t.isEmpty
  | _ => false

end TagValue

namespace Tag

/-- The text of a tag whose value is plain text, and the empty text for any other tag. -/
def valueText (tag : Tag) : String := (tag.value.bind TagValue.text?).getD ""

/-- The type annotation that is the value of a tag. -/
def valueType (tag : Tag) : Option TypeSpec := tag.value.bind TagValue.type?

/-- The value of a tag, unless it is missing or the empty text. -/
def nonemptyValue (tag : Tag) : Option TagValue := tag.value.filter (!·.isEmptyText)

end Tag
end SymbolDocs
