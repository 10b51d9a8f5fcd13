import SymbolDocs.Doclet.Field
import SymbolDocs.Text.Order

/-!
# Tag definitions

A definition says for a tag title which text it takes and which effects it has on the record of a symbol. The effects
are a closed set: fields are set, extended or marked, and the tags that do more follow a rule of their own. The type of
the rules is a parameter. Those of the built-in grammars are of the type `Handler`, which is meant where no other is
named; a grammar may bring any others.
-/

namespace SymbolDocs

/-- The shape of the text behind a tag title. -/
inductive ValueShape where
  | none | text | typeExpression | namePath | structured
  deriving DecidableEq, Repr

/-- The rules of the built-in tags that do more than fill a field. -/
inductive Handler where
  | access
  | accessLevel (level : Access)
  | aliasOf
  | augments
  | mixes
  | borrows
  | callback
  | constant
  | default
  | deprecated
  | enum
  | file
  | fires
  | listens
  | scope (scope : Scope)
  | inheritdoc
  | kind
  | lends
  | requires
  | type
  | define
  | final
  | template
  deriving DecidableEq, Repr

/-- What a tag does to the record under construction. The fields and data are those that `Doclet.assign` and
`Doclet.appendValue` cover. -/
inductive Effect (R : Type := Handler) where
  /-- Stores the given datum, or else the value of the tag. -/
  | store (field : ScalarField) (fixed : Option Datum)
  /-- Adds the value of the tag to a list, unless it is missing or the empty text. -/
  | append (field : ListField)
  /-- Puts the given datum into a field, whatever the value of the tag is. -/
  | assign (field : ScalarField) (datum : Datum)
  | addModifier (modifier : String)
  /-- States the kind of the symbol. -/
  | stateKind (kind : String)
  /-- Follows a rule of its own. -/
  | rule (rule : R)

/-- The grammar of one tag. -/
structure Definition (R : Type := Handler) where
  name : String
  synonyms : List String := []
  shape : ValueShape := .text
  mustHaveValue : Bool := false
  mustNotHaveValue : Bool := false
  effects : List (Effect R) := []
  isNamespace : Bool := false
  prefixesLongname : Bool := false
  keepsWhitespace : Bool := false
  named : Bool := false

namespace Definition

variable {R : Type}

/-- Whether each use of the tag adds a value. -/
def repeatable (d : Definition R) : Bool := d.effects.any fun | .append _ => true | _ => false

/-- The synonyms, each once and in order. -/
def sortedSynonyms (d : Definition R) : List String := Text.sortTexts d.synonyms.eraseDups

/-- The titles that the definition answers to. -/
def titles (d : Definition R) : List String := d.name :: d.sortedSynonyms

end Definition
end SymbolDocs
