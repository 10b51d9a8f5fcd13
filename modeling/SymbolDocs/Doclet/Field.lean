import SymbolDocs.Doclet.Basic

/-!
# Fields of doclets by name

The fields that a tag definition can fill, as data: fields with a text, yes-or-no fields, and lists of tag values. An
effect may name any field and any datum. Covered are those that fit: a text, a yes or no, or a type for a field of this
kind, and values of tags for the lists of such values.
-/

namespace SymbolDocs

/-- The fields that hold one text. -/
inductive TextField where
  | name | longname | kind | memberof | description | summary | classdesc | access | borrowedFrom | since | version
  | aliasOf | lends | variation | defaultValue | inheritdoc | receiver | license | copyright
  deriving DecidableEq, Repr

/-- The fields that hold a yes or no. -/
inductive FlagField where
  | virtual | readonly | nullable | undocumented | ignore | isEnum | override | async | generator | hideconstructor
  deriving DecidableEq, Repr

/-- The fields that hold the values of tags, in the order of the tags. The lists of names, such as those of the events
that a symbol fires or listens to and of its templates, are not among them: only rules add to these. -/
inductive ListField where
  | params | properties | returns | yields | exceptions | implements | author | see | examples | todo | requires
  | tutorials
  deriving DecidableEq, Repr

/-- The fields that hold one value. -/
inductive ScalarField where
  | text (field : TextField)
  | flag (field : FlagField)
  | scope
  | type
  | deprecated
  deriving DecidableEq, Repr

namespace Doclet

/-- The text in a field. -/
def text (d : Doclet) : TextField → Option String
  | .name => d.name
  | .longname => d.longname
  | .kind => d.kind
  | .memberof => d.memberof
  | .description => d.description
  | .summary => d.summary
  | .classdesc => d.classdesc
  | .access => d.access
  | .borrowedFrom => d.borrowedFrom
  | .since => d.since
  | .version => d.version
  | .aliasOf => d.aliasOf
  | .lends => d.lends
  | .variation => d.variation
  | .defaultValue => d.defaultValue
  | .inheritdoc => d.inheritdoc
  | .receiver => d.receiver
  | .license => d.license
  | .copyright => d.copyright

/-- Puts a text into a field. -/
def setText (d : Doclet) (text : Option String) : TextField → Doclet
  | .name => { d with name := text }
  | .longname => { d with longname := text }
  | .kind => { d with kind := text }
  | .memberof => { d with memberof := text }
  | .description => { d with description := text }
  | .summary => { d with summary := text }
  | .classdesc => { d with classdesc := text }
  | .access => { d with access := text }
  | .borrowedFrom => { d with borrowedFrom := text }
  | .since => { d with since := text }
  | .version => { d with version := text }
  | .aliasOf => { d with aliasOf := text }
  | .lends => { d with lends := text }
  | .variation => { d with variation := text }
  | .defaultValue => { d with defaultValue := text }
  | .inheritdoc => { d with inheritdoc := text }
  | .receiver => { d with receiver := text }
  | .license => { d with license := text }
  | .copyright => { d with copyright := text }

/-- Puts a yes or no into a field. -/
def setFlag (d : Doclet) (b : Bool) : FlagField → Doclet
  | .virtual => { d with virtual := some b }
  | .readonly => { d with readonly := some b }
  | .nullable => { d with nullable := some b }
  | .undocumented => { d with undocumented := b }
  | .ignore => { d with ignore := b }
  | .isEnum => { d with isEnum := b }
  | .override => { d with override := some b }
  | .async => { d with async := some b }
  | .generator => { d with generator := some b }
  | .hideconstructor => { d with hideconstructor := some b }

/-- The values in a list. -/
def values (d : Doclet) : ListField → List TagValue
  | .params => d.params
  | .properties => d.properties
  | .returns => d.returns
  | .yields => d.yields
  | .exceptions => d.exceptions
  | .implements => d.implements
  | .author => d.author
  | .see => d.see
  | .examples => d.examples
  | .todo => d.todo
  | .requires => d.requires
  | .tutorials => d.tutorials

/-- Adds a value at the end of a list. -/
def appendValue (d : Doclet) (v : TagValue) : ListField → Doclet
  | .params => { d with params := d.params ++ [v] }
  | .properties => { d with properties := d.properties ++ [v] }
  | .returns => { d with returns := d.returns ++ [v] }
  | .yields => { d with yields := d.yields ++ [v] }
  | .exceptions => { d with exceptions := d.exceptions ++ [v] }
  | .implements => { d with implements := d.implements ++ [v] }
  | .author => { d with author := d.author ++ [v] }
  | .see => { d with see := d.see ++ [v] }
  | .examples => { d with examples := d.examples ++ [v] }
  | .todo => { d with todo := d.todo ++ [v] }
  | .requires => { d with requires := d.requires ++ [v] }
  | .tutorials => { d with tutorials := d.tutorials ++ [v] }

/-- Puts a datum into a field of its kind. Only effects whose datum is of the kind of the field are covered. A datum of
another kind is not stored here, though an effect may name one, and neither is any datum for the scope, for which
`Doclet.store` has a case of its own. -/
def assign (d : Doclet) (datum : Option Datum) : ScalarField → Doclet
  | .text field =>
    match datum with
    | some (.value (.text t)) => d.setText (some t) field
    | some _ => d
    | none => d.setText none field
  | .flag field =>
    match datum with
    | some (.flag b) => d.setFlag b field
    | _ => d
  | .scope => d
  | .type =>
    match datum with
    | some (.value (.type spec)) => { d with type := some spec }
    | some _ => d
    | none => { d with type := none }
  | .deprecated => { d with deprecated := datum }

theorem text_setText (d : Doclet) (t : Option String) (f : TextField) : (d.setText t f).text f = t := by
  cases f <;> rfl

theorem values_appendValue (d : Doclet) (v : TagValue) (f : ListField) :
    (d.appendValue v f).values f = d.values f ++ [v] := by
  cases f <;> rfl

theorem values_appendValue_of_ne (d : Doclet) (v : TagValue) {f g : ListField} (h : g ≠ f) :
    (d.appendValue v f).values g = d.values g := by
  cases f <;> cases g <;> first | rfl | exact absurd rfl h

end Doclet
end SymbolDocs
