import SymbolDocs.Data.Basic
import SymbolDocs.Doclet.Basic
import SymbolDocs.Text.Order

/-!
# Doclets as data

`Doclet.toData` is the published form of a doclet. Fields that say nothing are left out: missing and empty values,
and a no in a field that says no unless told otherwise. `Doclet.view` gives a single field for queries.
-/

namespace SymbolDocs

open SymbolDocs.Text

/-- A published field, and whether a no in it says nothing. -/
structure Published where
  key : String
  value : Data
  noIsDefault : Bool := false

namespace Published

/-- Whether a field says nothing. -/
def isVoid (f : Published) : Bool :=
  match f.value with
  | .null => true
  | .text s => s.isEmpty
  | .list items => items.isEmpty
  | .flag b => !b && f.noIsDefault
  | _ => false

/-- The mapping of the fields that say something. -/
def mapping (fields : List Published) : Data :=
  .mapping ((fields.filter (!·.isVoid)).map fun f => .entry f.key f.value)

end Published

/-- The published form of a type annotation. -/
def TypeSpec.toData (spec : TypeSpec) : Data :=
  Published.mapping [{ key := "expression", value := .text spec.expression },
    { key := "names", value := .ofTexts spec.names },
    { key := "optional", value := .ofFlag? spec.optional },
    { key := "nullable", value := .ofFlag? spec.nullable },
    { key := "variable", value := .ofFlag? spec.repeatable }]

/-- The published form of a structured value. -/
def NamedValue.toData (v : NamedValue) : Data :=
  Published.mapping [{ key := "type", value := (v.type.map TypeSpec.toData).getD .null },
    { key := "name", value := .ofText? v.name },
    { key := "description", value := .ofText? v.description },
    { key := "optional", value := .ofFlag? v.optional },
    { key := "default", value := .ofText? v.defaultValue },
    { key := "variable", value := .ofFlag? v.repeatable },
    { key := "nullable", value := .ofFlag? v.nullable }]

/-- The published form of a tag value. -/
def TagValue.toData : TagValue → Data
  | .text t => .text t
  | .type spec => spec.toData
  | .named v => v.toData

/-- The published form of a tag. -/
def Tag.toData (tag : Tag) : Data :=
  Published.mapping [{ key := "title", value := .text tag.title },
    { key := "text", value := .text tag.text },
    { key := "original_title", value := .ofText? tag.originalTitle },
    { key := "value", value := (tag.value.map TagValue.toData).getD .null }]

/-- The published form of a borrowing. -/
def Borrow.toData (b : Borrow) : Data :=
  Published.mapping [{ key := "source", value := .text b.source }, { key := "target", value := .ofText? b.target }]

/-- The published form of the links that tags ask for. -/
def Declared.toData (d : Declared) : Data :=
  if d.isEmpty then .null
  else Published.mapping [{ key := "augments", value := .ofTexts d.augments },
    { key := "mixes", value := .ofTexts d.mixes },
    { key := "borrows", value := .list (d.borrows.map Borrow.toData) }]

/-- The published form of an origin. -/
def Origin.toData (o : Origin) : Data :=
  Published.mapping [{ key := "filename", value := .ofText? o.filename },
    { key := "lineno", value := .ofInt? o.lineno },
    { key := "code_name", value := .ofText? o.codeName },
    { key := "code_type", value := .ofText? o.codeType },
    { key := "code_value", value := .ofText? o.codeValue },
    { key := "default_export", value := .flag o.defaultExport, noIsDefault := true }]

/-- The published form of a yes or no or of a tag value. -/
def Datum.toData : Datum → Data
  | .flag b => .flag b
  | .value v => v.toData

namespace Doclet

/-- The fields of a doclet, in the order of publication. -/
def published (d : Doclet) : List Published :=
  let values (vs : List TagValue) := Data.list (vs.map TagValue.toData)
  [{ key := "name", value := .ofText? d.name },
   { key := "longname", value := .ofText? d.longname },
   { key := "kind", value := .ofText? d.kind },
   { key := "scope", value := .ofText? (d.scope.map Scope.word) },
   { key := "memberof", value := .ofText? d.memberof },
   { key := "description", value := .ofText? d.description },
   { key := "summary", value := .ofText? d.summary },
   { key := "classdesc", value := .ofText? d.classdesc },
   { key := "tags", value := .list (d.tags.map Tag.toData) },
   { key := "params", value := values d.params },
   { key := "properties", value := values d.properties },
   { key := "returns", value := values d.returns },
   { key := "yields", value := values d.yields },
   { key := "exceptions", value := values d.exceptions },
   { key := "type", value := (d.type.map TypeSpec.toData).getD .null },
   { key := "access", value := .ofText? d.access },
   { key := "virtual", value := .ofFlag? d.virtual },
   { key := "readonly", value := .ofFlag? d.readonly },
   { key := "nullable", value := .ofFlag? d.nullable },
   { key := "undocumented", value := .flag d.undocumented, noIsDefault := true },
   { key := "ignore", value := .flag d.ignore, noIsDefault := true },
   { key := "listens", value := .ofTexts d.listens },
   { key := "listeners", value := .ofTexts d.listeners },
   { key := "fires", value := .ofTexts d.fires },
   { key := "borrowed", value := .list (d.borrowed.map Borrow.toData) },
   { key := "borrowed_from", value := .ofText? d.borrowedFrom },
   { key := "mixes", value := .ofTexts d.mixes },
   { key := "augments", value := .ofTexts d.augments },
   { key := "implements", value := values d.implements },
   { key := "author", value := values d.author },
   { key := "see", value := values d.see },
   { key := "examples", value := values d.examples },
   { key := "todo", value := values d.todo },
   { key := "requires", value := values d.requires },
   { key := "tutorials", value := values d.tutorials },
   { key := "templates", value := .ofTexts d.templates },
   { key := "since", value := .ofText? d.since },
   { key := "version", value := .ofText? d.version },
   { key := "deprecated", value := (d.deprecated.map Datum.toData).getD .null },
   { key := "alias", value := .ofText? d.aliasOf },
   { key := "lends", value := .ofText? d.lends },
   { key := "variation", value := .ofText? d.variation },
   { key := "defaultvalue", value := .ofText? d.defaultValue },
   { key := "is_enum", value := .flag d.isEnum, noIsDefault := true },
   { key := "override", value := .ofFlag? d.override },
   { key := "inheritdoc", value := .ofText? d.inheritdoc },
   { key := "this", value := .ofText? d.receiver },
   { key := "license", value := .ofText? d.license },
   { key := "copyright", value := .ofText? d.copyright },
   { key := "async", value := .ofFlag? d.async },
   { key := "generator", value := .ofFlag? d.generator },
   { key := "hideconstructor", value := .ofFlag? d.hideconstructor },
   { key := "modifiers", value := .ofTexts (sortTexts d.modifiers) },
   { key := "meta", value := d.origin.toData },
   { key := "comment", value := .text d.comment },
   { key := "declared", value := d.declared.toData },
   { key := "state", value := .text d.state.word }]

/-- The published form of a doclet. -/
def toData (d : Doclet) : Data := Published.mapping d.published

/-- Fields that no query can match. -/
def composite : List String := ["modifiers", "meta", "declared"]

/-- Facts about the construction of a doclet that can be asked for. -/
def flags (d : Doclet) : List (String × Bool) :=
  [("explicit_name", d.explicitName), ("tagged_name", d.taggedName), ("explicit_memberof", d.explicitMemberof),
    ("explicit_scope", d.explicitScope)]

/-- The value of a field in a query; null if there is no such field. -/
def view (d : Doclet) (key : String) : Data :=
  if composite.contains key then .mapping []
  else if key = "async_" then .ofFlag? d.async
  else if key = "async" then .null
  else match d.published.find? (·.key == key) with
    | some f => f.value
    | none => ((d.flags.lookup key).map Data.flag).getD .null

end Doclet
end SymbolDocs
