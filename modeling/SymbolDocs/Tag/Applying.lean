import SymbolDocs.NamePath.Basic
import SymbolDocs.Tag.Reading

/-!
# Applying tags

`Effect.apply` is what one effect of a tag does to the doclet under construction. The effects of a tag are applied in
order up to the first one that fails (`runEffects`), and a tag without effects is stored as it is.

What the rules of a grammar do is a parameter (`Rules`): `Handler.apply` for the built-in ones, and any function for
others (`CustomRule`). What is said of a `Dictionary` whose type of rules is not named covers the built-in ones.
-/

namespace SymbolDocs

open SymbolDocs.Text

/-- What makes it impossible to build a doclet. -/
inductive Obstacle where
  /-- A value that is no scope. -/
  | scope (word : UnknownWord)
  /-- A rule that reads a text, for a tag whose value is none. -/
  | noText (title : String)
  /-- A doclet that has its place already. -/
  | placed (problem : Problem)
  /-- An error of a rule that is none of the built-in ones. -/
  | raised (error : String) (message : String)
  deriving DecidableEq, Repr

/-- The wording of an obstacle. -/
def Obstacle.message : Obstacle → String
  | .scope word => word.message
  | .noText title => "The rule of the @" ++ title ++ " tag reads a text"
  | .placed problem => problem.message
  | .raised _ message => message

/-- Why an effect fails. -/
inductive EffectFault where
  /-- The value of the tag is not what the effect needs. -/
  | value (problem : Problem)
  /-- The effect cannot be had at all. -/
  | fatal (obstacle : Obstacle)
  deriving DecidableEq, Repr

/-- The kinds that a tag may state by name. -/
def statableKinds : List String :=
  ["class", "constant", "event", "external", "file", "function", "interface", "member", "mixin", "module",
    "namespace", "typedef"]

namespace Doclet

/-- The problem that a tag has no value that fits the doclet. -/
def misfit (d : Doclet) (tag : Tag) (detail : String) : EffectFault :=
  .value (.tagValue tag.title detail d.construct)

/-- Sets the type, if one is given. -/
def setTypeIfSome (d : Doclet) (spec : Option TypeSpec) : Doclet := { d with type := spec.or d.type }

/-- Sets the name as a tag that also states the kind does, if a name is given. -/
def tagNameIfNonempty (d : Doclet) (name : Option String) : Doclet :=
  match nonempty name with
  | some n => d.tagName n
  | none => d

/-- States the kind, and takes name, type and description from the value of the tag. -/
def stateKind (d : Doclet) (tag : Tag) (kind : String) : Doclet :=
  let d := { d with kind := some kind }
  match tag.value with
  | some (.named v) =>
    let d := d.setTypeIfSome v.type
    let description := (nonempty d.description).or ((nonempty v.description).or d.description)
    let d := { d with description }
    d.tagNameIfNonempty v.name
  | some (.text t) => d.tagNameIfNonempty (some t)
  | _ => d

/-- Adds a modifier to the set. -/
def addModifier (d : Doclet) (modifier : String) : Doclet := { d with modifiers := d.modifiers.insert modifier }

end Doclet

/-- The source and target of a request `source as target`, of which the second part may be missing. -/
def borrow? (text : String) : Option Borrow :=
  match (pieces isBlank text.toList).map String.ofList with
  | [source] => some { source := source }
  | [source, "as", target] => some { source, target := some target }
  | _ => none

namespace Tag

/-- The text of a tag whose rule reads one. -/
def statedText (tag : Tag) : Except EffectFault String :=
  match tag.value with
  | some (.text t) => .ok t
  | _ => .error (.fatal (.noText tag.title))

/-- The text of a tag whose rule reads one, which may be missing. -/
def optionalText (tag : Tag) : Except EffectFault String :=
  match tag.value with
  | none => .ok ""
  | some _ => tag.statedText

end Tag

/-- What the rules of a type do. -/
class Rules (R : Type) where
  /-- The doclet that a rule makes of a doclet. -/
  apply (rule : R) (tag : Tag) (d : Doclet) : Except EffectFault Doclet
  /-- The doclet that a rule which fails leaves behind. It may have changed it before. -/
  leave (rule : R) (tag : Tag) (d : Doclet) : Doclet

/-- What a tag with a built-in rule of its own does. -/
def Handler.apply (tag : Tag) (d : Doclet) : Handler → Except EffectFault Doclet
  | .access =>
    let level := lower tag.valueText
    if (Access.all.map Access.word).contains level then .ok { d with access := some level }
    else .error (d.misfit tag ("has an unrecognized access level " ++ quoted tag.valueText))
  | .accessLevel level => .ok ({ d with access := some level.word }.setTypeIfSome tag.valueType)
  | .aliasOf => .ok ({ d with aliasOf := some tag.valueText }.withStatedName tag.valueText)
  | .augments => tag.statedText.map fun name => { d with declared.augments := addNew name d.declared.augments }
  | .mixes => tag.statedText.map fun name => { d with declared.mixes := addNew name d.declared.mixes }
  | .borrows =>
    tag.optionalText.bind fun text =>
      match borrow? text with
      | some request => .ok { d with declared.borrows := d.declared.borrows ++ [request] }
      | none => .error (d.misfit tag "expects `<source> as <target>`")
  | .callback =>
    .ok { { d with kind := some "typedef" }.tagNameIfNonempty (some tag.valueText) with
      type := some { expression := "function", names := ["function"] } }
  | .constant =>
    let d := { d with kind := some "constant" }
    match tag.value with
    | some (.named v) => .ok ((d.setTypeIfSome v.type).tagNameIfNonempty v.name)
    | _ => .ok d
  | .default => .ok { d with defaultValue := (nonempty (some tag.valueText)).or d.origin.codeValue }
  | .deprecated => .ok { d with deprecated := some ((tag.nonemptyValue.map Datum.value).getD (.flag true)) }
  | .enum =>
    .ok ({ d with isEnum := true, kind := (nonempty d.kind).or (some "member") }.setTypeIfSome tag.valueType)
  | .file =>
    let name := (nonempty d.origin.filename).or (nonempty d.name)
    let d := { d with kind := some "file", name := some (name.getD "") }.withStatedScope .global
    .ok { d with description := (nonempty (some tag.valueText)).or d.description }
  | .fires => tag.statedText.map fun path => { d with fires := addNew (NamePath.addNamespace path "event") d.fires }
  | .listens =>
    tag.statedText.map fun path => { d with listens := addNew (NamePath.addNamespace path "event") d.listens }
  | .scope s => .ok (d.withStatedScope s)
  | .inheritdoc => .ok { d with override := some true, inheritdoc := some "" }
  | .kind =>
    let kind := lower tag.valueText
    if statableKinds.contains kind then .ok { d with kind := some kind }
    else .error (d.misfit tag ("names an unknown kind " ++ quoted tag.valueText))
  | .lends => .ok { d with lends := some tag.valueText }
  | .requires =>
    tag.statedText.map fun name =>
      let name := if name.toList.contains ':' then name else modulePrefix ++ name
      { d with requires := d.requires ++ [.text name] }
  | .type =>
    match tag.valueType with
    | some spec => .ok { d with type := some spec, nullable := spec.nullable.or d.nullable }
    | none => .ok d
  | .define =>
    let d := { d with kind := some "constant" }
    match tag.value with
    | some (.named v) =>
      let d := d.setTypeIfSome v.type
      .ok { d with description := (nonempty v.description).or d.description }
    | _ => .ok d
  | .final => .ok { d.addModifier "final" with readonly := some true }
  | .template =>
    tag.optionalText.map fun text =>
      let names := (pieces (fun c => isBlank c || c = ',') text.toList).map String.ofList
      { d with templates := names.foldl (fun found name => addNew name found) d.templates }
where
  /-- Adds an item at the end of a list that does not have it. -/
  addNew (item : String) (items : List String) : List String :=
    if items.contains item then items else items ++ [item]

/-- The built-in rules leave a doclet alone if they fail. -/
instance : Rules Handler where
  apply handler tag d := handler.apply tag d
  leave _ _ d := d

/-- A rule of one's own: any function of the tag and the doclet. It gives the doclet as it leaves it, and the fault if
it fails. -/
structure CustomRule where
  run : Tag → Doclet → Doclet × Option EffectFault

instance : Rules CustomRule where
  apply rule tag d :=
    match rule.run tag d with
    | (d', none) => .ok d'
    | (_, some fault) => .error fault
  leave rule tag d := (rule.run tag d).1

/-- Rules of two types, such as the built-in ones and others. -/
instance {R S : Type} [Rules R] [Rules S] : Rules (R ⊕ S) where
  apply rule tag d := rule.elim (Rules.apply · tag d) (Rules.apply · tag d)
  leave rule tag d := rule.elim (Rules.leave · tag d) (Rules.leave · tag d)

/-- Stores a datum in a field. The fields that place a symbol need a value, and remember that a tag set them. As with
`Doclet.assign`, only data that fit the field are covered. -/
def Doclet.store (d : Doclet) (tag : Tag) (datum : Option Datum) (field : ScalarField) :
    Except EffectFault Doclet :=
  let text := match datum with
    | some (.value (.text t)) => t
    | _ => ""
  match field with
  | .text .name => if text.isEmpty then .error (d.misfit tag "requires a value") else .ok (d.withStatedName text)
  | .text .memberof => if text.isEmpty then .error (d.misfit tag "requires a value") else .ok (d.withStatedOwner text)
  | .scope =>
    if text.isEmpty then .error (d.misfit tag "requires a value")
    else match choose "Scope" Scope.ofWord? text with
      | .ok scope => .ok (d.withStatedScope scope)
      | .error word => .error (.fatal (.scope word))
  | field => .ok (d.assign datum field)

variable {R : Type}

/-- What one effect of a tag does. -/
def Effect.apply [Rules R] (tag : Tag) (d : Doclet) : Effect R → Except EffectFault Doclet
  | .store field fixed => d.store tag (fixed.or (tag.value.map .value)) field
  | .append field =>
    match tag.nonemptyValue with
    | some v => .ok (d.appendValue v field)
    | none => .ok d
  | .assign field datum => .ok (d.assign (some datum) field)
  | .addModifier modifier => .ok (d.addModifier modifier)
  | .stateKind kind => .ok (d.stateKind tag kind)
  | .rule r => Rules.apply r tag d

/-- The doclet that an effect which fails leaves behind. -/
def Effect.leave [Rules R] (tag : Tag) (d : Doclet) : Effect R → Doclet
  | .rule r => Rules.leave r tag d
  | _ => d

/-- An effect of a built-in grammar leaves the doclet alone if it fails. -/
@[simp]
theorem Effect.leave_builtIn (tag : Tag) (d : Doclet) (e : Effect) : e.leave tag d = d := by
  cases e <;> rfl

namespace Tag

/-- Applies effects in order. The first one that fails ends this, and what the ones before it did stays. -/
def runEffects [Rules R] (tag : Tag) : List (Effect R) → Doclet → Doclet × Option EffectFault
  | [], d => (d, none)
  | e :: es, d =>
    match e.apply tag d with
    | .ok d' => runEffects tag es d'
    | .error fault => (e.leave tag d, some fault)

/-- The effects that a dictionary gives a tag. -/
def effectsOf (dict : Dictionary R) (tag : Tag) : List (Effect R) :=
  let d := (dict.lookup (tag.originalTitle.getD tag.title)).or
    (if tag.title = "description" then some leadingDescription else none)
  (d.map (·.effects)).getD []

/-- Applies tags in order. A tag whose value does not fit makes a diagnostic; an obstacle ends this with an error. -/
def applyAll [Rules R] (dict : Dictionary R) (location : Location) :
    List Tag → Doclet → List Diagnostic × Except Obstacle Doclet
  | [], d => ([], .ok d)
  | tag :: tags, d =>
    match effectsOf dict tag with
    | [] => applyAll dict location tags (d.withTag tag)
    | effects =>
      match runEffects tag effects d with
      | (d', none) => applyAll dict location tags d'
      | (d', some (.value problem)) =>
        let (found, result) := applyAll dict location tags d'
        (.ofProblem problem location :: found, result)
      | (_, some (.fatal obstacle)) => ([], .error obstacle)

end Tag
end SymbolDocs
