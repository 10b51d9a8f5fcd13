import SymbolDocs.Comment.Body
import SymbolDocs.Comment.RawTag
import SymbolDocs.Diagnostic.Reporter
import SymbolDocs.Tag.Dictionary
import SymbolDocs.Tag.Scan

/-!
# Reading tags

`readValue` takes the text of a tag to a value, as the definition of the tag says. `readComment` reads all tags of a
comment one by one; each raw tag becomes a tag or makes a diagnostic (`readRawTag`), and a type that cannot be read
makes a diagnostic but keeps its tag.
-/

namespace SymbolDocs.Tag

open SymbolDocs.Text

variable {R : Type}

/-- Why the text of a tag is no value of the tag. -/
inductive ValueFault where
  | missing
  | notPermitted
  | unterminatedType
  | malformedPath (fault : ScanFault)
  | malformedName (fault : ScanFault)
  deriving DecidableEq, Repr

/-- The wording of a fault, as what the tag does. -/
def ValueFault.detail : ValueFault → String
  | .missing => "requires a value"
  | .notPermitted => "does not permit a value"
  | .unterminatedType => "has an unterminated type expression"
  | .malformedPath fault => "has a malformed name path (" ++ fault.detail ++ ")"
  | .malformedName fault => "has a malformed name (" ++ fault.detail ++ ")"

/-! ## Values -/

/-- The result of reading a value, beside the problem that a type in it could not be read. -/
abbrev Reading (α : Type) := Option Problem × Except ValueFault α

/-- Reads a type annotation. -/
def readType (expression : String) : Option Problem × TypeSpec :=
  match TypeSpec.parse expression with
  | .ok spec => (none, spec)
  | .error fault => (some (.ofTypeFault (strip expression) fault), .unread expression)

/-- Reads a name path, which may stand in braces. -/
def readNamePath (text : String) : Except ValueFault String :=
  match trim text.toList with
  | [] => .ok ""
  | '\x7b' :: cs =>
    match scanBraces cs with
    | .ok (inner, _) => .ok (String.ofList (trim inner))
    | .error fault => .error (.malformedPath fault)
  | cs =>
    match scanWord cs with
    | .ok (path, _) => .ok (String.ofList path)
    | .error fault => .error (.malformedPath fault)

/-- The text behind a hyphen that sets a description off. -/
def dropHyphen : List Char → List Char
  | ['-'] => []
  | '-' :: c :: cs => if isBlank c then trimLeft cs else '-' :: c :: cs
  | cs => cs

/-- The value with the description that a text makes. -/
def describe (value : NamedValue) (cs : List Char) : NamedValue :=
  match trim (dropHyphen cs) with
  | [] => value
  | text => { value with description := some (String.ofList text) }

/-- The value with the name, and perhaps the default, that stand between square brackets. -/
def nameInBrackets (value : NamedValue) (inner : List Char) : NamedValue :=
  let named := { value with name := some (String.ofList (trim (inner.takeWhile (· ≠ '=')))), optional := some true }
  match inner.dropWhile (· ≠ '=') with
  | [] => named
  | _ :: default => { named with defaultValue := some (String.ofList (trim default)) }

/-- Reads a name, perhaps in square brackets, from the start of a text, and gives the trimmed rest. -/
def readName (value : NamedValue) (cs : List Char) : Except ValueFault (NamedValue × List Char) :=
  match cs with
  | [] => .ok (value, [])
  | '[' :: rest =>
    match scanBrackets rest with
    | .ok (inner, rest) => .ok (nameInBrackets value inner, trim rest)
    | .error fault => .error (.malformedName fault)
  | cs =>
    match scanWord cs with
    | .ok (name, rest) => .ok ({ value with name := some (String.ofList name) }, trim rest)
    | .error fault => .error (.malformedName fault)

/-- The value that a type annotation alone makes. -/
def ofType (spec : TypeSpec) : NamedValue :=
  { type := some spec, optional := spec.optional, nullable := spec.nullable, repeatable := spec.repeatable }

/-- Reads the name, where there is one, and the description behind the type. -/
def readNamed (named : Bool) (value : NamedValue) (cs : List Char) : Except ValueFault NamedValue :=
  if named then (readName value cs).map fun (value, rest) => describe value rest
  else .ok (describe value cs)

/-- Reads a value of the form `{type} [name=default] - description`, of which each part may be missing. -/
def readStructured (named : Bool) (text : String) : Reading NamedValue :=
  match trim text.toList with
  | '\x7b' :: cs =>
    match scanBraces cs with
    | .error _ => (none, .error .unterminatedType)
    | .ok (expression, rest) =>
      let (problem, spec) := readType (String.ofList expression)
      (problem, readNamed named (ofType spec) (trim rest))
  | cs => (none, readNamed named {} cs)

/-- Reads a type annotation that may stand in braces. -/
def readTypeValue (cs : List Char) : Reading TagValue :=
  match cs with
  | '\x7b' :: inner =>
    match scanBraces inner with
    | .error _ => (none, .error .unterminatedType)
    | .ok (expression, _) =>
      let (problem, spec) := readType (String.ofList expression)
      (problem, .ok (.type spec))
  | cs =>
    let (problem, spec) := readType (String.ofList cs)
    (problem, .ok (.type spec))

/-- The text of a tag without what its definition does not keep. -/
def trimFor (d : Definition R) (text : String) : List Char :=
  if d.keepsWhitespace then trimNewlines (dedent text.toList) else trim text.toList

/-- Reads a value that is not empty, by its shape. -/
def readShape (d : Definition R) (cs : List Char) : Reading (Option TagValue) :=
  match d.shape with
  | .none => (none, .ok none)
  | .text => (none, .ok (some (.text (String.ofList cs))))
  | .typeExpression =>
    let (problem, value) := readTypeValue cs
    (problem, value.map some)
  | .namePath => (none, (readNamePath (String.ofList cs)).map (some ∘ .text))
  | .structured =>
    let (problem, value) := readStructured d.named (String.ofList cs)
    (problem, value.map (some ∘ .named))

/-- Reads the value of a tag, as its definition says. -/
def readValue (d : Definition R) (text : String) : Reading (Option TagValue) :=
  match trimFor d text with
  | [] =>
    if d.mustHaveValue then (none, .error .missing)
    else (none, .ok (if d.shape = .text then some (.text "") else none))
  | cs => if d.mustNotHaveValue then (none, .error .notPermitted) else readShape d cs

/-! ## Comments -/

/-- The definition of the text before the first tag, for dictionaries that have none for descriptions. -/
def leadingDescription : Definition R :=
  { name := "description", effects := [.store (.text .description) none] }

/-- The definition of a raw tag. -/
def definitionOf? (dict : Dictionary R) (raw : RawTag) : Option (Definition R) :=
  (dict.lookup raw.title).or (if raw.implicit then some leadingDescription else none)

/-- What a raw tag comes to: diagnostics, and a tag unless the tag is dropped. -/
abbrev Outcome := List Diagnostic × Option Tag

/-- Reads a tag without definition. -/
def readUnknown (dict : Dictionary R) (location : Location) (raw : RawTag) : Outcome :=
  if dict.allows raw.title then
    let text := strip raw.text
    ([], some {
      title := raw.title, text, originalTitle := some raw.title
      value := if text.isEmpty then none else some (.text text) })
  else ([.ofProblem (.unknownTag raw.title) location], none)

/-- The problem that a tag has no value of the right form. -/
def valueProblem (location : Location) (title : String) (fault : ValueFault) : Problem :=
  .tagValue title fault.detail ((nonempty location.longname).or location.filename)

/-- Reads a tag by its definition. -/
def readKnown (d : Definition R) (location : Location) (raw : RawTag) : Outcome :=
  let (problem, value) := readValue d raw.text
  let found := (problem.map fun p => Diagnostic.ofProblem p location).toList
  match value with
  | .ok value =>
    (found, some { title := d.name, text := strip raw.text, originalTitle := some raw.title, value })
  | .error fault => (found ++ [.ofProblem (valueProblem location raw.title fault) location], none)

/-- Reads one raw tag. -/
def readRawTag (dict : Dictionary R) (location : Location) (raw : RawTag) : Outcome :=
  match definitionOf? dict raw with
  | some d => readKnown d location raw
  | none => readUnknown dict location raw

/-- Reads the tags of a comment. -/
def readComment (dict : Dictionary R) (location : Location) (comment : String) : List Diagnostic × List Tag :=
  let outcomes := (Comment.rawTags (Comment.body comment)).map (readRawTag dict location)
  (outcomes.flatMap (·.1), outcomes.filterMap (·.2))

end SymbolDocs.Tag
