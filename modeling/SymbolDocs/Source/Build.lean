import SymbolDocs.Naming.Placement
import SymbolDocs.Source.Event
import SymbolDocs.Tag.Applying
import SymbolDocs.Text.FileName

/-!
# From events to doclets

`build` makes the doclet of one event: the construct gives the defaults, the tags of the comment override them, and
the open scopes place the symbol. The event may open a scope, whose context the doclet decides (`childEntry`).
-/

namespace SymbolDocs

open SymbolDocs.Text

/-- Types of constructs that are functions. -/
def functionForms : List String :=
  ["function", "FunctionDeclaration", "FunctionExpression", "ArrowFunctionExpression", "MethodDefinition"]

/-- Types of constructs that are classes. -/
def classForms : List String := ["class", "ClassDeclaration", "ClassExpression"]

/-- The kind that a construct implies. -/
def SourceContext.kindOfCode (context : SourceContext) : Option String :=
  match nonempty context.kind with
  | some kind => some kind
  | none =>
    match nonempty context.codeType with
    | some codeType =>
      if functionForms.contains codeType then some "function"
      else if classForms.contains codeType then some "class"
      else some "member"
    | none => (nonempty context.name).map fun _ => "member"

/-- Where the event of a construct is. -/
def SourceContext.location (context : SourceContext) : Location :=
  { filename := context.filename, lineno := context.lineno, longname := context.name }

namespace Doclet

/-- The doclet that a construct implies. -/
def ofContext (comment : Option String) (context : SourceContext) : Doclet :=
  { comment := comment.getD ""
    origin := {
      filename := context.filename
      lineno := context.lineno
      codeName := context.name
      codeType := context.codeType
      codeValue := context.value
      defaultExport := context.isDefaultExport || context.name = some "module.exports" }
    name := context.name
    kind := context.kindOfCode
    scope := context.scope }

/-- Marks a doclet without tags that document it. -/
def markUndocumented (d : Doclet) (tags : List Tag) : Doclet :=
  { d with undocumented := d.undocumented || tags.all (·.title = "lends") }

/-- Names a module without name after its file. -/
def nameModule (d : Doclet) (context : SourceContext) : Doclet :=
  match nonempty context.filename with
  | some filename =>
    if d.kind = some "module" && (nonempty d.name).isNone then { d with name := some (stem filename) } else d
  | none => d

/-- Gives a function or class without documented parameters the parameters of its code. -/
def takeParams (d : Doclet) (context : SourceContext) : Doclet :=
  if d.params.isEmpty && (d.kind = some "function" || d.kind = some "class") then
    { d with params := context.params.map fun param => .named { name := some param } }
  else d

/-- How the members of a namespace kind belong to it. -/
def namespaceScope (kind : String) : Scope :=
  if kind = "class" || kind = "interface" then .perInstance
  else if kind = "module" then .inner
  else .static

/-- The naming context that a doclet opens. Namespaces and object literals hold members, any other body holds inner
symbols. -/
def childEntry (dict : Dictionary) (d : Doclet) : ScopeEntry :=
  match nonempty d.lends with
  | some lends =>
    let (owner, scope) := NamePath.splitOwner (NamePath.normalize lends)
    { kind := scope.getD .static, owner := some owner }
  | none =>
    match nonempty d.longname with
    | none => { kind := .anonymous, owner := some nameless }
    | some longname =>
      if d.name = some nameless then { kind := .anonymous, owner := some nameless }
      else if dict.opensNamespace d.kind then
        { kind := namespaceScope (dict.normalise (d.kind.getD "")), owner := some longname }
      else if d.kind = some "member" || d.kind = some "constant" then { kind := .static, owner := some longname }
      else { kind := .inner, owner := some longname }

/-- The text of the log when the doclet is built. -/
def builtNote (d : Doclet) : String :=
  "Built " ++ (nonempty d.kind).getD "untyped" ++ " doclet " ++ d.longname.getD "None"

end Doclet

/-- The open contexts after a doclet. -/
def ScopeStack.afterDoclet (stack : ScopeStack) (dict : Dictionary) (d : Doclet) (event : ScopeEvent) : ScopeStack :=
  if event = .enter then stack.push (d.childEntry dict)
  else if d.kind = some "module" && stack.depth = 0 then stack.setRoot (d.childEntry dict)
  else stack

/-- The tags of a comment and the doclet after they are applied, with the diagnostics on the way. -/
def applyComment (dict : Dictionary) (location : Location) (comment : String) (d : Doclet) :
    List Diagnostic × Except Obstacle (List Tag × Doclet) :=
  let (found, tags) := Tag.readComment dict location comment
  let (applied, result) := Tag.applyAll dict location tags d
  (found ++ applied, result.map (tags, ·))

/-- The doclet with what only the code says about it, once its tags are applied. -/
def Doclet.complete (d : Doclet) (tags : List Tag) (context : SourceContext) : Doclet :=
  ((({ d with state := .tagsApplied } : Doclet).markUndocumented tags).nameModule context).takeParams context

/-- Gives a complete doclet its place, with the open contexts after it. -/
def Doclet.settle (dict : Dictionary) (stack : ScopeStack) (event : ScopeEvent) (d : Doclet) :
    Except Obstacle (Doclet × ScopeStack) :=
  match d.resolve dict stack with
  | .ok d => .ok (d, stack.afterDoclet dict d event)
  | .error problem => .error (.placed problem)

/-- The doclet of an event and the open contexts after it, with the diagnostics on the way. -/
def build (dict : Dictionary) (stack : ScopeStack) (comment : Option String) (context : SourceContext)
    (event : ScopeEvent) : List Diagnostic × Except Obstacle (Doclet × ScopeStack) :=
  let shell := Doclet.ofContext comment context
  let (found, result) :=
    if allBlank shell.comment then ([], .ok ([], shell))
    else applyComment dict context.location shell.comment shell
  (found, result.bind fun (tags, d) => (d.complete tags context).settle dict stack event)

end SymbolDocs
