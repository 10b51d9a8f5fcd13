import SymbolDocs.NamePath.Basic
import SymbolDocs.Scope.Stack
import SymbolDocs.Diagnostic.Problem
import SymbolDocs.Doclet.Basic
import SymbolDocs.Tag.Dictionary

/-!
# Placing symbols

The placement of a symbol is its short name, its owner, its scope and its longname. `placement` finds it from what
the tags say, and otherwise from the open scopes; `Doclet.resolve` writes it into the doclet, once.
-/

namespace SymbolDocs

open SymbolDocs.Text

/-- The name and place of a symbol. -/
structure Placement where
  name : String
  memberof : Option String
  scope : Option Scope
  longname : String
  deriving DecidableEq, Repr

namespace Placement

/-- The placement of a member; `label` is what the longnames of symbols of its kind start with. -/
def ofMember (memberof : Option String) (scope : Option Scope) (name label : String) : Placement :=
  let short := NamePath.dropLabel name label
  { name := short, memberof, scope, longname := NamePath.compose short memberof scope label }

/-- The scope that tags set, unless they set none or made the symbol global. -/
def statedScope (d : Doclet) : Option Scope :=
  if d.explicitScope then d.scope.filter (· ≠ .global) else none

/-- The placement of a symbol that is named by a path. A scope that tags set overrides the separator. -/
def ofPath (d : Doclet) (path label : String) : Placement :=
  match NamePath.split path with
  | (none, _, short) => ofMember none (if d.explicitScope then d.scope else some .global) short label
  | (some owner, scope, short) => ofMember (some owner) ((statedScope d).or scope) short label

/-- The placement of a member that may itself be named by a path below its owner. -/
def below (d : Doclet) (owner : String) (scope : Scope) (name label : String) : Placement :=
  if NamePath.isNested name then ofPath d (owner ++ NamePath.separator (some scope) ++ name) label
  else ofMember (some owner) (some scope) name label

end Placement

namespace Naming

variable {R : Type}

/-- What the longname of a doclet starts with, if the dictionary makes its kind part of longnames. -/
def label (dict : Dictionary R) (d : Doclet) : String :=
  if dict.marksLongname d.kind then NamePath.kindLabel d.kind else ""

/-- The name of a doclet, or the name of symbols without one. -/
def givenName (d : Doclet) : String := (nonempty d.name).getD nameless

/-- The longname with a variation behind it. -/
def addVariation (longname : String) (variation : Option String) : String :=
  match nonempty variation with
  | some v => longname ++ "(" ++ v ++ ")"
  | none => longname

/-- The longname that the name, owner and scope of a doclet make. -/
def derivedLongname (dict : Dictionary R) (d : Doclet) : String :=
  addVariation (NamePath.compose (givenName d) d.memberof d.scope (label dict d)) d.variation

/-- Whether symbols of a kind never have an owner: files, and namespaces whose kind is part of their longname. -/
def isRootKind (dict : Dictionary R) (kind : Option String) : Bool :=
  kind = some "file" || (dict.opensNamespace kind && dict.marksLongname kind)

/-- The innermost open context that belongs to a module, with the longname of its owner. -/
def moduleOwner? (stack : ScopeStack) : Option String :=
  stack.innermost.findSome? fun entry => entry.owner.filter (startsWith · modulePrefix)

/-- The innermost open context that has an owner. -/
def ownerEntry? (stack : ScopeStack) : Option (String × Scope) :=
  stack.innermost.findSome? fun entry => entry.namedOwner?.map (·, entry.kind)

/-- The owners that mean no owner. -/
def globalOwners : List String := ["<global>", "global"]

/-- What names of exported members start with. -/
def exportHeads : List String := ["module.exports.", "exports."]

/-- The name without an owner in front of it. -/
def dropOwner (owner name : String) : String :=
  ([".", "#", "~"].findSome? fun sep => after? name (owner ++ sep)).getD name

/-- The placement of a doclet whose owner is set by a tag. -/
def placeInOwner (d : Doclet) (memberof name label : String) : Placement :=
  if globalOwners.contains memberof then .ofMember none (some .global) name label
  else
    let (owner, suffix) := NamePath.splitOwner (NamePath.normalize memberof)
    let scope := ((Placement.statedScope d).or suffix).getD .static
    .below d owner scope (dropOwner owner name) label

/-- The scope of a member of an open context. Members of local and global contexts are inner. -/
def memberScope (scope : Scope) : Scope :=
  match scope with
  | .anonymous => .inner
  | .global => .inner
  | scope => scope

/-- A name as code writes it inside the open contexts: the name proper, the context that owns the symbol, and the
scope that the code shows. -/
structure CodeName where
  name : String
  owner : Option (String × Scope)
  scope : Option Scope

/-- A name that starts with an export marker names a static member of the module. -/
def CodeName.resolveExport (n : CodeName) (moduleOwner : Option String) : CodeName :=
  match moduleOwner with
  | none => n
  | some owner =>
    match exportHeads.findSome? fun marker => after? n.name marker with
    | some rest => { name := rest, owner := some (owner, .static), scope := some .static }
    | none => n

/-- A name that starts with `this.` names an instance member of the owner. -/
def CodeName.resolveThis (n : CodeName) : CodeName :=
  match n.owner, after? n.name "this." with
  | some _, some rest => { n with name := rest, scope := some .perInstance }
  | _, _ => n

/-- The placement of a doclet by the open contexts. -/
def placeInScope (stack : ScopeStack) (d : Doclet) (name label : String) : Placement :=
  let code : CodeName := { name, owner := ownerEntry? stack, scope := d.scope }
  let code := (code.resolveExport (moduleOwner? stack)).resolveThis
  match code.owner with
  | none =>
    if NamePath.isNested code.name then .ofPath d code.name label
    else .ofMember none (if d.explicitScope then d.scope else some .global) code.name label
  | some (owner, kind) => .below d owner (memberScope (code.scope.getD kind)) code.name label

/-- The placement of a doclet, without its variation. -/
def placement (dict : Dictionary R) (stack : ScopeStack) (d : Doclet) : Placement :=
  let label := label dict d
  let name := givenName d
  if isRootKind dict d.kind then
    .ofMember none (if d.kind = some "file" then some .global else none) name label
  else match (if d.origin.defaultExport then moduleOwner? stack else none) with
  | some owner => { name := owner, memberof := none, scope := none, longname := owner }
  | none =>
    match (if d.explicitMemberof then nonempty d.memberof else none) with
    | some memberof => placeInOwner d memberof name label
    | none =>
      if d.explicitName || (d.taggedName && NamePath.isNested name) then .ofPath d name label
      else match (if d.taggedName then none else nonempty d.lends) with
      | some lends => .ofPath d (NamePath.splitOwner (NamePath.normalize lends)).1 label
      | none =>
        if d.explicitScope && d.scope = some .global then .ofMember none (some .global) name label
        else placeInScope stack d name label

end Naming

namespace Doclet

variable {R : Type}

/-- What a message calls a doclet, which may have no name at all. -/
def shownName (d : Doclet) : String := d.construct.getD "None"

/-- Whether the name of the doclet is still to be found. -/
def awaitsName (d : Doclet) : Bool := d.state = .created || d.state = .tagsApplied

/-- Gives the doclet its place among the open contexts. -/
def place (dict : Dictionary R) (stack : ScopeStack) (d : Doclet) : Doclet :=
  let p := Naming.placement dict stack d
  { d with
    name := some p.name, memberof := p.memberof, scope := p.scope
    longname := some (Naming.addVariation p.longname d.variation), state := .nameResolved }

/-- Gives the doclet its place, which is done once. -/
def resolve (dict : Dictionary R) (stack : ScopeStack) (d : Doclet) : Except Problem Doclet :=
  if d.awaitsName then .ok (d.place dict stack)
  else .error (.lifecycle ("Name of " ++ d.shownName ++ " was already resolved"))

/-- Whether the doclet is what a module exports as a whole. -/
def isDefaultExport (d : Doclet) : Bool :=
  match nonempty d.longname with
  | some longname => d.name = some longname && startsWith longname modulePrefix && d.kind ≠ some "module"
  | none => false

end Doclet
end SymbolDocs
