import SymbolDocs.Database.Basic
import SymbolDocs.Naming.Placement

/-!
# Queries

What documentation templates ask the database for: doclets by criteria, the members of navigation menus, and the
labels and signatures of single symbols.
-/

namespace SymbolDocs

/-- A field and what it should be: one of several values, missing, or a value. -/
structure Criterion where
  field : String
  expected : Data

namespace Criterion

/-- Whether a value counts as missing. -/
def isMissing : Data → Bool
  | .null => true
  | .text s => s.isEmpty
  | .list items => items.isEmpty
  | _ => false

/-- Whether a doclet meets the criterion. -/
def holdsOf (c : Criterion) (d : Doclet) : Bool :=
  match c.expected with
  | .null => isMissing (d.view c.field)
  | .list choices => choices.any (d.view c.field).sameAs
  | expected => (d.view c.field).sameAs expected

end Criterion

/-- The doclets of navigation menus. -/
structure Members where
  classes : List Doclet
  externals : List Doclet
  events : List Doclet
  globals : List Doclet
  mixins : List Doclet
  modules : List Doclet
  namespaces : List Doclet
  interfaces : List Doclet

namespace Database

/-- The doclets that meet all criteria and satisfy a test. -/
def find (db : Database) (criteria : List Criterion) (test : Doclet → Bool := fun _ => true) : List Doclet :=
  db.doclets.filter fun d => test d && criteria.all (·.holdsOf d)

/-- The doclets of a kind. -/
def ofKind (db : Database) (kind : String) : List Doclet := db.doclets.filter (·.kind = some kind)

/-- The kinds of symbols that are listed as globals. -/
def kindsOfGlobals : List String := ["member", "function", "constant", "typedef"]

/-- Whether a doclet is listed as a global: it has no owner and is not what a module exports as a whole. -/
def isGlobal (d : Doclet) : Bool :=
  (d.kind.map kindsOfGlobals.contains).getD false && (nonempty d.memberof).isNone && !d.isDefaultExport

/-- The doclet with a name that shows no quotes at its ends. -/
def unquoteName (d : Doclet) : Doclet :=
  { d with name := d.name.map fun name => String.ofList (Text.stripWhile (· = '"') name.toList) }

/-- The doclets of navigation menus. -/
def members (db : Database) : Members where
  classes := db.ofKind "class"
  externals := (db.ofKind "external").map unquoteName
  events := db.ofKind "event"
  globals := db.doclets.filter isGlobal
  mixins := db.ofKind "mixin"
  modules := db.ofKind "module"
  namespaces := db.ofKind "namespace"
  interfaces := db.ofKind "interface"

end Database

namespace Doclet

/-- The kinds of symbols whose scope is shown. -/
def scopedKinds : List String := ["function", "member", "constant"]

/-- The scope that is shown: none for global symbols and instance members. -/
def shownScope (d : Doclet) : Option Scope :=
  if (d.kind.map scopedKinds.contains).getD false then d.scope.filter (fun s => s ≠ .perInstance && s ≠ .global)
  else none

/-- The labels of a symbol, such as "abstract" or "static". -/
def attribs (d : Doclet) : List String :=
  (if d.virtual = some true then ["abstract"] else []) ++
  ((nonempty d.access).filter (· ≠ "public")).toList ++
  (d.shownScope.map Scope.word).toList ++
  (if d.readonly = some true && d.kind = some "member" then ["readonly"] else []) ++
  (if d.kind = some "constant" then ["constant"] else []) ++
  match d.nullable with
  | some true => ["nullable"]
  | some false => ["non-null"]
  | none => []

/-- How a parameter is shown in a signature. Parameters without name and fields of parameters are not shown. -/
def signatureParam : TagValue → Option String
  | .named v =>
    match nonempty v.name with
    | none => none
    | some name =>
      if name.toList.contains '.' then none
      else
        let name := if v.repeatable = some true then "..." ++ name else name
        some (if v.optional = some true then "[" ++ name ++ "]" else name)
  | _ => none

/-- The parameters of a signature. -/
def signatureParams (d : Doclet) : List String := d.params.filterMap signatureParam

/-- The names of the type of a returned value, if it has any. -/
def returnedNames : TagValue → Option (List String)
  | .named v => (v.type.map (·.names)).filter (!·.isEmpty)
  | _ => none

/-- The result types of a signature: those of the first returned value that has any. -/
def signatureReturns (d : Doclet) : List String := (d.returns.findSome? returnedNames).getD []

end Doclet
end SymbolDocs
