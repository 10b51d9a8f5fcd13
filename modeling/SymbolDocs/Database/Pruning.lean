import SymbolDocs.Database.Basic
import SymbolDocs.Text.Case

/-!
# Pruning

`Database.pruned` keeps the doclets that are to be published. Each kept doclet is a copy that has another
state and is otherwise the same.
-/

namespace SymbolDocs

/-- Which doclets are published. -/
structure PruneOptions where
  /-- The access levels that are published; without a list all but private ones. -/
  access : Option (List String) := none
  showPrivate : Bool := false
  includeUndocumented : Bool := false
  deriving DecidableEq, Repr

namespace PruneOptions

/-- The access levels that are published, in small letters. -/
def levels (o : PruneOptions) : Option (List String) := o.access.map (·.map Text.lower)

/-- Whether symbols of an access level are published. -/
def allowsAccess (o : PruneOptions) (level : Option String) : Bool :=
  match o.levels with
  | none => level ≠ some "private" || o.showPrivate
  | some levels =>
    levels.contains "all" ||
    match level with
    | none => levels.contains "undefined"
    | some "private" => o.showPrivate || levels.contains "private"
    | some level => levels.contains level

/-- Whether a doclet is published. -/
def keeps (o : PruneOptions) (d : Doclet) : Bool :=
  (!d.undocumented || o.includeUndocumented) && !d.ignore && d.memberof ≠ some nameless &&
    o.allowsAccess d.access

end PruneOptions

/-- The doclets that are published. -/
def Database.pruned (db : Database) (o : PruneOptions := {}) : Database :=
  .ofList ((db.doclets.filter o.keeps).map fun d => { d with state := .pruned })

end SymbolDocs
