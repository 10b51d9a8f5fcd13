import SymbolDocs.Doclet.Data
import SymbolDocs.NamePath.Tree

/-!
# The database of doclets

The doclets are kept in the order of insertion, several of one longname if need be, beside an index from longnames to
positions. `get` looks a longname up in the index, and `find` scans the doclets for those that meet some criteria.
-/

namespace SymbolDocs

/-- Doclets in the order of insertion, and the positions of each longname in the order of its first insertion. -/
structure Database where
  doclets : List Doclet := []
  index : List (String × List Nat) := []

namespace Database

/-- Adds a position under a longname of the index. -/
def indexAt (longname : String) (position : Nat) : List (String × List Nat) → List (String × List Nat)
  | [] => [(longname, [position])]
  | (l, ps) :: rest =>
    if l = longname then (l, ps ++ [position]) :: rest else (l, ps) :: indexAt longname position rest

/-- Adds a doclet at the end. A doclet without longname is not in the index. -/
def add (db : Database) (d : Doclet) : Database :=
  { doclets := db.doclets ++ [d]
    index := match d.longname with
      | some longname => indexAt longname db.doclets.length db.index
      | none => db.index }

/-- Adds several doclets. -/
def extend (db : Database) (ds : List Doclet) : Database := ds.foldl add db

/-- The database of some doclets. -/
def ofList (ds : List Doclet) : Database := ({} : Database).extend ds

/-- How many doclets there are. -/
def size (db : Database) : Nat := db.doclets.length

/-- The positions of the doclets with a longname. -/
def positions (db : Database) (longname : String) : List Nat := (db.index.lookup longname).getD []

/-- The doclets with a longname. -/
def get (db : Database) (longname : String) : List Doclet :=
  (db.positions longname).filterMap fun position => db.doclets[position]?

/-- The longnames in the order of their first insertion. -/
def longnames (db : Database) : List String := db.index.map (·.1)

/-- Changes the doclet at a position. -/
def modify (db : Database) (position : Nat) (f : Doclet → Doclet) : Database :=
  { db with doclets := db.doclets.modify position f }

/-- Changes every doclet. -/
def mapDoclets (db : Database) (f : Doclet → Doclet) : Database := { db with doclets := db.doclets.map f }

/-- The tree of the longnames. -/
def tree (db : Database) : List NamePath.Tree := NamePath.Tree.ofLongnames db.longnames

/-- The published form of the doclets. -/
def toData (db : Database) : Data := .list (db.doclets.map Doclet.toData)

theorem doclets_add (db : Database) (d : Doclet) : (db.add d).doclets = db.doclets ++ [d] := rfl

theorem size_add (db : Database) (d : Doclet) : (db.add d).size = db.size + 1 := by simp [size, doclets_add]

/-- A longname that has doclets is one of the longnames. -/
theorem mem_longnames_of_get {db : Database} {longname : String} (h : db.get longname ≠ []) :
    longname ∈ db.longnames := by
  unfold get positions at h
  cases hl : db.index.lookup longname with
  | none => simp [hl] at h
  | some ps =>
    clear h
    unfold longnames
    generalize db.index = index at hl
    induction index with
    | nil => simp at hl
    | cons entry rest ih =>
      obtain ⟨l, qs⟩ := entry
      simp only [List.lookup_cons] at hl
      split at hl
      · next he => simp [beq_iff_eq.1 he]
      · exact List.mem_cons_of_mem _ (ih hl)

end Database
end SymbolDocs
