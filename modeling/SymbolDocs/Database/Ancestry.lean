import SymbolDocs.Database.Basic
import SymbolDocs.Diagnostic.Reporter

/-!
# Ancestors

The ancestors of a doclet are found by following owners. The walk ends where an owner is missing or comes up a
second time, so it always ends: every step visits a longname of the database that it has not visited before.
`ancestors` and `reportCycle` are the two things that a walk gives, and `askAncestors` is the walk that does both at once.
-/

namespace SymbolDocs

/-- Where a doclet is documented. -/
def Doclet.location (d : Doclet) : Location :=
  { filename := d.origin.filename, lineno := d.origin.lineno, longname := d.longname }

namespace Database

/-- The longnames that are not in a list. -/
def unseen (db : Database) (seen : List String) : List String := db.longnames.filter (!seen.contains ·)

theorem unseen_cons (db : Database) (owner : String) (seen : List String) :
    db.unseen (owner :: seen) = (db.unseen seen).filter (· ≠ owner) := by
  simp [unseen, List.filter_filter]

theorem unseen_length_lt {db : Database} {seen : List String} {owner : String} (h : db.get owner ≠ [])
    (hs : ¬ seen.contains owner = true) : (db.unseen (owner :: seen)).length < (db.unseen seen).length := by
  rw [unseen_cons]
  apply List.length_filter_lt_length_iff_exists.2
  refine ⟨owner, ?_, by simp⟩
  simp only [unseen, List.mem_filter, Bool.not_eq_true'] at hs ⊢
  exact ⟨mem_longnames_of_get h, by simpa using hs⟩

/-- The doclets from the owner of `d` outwards, and the owner that comes up a second time, if that ends the walk. -/
def walkOwners (db : Database) (seen : List String) (d : Doclet) : List Doclet × Option String :=
  match nonempty d.memberof with
  | none => ([], none)
  | some owner =>
    if hs : seen.contains owner then ([], some owner)
    else match h : db.get owner with
      | [] => ([], none)
      | parent :: _ =>
        have := unseen_length_lt (by simp [h] : db.get owner ≠ []) hs
        let (further, repeated) := walkOwners db (owner :: seen) parent
        (parent :: further, repeated)
termination_by (db.unseen seen).length

/-- The walk from a doclet. -/
def ownerWalk (db : Database) (d : Doclet) : List Doclet × Option String :=
  db.walkOwners (nonempty d.longname).toList d

/-- The doclets that a doclet is nested in, the most distant one first. -/
def ancestors (db : Database) (d : Doclet) : List Doclet := (db.ownerWalk d).1.reverse

/-- Reports that the owners of a doclet form a cycle, if they do, once for each longname. -/
def reportCycle (db : Database) (d : Doclet) (r : Reporter) : Reporter :=
  match (db.ownerWalk d).2 with
  | some repeated =>
    r.reportOnce (d.longname.getD "") (.cyclicAncestry (d.longname.getD "") repeated) d.location
  | none => r

/-- Follows owners outwards and puts each doclet on the way in front of those found before. A reporter, if there is one,
is told of an owner that comes up a second time, once for each longname that walks start from. -/
def gatherOwners (db : Database) (start : Doclet) (reporter : Option Reporter) (seen : List String)
    (found : List Doclet) (current : Doclet) : List Doclet × Option Reporter :=
  match nonempty current.memberof with
  | none => (found, reporter)
  | some owner =>
    if hs : seen.contains owner then
      let key := start.longname.getD ""
      (found, reporter.map (·.reportOnce key (.cyclicAncestry key owner) start.location))
    else match h : db.get owner with
      | [] => (found, reporter)
      | parent :: _ =>
        have := unseen_length_lt (by simp [h] : db.get owner ≠ []) hs
        gatherOwners db start reporter (owner :: seen) (parent :: found) parent
termination_by (db.unseen seen).length

/-- The doclets that a doclet is nested in, the most distant one first, and the reporter after the walk to them. -/
def askAncestors (db : Database) (d : Doclet) (reporter : Option Reporter) : List Doclet × Option Reporter :=
  db.gatherOwners d reporter (nonempty d.longname).toList [] d

end Database
end SymbolDocs
