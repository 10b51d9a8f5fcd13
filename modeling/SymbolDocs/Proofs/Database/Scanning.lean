import Mathlib.Data.List.Induction
import Mathlib.Data.List.Nodup
import SymbolDocs.Database.Pruning
import SymbolDocs.Database.Query
import SymbolDocs.Proofs.Database.Index

/-!
# Looking up and scanning

A database keeps its doclets as a list in the order of insertion, and beside it the positions of each longname. All
operations keep the two in step (`Database.InStep`): adding doclets, linking them, which adds doclets while it looks
others up, and pruning, which starts a new database. So in every database that they make (`Database.Made`) looking a
longname up finds what a scan of all doclets finds (`Database.Made.get_eq_find`).
-/

namespace SymbolDocs
namespace Database

variable {db db' : Database} {d : Doclet}

/-! ## The longnames of a database -/

/-- The index gives the positions of every longname, and lists the longnames in the order of their first insertion. -/
structure InStep (db : Database) : Prop where
  indexed : db.Indexed
  listed : db.longnames = (db.doclets.filterMap (·.longname)).eraseDups

theorem inStep_empty : InStep {} := ⟨indexed_empty, rfl⟩

/-- An entry at the end is a new one, unless it is there before. -/
theorem eraseDups_concat (longnames : List String) (last : String) :
    (longnames ++ [last]).eraseDups =
      if last ∈ longnames then longnames.eraseDups else longnames.eraseDups ++ [last] := by
  rw [List.eraseDups_append]
  split
  · next h => simp [List.removeAll, h]
  · next h => simp [List.removeAll, h, List.eraseDups_cons]

theorem nodup_eraseDups (longnames : List String) : longnames.eraseDups.Nodup := by
  induction longnames using List.reverseRecOn with
  | nil => exact List.nodup_nil
  | append_singleton longnames last ih =>
    rw [eraseDups_concat]
    split
    · exact ih
    · next h => exact List.concat_eq_append ▸ (List.nodup_concat _ _).2 ⟨fun hm => h (List.mem_eraseDups.1 hm), ih⟩

theorem map_fst_indexAt (longname : String) (p : Nat) (index : List (String × List Nat)) :
    (indexAt longname p index).map (·.1) =
      if longname ∈ index.map (·.1) then index.map (·.1) else index.map (·.1) ++ [longname] := by
  induction index with
  | nil => rfl
  | cons entry rest ih =>
    obtain ⟨k, ps⟩ := entry
    by_cases hk : k = longname
    · simp [indexAt, hk]
    · rw [indexAt, if_neg hk, List.map_cons, ih, List.map_cons]
      split
      · next h => rw [if_pos (List.mem_cons_of_mem k h)]
      · next h =>
        have hcons : longname ∉ k :: rest.map (·.1) := fun hm => (List.mem_cons.1 hm).elim (fun he => hk he.symm) h
        rw [if_neg hcons, List.cons_append]

theorem InStep.add (h : db.InStep) (d : Doclet) : (db.add d).InStep := by
  refine ⟨h.indexed.add d, ?_⟩
  have hl := h.listed
  rw [doclets_add, List.filterMap_append]
  cases hd : d.longname with
  | none =>
    have hlongnames : (db.add d).longnames = db.longnames := by simp only [longnames, Database.add, hd]
    rw [hlongnames, hl]
    simp [hd]
  | some longname =>
    have hlongnames : (db.add d).longnames =
        if longname ∈ db.longnames then db.longnames else db.longnames ++ [longname] := by
      simp only [longnames, Database.add, hd]
      exact map_fst_indexAt longname _ db.index
    have hmem : longname ∈ db.longnames ↔ longname ∈ db.doclets.filterMap (·.longname) := by
      rw [hl, List.mem_eraseDups]
    have hlast : [d].filterMap (·.longname) = [longname] := by simp [hd]
    rw [hlongnames, hlast, eraseDups_concat, ← hl]
    simp only [hmem]

/-- A change that keeps the longnames keeps the index in step. -/
theorem InStep.congr (h : db.InStep) (hi : db'.index = db.index)
    (hl : db'.doclets.map (·.longname) = db.doclets.map (·.longname)) : db'.InStep := by
  refine ⟨h.indexed.congr hi hl, ?_⟩
  have hinserted (ds : List Doclet) : ds.filterMap (·.longname) = (ds.map (·.longname)).filterMap id := by
    simp [List.filterMap_map]
  rw [hinserted, hl, ← hinserted, ← h.listed, longnames, hi, longnames]

theorem InStep.extend (h : db.InStep) (ds : List Doclet) : (db.extend ds).InStep :=
  List.foldlRecOn ds Database.add h fun _ h d _ => h.add d

theorem inStep_ofList (ds : List Doclet) : (ofList ds).InStep := inStep_empty.extend ds

/-! ## Linking -/

theorem InStep.fulfil (h : db.InStep) (p : Nat) (request : Borrow) : (Linking.fulfil p db request).InStep := by
  rcases Linking.fulfil_cases p db request with ⟨-, he⟩ | ⟨borrower, source, -, -, -, he⟩
  · rwa [he]
  · rw [he]
    exact (h.add _).congr rfl (longnames_modify p fun _ => rfl)

/-- Linking adds copies of borrowed symbols, and keeps the longnames of all doclets. -/
theorem InStep.linkAll {l : Linking} (h : l.database.InStep) : l.linkAll.database.InStep := by
  have hfulfilled : (Linking.fulfilAll l.database).InStep :=
    Linking.fulfilAll_keeps (fun _ p request h => h.fulfil p request) h
  rw [Linking.linkAll_database]
  exact hfulfilled.congr rfl (longnames_mapDoclets fun d => by rw [Linking.relinked_eq])

/-! ## Scans -/

/-- The criterion that a doclet has a longname. -/
def hasLongname (longname : String) : Criterion := { field := "longname", expected := .text longname }

theorem holdsOf_hasLongname (longname : String) (d : Doclet) :
    (hasLongname longname).holdsOf d = decide (d.longname = some longname) := by
  have hview : d.view "longname" = .ofText? d.longname := rfl
  simp only [Criterion.holdsOf, hasLongname, hview]
  cases hd : d.longname with
  | none => rfl
  | some l => simp [Data.ofText?, Data.sameAs, Bool.beq_eq_decide_eq]

/-- The databases that are made of some doclets by adding further ones, linking and pruning, while doclets may change
in everything but their longnames. -/
inductive Made : Database → Prop
  | ofList (ds : List Doclet) : Made (.ofList ds)
  | add {db : Database} (h : Made db) (d : Doclet) : Made (db.add d)
  | extend {db : Database} (h : Made db) (ds : List Doclet) : Made (db.extend ds)
  | linkAll {l : Linking} (h : Made l.database) : Made l.linkAll.database
  | pruned {db : Database} (h : Made db) (o : PruneOptions) : Made (db.pruned o)
  | modify {db : Database} (h : Made db) (p : Nat) {f : Doclet → Doclet} (hf : ∀ d, (f d).longname = d.longname) :
      Made (db.modify p f)

theorem Made.inStep (h : db.Made) : db.InStep := by
  induction h with
  | ofList ds => exact inStep_ofList ds
  | add _ d ih => exact ih.add d
  | extend _ ds ih => exact ih.extend ds
  | linkAll _ ih => exact ih.linkAll
  | pruned _ o _ => exact inStep_ofList _
  | modify _ p hf ih => exact ih.congr rfl (longnames_modify p hf)

/-- **Looking a longname up finds what a scan finds**, at the same positions, and the longnames are those of the
doclets, each once and in the order of its first insertion. -/
theorem Made.get_eq_find (h : db.Made) :
    (∀ longname, db.positions longname = positionsIn (db.doclets.map (·.longname)) longname ∧
      db.get longname = db.find [hasLongname longname]) ∧
    db.longnames.Nodup ∧ (∀ longname, longname ∈ db.longnames ↔ ∃ d ∈ db.doclets, d.longname = some longname) ∧
    db.longnames = (db.doclets.filterMap (·.longname)).eraseDups := by
  have hstep := h.inStep
  refine ⟨fun longname => ⟨hstep.indexed longname, ?_⟩, ?_, fun longname => ?_, hstep.listed⟩
  · rw [hstep.indexed.get_eq, find]
    simp [holdsOf_hasLongname]
  · rw [hstep.listed]
    exact nodup_eraseDups _
  · rw [hstep.listed, List.mem_eraseDups, List.mem_filterMap]

/-- Two doclets of one longname and one without, linked, pruned and with a further doclet. -/
def republished : Database :=
  let helper : Doclet := { name := some "f", longname := some "f" }
  let hidden : Doclet := { helper with undocumented := true }
  let borrower : Doclet := { name := some "N", longname := some "N", declared := { borrows := [{ source := "f" }] } }
  let linked := (Linking.linkAll { database := ofList [hidden, borrower, {}, helper], reporter := {} }).database
  (linked.pruned { includeUndocumented := true }).add helper

theorem Made.get_eq_find_republished :
    republished.Made ∧
      republished.doclets.map (·.longname) = [some "f", some "N", none, some "f", some "N.f", some "f"] ∧
      republished.positions "f" = [0, 3, 5] ∧ republished.get "f" = republished.find [hasLongname "f"] ∧
      republished.longnames = ["f", "N", "N.f"] ∧
      republished.longnames = (republished.doclets.filterMap (·.longname)).eraseDups := by
  have hmade : republished.Made := ((Made.linkAll (.ofList _)).pruned _).add _
  obtain ⟨hget, -, -, hlisted⟩ := hmade.get_eq_find
  exact ⟨hmade, by decide +kernel, by decide +kernel, (hget "f").2, by decide +kernel, hlisted⟩

end Database
end SymbolDocs
