import SymbolDocs.Proofs.Database.Links

/-!
# The index of a database

A database is indexed if its index gives for every longname the positions of the doclets that have it. Adding a doclet
keeps this, and so does every change that keeps the longnames. Then looking a longname up gives just the doclets that
have it, in their order (`Indexed.get_eq`).
-/

namespace SymbolDocs
namespace Database

variable {db db' : Database}

/-- The positions at which a list of longnames has one of them. -/
def positionsIn (longnames : List (Option String)) (longname : String) : List Nat :=
  (List.range longnames.length).filter fun p => longnames[p]? = some (some longname)

/-- The index gives the positions of every longname. -/
def Indexed (db : Database) : Prop :=
  ∀ longname, db.positions longname = positionsIn (db.doclets.map (·.longname)) longname

theorem indexed_empty : Indexed {} := fun _ => rfl

/-- A change that keeps the longnames keeps what the index says. -/
theorem Indexed.congr (h : db.Indexed) (hi : db'.index = db.index)
    (hl : db'.doclets.map (·.longname) = db.doclets.map (·.longname)) : db'.Indexed := by
  intro longname
  rw [positions, hi, ← positions, h longname, hl]

/-! ## Adding a doclet -/

theorem lookup_cons_eq_ite (l k : String) (ps : List Nat) (rest : List (String × List Nat)) :
    ((k, ps) :: rest).lookup l = if l = k then some ps else rest.lookup l := by
  rw [List.lookup_cons]
  by_cases h : l = k
  · rw [if_pos h, beq_iff_eq.2 h]
  · rw [if_neg h, beq_eq_false_iff_ne.2 h]

theorem lookup_indexAt (l l' : String) (p : Nat) (index : List (String × List Nat)) :
    (indexAt l p index).lookup l' =
      if l' = l then some ((index.lookup l).getD [] ++ [p]) else index.lookup l' := by
  induction index with
  | nil => exact lookup_cons_eq_ite l' l [p] []
  | cons entry rest ih =>
    obtain ⟨k, ps⟩ := entry
    by_cases hk : k = l
    · subst hk
      by_cases h : l' = k <;> simp [indexAt, lookup_cons_eq_ite, h]
    · simp only [indexAt, if_neg hk, lookup_cons_eq_ite, ih, if_neg (Ne.symm hk)]
      by_cases hl : l' = k
      · rw [if_pos hl, if_pos hl, if_neg fun h => hk (hl ▸ h)]
      · rw [if_neg hl, if_neg hl]

/-- A new longname at the end has one more position. -/
theorem positionsIn_concat (longnames : List (Option String)) (last : Option String) (longname : String) :
    positionsIn (longnames ++ [last]) longname =
      positionsIn longnames longname ++ if last = some longname then [longnames.length] else [] := by
  have hold : (List.range longnames.length).filter (fun p => (longnames ++ [last])[p]? = some (some longname)) =
      positionsIn longnames longname := by
    refine List.filter_congr fun p hp => ?_
    rw [List.getElem?_append_left (List.mem_range.1 hp)]
  rw [positionsIn, List.length_append, List.length_singleton, List.range_succ, List.filter_append, hold]
  by_cases h : last = some longname <;> simp [h]

theorem positions_add (db : Database) (d : Doclet) (longname : String) :
    (db.add d).positions longname =
      db.positions longname ++ if d.longname = some longname then [db.size] else [] := by
  unfold positions add
  cases hd : d.longname with
  | none => simp
  | some l =>
    rw [lookup_indexAt]
    by_cases h : longname = l
    · subst h
      simp [size]
    · simp [h, Ne.symm h]

theorem Indexed.add (h : db.Indexed) (d : Doclet) : (db.add d).Indexed := by
  intro longname
  rw [positions_add, h longname, doclets_add, List.map_append, List.map_singleton, positionsIn_concat,
    List.length_map, size]

/-! ## Changing doclets -/

theorem map_modify {α : Type} {g : Doclet → α} {f : Doclet → Doclet} (hf : ∀ d, g (f d) = g d) (p : Nat) :
    (db.modify p f).doclets.map g = db.doclets.map g := by
  refine List.ext_getElem? fun i => ?_
  simp only [Database.modify, List.getElem?_map, List.getElem?_modify]
  split <;> cases db.doclets[i]? <;> simp [hf]

theorem map_mapDoclets {α : Type} {g : Doclet → α} {f : Doclet → Doclet} (hf : ∀ d, g (f d) = g d) :
    (db.mapDoclets f).doclets.map g = db.doclets.map g := by
  rw [Database.mapDoclets, List.map_map]
  exact List.map_congr_left fun d _ => hf d

theorem longnames_modify (p : Nat) {f : Doclet → Doclet} (hf : ∀ d, (f d).longname = d.longname) :
    (db.modify p f).doclets.map (·.longname) = db.doclets.map (·.longname) :=
  map_modify hf p

theorem longnames_mapDoclets {f : Doclet → Doclet} (hf : ∀ d, (f d).longname = d.longname) :
    (db.mapDoclets f).doclets.map (·.longname) = db.doclets.map (·.longname) :=
  map_mapDoclets hf

theorem Indexed.modify (h : db.Indexed) (p : Nat) {f : Doclet → Doclet} (hf : ∀ d, (f d).longname = d.longname) :
    (db.modify p f).Indexed :=
  h.congr rfl (longnames_modify p hf)

theorem Indexed.mapDoclets (h : db.Indexed) {f : Doclet → Doclet} (hf : ∀ d, (f d).longname = d.longname) :
    (db.mapDoclets f).Indexed :=
  h.congr rfl (longnames_mapDoclets hf)

/-! ## Looking a longname up -/

theorem filterMap_positionsIn (ds : List Doclet) (longname : String) :
    (positionsIn (ds.map (·.longname)) longname).filterMap (fun p => ds[p]?) =
      ds.filter (·.longname = some longname) := by
  induction ds with
  | nil => rfl
  | cons d ds ih =>
    have htail : positionsIn ((d :: ds).map (·.longname)) longname =
        (if d.longname = some longname then [0] else []) ++
          (positionsIn (ds.map (·.longname)) longname).map (· + 1) := by
      rw [positionsIn, List.map_cons, List.length_cons, List.range_succ_eq_map, List.filter_cons, List.filter_map]
      by_cases h : d.longname = some longname <;> simp [h, positionsIn, Function.comp_def]
    have hshift : (fun p => (d :: ds)[p]?) ∘ (· + 1) = fun p => ds[p]? := rfl
    rw [htail, List.filterMap_append, List.filterMap_map, hshift, List.filter_cons, ← ih]
    by_cases h : d.longname = some longname <;> simp [h]

/-- **Looking a longname up gives the doclets that have it**, in their order. -/
theorem Indexed.get_eq (h : db.Indexed) (longname : String) :
    db.get longname = db.doclets.filter (·.longname = some longname) := by
  rw [get, h longname, filterMap_positionsIn]

end Database
end SymbolDocs
