import SymbolDocs.Proofs.Database.Listeners
import SymbolDocs.Proofs.Database.Reports
import SymbolDocs.Proofs.Database.Scanning

/-!
# Names of mixins and extended symbols

A pass takes the names that the tags of a doclet state for its mixins and for the symbols it extends to longnames. A
name stands for itself where it is documented, else for its normal form where that is documented, and else for itself
again, which makes the name `Dangling`. Documented is what the index has doclets for (`Database.documents`). Where the
index is right these are the longnames of the doclets (`Database.Indexed.documents_iff`), but a doclet whose longname
has changed since it was added still stands under the old one.

All names are read against one database, that with the copies of borrowed symbols, since no step of a pass behind them
changes what is documented (`Database.lacks_modify`). So what a pass reports in its last step is known from the
doclets and the index alone (`Linking.reporter_linkAll`). `Linking.linkAll_resolves` puts this together with what the
lists of the doclets get.
-/

namespace SymbolDocs

/-! ## What names stand for -/

namespace Database

variable {db db' : Database} {name : String}

/-- Whether some doclet stands under a longname. -/
def documents (db : Database) (longname : String) : Bool := !(db.get longname).isEmpty

/-- The longname that a stated name stands for. -/
def reading (db : Database) (name : String) : String :=
  if db.documents name then name
  else if db.documents (NamePath.normalize name) then NamePath.normalize name
  else name

/-- Whether neither a name nor its normal form is documented. -/
def lacks (db : Database) (name : String) : Bool := !db.documents name && !db.documents (NamePath.normalize name)

theorem lacks_iff : db.lacks name = true ↔
    db.documents name = false ∧ db.documents (NamePath.normalize name) = false := by
  simp [lacks]

/-- In a database whose index is right, a longname is documented if a doclet has it. -/
theorem Indexed.documents_iff (h : db.Indexed) (longname : String) :
    db.documents longname = true ↔ ∃ d ∈ db.doclets, d.longname = some longname := by
  rw [documents, h.get_eq]
  simp

theorem meaning?_eq (db : Database) (name : String) :
    Linking.meaning? db name = if db.lacks name then none else some (db.reading name) := by
  unfold Linking.meaning? reading lacks documents
  cases (db.get name).isEmpty <;> cases (db.get (NamePath.normalize name)).isEmpty <;> rfl

theorem resolved_eq (db : Database) : Linking.resolved db = db.reading := by
  funext name
  rw [Linking.resolved, meaning?_eq]
  split
  · next hl =>
    obtain ⟨hname, hnormal⟩ := lacks_iff.1 hl
    simp [reading, hname, hnormal]
  · rfl

/-- What is not documented depends on the index, and on how many doclets there are. -/
theorem lacks_congr (hi : db'.index = db.index) (hs : db'.size = db.size) : db'.lacks = db.lacks := by
  funext name
  simp only [lacks, documents, Linking.isEmpty_get hi hs]

theorem lacks_modify (db : Database) (p : Nat) (f : Doclet → Doclet) : (db.modify p f).lacks = db.lacks :=
  lacks_congr rfl (Linking.size_modify db p f)

theorem lacks_mapDoclets (db : Database) (f : Doclet → Doclet) : (db.mapDoclets f).lacks = db.lacks :=
  lacks_congr rfl (Linking.size_mapDoclets db f)

end Database

namespace Linking

variable {db db' : Database} {d d' : Doclet} {p : Nat} {l : Linking} {f : Doclet → Doclet}

/-! ## Names that stand for nothing -/

/-- A stated name that is documented neither as it is written nor in normal form. -/
structure Dangling where
  /-- The longname of the doclet whose tags state it. -/
  longname : Option String
  location : Location
  relation : Relation
  name : String
  deriving DecidableEq, Repr

namespace Dangling

/-- What is reported of a dangling name. -/
def problem (x : Dangling) : Problem := .danglingReference x.relation.word (x.longname.getD "") x.name

/-- The key under which a dangling name is reported once. -/
def key (x : Dangling) : String := shown x.longname ++ "-" ++ x.relation.word ++ "->" ++ x.name

/-- Reports a dangling name, for debugging only. -/
def tell (r : Reporter) (x : Dangling) : Reporter := r.reportOnce x.key x.problem x.location (some .debug)

end Dangling

/-- A name that the tags of a doclet state, as it is reported if it dangles. -/
def danglingName (d : Doclet) (relation : Relation) (name : String) : Dangling :=
  { longname := d.longname, location := d.location, relation, name }

/-- The dangling names of a doclet in one relation. -/
def danglingIn (db : Database) (d : Doclet) (relation : Relation) : List Dangling :=
  ((relation.declared d).filter db.lacks).map (danglingName d relation)

/-- The dangling names of a doclet in both relations. -/
def danglingOf (db : Database) (d : Doclet) : List Dangling := danglingIn db d .mixes ++ danglingIn db d .augments

/-- The dangling names of a database, in the order of its doclets. -/
def danglings (db : Database) : List Dangling := db.doclets.flatMap (danglingOf db)

theorem mem_danglings {x : Dangling} : x ∈ danglings db ↔
    ∃ d ∈ db.doclets, ∃ relation, ∃ name ∈ Relation.declared d relation, db.documents name = false ∧
      db.documents (NamePath.normalize name) = false ∧ danglingName d relation name = x := by
  have hin (d : Doclet) (relation : Relation) : x ∈ danglingIn db d relation ↔
      ∃ name ∈ relation.declared d, db.documents name = false ∧
        db.documents (NamePath.normalize name) = false ∧ danglingName d relation name = x := by
    simp only [danglingIn, List.mem_map, List.mem_filter, Database.lacks_iff, and_assoc]
  unfold danglings danglingOf
  simp only [List.mem_flatMap, List.mem_append, hin]
  refine exists_congr fun d => and_congr_right fun _ => ⟨?_, ?_⟩
  · rintro (h | h)
    · exact ⟨.mixes, h⟩
    · exact ⟨.augments, h⟩
  · rintro ⟨- | -, h⟩
    · exact .inl h
    · exact .inr h

/-! ## What doclets state -/

/-- What reports call a doclet, and what its tags state. -/
def statement (d : Doclet) : Option String × Location × Declared := (d.longname, d.location, d.declared)

theorem statement_extend (names : List String) (relation : Relation) (d : Doclet) :
    statement (relation.extend names d) = statement d := by
  cases relation <;> rfl

theorem statement_relate (db : Database) (relation : Relation) (d : Doclet) :
    statement (relate db relation d) = statement d :=
  statement_extend _ relation d

theorem statement_relateBoth (db : Database) (d : Doclet) : statement (relateBoth db d) = statement d := by
  rw [relateBoth, statement_relate, statement_relate]

theorem danglingName_congr (h : statement d' = statement d) : danglingName d' = danglingName d := by
  obtain ⟨hlongname, h⟩ := Prod.mk.inj h
  obtain ⟨hlocation, -⟩ := Prod.mk.inj h
  funext relation name
  rw [danglingName, danglingName, hlongname, hlocation]

theorem danglingIn_congr (hl : db'.lacks = db.lacks) (hd : statement d' = statement d) (relation : Relation) :
    danglingIn db' d' relation = danglingIn db d relation := by
  have hdeclared : d'.declared = d.declared := congrArg (·.2.2) hd
  have hnames : relation.declared d' = relation.declared d := by
    cases relation <;> simp only [Relation.declared, hdeclared]
  rw [danglingIn, danglingIn, hnames, hl, danglingName_congr hd]

theorem danglingOf_congr (hl : db'.lacks = db.lacks) (hd : statement d' = statement d) :
    danglingOf db' d' = danglingOf db d := by
  rw [danglingOf, danglingOf, danglingIn_congr hl hd, danglingIn_congr hl hd]

/-- A change of all doclets that leaves alone what they state keeps the dangling names. -/
theorem danglings_mapDoclets (hf : ∀ d, statement (f d) = statement d) (db : Database) :
    danglings (db.mapDoclets f) = danglings db := by
  have hof (d : Doclet) : danglingOf (db.mapDoclets f) (f d) = danglingOf db d :=
    danglingOf_congr (Database.lacks_mapDoclets db f) (hf d)
  calc (db.doclets.map f).flatMap (danglingOf (db.mapDoclets f))
      = db.doclets.flatMap fun d => danglingOf (db.mapDoclets f) (f d) := List.flatMap_map ..
    _ = db.doclets.flatMap (danglingOf db) := by simp only [hof]

/-- The dangling names of the doclet at a position. -/
def danglingsAt (db : Database) (p : Nat) : List Dangling := (db.doclets[p]?.map (danglingOf db)).getD []

theorem danglingsAt_modify (hf : ∀ d, statement (f d) = statement d) (db : Database) (p : Nat) :
    danglingsAt (db.modify p f) = danglingsAt db := by
  funext q
  have hstep (d : Doclet) : statement (if p = q then f d else d) = statement d := by
    split
    · exact hf d
    · rfl
  rw [danglingsAt, danglingsAt, Database.modify, List.getElem?_modify]
  cases db.doclets[q]? with
  | none => rfl
  | some d => exact danglingOf_congr (Database.lacks_modify db p f) (hstep d)

/-! ## What the last step of a pass reports -/

/-- One name makes a report if it dangles. -/
theorem reporter_linkName (hd : l.database.doclets[p]? = some d) (relation : Relation) (name : String) :
    (linkName relation p l name).reporter =
      if l.database.lacks name then Dangling.tell l.reporter (danglingName d relation name) else l.reporter := by
  unfold linkName
  rw [hd]
  dsimp only
  rw [Database.meaning?_eq]
  by_cases hl : l.database.lacks name
  · rw [if_pos hl, if_pos hl]
    rfl
  · rw [if_neg hl, if_neg hl]
    rfl

theorem reporter_foldl_linkName (hd : l.database.doclets[p]? = some d) (relation : Relation) (names : List String) :
    (names.foldl (linkName relation p) l).reporter =
      ((names.filter l.database.lacks).map (danglingName d relation)).foldl Dangling.tell l.reporter := by
  induction names generalizing l d with
  | nil => rfl
  | cons name names ih =>
    -- The doclet has one more link after the first name, and states what it did.
    have hdb := linkName_database relation p l name
    have hlacks : (linkName relation p l name).database.lacks = l.database.lacks := by
      rw [hdb, Database.lacks_modify]
    have hd' : (linkName relation p l name).database.doclets[p]? =
        some (relation.extend [resolved l.database name] d) := by
      rw [hdb, Database.modify, List.getElem?_modify_eq, hd]
      rfl
    rw [List.foldl_cons, ih hd', reporter_linkName hd, hlacks, danglingName_congr (statement_extend _ relation d)]
    by_cases hl : l.database.lacks name
    · rw [if_pos hl, List.filter_cons_of_pos hl]
      rfl
    · rw [if_neg hl, List.filter_cons_of_neg hl]

theorem reporter_linkRelation (hd : l.database.doclets[p]? = some d) (relation : Relation) :
    (linkRelation relation l p).reporter = (danglingIn l.database d relation).foldl Dangling.tell l.reporter := by
  unfold linkRelation
  rw [hd]
  exact reporter_foldl_linkName hd relation _

theorem reporter_linkRelations (l : Linking) (p : Nat) :
    (linkRelations l p).reporter = (danglingsAt l.database p).foldl Dangling.tell l.reporter := by
  unfold danglingsAt
  cases hd : l.database.doclets[p]? with
  | none =>
    have hnone (relation : Relation) : linkRelation relation l p = l := by rw [linkRelation, hd]
    rw [linkRelations, hnone, hnone]
    rfl
  | some d =>
    have hdb := linkRelation_database .mixes l p
    have hlacks : (linkRelation .mixes l p).database.lacks = l.database.lacks := by rw [hdb, Database.lacks_modify]
    have hd' : (linkRelation .mixes l p).database.doclets[p]? = some (relate l.database .mixes d) := by
      rw [hdb, Database.modify, List.getElem?_modify_eq, hd]
      rfl
    rw [linkRelations, reporter_linkRelation hd', reporter_linkRelation hd,
      danglingIn_congr hlacks (statement_relate l.database .mixes d), ← List.foldl_append]
    rfl

theorem reporter_foldl_linkRelations (l : Linking) (ps : List Nat) :
    (ps.foldl linkRelations l).reporter = (ps.flatMap (danglingsAt l.database)).foldl Dangling.tell l.reporter := by
  induction ps generalizing l with
  | nil => rfl
  | cons p ps ih =>
    have hat : danglingsAt (linkRelations l p).database = danglingsAt l.database := by
      rw [linkRelations_database, danglingsAt_modify (statement_relateBoth l.database)]
    rw [List.foldl_cons, ih, reporter_linkRelations, hat, List.flatMap_cons, List.foldl_append]

theorem linkSymbols_database (l : Linking) : l.linkSymbols.database =
    (fulfilAll l.database).mapDoclets fun e => hear (audience (fulfilAll l.database).doclets e) e := by
  unfold linkSymbols
  dsimp only
  rw [linkAllListeners_database, foldl_database linkBorrows_database]
  rfl

/-- What doclets state at the end of a pass is what they stated before its last step. -/
theorem danglings_linkAll (l : Linking) : danglings l.linkAll.database = danglings l.linkSymbols.database := by
  have hrelinked (d : Doclet) : statement (relinked (fulfilAll l.database) d) = statement d := by
    rw [relinked_eq]
    rfl
  have hheard (e : Doclet) : statement (hear (audience (fulfilAll l.database).doclets e) e) = statement e := rfl
  rw [linkAll_database, linkSymbols_database, danglings_mapDoclets hrelinked, danglings_mapDoclets hheard]

/-- **What the last step of a pass reports**: the dangling names of the database that comes out of the pass, one after
the other. -/
theorem reporter_linkAll (l : Linking) :
    l.linkAll.reporter = (danglings l.linkAll.database).foldl Dangling.tell l.linkSymbols.reporter := by
  have hat : (List.range l.linkSymbols.database.size).flatMap (danglingsAt l.linkSymbols.database) =
      danglings l.linkSymbols.database :=
    flatMap_range _ _
  rw [linkAll_reporter, reporter_foldl_linkRelations, positions, hat, danglings_linkAll]

theorem reports_tell (r : Reporter) (xs : List Dangling) :
    Reports (fun y => ∃ x ∈ xs, y = .ofProblem x.problem x.location (some .debug)) r (xs.foldl Dangling.tell r) := by
  induction xs generalizing r with
  | nil => exact .refl r
  | cons x xs ih =>
    refine Reports.trans (reports_reportOnce r x.key ⟨x, List.mem_cons_self, rfl⟩) ((ih _).mono ?_)
    rintro y ⟨x', hx', hy⟩
    exact ⟨x', List.mem_cons_of_mem x hx', hy⟩

/-! ## What the lists of doclets get -/

/-- The links of a doclet in a relation. -/
def Relation.links (d : Doclet) : Relation → List String
  | .mixes => d.mixes
  | .augments => d.augments

theorem links_relinked (db : Database) (relation : Relation) (d : Doclet) :
    relation.links (relinked db d) = appendNew (relation.links d) ((relation.declared d).map (resolved db)) := by
  rw [relinked_eq]
  cases relation <;> rfl

/-- Names are read against the database that comes out of a pass, although the doclets get their links one by one. -/
theorem resolved_fulfilAll (l : Linking) : resolved (fulfilAll l.database) = l.linkAll.database.reading := by
  rw [← Database.resolved_eq, linkAll_database, resolved_mapDoclets]

theorem indexed_linkAll (h : l.database.Indexed) : l.linkAll.database.Indexed := by
  have hfulfilled : (fulfilAll l.database).Indexed :=
    fulfilAll_keeps (fun _ p request h => indexed_fulfil h p request) h
  rw [linkAll_database]
  exact hfulfilled.mapDoclets fun d => by rw [relinked_eq]

/-- A class that states one mixin in two spellings, one that a pass makes, one that it has already, and one that is
documented nowhere. -/
def spelledMixins : Linking where
  database := .ofList [
    { name := some "Widget", longname := some "Widget", kind := some "class", mixes := ["Old"], state := .nameResolved
      declared := { mixes := ["Base.prototype.on", "Base#on", "Old", "N.f", "Old"], augments := ["Base"] } },
    { name := some "on", longname := some "Base#on", kind := some "mixin", state := .nameResolved },
    { name := some "N", longname := some "N", kind := some "namespace", state := .nameResolved
      declared := { borrows := [{ source := "Base#on", target := some "f" }] } }]
  reporter := {}

/-- A longname that a doclet has got since it was added is not documented. -/
example :
    let widget : Doclet := { longname := some "Widget", declared := { mixes := ["Base"] } }
    let database := (Database.ofList [widget, {}]).modify 1 fun d => { d with longname := some "Base" }
    let db := (linkAll { database, reporter := {} }).database
    db.doclets.map (·.longname) = [some "Widget", some "Base"] ∧ (danglings db).map (·.name) = ["Base"] := by
  decide +kernel

end Linking
end SymbolDocs
