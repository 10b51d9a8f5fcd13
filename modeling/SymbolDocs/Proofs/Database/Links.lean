import SymbolDocs.Database.Linking

/-!
# What linking makes of a database

Linking goes over the doclets three times, and each step looks at the database that the steps before it left.
`linkAll_database` says what comes out of all steps together: the copies of borrowed symbols join the doclets
(`fulfilAll`), and then each doclet gets its links on its own (`relinked`): the listeners that name it, the resolved
names of its mixins and of the symbols it extends, and its state. A list of links keeps what it had and gets what is
new, so a doclet with all its links gets no further ones (`relinked_relinked`).
-/

namespace SymbolDocs

/-! ## Lists without repeated entries -/

/-- The list with the further entries that it does not have, in their order. -/
def appendNew (xs ys : List String) : List String :=
  ys.foldl (fun xs y => if xs.contains y then xs else xs ++ [y]) xs

theorem appendNew_append (xs ys zs : List String) : appendNew xs (ys ++ zs) = appendNew (appendNew xs ys) zs :=
  List.foldl_append

theorem mem_appendNew {z : String} {xs ys : List String} : z ∈ appendNew xs ys ↔ z ∈ xs ∨ z ∈ ys := by
  induction ys generalizing xs with
  | nil => simp [appendNew]
  | cons y ys ih =>
    have hstep : z ∈ (if xs.contains y then xs else xs ++ [y]) ↔ z ∈ xs ∨ z = y := by
      split
      · next hy =>
        rw [List.contains_iff_mem] at hy
        constructor
        · exact .inl
        · rintro (h | rfl)
          · exact h
          · exact hy
      · simp
    rw [appendNew, List.foldl_cons, ← appendNew, ih, hstep, List.mem_cons, or_assoc]

theorem appendNew_eq_self {xs ys : List String} (h : ∀ y ∈ ys, y ∈ xs) : appendNew xs ys = xs := by
  induction ys with
  | nil => rfl
  | cons y ys ih =>
    obtain ⟨hy, hys⟩ := List.forall_mem_cons.1 h
    rw [appendNew, List.foldl_cons, if_pos (List.contains_iff_mem.2 hy)]
    exact ih hys

/-- A list that has got the entries once does not change when it gets them again. -/
theorem appendNew_appendNew (xs ys : List String) : appendNew (appendNew xs ys) ys = appendNew xs ys :=
  appendNew_eq_self fun _ hy => mem_appendNew.2 (.inr hy)

namespace Linking

variable {db : Database}

/-! ## Changing doclets -/

theorem mapDoclets_congr {f g : Doclet → Doclet} (h : ∀ d ∈ db.doclets, f d = g d) :
    db.mapDoclets f = db.mapDoclets g := by
  rw [Database.mapDoclets, Database.mapDoclets, List.map_congr_left h]

theorem mapDoclets_eq_self {f : Doclet → Doclet} (h : ∀ d ∈ db.doclets, f d = d) : db.mapDoclets f = db := by
  rw [mapDoclets_congr (g := id) h, Database.mapDoclets, List.map_id]

theorem mapDoclets_mapDoclets (f g : Doclet → Doclet) :
    (db.mapDoclets f).mapDoclets g = db.mapDoclets fun d => g (f d) := by
  simp [Database.mapDoclets]

theorem modify_congr {f g : Doclet → Doclet} {p : Nat} (h : ∀ d, db.doclets[p]? = some d → f d = g d) :
    db.modify p f = db.modify p g := by
  have hl : db.doclets.modify p f = db.doclets.modify p g := by
    refine List.ext_getElem? fun i => ?_
    rw [List.getElem?_modify, List.getElem?_modify]
    split
    · next he =>
      subst he
      cases hd : db.doclets[p]? with
      | none => rfl
      | some d => simp [h d hd]
    · rfl
  rw [Database.modify, hl]
  rfl

theorem modify_eq_self {f : Doclet → Doclet} {p : Nat} (h : ∀ d, db.doclets[p]? = some d → f d = d) :
    db.modify p f = db := by
  rw [modify_congr (g := id) h, Database.modify, List.modify_id]

theorem modify_modify (f g : Doclet → Doclet) (p : Nat) :
    (db.modify p f).modify p g = db.modify p fun d => g (f d) := by
  simp only [Database.modify, List.modify_modify_eq]
  rfl

theorem size_modify (db : Database) (p : Nat) (f : Doclet → Doclet) : (db.modify p f).size = db.size := by
  simp [Database.modify, Database.size]

theorem size_mapDoclets (db : Database) (f : Doclet → Doclet) : (db.mapDoclets f).size = db.size := by
  simp [Database.mapDoclets, Database.size]

theorem isEmpty_get {db' : Database} (hi : db'.index = db.index) (hs : db'.size = db.size) (longname : String) :
    (db'.get longname).isEmpty = (db.get longname).isEmpty := by
  have hsome (p : Nat) : db'.doclets[p]? = none ↔ db.doclets[p]? = none := by
    rw [List.getElem?_eq_none_iff, List.getElem?_eq_none_iff, ← Database.size, ← Database.size, hs]
  rw [Bool.eq_iff_iff, List.isEmpty_iff, List.isEmpty_iff, Database.get, Database.get, List.filterMap_eq_nil_iff,
    List.filterMap_eq_nil_iff, Database.positions, Database.positions, hi]
  simp only [hsome]

theorem foldl_modify_succ {α : Type} (f : α → α) (x : α) (xs : List α) (is : List Nat) :
    is.foldl (fun ys i => ys.modify (i + 1) f) (x :: xs) = x :: is.foldl (fun ys i => ys.modify i f) xs := by
  induction is generalizing xs with
  | nil => rfl
  | cons i is ih => rw [List.foldl_cons, List.modify_succ_cons, ih, List.foldl_cons]

theorem foldl_modify_range {α : Type} (f : α → α) (xs : List α) :
    (List.range xs.length).foldl (fun ys i => ys.modify i f) xs = xs.map f := by
  induction xs with
  | nil => rfl
  | cons x xs ih =>
    rw [List.length_cons, List.range_succ_eq_map, List.foldl_cons, List.foldl_map, List.modify_zero_cons,
      foldl_modify_succ, ih, List.map_cons]

/-! ## Listeners -/

/-- The longname that a listener gives an event for each of the names it listens to. -/
def heardBy (d e : Doclet) : List String :=
  d.listens.flatMap fun event => if isEvent event e then (nonempty d.longname).toList else []

/-- The doclet with further listeners. -/
def hear (listeners : List String) (e : Doclet) : Doclet := { e with listeners := appendNew e.listeners listeners }

theorem hear_hear (xs ys : List String) (e : Doclet) : hear ys (hear xs e) = hear (xs ++ ys) e := by
  simp [hear, appendNew_append]

/-- One listener gives its longname to every event of the name. -/
theorem linkListener_database (listener : Doclet) (l : Linking) (event : String) :
    (linkListener listener l event).database = l.database.mapDoclets fun e =>
      hear (if isEvent event e then (nonempty listener.longname).toList else []) e := by
  unfold linkListener
  split
  · split
    · next longname hn =>
      refine mapDoclets_congr fun e _ => ?_
      rw [hn]
      split
      · unfold addListener hear
        simp only [Option.toList, appendNew, List.foldl_cons, List.foldl_nil]
        split <;> rfl
      · rfl
    · next hn =>
      refine (mapDoclets_eq_self fun e _ => ?_).symm
      rw [hn]
      split <;> rfl
  · next hany =>
    refine (mapDoclets_eq_self fun e he => ?_).symm
    rw [if_neg fun h => hany (List.any_eq_true.2 ⟨e, he, h⟩)]
    rfl

theorem foldl_linkListener_database (listener : Doclet) (l : Linking) (events : List String) :
    (events.foldl (linkListener listener) l).database = l.database.mapDoclets fun e =>
      hear (events.flatMap fun event => if isEvent event e then (nonempty listener.longname).toList else []) e := by
  induction events generalizing l with
  | nil => exact (mapDoclets_eq_self fun _ _ => rfl).symm
  | cons event events ih =>
    rw [List.foldl_cons, ih, linkListener_database, mapDoclets_mapDoclets]
    exact mapDoclets_congr fun e _ => hear_hear _ _ e

/-- What the doclet at a position gives an event. -/
def heardAt (ds : List Doclet) (e : Doclet) (position : Nat) : List String :=
  match ds[position]? with
  | none => []
  | some d => heardBy d e

theorem linkListeners_database (l : Linking) (position : Nat) :
    (linkListeners l position).database =
      l.database.mapDoclets fun e => hear (heardAt l.database.doclets e position) e := by
  unfold linkListeners heardAt
  cases l.database.doclets[position]? with
  | none => exact (mapDoclets_eq_self fun _ _ => rfl).symm
  | some d => exact foldl_linkListener_database d l d.listens

theorem heardAt_map_hear (ds : List Doclet) (f : Doclet → List String) (e : Doclet) (position : Nat) :
    heardAt (ds.map fun d => hear (f d) d) e position = heardAt ds e position := by
  unfold heardAt
  rw [List.getElem?_map]
  cases ds[position]? <;> rfl

theorem foldl_linkListeners_database (l : Linking) (ps : List Nat) :
    (ps.foldl linkListeners l).database =
      l.database.mapDoclets fun e => hear (ps.flatMap (heardAt l.database.doclets e)) e := by
  induction ps generalizing l with
  | nil => exact (mapDoclets_eq_self fun _ _ => rfl).symm
  | cons p ps ih =>
    rw [List.foldl_cons, ih, linkListeners_database, mapDoclets_mapDoclets]
    refine mapDoclets_congr fun e _ => ?_
    have hlater : ps.flatMap (heardAt (l.database.doclets.map fun d => hear (heardAt l.database.doclets d p) d)
        (hear (heardAt l.database.doclets e p) e)) = ps.flatMap (heardAt l.database.doclets e) :=
      congrArg ps.flatMap (funext fun q => heardAt_map_hear _ _ e q)
    rw [List.flatMap_cons, ← hear_hear]
    exact congrArg (hear · _) hlater

/-- All longnames that an event hears from some doclets. -/
def audience (ds : List Doclet) (e : Doclet) : List String := ds.flatMap (heardBy · e)

/-- Positions stand for doclets. -/
theorem flatMap_range {α β : Type} (f : α → List β) (xs : List α) :
    ((List.range xs.length).flatMap fun p => (xs[p]?.map f).getD []) = xs.flatMap f := by
  induction xs with
  | nil => rfl
  | cons x xs ih =>
    rw [List.length_cons, List.range_succ_eq_map, List.flatMap_cons, List.flatMap_map]
    exact congrArg (f x ++ ·) ih

theorem flatMap_heardAt (ds : List Doclet) (e : Doclet) :
    (List.range ds.length).flatMap (heardAt ds e) = audience ds e := by
  have hat : heardAt ds e = fun p => (ds[p]?.map (heardBy · e)).getD [] := by
    funext p
    unfold heardAt
    cases ds[p]? <;> rfl
  rw [hat]
  exact flatMap_range (heardBy · e) ds

theorem linkAllListeners_database (l : Linking) : (l.positions.foldl linkListeners l).database =
    l.database.mapDoclets fun e => hear (audience l.database.doclets e) e := by
  rw [foldl_linkListeners_database]
  exact mapDoclets_congr fun e _ => by rw [positions, Database.size, flatMap_heardAt]

/-! ## Mixins and extended symbols -/

/-- The longname that a stated name becomes. -/
def resolved (db : Database) (name : String) : String := (meaning? db name).getD name

/-- The doclet with further names in one relation. -/
def Relation.extend (names : List String) (d : Doclet) : Relation → Doclet
  | .mixes => { d with mixes := appendNew d.mixes names }
  | .augments => { d with augments := appendNew d.augments names }

theorem resolved_congr {db' : Database} (hi : db'.index = db.index) (hs : db'.size = db.size) :
    resolved db' = resolved db := by
  funext name
  simp only [resolved, meaning?, isEmpty_get hi hs]

theorem linkName_database (relation : Relation) (p : Nat) (l : Linking) (name : String) :
    (linkName relation p l name).database =
      l.database.modify p fun d => relation.extend [resolved l.database name] d := by
  have hadd (longname : String) (d : Doclet) : relation.add longname d = relation.extend [longname] d := by
    cases relation
    all_goals
      simp only [Relation.add, Relation.extend, appendNew, List.foldl_cons, List.foldl_nil]
      split <;> rfl
  unfold linkName
  split
  · next hd => exact (modify_eq_self fun d h => by rw [hd] at h; cases h).symm
  · split
    · next longname hm =>
      simp only [resolved, hm, Option.getD_some, ← hadd]
      rfl
    · next hm =>
      simp only [resolved, hm, Option.getD_none, ← hadd]
      rfl

theorem resolved_modify (p : Nat) (f : Doclet → Doclet) : resolved (db.modify p f) = resolved db :=
  resolved_congr rfl (size_modify db p f)

theorem resolved_mapDoclets (f : Doclet → Doclet) : resolved (db.mapDoclets f) = resolved db :=
  resolved_congr rfl (size_mapDoclets db f)

theorem extend_extend (relation : Relation) (xs ys : List String) (d : Doclet) :
    relation.extend ys (relation.extend xs d) = relation.extend (xs ++ ys) d := by
  cases relation <;> simp [Relation.extend, appendNew_append]

theorem foldl_linkName_database (relation : Relation) (p : Nat) (l : Linking) (names : List String) :
    (names.foldl (linkName relation p) l).database =
      l.database.modify p (relation.extend (names.map (resolved l.database))) := by
  induction names generalizing l with
  | nil =>
    refine (modify_eq_self fun d _ => ?_).symm
    cases relation <;> rfl
  | cons name names ih =>
    rw [List.foldl_cons, ih, linkName_database, resolved_modify, modify_modify]
    exact modify_congr fun d _ => extend_extend relation _ _ d

/-- The doclet with its names of one relation resolved. -/
def relate (db : Database) (relation : Relation) (d : Doclet) : Doclet :=
  relation.extend ((relation.declared d).map (resolved db)) d

theorem linkRelation_database (relation : Relation) (l : Linking) (p : Nat) :
    (linkRelation relation l p).database = l.database.modify p (relate l.database relation) := by
  unfold linkRelation
  split
  · next hd => exact (modify_eq_self fun d h => by rw [hd] at h; cases h).symm
  · next d hd =>
    rw [foldl_linkName_database]
    refine modify_congr fun d' hd' => ?_
    rw [hd] at hd'
    cases hd'
    rfl

/-- The doclet with its names of both relations resolved. -/
def relateBoth (db : Database) (d : Doclet) : Doclet := relate db .augments (relate db .mixes d)

theorem relate_congr {db' : Database} (h : resolved db' = resolved db) (relation : Relation) :
    relate db' relation = relate db relation := by
  funext d
  rw [relate, relate, h]

theorem relateBoth_congr {db' : Database} (h : resolved db' = resolved db) : relateBoth db' = relateBoth db := by
  funext d
  rw [relateBoth, relateBoth, relate_congr h, relate_congr h]

theorem linkRelations_database (l : Linking) (p : Nat) :
    (linkRelations l p).database = l.database.modify p (relateBoth l.database) := by
  rw [linkRelations, linkRelation_database, linkRelation_database, modify_modify,
    relate_congr (resolved_modify _ _)]
  rfl

theorem foldl_linkRelations_database (l : Linking) (ps : List Nat) : (ps.foldl linkRelations l).database =
    { l.database with doclets := ps.foldl (fun ds p => ds.modify p (relateBoth l.database)) l.database.doclets } := by
  induction ps generalizing l with
  | nil => rfl
  | cons p ps ih =>
    rw [List.foldl_cons, ih, linkRelations_database, relateBoth_congr (resolved_modify _ _)]
    rfl

theorem linkAllRelations_database (l : Linking) :
    (l.positions.foldl linkRelations l).database = l.database.mapDoclets (relateBoth l.database) := by
  rw [foldl_linkRelations_database, positions, Database.size, foldl_modify_range]
  rfl

/-! ## Borrowed symbols -/

/-- The doclet with a further fulfilled request. -/
def withBorrow (b : Borrow) (d : Doclet) : Doclet := { d with borrowed := d.borrowed ++ [b] }

/-- The database after one request of the doclet at a position. -/
def fulfil (p : Nat) (db : Database) (request : Borrow) : Database :=
  match db.doclets[p]?, db.get request.source with
  | some borrower, source :: _ =>
    if borrower.borrowed.contains (borrowRecord source request) then db
    else (db.add (borrowedCopy source borrower (borrowTarget source request))).modify p
      (withBorrow (borrowRecord source request))
  | _, _ => db

theorem linkBorrow_database (p : Nat) (l : Linking) (request : Borrow) :
    (linkBorrow p l request).database = fulfil p l.database request := by
  unfold linkBorrow fulfil
  cases l.database.doclets[p]? with
  | none => rfl
  | some borrower =>
    cases l.database.get request.source with
    | nil => rfl
    | cons source rest =>
      by_cases hc : borrower.borrowed.contains (borrowRecord source request)
      · exact (congrArg Linking.database (if_pos hc)).trans (if_pos hc).symm
      · exact (congrArg Linking.database (if_neg hc)).trans (if_neg hc).symm

/-- A request of a doclet that linking has nothing to do for: its source has no doclet, or it was fulfilled. -/
def Settled (db : Database) (d : Doclet) (request : Borrow) : Prop :=
  ∀ source ∈ (db.get request.source).head?, borrowRecord source request ∈ d.borrowed

/-- The database after a request of the doclet at a position is granted: the copy is the last doclet. -/
def grant (p : Nat) (db : Database) (request : Borrow) (borrower source : Doclet) : Database :=
  (db.add (borrowedCopy source borrower (borrowTarget source request))).modify p
    (withBorrow (borrowRecord source request))

theorem fulfil_of_source {p : Nat} {request : Borrow} {borrower source : Doclet} (hb : db.doclets[p]? = some borrower)
    (hs : (db.get request.source).head? = some source) :
    fulfil p db request =
      if borrower.borrowed.contains (borrowRecord source request) then db else grant p db request borrower source := by
  obtain ⟨rest, hs⟩ := List.head?_eq_some_iff.1 hs
  rw [fulfil, hb, hs]
  rfl

/-- A request changes nothing where it is settled, and is granted otherwise. -/
theorem fulfil_cases (p : Nat) (db : Database) (request : Borrow) :
    ((∀ d, db.doclets[p]? = some d → Settled db d request) ∧ fulfil p db request = db) ∨
      ∃ borrower source, db.doclets[p]? = some borrower ∧ (db.get request.source).head? = some source ∧
        borrowRecord source request ∉ borrower.borrowed ∧
        fulfil p db request = grant p db request borrower source := by
  cases hb : db.doclets[p]? with
  | none => exact .inl ⟨fun d hd => absurd hd.symm (Option.some_ne_none d), by rw [fulfil, hb]⟩
  | some borrower =>
    cases hs : (db.get request.source).head? with
    | none =>
      refine .inl ⟨fun d _ source hsource => absurd (hsource.symm.trans hs) (Option.some_ne_none source), ?_⟩
      rw [fulfil, hb, List.head?_eq_none_iff.1 hs]
    | some source =>
      rw [fulfil_of_source hb hs]
      by_cases hm : borrowRecord source request ∈ borrower.borrowed
      · refine .inl ⟨fun d hd source' hsource => ?_, if_pos (List.contains_iff_mem.2 hm)⟩
        obtain rfl := Option.some.inj hd
        obtain rfl := Option.some.inj (hs.symm.trans hsource)
        exact hm
      · exact .inr ⟨borrower, source, rfl, rfl, hm, if_neg fun hc => hm (List.contains_iff_mem.1 hc)⟩

theorem size_grant {p : Nat} {request : Borrow} {borrower source : Doclet} :
    (grant p db request borrower source).size = db.size + 1 := by
  rw [grant, size_modify, Database.size_add]

/-- The database after all requests of the doclet at a position. -/
def fulfilAt (db : Database) (p : Nat) : Database :=
  match db.doclets[p]? with
  | none => db
  | some d => d.declared.borrows.foldl (fulfil p) db

/-- The database after all requests. -/
def fulfilAll (db : Database) : Database := (List.range db.size).foldl fulfilAt db

/-- What every request that a doclet states keeps is kept by all requests together. -/
theorem fulfilAll_keeps_of_stated {P : Database → Prop}
    (hP : ∀ db₁ db₂ p d request, P db₁ → db₁.doclets[p]? = some d → request ∈ d.declared.borrows → P db₂ →
      P (fulfil p db₂ request)) (h : P db) : P (fulfilAll db) := by
  refine List.foldlRecOn _ _ h fun db₁ h₁ p _ => ?_
  unfold fulfilAt
  split
  · exact h₁
  · next d hd => exact List.foldlRecOn _ _ h₁ fun db₂ h₂ request hr => hP db₁ db₂ p d request h₁ hd hr h₂

/-- What every request keeps is kept by all requests together. -/
theorem fulfilAll_keeps {P : Database → Prop} (hP : ∀ db p request, P db → P (fulfil p db request)) (h : P db) :
    P (fulfilAll db) :=
  fulfilAll_keeps_of_stated (fun _ db p _ request _ _ _ => hP db p request) h

theorem foldl_database {α : Type} {step : Linking → α → Linking} {f : Database → α → Database}
    (h : ∀ l x, (step l x).database = f l.database x) (l : Linking) (xs : List α) :
    (xs.foldl step l).database = xs.foldl f l.database := by
  induction xs generalizing l with
  | nil => rfl
  | cons x xs ih => rw [List.foldl_cons, ih, h, List.foldl_cons]

theorem linkBorrows_database (l : Linking) (p : Nat) : (linkBorrows l p).database = fulfilAt l.database p := by
  unfold linkBorrows fulfilAt
  cases l.database.doclets[p]? with
  | none => rfl
  | some d => exact foldl_database (linkBorrow_database p) l _

/-! ## All links -/

/-- The doclet with all its links, given the database that they refer to. -/
def relinked (db : Database) (d : Doclet) : Doclet := finishState (relateBoth db (hear (audience db.doclets d) d))

/-- **What linking makes of a database**: first the borrowed symbols join it, then every doclet gets its links. -/
theorem linkAll_database (l : Linking) :
    l.linkAll.database = (fulfilAll l.database).mapDoclets (relinked (fulfilAll l.database)) := by
  unfold linkAll
  dsimp only
  rw [linkAllRelations_database, mapDoclets_mapDoclets, linkAllListeners_database, mapDoclets_mapDoclets,
    foldl_database linkBorrows_database]
  refine mapDoclets_congr fun d _ => ?_
  rw [relateBoth_congr (resolved_mapDoclets _)]
  rfl

theorem relinked_eq (db : Database) (d : Doclet) : relinked db d =
    { d with
      listeners := appendNew d.listeners (audience db.doclets d)
      mixes := appendNew d.mixes (d.declared.mixes.map (resolved db))
      augments := appendNew d.augments (d.declared.augments.map (resolved db))
      state := if d.state = .nameResolved then .crossReferenced else d.state } := by
  rw [relinked, finishState]
  split
  · next h =>
    have h : d.state = .nameResolved := h
    rw [if_pos h]
    rfl
  · next h =>
    have h : d.state ≠ .nameResolved := h
    rw [if_neg h]
    rfl

/-- A doclet that has all its links gets no further ones. -/
theorem relinked_relinked (db : Database) (d : Doclet) : relinked db (relinked db d) = relinked db d := by
  have haudience : audience db.doclets (relinked db d) = audience db.doclets d := by
    rw [relinked_eq]
    rfl
  have hstate (s : DocletState) : (if (if s = .nameResolved then DocletState.crossReferenced else s) = .nameResolved
      then .crossReferenced else if s = .nameResolved then .crossReferenced else s) =
      if s = .nameResolved then .crossReferenced else s := by
    cases s <;> rfl
  rw [relinked_eq db (relinked db d), haudience, relinked_eq]
  simp only [appendNew_appendNew, hstate]

theorem audience_relinked (db : Database) (e : Doclet) :
    audience (db.mapDoclets (relinked db)).doclets e = audience db.doclets e := by
  rw [audience, Database.mapDoclets, List.flatMap_map]
  refine congrArg db.doclets.flatMap (funext fun d => ?_)
  rw [relinked_eq]
  rfl

theorem relinked_mapDoclets (db : Database) : relinked (db.mapDoclets (relinked db)) = relinked db := by
  funext d
  rw [relinked_eq, relinked_eq, audience_relinked, resolved_mapDoclets]

end Linking
end SymbolDocs
