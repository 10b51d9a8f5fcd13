import Mathlib.Data.List.Perm.Subperm
import Mathlib.Logic.Function.Iterate
import SymbolDocs.Proofs.Database.Additions
import SymbolDocs.Proofs.Database.Repetition

/-!
# Linking again and again

A pass can find work that the pass before left, but not without end. The first doclet of a longname stays the first
one, so a request is granted at most once over all passes: `Ledger` lists the granted requests, one for each doclet that
was added, and every request keeps it. A pass that adds no doclet leaves nothing to the next one. `linkAll_stabilises`
puts this together: there are at most as many new doclets as requests, and one pass more than there are requests is
enough.
-/

namespace SymbolDocs

/-! ## Positions of doclets -/

namespace Database

variable {db : Database}

/-- Every position in the index is that of a doclet, as it is in databases that were filled by adding doclets. -/
def Bounded (db : Database) : Prop := ∀ longname, ∀ p ∈ db.positions longname, p < db.size

theorem bounded_empty : Bounded {} := fun _ _ h => absurd h List.not_mem_nil

theorem Bounded.add (h : db.Bounded) (d : Doclet) : (db.add d).Bounded := by
  intro longname p hp
  rw [size_add]
  rw [positions_add, List.mem_append] at hp
  rcases hp with hp | hp
  · exact Nat.lt_succ_of_lt (h longname p hp)
  · split at hp
    · rw [List.mem_singleton.1 hp]
      exact Nat.lt_succ_self _
    · cases hp

theorem Bounded.modify (h : db.Bounded) (p : Nat) (f : Doclet → Doclet) : (db.modify p f).Bounded := by
  intro longname q hq
  rw [Linking.size_modify]
  exact h longname q hq

theorem Bounded.mapDoclets (h : db.Bounded) (f : Doclet → Doclet) : (db.mapDoclets f).Bounded := by
  intro longname q hq
  rw [Linking.size_mapDoclets]
  exact h longname q hq

theorem bounded_ofList (ds : List Doclet) : (ofList ds).Bounded :=
  List.foldlRecOn ds add bounded_empty fun _ h d _ => h.add d

theorem get_mapDoclets (db : Database) (f : Doclet → Doclet) (longname : String) :
    (db.mapDoclets f).get longname = (db.get longname).map f := by
  simp only [get, positions, Database.mapDoclets, List.getElem?_map, List.map_filterMap]

end Database

namespace Linking

variable {start db db' : Database} {d c c' source source' borrower borrower' : Doclet} {p : Nat} {request : Borrow}
  {granted : List (Nat × Borrow)} {g : Nat × Borrow}

/-- The first doclet of a longname stays the first one. -/
theorem Enlarged.head?_get (h : Enlarged db db') (hb : db.Bounded) {longname : String}
    (hs : (db.get longname).head? = some source) :
    ∃ source', (db'.get longname).head? = some source' ∧ Enriched source source' := by
  unfold Database.get at hs ⊢
  obtain ⟨ps, hps⟩ := h.positions longname
  have hlt := hb longname
  rw [← hps]
  cases hpos : db.positions longname with
  | nil =>
    rw [hpos] at hs
    cases hs
  | cons p rest =>
    rw [hpos] at hs hlt
    have hp : p < db.doclets.length := hlt p List.mem_cons_self
    have hp : db.doclets[p]? = some db.doclets[p] := List.getElem?_eq_getElem hp
    rw [List.filterMap_cons_some hp] at hs
    obtain ⟨source', hs', he⟩ := h.doclets p _ hp
    refine ⟨source', ?_, Option.some.inj hs ▸ he⟩
    rw [List.cons_append, List.filterMap_cons_some hs']
    rfl

/-! ## Requests -/

/-- The requests of all doclets, each with the position of the doclet that asks. -/
def requests (db : Database) : List (Nat × Borrow) :=
  db.doclets.zipIdx.flatMap fun (d, p) => d.declared.borrows.map (p, ·)

theorem mem_requests : (p, request) ∈ requests db ↔ ∃ d, db.doclets[p]? = some d ∧ request ∈ d.declared.borrows := by
  unfold requests
  rw [List.mem_flatMap]
  constructor
  · rintro ⟨⟨d, q⟩, hd, hm⟩
    obtain ⟨r, hr, he⟩ := List.mem_map.1 hm
    cases he
    exact ⟨d, List.mem_zipIdx_iff_getElem?.1 hd, hr⟩
  · rintro ⟨d, hd, hr⟩
    exact ⟨(d, p), List.mem_zipIdx_iff_getElem?.2 hd, List.mem_map.2 ⟨request, hr, rfl⟩⟩

/-- What a copy of a borrowed symbol is called, where it belongs, and what it is a copy of. -/
def copyPlace (c : Doclet) : Option String × Option String × Option Scope × Option String × Option String :=
  (c.name, c.memberof, c.scope, c.longname, c.borrowedFrom)

/-- A doclet is the copy that a request has led to: the doclet that asked has the request on record, and the copy has
the place that the request gives it. -/
def GrantedFor (db : Database) (g : Nat × Borrow) (c : Doclet) : Prop :=
  ∃ borrower source, db.doclets[g.1]? = some borrower ∧ (db.get g.2.source).head? = some source ∧
    borrowRecord source g.2 ∈ borrower.borrowed ∧ c.declared = {} ∧
    copyPlace c = copyPlace (borrowedCopy source borrower (borrowTarget source g.2))

theorem borrowRecord_enriched (hs : Enriched source source') (request : Borrow) :
    borrowRecord source' request = borrowRecord source request := by
  cases hs
  rfl

theorem copyPlace_borrowedCopy_enriched (hs : Enriched source source') (hb : Enriched borrower borrower')
    (request : Borrow) : copyPlace (borrowedCopy source' borrower' (borrowTarget source' request)) =
      copyPlace (borrowedCopy source borrower (borrowTarget source request)) := by
  cases hs
  cases hb
  rfl

/-- A copy stays the copy of its request. -/
theorem GrantedFor.enlarge (hc : GrantedFor db g c) (hb : db.Bounded) (h : Enlarged db db') (he : Enriched c c') :
    GrantedFor db' g c' := by
  obtain ⟨borrower, source, hborrower, hsource, hrecord, hdeclared, hplace⟩ := hc
  obtain ⟨borrower', hborrower', hbe⟩ := h.doclets _ _ hborrower
  obtain ⟨source', hsource', hse⟩ := h.head?_get hb hsource
  refine ⟨borrower', source', hborrower', hsource', ?_, ?_, ?_⟩
  · rw [borrowRecord_enriched hse]
    exact hbe.borrowed.kept.subset hrecord
  · rw [he.declared, hdeclared]
  · rw [copyPlace_borrowedCopy_enriched hse hbe, ← hplace]
    cases he
    rfl

/-! ## Granted requests -/

/-- The requests of a database that were granted on the way to a later one, in the order of the doclets that were added
for them. None was granted twice. -/
structure Ledger (start db : Database) (granted : List (Nat × Borrow)) : Prop where
  enlarged : Enlarged start db
  bounded : db.Bounded
  nodup : granted.Nodup
  requested : granted ⊆ requests start
  size : db.size = start.size + granted.length
  copies : ∀ (j : Nat) (g : Nat × Borrow), granted[j]? = some g →
    ∃ c, db.doclets[start.size + j]? = some c ∧ GrantedFor db g c

theorem ledger_start (hb : db.Bounded) : Ledger db db [] where
  enlarged := .refl db
  bounded := hb
  nodup := List.nodup_nil
  requested := List.nil_subset _
  size := rfl
  copies _ g hg := absurd hg.symm (Option.some_ne_none g)

/-- Further links for the doclets that are there leave the ledger as it is. -/
theorem Ledger.enrich (hl : Ledger start db granted) (h : Enlarged db db') (hb : db'.Bounded)
    (hs : db'.size = db.size) : Ledger start db' granted where
  enlarged := hl.enlarged.trans h
  bounded := hb
  nodup := hl.nodup
  requested := hl.requested
  size := hs.trans hl.size
  copies j g hg := by
    obtain ⟨c, hc, hgrant⟩ := hl.copies j g hg
    obtain ⟨c', hc', he⟩ := h.doclets _ c hc
    exact ⟨c', hc', hgrant.enlarge hl.bounded h he⟩

/-- The doclets that were added ask for nothing, so every request is one of those at the start. -/
theorem Ledger.mem_requests (hl : Ledger start db granted) (hd : db.doclets[p]? = some d)
    (hr : request ∈ d.declared.borrows) : (p, request) ∈ requests start := by
  by_cases hp : p < start.size
  · have hstart : start.doclets[p]? = some start.doclets[p] := List.getElem?_eq_getElem hp
    obtain ⟨d', hd', he⟩ := hl.enlarged.doclets p _ hstart
    rw [hd] at hd'
    cases hd'
    exact Linking.mem_requests.2 ⟨_, hstart, he.declared ▸ hr⟩
  · obtain ⟨j, rfl⟩ := Nat.exists_eq_add_of_le (Nat.le_of_not_lt hp)
    have hlt : start.size + j < db.doclets.length := (List.getElem?_eq_some_iff.1 hd).1
    have hj : j < granted.length := by
      rw [← Database.size, hl.size] at hlt
      omega
    obtain ⟨c, hc, -, -, -, -, -, hdeclared, -⟩ := hl.copies j _ (List.getElem?_eq_getElem hj)
    rw [hd] at hc
    cases hc
    rw [hdeclared] at hr
    cases hr

/-- A request that is not on record was not granted. -/
theorem Ledger.not_mem (hl : Ledger start db granted) (hborrower : db.doclets[p]? = some borrower)
    (hsource : (db.get request.source).head? = some source) (hnew : borrowRecord source request ∉ borrower.borrowed) :
    (p, request) ∉ granted := by
  intro hm
  obtain ⟨j, hj⟩ := List.mem_iff_getElem?.1 hm
  obtain ⟨c, -, borrower', source', hborrower', hsource', hrecord, -⟩ := hl.copies j _ hj
  rw [hborrower] at hborrower'
  rw [hsource] at hsource'
  cases hborrower'
  cases hsource'
  exact hnew hrecord

/-- The doclet that a granted request adds is the copy for it. -/
theorem grantedFor_grant (hb : db.Bounded) (hborrower : db.doclets[p]? = some borrower)
    (hsource : (db.get request.source).head? = some source) (hnew : borrowRecord source request ∉ borrower.borrowed) :
    GrantedFor (grant p db request borrower source) (p, request)
      (borrowedCopy source borrower (borrowTarget source request)) := by
  have hborrower' : (grant p db request borrower source).doclets[p]? = _ := getElem?_grant hborrower
  rw [if_pos rfl] at hborrower'
  obtain ⟨source', hsource', hse⟩ := (enlarged_grant hborrower hnew).head?_get hb hsource
  refine ⟨_, source', hborrower', hsource', ?_, rfl, ?_⟩
  · rw [borrowRecord_enriched hse]
    exact List.mem_append_right _ List.mem_cons_self
  · exact (copyPlace_borrowedCopy_enriched hse (enriched_withBorrow hnew) request).symm

/-- A request that is granted joins the ledger. -/
theorem Ledger.grant (hl : Ledger start db granted) (hg : (p, request) ∈ requests start)
    (hborrower : db.doclets[p]? = some borrower) (hsource : (db.get request.source).head? = some source)
    (hnew : borrowRecord source request ∉ borrower.borrowed) :
    Ledger start (grant p db request borrower source) (granted ++ [(p, request)]) := by
  have h : Enlarged db (Linking.grant p db request borrower source) := enlarged_grant hborrower hnew
  have hp : p < db.size := (List.getElem?_eq_some_iff.1 hborrower).1
  have hfresh := hl.not_mem hborrower hsource hnew
  refine ⟨hl.enlarged.trans h, (hl.bounded.add _).modify p _, (gains_concat hfresh).nodup hl.nodup, ?_, ?_, ?_⟩
  · exact List.append_subset.2 ⟨hl.requested, List.cons_subset.2 ⟨hg, List.nil_subset _⟩⟩
  · rw [size_grant, hl.size, List.length_append]
    rfl
  · intro j g hj
    rcases Nat.lt_or_ge j granted.length with hlt | hge
    · rw [List.getElem?_append_left hlt] at hj
      obtain ⟨c, hc, hgrant⟩ := hl.copies j g hj
      obtain ⟨c', hc', he⟩ := h.doclets _ c hc
      exact ⟨c', hc', hgrant.enlarge hl.bounded h he⟩
    · have hlast : j < (granted ++ [(p, request)]).length := (List.getElem?_eq_some_iff.1 hj).1
      rw [List.length_append, List.length_singleton] at hlast
      obtain rfl : j = granted.length := Nat.le_antisymm (Nat.le_of_lt_succ hlast) hge
      rw [List.getElem?_concat_length] at hj
      cases hj
      rw [← hl.size]
      exact ⟨_, getElem?_grant_size hp, grantedFor_grant hl.bounded hborrower hsource hnew⟩

theorem Ledger.fulfil (hl : Ledger start db granted) (hg : (p, request) ∈ requests start) :
    ∃ granted', Ledger start (fulfil p db request) granted' := by
  rcases fulfil_cases p db request with ⟨-, he⟩ | ⟨borrower, source, hborrower, hsource, hnew, he⟩
  · exact ⟨granted, by rwa [he]⟩
  · exact ⟨_, by rw [he]; exact hl.grant hg hborrower hsource hnew⟩

theorem Ledger.fulfilAll (hl : Ledger start db granted) : ∃ granted', Ledger start (fulfilAll db) granted' := by
  refine fulfilAll_keeps_of_stated (P := fun db => ∃ granted, Ledger start db granted) ?_ ⟨granted, hl⟩
  rintro db₁ db₂ p d request ⟨_, h₁⟩ hd hr ⟨_, h₂⟩
  exact h₂.fulfil (h₁.mem_requests hd hr)

/-- There are at most as many new doclets as requests. -/
theorem Ledger.size_le (hl : Ledger start db granted) : db.size ≤ start.size + (requests start).length := by
  rw [hl.size]
  exact Nat.add_le_add_left (hl.nodup.subperm hl.requested).length_le _

/-! ## Passes -/

/-- The database after a pass. -/
def relink (db : Database) : Database := (fulfilAll db).mapDoclets (relinked (fulfilAll db))

theorem linkAll_relink (l : Linking) : l.linkAll.database = relink l.database := linkAll_database l

theorem iterate_linkAll_database (l : Linking) (n : Nat) : (linkAll^[n] l).database = relink^[n] l.database := by
  have hpass : Function.Semiconj Linking.database linkAll relink := linkAll_relink
  exact hpass.iterate_right n l

theorem Ledger.relink (hl : Ledger start db granted) : ∃ granted', Ledger start (relink db) granted' := by
  obtain ⟨granted', h⟩ := hl.fulfilAll
  exact ⟨granted', h.enrich (enlarged_mapDoclets _ (enriched_relinked _)) (h.bounded.mapDoclets _)
    (size_mapDoclets _ _)⟩

theorem exists_ledger (hb : db.Bounded) (n : Nat) : ∃ granted, Ledger db (relink^[n] db) granted := by
  induction n with
  | zero => exact ⟨[], ledger_start hb⟩
  | succ n ih =>
    obtain ⟨granted, hl⟩ := ih
    rw [Function.iterate_succ_apply']
    exact hl.relink

/-! ## Passes that add nothing -/

theorem size_relink_cases (db : Database) : fulfilAll db = db ∨ db.size < (relink db).size := by
  rw [relink, size_mapDoclets]
  exact addsOrKeeps_fulfilAt.foldl db _

/-- A request that is settled is so after the doclets have got their links. -/
theorem settled_mapDoclets {f : Doclet → Doclet} (hf : ∀ d, Enriched d (f d)) (h : Settled db d request) :
    Settled (db.mapDoclets f) (f d) request := by
  intro source hsource
  rw [Database.get_mapDoclets, List.head?_map] at hsource
  obtain ⟨source₀, hsource₀, rfl⟩ := Option.map_eq_some_iff.1 hsource
  rw [borrowRecord_enriched (hf source₀)]
  exact (hf d).borrowed.kept.subset (h source₀ hsource₀)

/-- A pass that adds no doclet leaves nothing to the next one. -/
theorem relink_relink_of_size_eq (h : (relink db).size = db.size) : relink (relink db) = relink db := by
  have hkeep : fulfilAll db = db := by
    rcases size_relink_cases db with he | hlt
    · exact he
    · exact absurd h (Nat.ne_of_gt hlt)
  have hsettled : fulfilAll (relink db) = relink db := by
    rw [relink, hkeep, fulfilAll_eq_self_iff]
    intro d hd request hr
    obtain ⟨d₀, hd₀, rfl⟩ := List.mem_map.1 hd
    rw [(enriched_relinked db d₀).declared] at hr
    exact settled_mapDoclets (enriched_relinked db) (fulfilAll_eq_self_iff.1 hkeep d₀ hd₀ request hr)
  have hagain := linkAll_linkAll_of_settled { database := db, reporter := {} }
  simp only [linkAll_relink] at hagain
  exact hagain hsettled

theorem iterate_relink_of_size_eq {n m : Nat} (h : (relink^[n + 1] db).size = (relink^[n] db).size)
    (hm : n + 1 ≤ m) : relink^[m] db = relink^[n + 1] db := by
  obtain ⟨k, rfl⟩ := Nat.exists_eq_add_of_le' hm
  rw [Function.iterate_succ_apply'] at h
  rw [Function.iterate_add_apply, Function.iterate_succ_apply']
  exact Function.iterate_fixed (relink_relink_of_size_eq h) k

/-- Passes that all add a doclet add at least as many doclets as there are passes. -/
theorem size_add_le_iterate {n : Nat} (h : ∀ k < n, (relink^[k + 1] db).size ≠ (relink^[k] db).size) :
    db.size + n ≤ (relink^[n] db).size := by
  induction n with
  | zero => exact Nat.le_refl _
  | succ n ih =>
    have hlt : (relink^[n] db).size < (relink^[n + 1] db).size := by
      have hne := h n (Nat.lt_succ_self n)
      rw [Function.iterate_succ_apply'] at hne ⊢
      rcases size_relink_cases (relink^[n] db) with he | hlt
      · exact absurd (by rw [relink, size_mapDoclets, he]) hne
      · exact hlt
    exact Nat.lt_of_le_of_lt (ih fun k hk => h k (Nat.lt_succ_of_lt hk)) hlt

/-- Among the passes up to one more than there are requests there is one that adds nothing. -/
theorem exists_size_eq (hb : db.Bounded) :
    ∃ n ≤ (requests db).length, (relink^[n + 1] db).size = (relink^[n] db).size := by
  by_contra hnone
  have hgrown : db.size + ((requests db).length + 1) ≤ (relink^[(requests db).length + 1] db).size :=
    size_add_le_iterate fun k hk he => hnone ⟨k, Nat.le_of_lt_succ hk, he⟩
  obtain ⟨granted, hl⟩ := exists_ledger hb ((requests db).length + 1)
  have hle := hl.size_le
  omega

/-- **Linking again and again comes to an end.** Whatever the number of passes, each new doclet is the copy for a request
of its own, so there are at most as many of them as requests. After a pass that adds no doclet nothing changes any more,
and there is such a pass among the first ones, of which there are one more than requests. -/
theorem linkAll_stabilises (l : Linking) (hb : l.database.Bounded) :
    (∀ n, ∃ granted : List (Nat × Borrow), granted.Nodup ∧ granted ⊆ requests l.database ∧
      (linkAll^[n] l).database.size = l.database.size + granted.length ∧
      ∀ (j : Nat) (g : Nat × Borrow), granted[j]? = some g →
        ∃ c, (linkAll^[n] l).database.doclets[l.database.size + j]? = some c ∧
          GrantedFor (linkAll^[n] l).database g c) ∧
    (∀ n, (linkAll^[n] l).database.size ≤ l.database.size + (requests l.database).length) ∧
    (∀ n, (linkAll^[n + 1] l).database.size = (linkAll^[n] l).database.size →
      ∀ m, n + 1 ≤ m → (linkAll^[m] l).database = (linkAll^[n + 1] l).database) ∧
    ∀ m, (requests l.database).length + 1 ≤ m →
      (linkAll^[m] l).database = (linkAll^[(requests l.database).length + 1] l).database := by
  simp only [iterate_linkAll_database]
  refine ⟨fun n => ?_, fun n => ?_, fun n h m hm => iterate_relink_of_size_eq h hm, fun m hm => ?_⟩
  · obtain ⟨granted, hl⟩ := exists_ledger hb n
    exact ⟨granted, hl.nodup, hl.requested, hl.size, hl.copies⟩
  · obtain ⟨granted, hl⟩ := exists_ledger hb n
    exact hl.size_le
  · obtain ⟨n, hn, he⟩ := exists_size_eq hb
    have hn : n + 1 ≤ (requests l.database).length + 1 := Nat.succ_le_succ hn
    rw [iterate_relink_of_size_eq he (Nat.le_trans hn hm), iterate_relink_of_size_eq he hn]

/-- Two requests, of which the first pass grants the second and the second pass the first. -/
theorem linkAll_stabilises_lateRequest :
    lateRequest.database.Bounded ∧
      requests lateRequest.database = [(0, { source := "X.foo" }), (1, { source := "Y.foo" })] ∧
      [0, 1, 2].map (fun n => (linkAll^[n] lateRequest).database.size) = [3, 4, 5] ∧
      (∀ n, (linkAll^[n] lateRequest).database.size ≤ 5) ∧
      ∀ m, 3 ≤ m → (linkAll^[m] lateRequest).database = (linkAll^[3] lateRequest).database := by
  have hb : lateRequest.database.Bounded := Database.bounded_ofList _
  have hsizes : [0, 1, 2].map (fun n => (linkAll^[n] lateRequest).database.size) = [3, 4, 5] := by decide +kernel
  have h := linkAll_stabilises lateRequest hb
  exact ⟨hb, rfl, hsizes, h.2.1, h.2.2.2⟩

end Linking
end SymbolDocs
