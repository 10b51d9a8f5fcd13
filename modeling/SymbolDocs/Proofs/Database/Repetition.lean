import SymbolDocs.Proofs.Database.Links

/-!
# Linking a second time

`linkAll_linkAll_eq_iff` says when linking a linked database changes nothing: when none of its doclets asks to borrow a
symbol that is documented and that it has not borrowed. The links that `relinked` gives never matter here, since they
are complete after the first time.
-/

namespace SymbolDocs
namespace Linking

variable {d : Doclet} {db : Database}

/-! ## Steps that add doclets or change nothing -/

/-- A step leaves the database as it is, or makes it larger. -/
def AddsOrKeeps {α : Type} (f : Database → α → Database) : Prop := ∀ db x, f db x = db ∨ db.size < (f db x).size

variable {α : Type} {f : Database → α → Database}

theorem AddsOrKeeps.foldl (hf : AddsOrKeeps f) (db : Database) (xs : List α) :
    xs.foldl f db = db ∨ db.size < (xs.foldl f db).size := by
  induction xs generalizing db with
  | nil => exact .inl rfl
  | cons x xs ih =>
    rw [List.foldl_cons]
    rcases hf db x with he | hlt
    · rw [he]
      exact ih db
    · rcases ih (f db x) with he | hlt'
      · rw [he]
        exact .inr hlt
      · exact .inr (Nat.lt_trans hlt hlt')

/-- Several steps change nothing if none of them does. -/
theorem AddsOrKeeps.foldl_eq_self_iff (hf : AddsOrKeeps f) (db : Database) (xs : List α) :
    xs.foldl f db = db ↔ ∀ x ∈ xs, f db x = db := by
  induction xs generalizing db with
  | nil => simp
  | cons x xs ih =>
    rw [List.foldl_cons, List.forall_mem_cons]
    rcases hf db x with he | hlt
    · rw [he, ih]
      simp
    · have hgrown : db.size < (xs.foldl f (f db x)).size := by
        rcases hf.foldl (f db x) xs with he | hlt'
        · rwa [he]
        · exact Nat.lt_trans hlt hlt'
      constructor
      · intro h
        rw [h] at hgrown
        exact absurd hgrown (Nat.lt_irrefl _)
      · rintro ⟨h, -⟩
        rw [h] at hlt
        exact absurd hlt (Nat.lt_irrefl _)

/-! ## Requests that are settled -/

theorem fulfil_of_settled {p : Nat} {request : Borrow} (h : ∀ d, db.doclets[p]? = some d → Settled db d request) :
    fulfil p db request = db := by
  rcases fulfil_cases p db request with ⟨-, he⟩ | ⟨borrower, source, hb, hs, hnew, -⟩
  · exact he
  · exact absurd (h borrower hb source hs) hnew

theorem size_fulfil {p : Nat} {request : Borrow} (hd : db.doclets[p]? = some d) (h : ¬ Settled db d request) :
    (fulfil p db request).size = db.size + 1 := by
  rcases fulfil_cases p db request with ⟨hs, -⟩ | ⟨borrower, source, -, -, -, he⟩
  · exact absurd (hs d hd) h
  · rw [he, size_grant]

theorem addsOrKeeps_fulfil (p : Nat) : AddsOrKeeps (fulfil p) := by
  intro db request
  by_cases h : ∀ d, db.doclets[p]? = some d → Settled db d request
  · exact .inl (fulfil_of_settled h)
  · obtain ⟨d, h⟩ := Classical.not_forall.1 h
    obtain ⟨hd, hs⟩ := Classical.not_imp.1 h
    right
    rw [size_fulfil hd hs]
    exact Nat.lt_succ_self _

theorem fulfil_eq_self_iff {p : Nat} {request : Borrow} (hd : db.doclets[p]? = some d) :
    fulfil p db request = db ↔ Settled db d request := by
  constructor
  · intro h
    by_cases hs : Settled db d request
    · exact hs
    · have := size_fulfil hd hs
      rw [h] at this
      omega
  · intro hs
    refine fulfil_of_settled fun d' hd' => ?_
    rw [hd] at hd'
    cases hd'
    exact hs

theorem addsOrKeeps_fulfilAt : AddsOrKeeps fulfilAt := by
  intro db p
  unfold fulfilAt
  split
  · exact .inl rfl
  · exact (addsOrKeeps_fulfil p).foldl db _

theorem fulfilAt_eq_self_iff {p : Nat} (hd : db.doclets[p]? = some d) :
    fulfilAt db p = db ↔ ∀ request ∈ d.declared.borrows, Settled db d request := by
  unfold fulfilAt
  rw [hd]
  dsimp only
  rw [(addsOrKeeps_fulfil p).foldl_eq_self_iff]
  simp only [fulfil_eq_self_iff hd]

/-- The requests change nothing if all of them are settled. -/
theorem fulfilAll_eq_self_iff :
    fulfilAll db = db ↔ ∀ d ∈ db.doclets, ∀ request ∈ d.declared.borrows, Settled db d request := by
  rw [fulfilAll, addsOrKeeps_fulfilAt.foldl_eq_self_iff]
  constructor
  · intro h d hd
    obtain ⟨p, hp, he⟩ := List.mem_iff_getElem.1 hd
    have hsome : db.doclets[p]? = some d := by rw [List.getElem?_eq_getElem hp, he]
    exact (fulfilAt_eq_self_iff hsome).1 (h p (List.mem_range.2 hp))
  · intro h p hp
    have hp : p < db.doclets.length := List.mem_range.1 hp
    exact (fulfilAt_eq_self_iff (List.getElem?_eq_getElem hp)).2 (h _ (List.getElem_mem hp))

/-! ## Linking twice -/

theorem size_linkAll (l : Linking) : l.linkAll.database.size = (fulfilAll l.database).size := by
  rw [linkAll_database, size_mapDoclets]

/-- Linking a linked database again changes nothing if no request is left. -/
theorem linkAll_linkAll_of_settled (l : Linking) (h : fulfilAll l.linkAll.database = l.linkAll.database) :
    l.linkAll.linkAll.database = l.linkAll.database := by
  rw [linkAll_database l.linkAll, h]
  rw [linkAll_database l, relinked_mapDoclets, mapDoclets_mapDoclets]
  exact mapDoclets_congr fun d _ => relinked_relinked _ d

/-- **Linking a second time** changes the database exactly if a doclet that was linked still asks to borrow a symbol
that is documented now and that it has not borrowed. This happens to a request for a symbol whose own doclet is made by
a later request. -/
theorem linkAll_linkAll_eq_iff (l : Linking) : l.linkAll.linkAll.database = l.linkAll.database ↔
    ∀ d ∈ l.linkAll.database.doclets, ∀ request ∈ d.declared.borrows, Settled l.linkAll.database d request := by
  rw [← fulfilAll_eq_self_iff]
  refine ⟨fun h => ?_, linkAll_linkAll_of_settled l⟩
  rcases addsOrKeeps_fulfilAt.foldl l.linkAll.database (List.range l.linkAll.database.size) with he | hlt
  · exact he
  · rw [← fulfilAll, ← size_linkAll, h] at hlt
    exact absurd hlt (Nat.lt_irrefl _)

/-- Three doclets, the first of which borrows what the second borrows from the third. -/
def lateRequest : Linking where
  database := .ofList [
    { name := some "A", longname := some "A", kind := some "namespace", state := .nameResolved
      declared := { borrows := [{ source := "X.foo" }] } },
    { name := some "X", longname := some "X", kind := some "namespace", state := .nameResolved
      declared := { borrows := [{ source := "Y.foo" }] } },
    { name := some "foo", longname := some "Y.foo", kind := some "function", memberof := some "Y"
      scope := some .static, state := .nameResolved }]
  reporter := {}

theorem longnames_lateRequest : lateRequest.linkAll.database.longnames = ["A", "X", "Y.foo", "X.foo"] ∧
    lateRequest.linkAll.linkAll.database.longnames = ["A", "X", "Y.foo", "X.foo", "A.foo"] := by
  constructor <;> with_unfolding_all rfl

end Linking
end SymbolDocs
