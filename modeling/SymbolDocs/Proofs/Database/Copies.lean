import SymbolDocs.Proofs.Database.Additions

/-!
# The copies that a pass adds

Linking keeps the old doclets in front and puts copies of borrowed symbols behind them, each for an old doclet that
asked for it (`copyFor_linkAll`). A copy tells which symbol it is a copy of, an old doclet keeps what it told, and all
of them are finished in the end (`state_linkAll`).
-/

namespace SymbolDocs
namespace Linking

variable {db db' : Database} {source borrower d d' : Doclet} {target : String}

theorem Enriched.borrowedFrom (h : Enriched d d') : d'.borrowedFrom = d.borrowedFrom := by
  cases h
  rfl

theorem Enriched.advances (h : Enriched d d') : Advances d.state d'.state := by
  cases h
  assumption

theorem borrowedFrom_borrowedCopy (source borrower : Doclet) (target : String) :
    (borrowedCopy source borrower target).borrowedFrom = source.longname := by
  unfold borrowedCopy
  split
  rfl

theorem state_borrowedCopy (source borrower : Doclet) (target : String) :
    (borrowedCopy source borrower target).state = .crossReferenced := by
  unfold borrowedCopy
  split
  rfl

/-! ## Where copies come from -/

/-- The doclet of a symbol that an old doclet of a database has borrowed. -/
def CopyFor (db : Database) (c : Doclet) : Prop :=
  ∃ source borrower target, c = borrowedCopy source borrower target ∧
    borrower.longname ∈ db.doclets.map (·.longname) ∧ (db.Indexed → source.longname ≠ none)

theorem enlarged_linkAll (l : Linking) : Enlarged l.database l.linkAll.database := by
  rw [linkAll_database]
  exact (additions_fulfilAll l.database).enlarged.trans (enlarged_mapDoclets _ (enriched_relinked _))

/-- A granted request of an old doclet adds a copy for it. -/
theorem copyFor_fulfil (h : Additions db db') {p : Nat} (hp : p < db.size)
    (hcopies : ∀ q c, db.size ≤ q → db'.doclets[q]? = some c → CopyFor db c) (request : Borrow) {q : Nat} {c : Doclet}
    (hq : db.size ≤ q) (hc : (fulfil p db' request).doclets[q]? = some c) : CopyFor db c := by
  rcases fulfil_cases p db' request with ⟨-, he⟩ | ⟨borrower, source, hb, hs, -, he⟩
  · rw [he] at hc
    exact hcopies q c hq hc
  · rw [he] at hc
    rcases getElem?_grant_cases (Nat.lt_of_lt_of_le hp hq) hc with hc | ⟨-, rfl⟩
    · exact hcopies q c hq hc
    · have hold : db.doclets[p]? = some db.doclets[p] := List.getElem?_eq_getElem hp
      obtain ⟨borrower', hb', henriched⟩ := h.enlarged.doclets p _ hold
      obtain rfl := Option.some.inj (hb'.symm.trans hb)
      refine ⟨source, borrower', _, rfl, ?_, fun hi hnone => ?_⟩
      · rw [henriched.longname]
        exact List.mem_map_of_mem (List.mem_of_getElem? hold)
      · rw [longname_of_head?_get (h.indexed hi) hs] at hnone
        cases hnone

/-- The requests of a pass add copies only. -/
theorem copyFor_fulfilAll (db : Database) :
    ∀ q c, db.size ≤ q → (fulfilAll db).doclets[q]? = some c → CopyFor db c := by
  have hstart : ∀ q c, db.size ≤ q → db.doclets[q]? = some c → CopyFor db c := by
    intro q c hq hc
    rw [List.getElem?_eq_none_iff.2 hq] at hc
    cases hc
  have hall : Additions db (fulfilAll db) ∧
      ∀ q c, db.size ≤ q → (fulfilAll db).doclets[q]? = some c → CopyFor db c := by
    refine fulfilAll_keeps_of_stated (fun db₁ db₂ p d request h₁ hd hr h₂ => ?_)
      (P := fun db' => Additions db db' ∧ ∀ q c, db.size ≤ q → db'.doclets[q]? = some c → CopyFor db c) ⟨.refl db, hstart⟩
    have hp := h₁.1.lt_of_stated hd hr
    exact ⟨h₂.1.fulfil hp request, fun q c hq hc => copyFor_fulfil h₂.1 hp h₂.2 request hq hc⟩
  exact hall.2

/-- Behind the old doclets a linked database has copies only, maybe with links. -/
theorem copyFor_linkAll (l : Linking) {c : Doclet} (hc : c ∈ l.linkAll.database.doclets.drop l.database.size) :
    ∃ c₀, CopyFor l.database c₀ ∧ Enriched c₀ c := by
  obtain ⟨i, hi⟩ := List.mem_iff_getElem?.1 hc
  rw [List.getElem?_drop, linkAll_database, Database.mapDoclets, List.getElem?_map] at hi
  obtain ⟨c₀, hc₀, rfl⟩ := Option.map_eq_some_iff.1 hi
  exact ⟨c₀, copyFor_fulfilAll _ _ _ (Nat.le_add_right _ i) hc₀, enriched_relinked _ c₀⟩

/-- An old doclet keeps its position, maybe with further links. -/
theorem enriched_of_mem_take (l : Linking) {d : Doclet} (hd : d ∈ l.linkAll.database.doclets.take l.database.size) :
    ∃ d₀ ∈ l.database.doclets, Enriched d₀ d := by
  obtain ⟨p, hp⟩ := List.mem_iff_getElem?.1 hd
  rw [List.getElem?_take] at hp
  split at hp
  · next hlt =>
    have hold : l.database.doclets[p]? = some l.database.doclets[p] := List.getElem?_eq_getElem hlt
    obtain ⟨d', hd', henriched⟩ := (enlarged_linkAll l).doclets p _ hold
    obtain rfl := Option.some.inj (hd'.symm.trans hp)
    exact ⟨_, List.mem_of_getElem? hold, henriched⟩
  · cases hp

/-- What links do not change is the same for the old doclets. -/
theorem map_take_linkAll {α : Type} {f : Doclet → α} (hf : ∀ d d', Enriched d d' → f d' = f d) (l : Linking) :
    (l.linkAll.database.doclets.take l.database.size).map f = l.database.doclets.map f := by
  refine List.ext_getElem? fun p => ?_
  rw [List.getElem?_map, List.getElem?_map, List.getElem?_take]
  cases hold : l.database.doclets[p]? with
  | none =>
    have hle : ¬ p < l.database.size := Nat.not_lt.2 (List.getElem?_eq_none_iff.1 hold)
    rw [if_neg hle]
  | some d =>
    have hlt : p < l.database.size := (List.getElem?_eq_some_iff.1 hold).1
    obtain ⟨d', hd', henriched⟩ := (enlarged_linkAll l).doclets p d hold
    rw [if_pos hlt, hd', Option.map_some, Option.map_some, hf d d' henriched]

/-- Every copy tells what it is a copy of. -/
theorem borrowedFrom_linkAll (l : Linking) (hi : l.database.Indexed) {c : Doclet}
    (hc : c ∈ l.linkAll.database.doclets.drop l.database.size) : c.borrowedFrom ≠ none := by
  obtain ⟨c₀, ⟨source, borrower, target, rfl, -, hsource⟩, henriched⟩ := copyFor_linkAll l hc
  rw [henriched.borrowedFrom, borrowedFrom_borrowedCopy]
  exact hsource hi

/-- **Linking finishes every doclet**, if the old ones have their names. -/
theorem state_linkAll (l : Linking) (h : ∀ d ∈ l.database.doclets, d.state = .nameResolved) :
    ∀ d ∈ l.linkAll.database.doclets, d.state = .crossReferenced := by
  have hfinished : ∀ d ∈ l.linkAll.database.doclets, d.state ≠ .nameResolved := by
    intro d hd
    rw [linkAll_database, Database.mapDoclets] at hd
    obtain ⟨d₀, -, rfl⟩ := List.mem_map.1 hd
    rw [relinked_eq]
    dsimp only
    split
    · intro h
      cases h
    · assumption
  intro d hd
  have hd' := hd
  rw [← List.take_append_drop l.database.size l.linkAll.database.doclets, List.mem_append] at hd'
  rcases hd' with hold | hcopy
  · obtain ⟨d₀, hd₀, henriched⟩ := enriched_of_mem_take l hold
    rcases henriched.advances with hs | ⟨-, hs⟩
    · exact absurd (hs.trans (h d₀ hd₀)) (hfinished d hd)
    · exact hs
  · obtain ⟨c₀, ⟨source, borrower, target, rfl, -, -⟩, henriched⟩ := copyFor_linkAll l hcopy
    rcases henriched.advances with hs | ⟨-, hs⟩
    · rw [hs, state_borrowedCopy]
    · exact hs

end Linking
end SymbolDocs
