import Mathlib.Data.List.Forall2
import Mathlib.Data.List.Nodup
import SymbolDocs.Proofs.Database.Index

/-!
# Linking only adds

A linked doclet is the one it was but for its links and its state: its lists of links go on behind what was there, and
what has no repeated entry gets none (`Enriched`). Each step keeps the doclets at their positions and puts new ones
behind them (`Enlarged`), and the new ones are copies of borrowed symbols that ask for no link themselves (`Copied`).
`linkAll_adds` puts this together for a whole pass.
-/

namespace SymbolDocs
namespace Linking

/-! ## Lists with further entries -/

section Gains

variable {α : Type} {x : α} {xs ys zs : List α}

/-- The second list goes on behind the first one, and repeats an entry only if the first one does. -/
structure Gains (xs ys : List α) : Prop where
  kept : xs <+: ys
  nodup : xs.Nodup → ys.Nodup

theorem Gains.refl (xs : List α) : Gains xs xs := ⟨List.prefix_rfl, id⟩

theorem Gains.trans (h : Gains xs ys) (h' : Gains ys zs) : Gains xs zs :=
  ⟨h.kept.trans h'.kept, fun hn => h'.nodup (h.nodup hn)⟩

theorem gains_concat (h : x ∉ xs) : Gains xs (xs ++ [x]) :=
  ⟨List.prefix_append _ _, fun hn => List.concat_eq_append ▸ (List.nodup_concat xs x).2 ⟨h, hn⟩⟩

theorem gains_appendNew (xs ys : List String) : Gains xs (appendNew xs ys) := by
  induction ys generalizing xs with
  | nil => exact .refl xs
  | cons y ys ih =>
    rw [appendNew, List.foldl_cons]
    split
    · exact ih xs
    · next h => exact (gains_concat fun hm => h (List.contains_iff_mem.2 hm)).trans (ih _)

end Gains

/-! ## Doclets with further links -/

/-- Linking leaves the state of a doclet as it is, or finishes a doclet that has its name. -/
def Advances (s s' : DocletState) : Prop := s' = s ∨ (s = .nameResolved ∧ s' = .crossReferenced)

theorem Advances.trans {s s' s'' : DocletState} (h : Advances s s') (h' : Advances s' s'') : Advances s s'' := by
  rcases h with rfl | ⟨rfl, rfl⟩
  · exact h'
  · rcases h' with rfl | ⟨h', -⟩
    · exact .inr ⟨rfl, rfl⟩
    · cases h'

/-- The same doclet, but with further links, and maybe in the state that linking gives. -/
inductive Enriched (d : Doclet) : Doclet → Prop
  | intro {listeners mixes augments : List String} {borrowed : List Borrow} {state : DocletState}
      (hl : Gains d.listeners listeners) (hb : Gains d.borrowed borrowed) (hm : Gains d.mixes mixes)
      (ha : Gains d.augments augments) (hs : Advances d.state state) :
      Enriched d { d with listeners, borrowed, mixes, augments, state }

section

variable {d d' d'' : Doclet}

theorem Enriched.longname (h : Enriched d d') : d'.longname = d.longname := by
  cases h
  rfl

theorem Enriched.declared (h : Enriched d d') : d'.declared = d.declared := by
  cases h
  rfl

theorem Enriched.borrowed (h : Enriched d d') : Gains d.borrowed d'.borrowed := by
  cases h
  assumption

theorem Enriched.refl (d : Doclet) : Enriched d d := .intro (.refl _) (.refl _) (.refl _) (.refl _) (.inl rfl)

theorem Enriched.trans (h : Enriched d d') (h' : Enriched d' d'') : Enriched d d'' := by
  obtain ⟨hl, hb, hm, ha, hs⟩ := h
  obtain ⟨hl', hb', hm', ha', hs'⟩ := h'
  exact .intro (hl.trans hl') (hb.trans hb') (hm.trans hm') (ha.trans ha') (hs.trans hs')

end

/-- A doclet that gets its links keeps what it is. -/
theorem enriched_relinked (db : Database) (d : Doclet) : Enriched d (relinked db d) := by
  have hs : Advances d.state (if d.state = .nameResolved then .crossReferenced else d.state) := by
    split
    · next h => exact .inr ⟨h, rfl⟩
    · exact .inl rfl
  rw [relinked_eq]
  exact .intro (gains_appendNew _ _) (.refl _) (gains_appendNew _ _) (gains_appendNew _ _) hs

/-! ## Databases with further doclets -/

/-- Every doclet is still at its position, maybe with further links, and the index has its positions first. -/
structure Enlarged (db db' : Database) : Prop where
  doclets : ∀ (p : Nat) (d : Doclet), db.doclets[p]? = some d → ∃ d', db'.doclets[p]? = some d' ∧ Enriched d d'
  positions : ∀ longname, db.positions longname <+: db'.positions longname

variable {db db' db'' : Database} {d borrower source : Doclet} {p q : Nat} {request : Borrow}

theorem Enlarged.refl (db : Database) : Enlarged db db := ⟨fun _ d h => ⟨d, h, .refl d⟩, fun _ => List.prefix_rfl⟩

theorem Enlarged.trans (h : Enlarged db db') (h' : Enlarged db' db'') : Enlarged db db'' := by
  refine ⟨fun p d hd => ?_, fun longname => (h.positions longname).trans (h'.positions longname)⟩
  obtain ⟨d', hd', he⟩ := h.doclets p d hd
  obtain ⟨d'', hd'', he'⟩ := h'.doclets p d' hd'
  exact ⟨d'', hd'', he.trans he'⟩

theorem enlarged_mapDoclets (db : Database) {f : Doclet → Doclet} (hf : ∀ d, Enriched d (f d)) :
    Enlarged db (db.mapDoclets f) := by
  refine ⟨fun p d hd => ⟨f d, ?_, hf d⟩, fun _ => List.prefix_rfl⟩
  rw [Database.mapDoclets, List.getElem?_map, hd]
  rfl

theorem Enlarged.size_le (h : Enlarged db db') : db.size ≤ db'.size := by
  by_contra hlt
  have hlt : db'.doclets.length < db.doclets.length := Nat.lt_of_not_le hlt
  obtain ⟨d', hd', -⟩ := h.doclets _ _ (List.getElem?_eq_getElem hlt)
  rw [List.getElem?_eq_none_iff.2 (Nat.le_refl _)] at hd'
  cases hd'

/-! ## One request -/

theorem positions_grant (longname : String) :
    db.positions longname <+: (grant p db request borrower source).positions longname := by
  have hp : (grant p db request borrower source).positions longname =
      (db.add (borrowedCopy source borrower (borrowTarget source request))).positions longname := rfl
  rw [hp, Database.positions_add]
  exact List.prefix_append _ _

/-- The doclet that asked has one more granted request, and the other old ones stay as they are. -/
theorem getElem?_grant (hd : db.doclets[q]? = some d) : (grant p db request borrower source).doclets[q]? =
    some (if p = q then withBorrow (borrowRecord source request) d else d) := by
  have hlt : q < db.doclets.length := (List.getElem?_eq_some_iff.1 hd).1
  rw [grant, Database.modify, List.getElem?_modify, Database.doclets_add, List.getElem?_append_left hlt, hd]
  split <;> rfl

theorem getElem?_grant_size (hp : p < db.size) : (grant p db request borrower source).doclets[db.size]? =
    some (borrowedCopy source borrower (borrowTarget source request)) := by
  have hlast (c : Doclet) : (db.add c).doclets[db.size]? = some c := List.getElem?_concat_length
  rw [grant, Database.modify, List.getElem?_modify, hlast]
  exact congrArg some (if_neg (Nat.ne_of_lt hp))

/-- A doclet behind the one that asked is an old one or the copy. -/
theorem getElem?_grant_cases {c : Doclet} (hp : p < q)
    (hc : (grant p db request borrower source).doclets[q]? = some c) :
    db.doclets[q]? = some c ∨ (q = db.size ∧ c = borrowedCopy source borrower (borrowTarget source request)) := by
  rcases Nat.lt_trichotomy q db.size with hlt | heq | hgt
  · have hq : db.doclets[q]? = some db.doclets[q] := List.getElem?_eq_getElem hlt
    rw [getElem?_grant hq, if_neg (Nat.ne_of_lt hp)] at hc
    exact .inl (hq.trans hc)
  · subst heq
    rw [getElem?_grant_size hp] at hc
    exact .inr ⟨rfl, (Option.some.inj hc).symm⟩
  · have hle : (grant p db request borrower source).doclets.length ≤ q := by
      rw [← Database.size, size_grant]
      exact hgt
    rw [List.getElem?_eq_none_iff.2 hle] at hc
    cases hc

theorem enriched_withBorrow {b : Borrow} (h : b ∉ d.borrowed) : Enriched d (withBorrow b d) :=
  .intro (.refl _) (gains_concat h) (.refl _) (.refl _) (.inl rfl)

theorem enlarged_grant (hb : db.doclets[p]? = some borrower) (hnew : borrowRecord source request ∉ borrower.borrowed) :
    Enlarged db (grant p db request borrower source) := by
  refine ⟨fun q d hd => ⟨_, getElem?_grant hd, ?_⟩, positions_grant⟩
  split
  · next he =>
    subst he
    rw [hb] at hd
    cases hd
    exact enriched_withBorrow hnew
  · exact .refl d

theorem enlarged_fulfil (p : Nat) (db : Database) (request : Borrow) : Enlarged db (fulfil p db request) := by
  rcases fulfil_cases p db request with ⟨-, h⟩ | ⟨borrower, source, hb, -, hnew, h⟩
  · rw [h]
    exact .refl db
  · rw [h]
    exact enlarged_grant hb hnew

/-! ## The new doclets -/

/-- A new doclet of a database: it asks for no link, has none yet, and has the longname of the doclet that it is a copy
of, which is there if the index was right before. -/
structure Copied (db db' : Database) (c : Doclet) : Prop where
  declared : c.declared = {}
  borrowed : c.borrowed = []
  listeners : c.listeners = []
  borrowedFrom : c.borrowedFrom ∈ db'.doclets.map (·.longname)
  named : db.Indexed → c.borrowedFrom ≠ none

theorem Enlarged.longnames_subset (h : Enlarged db db') :
    db.doclets.map (·.longname) ⊆ db'.doclets.map (·.longname) := by
  intro longname hm
  obtain ⟨d, hd, rfl⟩ := List.mem_map.1 hm
  obtain ⟨p, hp⟩ := List.mem_iff_getElem?.1 hd
  obtain ⟨d', hd', he⟩ := h.doclets p d hp
  exact List.mem_map.2 ⟨d', List.mem_of_getElem? hd', he.longname⟩

theorem Copied.enlarge {c : Doclet} (hc : Copied db db' c) (h : Enlarged db' db'') : Copied db db'' c :=
  { hc with borrowedFrom := h.longnames_subset hc.borrowedFrom }

theorem mem_of_head?_get {longname : String} (h : (db.get longname).head? = some d) : d ∈ db.doclets := by
  obtain ⟨p, -, hp⟩ := List.mem_filterMap.1 (List.mem_of_mem_head? h)
  exact List.mem_of_getElem? hp

theorem longname_of_head?_get (hi : db.Indexed) {longname : String} (h : (db.get longname).head? = some d) :
    d.longname = some longname := by
  rw [hi.get_eq] at h
  exact of_decide_eq_true (List.mem_filter.1 (List.mem_of_mem_head? h)).2

/-- What the requests of a pass make of a database. -/
structure Additions (db db' : Database) : Prop where
  enlarged : Enlarged db db'
  indexed : db.Indexed → db'.Indexed
  copies : ∀ (p : Nat) (c : Doclet), db.size ≤ p → db'.doclets[p]? = some c → Copied db db' c

theorem Additions.refl (db : Database) : Additions db db := by
  refine ⟨.refl db, id, fun p c hp hc => ?_⟩
  rw [List.getElem?_eq_none_iff.2 hp] at hc
  cases hc

/-- Only old doclets state requests, for a copy has none. -/
theorem Additions.lt_of_stated (h : Additions db db') (hd : db'.doclets[p]? = some d)
    (hr : request ∈ d.declared.borrows) : p < db.size := by
  by_contra hle
  rw [(h.copies p d (Nat.le_of_not_lt hle) hd).declared] at hr
  cases hr

theorem indexed_fulfil (h : db.Indexed) (p : Nat) (request : Borrow) : (fulfil p db request).Indexed := by
  rcases fulfil_cases p db request with ⟨-, he⟩ | ⟨borrower, source, -, -, -, he⟩
  · rwa [he]
  · rw [he]
    exact (h.add _).modify p fun _ => rfl

/-- A request of an old doclet keeps the new ones as they are, and adds at most a copy to them. -/
theorem Additions.fulfil (h : Additions db db') (hp : p < db.size) (request : Borrow) :
    Additions db (fulfil p db' request) := by
  have henlarged := enlarged_fulfil p db' request
  refine ⟨h.enlarged.trans henlarged, fun hi => indexed_fulfil (h.indexed hi) p request, fun q c hq hc => ?_⟩
  rcases fulfil_cases p db' request with ⟨-, he⟩ | ⟨borrower, source, -, hs, -, he⟩
  · rw [he] at hc ⊢
    exact h.copies q c hq hc
  · rw [he] at hc henlarged ⊢
    rcases getElem?_grant_cases (Nat.lt_of_lt_of_le hp hq) hc with hc | ⟨-, rfl⟩
    · exact (h.copies q c hq hc).enlarge henlarged
    · have hsource : source.longname ∈ db'.doclets.map (·.longname) := List.mem_map_of_mem (mem_of_head?_get hs)
      refine ⟨rfl, rfl, rfl, henlarged.longnames_subset hsource, fun hi hnone => ?_⟩
      have hl : source.longname = some request.source := longname_of_head?_get (h.indexed hi) hs
      rw [show source.longname = none from hnone] at hl
      cases hl

theorem additions_fulfilAll (db : Database) : Additions db (fulfilAll db) :=
  fulfilAll_keeps_of_stated
    (fun _ _ _ _ request h₁ hd hr h₂ => h₂.fulfil (h₁.lt_of_stated hd hr) request) (.refl db)

/-! ## A whole pass -/

/-- **Linking only adds.** The old doclets are still there in their order, each with what it had and further links, and
all new ones stand behind them. A new doclet is a copy of a borrowed symbol that asks for nothing itself. -/
theorem linkAll_adds (l : Linking) :
    ∃ old new, l.linkAll.database.doclets = old ++ new ∧ List.Forall₂ Enriched l.database.doclets old ∧
      ∀ c ∈ new, c.declared = {} ∧ c.borrowed = [] ∧
        c.borrowedFrom ∈ l.linkAll.database.doclets.map (·.longname) ∧ (l.database.Indexed → c.borrowedFrom ≠ none) := by
  have hadd := additions_fulfilAll l.database
  have hlink : Enlarged (fulfilAll l.database) l.linkAll.database := by
    rw [linkAll_database]
    exact enlarged_mapDoclets _ (enriched_relinked _)
  have hall := hadd.enlarged.trans hlink
  have hsize : l.database.doclets.length ≤ l.linkAll.database.doclets.length := hall.size_le
  refine ⟨_, _, (List.take_append_drop l.database.size _).symm, List.forall₂_iff_get.2 ⟨?_, fun p hp hp' => ?_⟩,
    fun c hc => ?_⟩
  · rw [List.length_take]
    exact (Nat.min_eq_left hsize).symm
  · obtain ⟨d', hd', he⟩ := hall.doclets p _ (List.getElem?_eq_getElem hp)
    obtain ⟨hlt, rfl⟩ := List.getElem?_eq_some_iff.1 hd'
    simpa using he
  · obtain ⟨i, hi⟩ := List.mem_iff_getElem?.1 hc
    rw [List.getElem?_drop, linkAll_database, Database.mapDoclets, List.getElem?_map] at hi
    obtain ⟨c₀, hc₀, rfl⟩ := Option.map_eq_some_iff.1 hi
    have hcopy := hadd.copies _ c₀ (Nat.le_add_right _ i) hc₀
    have hfrom := (hcopy.enlarge hlink).borrowedFrom
    rw [relinked_eq]
    exact ⟨hcopy.declared, hcopy.borrowed, hfrom, hcopy.named⟩

end Linking
end SymbolDocs
