import SymbolDocs.Proofs.Database.Index
import SymbolDocs.Proofs.Naming.Composition

/-!
# Owners are beginnings of longnames

A doclet is rooted if it has a longname and its owner, if it has one, is a proper prefix of it. Placing a doclet makes
it rooted (`Doclet.rooted_place`), and linking a database of rooted doclets gives such a database again, with the
copies of borrowed symbols (`Database.Rooted.linkAll`). In such a database the walk from a doclet to its owners visits
shorter and shorter longnames, so none comes up a second time (`Database.Rooted.walkOwners_spec`).
-/

namespace SymbolDocs

open SymbolDocs.NamePath

/-- A text that another one starts with and that is shorter. -/
def ProperPrefix (s t : String) : Prop := s.toList <+: t.toList ∧ s.length < t.length

theorem ProperPrefix.of_concat {s t : String} {c : Char} (h : s.toList ++ [c] <+: t.toList) : ProperPrefix s t := by
  refine ⟨(List.prefix_append _ _).trans h, ?_⟩
  have := h.length_le
  simp only [List.length_append, List.length_singleton, String.length_toList] at this
  omega

/-! ## Rooted doclets -/

namespace Doclet

/-- A doclet with a longname that starts with its owner, if it has one, and goes on behind it. -/
def Rooted (d : Doclet) : Prop :=
  ∃ longname, d.longname = some longname ∧ longname ≠ "" ∧
    ∀ owner, d.memberof = some owner → ProperPrefix owner longname

variable {d d' source borrower : Doclet}

theorem Rooted.congr (h : d.Rooted) (hl : d'.longname = d.longname) (hm : d'.memberof = d.memberof) : d'.Rooted := by
  unfold Rooted
  rw [hl, hm]
  exact h

/-- A placed doclet is rooted. -/
theorem rooted_place {R : Type} (dict : Dictionary R) (stack : ScopeStack) (d : Doclet) :
    (d.place dict stack).Rooted := by
  have hpre := Naming.prefix_addVariation (Naming.placement dict stack d).longname d.variation
  have hne (h : (Naming.placement dict stack d).longname ≠ "") :
      Naming.addVariation (Naming.placement dict stack d).longname d.variation ≠ "" := by
    intro he
    rw [he] at hpre
    exact h (String.toList_injective (List.prefix_nil.1 hpre))
  refine ⟨_, rfl, ?_, fun owner hm => ?_⟩
  · rcases Naming.placement_cases dict stack d with ⟨owner, -, ho, hp⟩ | ⟨-, hparts⟩
    · exact hne (by rw [hp]; exact ho)
    · exact hne hparts.longname_ne_empty
  · rcases Naming.placement_cases dict stack d with ⟨owner, -, -, hp⟩ | ⟨-, hparts⟩
    · rw [place, hp] at hm
      cases hm
    · obtain ⟨scope, sep, -, -, -, howner⟩ := hparts.owner_prefix hm
      exact .of_concat (howner.trans hpre)

/-- The longname of the copy of a borrowed symbol is that of a static or instance member of the borrower. -/
theorem longname_borrowedCopy (source borrower : Doclet) (target : String) :
    ∃ name scope sep, Scope.punctuation scope = [sep] ∧ (Linking.borrowedCopy source borrower target).longname =
      some (compose name borrower.longname (some scope) (Linking.borrowLabel source)) := by
  unfold Linking.borrowedCopy
  cases Text.after? target "this." with
  | some name => exact ⟨name, .perInstance, '#', rfl, rfl⟩
  | none => exact ⟨target, .static, '.', rfl, rfl⟩

/-- The copy of a borrowed symbol is rooted below the borrower. -/
theorem rooted_borrowedCopy (hb : borrower.Rooted) (target : String) :
    (Linking.borrowedCopy source borrower target).Rooted := by
  obtain ⟨owner, ho, hne, -⟩ := hb
  obtain ⟨name, scope, sep, hsep, hl⟩ := longname_borrowedCopy source borrower target
  have hpre : owner.toList ++ [sep] <+:
      (compose name borrower.longname (some scope) (Linking.borrowLabel source)).toList := by
    simp [compose, ho, hne, separator, hsep]
  refine ⟨_, hl, fun he => ?_, fun owner' hm => ?_⟩
  · rw [he] at hpre
    simpa using List.prefix_nil.1 hpre
  · have hm : borrower.longname = some owner' := hm
    rw [ho] at hm
    cases hm
    exact .of_concat hpre

/-- A doclet whose longname is a proper prefix of that of another one. -/
def Above (d d' : Doclet) : Prop :=
  ∃ longname longname', d.longname = some longname ∧ d'.longname = some longname' ∧ ProperPrefix longname longname'

theorem Above.trans {d₁ d₂ d₃ : Doclet} (h : d₁.Above d₂) (h' : d₂.Above d₃) : d₁.Above d₃ := by
  obtain ⟨l₁, l₂, h₁, h₂, hp⟩ := h
  obtain ⟨l₂', l₃, h₂', h₃, hp'⟩ := h'
  rw [h₂] at h₂'
  cases h₂'
  exact ⟨l₁, l₃, h₁, h₃, hp.1.trans hp'.1, Nat.lt_trans hp.2 hp'.2⟩

/-- The owner of a rooted doclet is above it. -/
theorem Rooted.above_of_memberof {owner : String} (h : d.Rooted) (hm : d.memberof = some owner)
    (ho : d'.longname = some owner) : d'.Above d := by
  obtain ⟨longname, hl, -, howner⟩ := h
  exact ⟨owner, longname, ho, hl, howner owner hm⟩

end Doclet

/-! ## Databases of rooted doclets -/

namespace Database

/-- An indexed database of rooted doclets. -/
structure Rooted (db : Database) : Prop where
  indexed : db.Indexed
  doclets : ∀ d ∈ db.doclets, d.Rooted

variable {db : Database} {d : Doclet}

theorem rooted_empty : Rooted {} := ⟨indexed_empty, fun _ h => nomatch h⟩

theorem Rooted.add (h : db.Rooted) (hd : d.Rooted) : (db.add d).Rooted := by
  refine ⟨h.indexed.add d, fun d' hd' => ?_⟩
  rw [doclets_add, List.mem_append, List.mem_singleton] at hd'
  rcases hd' with hd' | rfl
  · exact h.doclets d' hd'
  · exact hd

/-- What keeps the longname and the owner of a doclet. -/
def KeepsPlace (f : Doclet → Doclet) : Prop := ∀ d, (f d).longname = d.longname ∧ (f d).memberof = d.memberof

theorem Rooted.modify (h : db.Rooted) (p : Nat) {f : Doclet → Doclet} (hf : KeepsPlace f) :
    (db.modify p f).Rooted := by
  refine ⟨h.indexed.modify p fun d => (hf d).1, fun d hd => ?_⟩
  obtain ⟨i, hi⟩ := List.mem_iff_getElem?.1 hd
  rw [Database.modify, List.getElem?_modify] at hi
  obtain ⟨d₀, hd₀, rfl⟩ := Option.map_eq_some_iff.1 hi
  have hr := h.doclets d₀ (List.mem_of_getElem? hd₀)
  split
  · exact hr.congr (hf d₀).1 (hf d₀).2
  · exact hr

theorem Rooted.mapDoclets (h : db.Rooted) {f : Doclet → Doclet} (hf : KeepsPlace f) : (db.mapDoclets f).Rooted := by
  refine ⟨h.indexed.mapDoclets fun d => (hf d).1, fun d hd => ?_⟩
  obtain ⟨d₀, hd₀, rfl⟩ := List.mem_map.1 hd
  exact (h.doclets d₀ hd₀).congr (hf d₀).1 (hf d₀).2

/-! ## Linking -/

theorem Rooted.fulfil (h : db.Rooted) (p : Nat) (request : Borrow) : (Linking.fulfil p db request).Rooted := by
  rcases Linking.fulfil_cases p db request with ⟨-, he⟩ | ⟨borrower, source, hb, -, -, he⟩
  · rwa [he]
  · have hborrower := h.doclets borrower (List.mem_of_getElem? hb)
    rw [he]
    exact (h.add (Doclet.rooted_borrowedCopy hborrower _)).modify p fun _ => ⟨rfl, rfl⟩

theorem Rooted.fulfilAll (h : db.Rooted) : (Linking.fulfilAll db).Rooted :=
  Linking.fulfilAll_keeps (fun _ p request h => h.fulfil p request) h

/-- **Linking keeps the doclets rooted**, and the copies of borrowed symbols are so too. -/
theorem Rooted.linkAll {l : Linking} (h : l.database.Rooted) : l.linkAll.database.Rooted := by
  rw [Linking.linkAll_database]
  refine h.fulfilAll.mapDoclets fun d => ?_
  rw [Linking.relinked_eq]
  exact ⟨rfl, rfl⟩

/-! ## Walks -/

/-- No visited longname is shorter than that of the doclet. -/
def Outside (d : Doclet) (seen : List String) : Prop :=
  ∀ longname, d.longname = some longname → ∀ s ∈ seen, longname.length ≤ s.length

variable {seen : List String} {owner : String}

/-- An owner is shorter than every visited longname, so it is not one of them. -/
theorem Outside.fresh (hs : Outside d seen) (hd : d.Rooted) (ho : d.memberof = some owner) :
    ∀ s ∈ seen, owner.length < s.length := by
  obtain ⟨longname, hl, -, howner⟩ := hd
  intro s hm
  exact Nat.lt_of_lt_of_le (howner owner ho).2 (hs longname hl s hm)

theorem Outside.to_owner {parent : Doclet} (hs : Outside d seen) (hd : d.Rooted) (ho : d.memberof = some owner)
    (hp : parent.longname = some owner) : Outside parent (owner :: seen) := by
  intro longname hl s hm
  rw [hp] at hl
  cases hl
  rcases List.mem_cons.1 hm with rfl | hm
  · exact Nat.le_refl _
  · exact Nat.le_of_lt (hs.fresh hd ho s hm)

/-- **The walk to the owners of a doclet visits shorter and shorter longnames and meets none a second time.** -/
theorem Rooted.walkOwners_spec (h : db.Rooted) (hd : d.Rooted) (hs : Outside d seen) :
    (db.walkOwners seen d).2 = none ∧ ((db.walkOwners seen d).1.reverse ++ [d]).Pairwise Doclet.Above := by
  fun_induction walkOwners db seen d with
  | case1 => exact ⟨rfl, List.pairwise_singleton _ _⟩
  | case2 seen d owner ho hseen =>
    have hlt := hs.fresh hd (Naming.nonempty_eq_some_iff.1 ho).1 owner (List.contains_iff_mem.1 hseen)
    exact absurd hlt (Nat.lt_irrefl _)
  | case3 => exact ⟨rfl, List.pairwise_singleton _ _⟩
  | case4 seen d owner ho hseen parent rest hget _ further repeated hwalk ih =>
    have ho := (Naming.nonempty_eq_some_iff.1 ho).1
    have hparent : parent ∈ db.doclets.filter (·.longname = some owner) := by
      rw [← h.indexed.get_eq, hget]
      exact List.mem_cons_self
    obtain ⟨hmem, hl⟩ := List.mem_filter.1 hparent
    have hl : parent.longname = some owner := of_decide_eq_true hl
    obtain ⟨hnone, hpair⟩ := ih (h.doclets parent hmem) (hs.to_owner hd ho hl)
    rw [hwalk] at hnone hpair
    refine ⟨hnone, ?_⟩
    have habove : parent.Above d := hd.above_of_memberof ho hl
    rw [List.reverse_cons, List.pairwise_append]
    refine ⟨hpair, List.pairwise_singleton _ _, fun a ha b hb => ?_⟩
    obtain rfl := List.mem_singleton.1 hb
    rcases List.mem_append.1 ha with ha | ha
    · exact ((List.pairwise_append.1 hpair).2.2 a ha parent List.mem_cons_self).trans habove
    · obtain rfl := List.mem_singleton.1 ha
      exact habove

/-- Each ancestor of a doclet is above the next one, and no cycle is reported. -/
theorem Rooted.ancestors_spec (h : db.Rooted) (hd : d ∈ db.doclets) :
    (db.ancestors d ++ [d]).Pairwise Doclet.Above ∧ ∀ r, db.reportCycle d r = r := by
  have hrooted := h.doclets d hd
  have hstart : Outside d (nonempty d.longname).toList := by
    intro longname hl s hm
    have hs := (Naming.nonempty_eq_some_iff.1 (Option.mem_toList.1 hm)).1
    rw [hl] at hs
    cases hs
    exact Nat.le_refl _
  obtain ⟨hnone, hpair⟩ := h.walkOwners_spec hrooted hstart
  refine ⟨hpair, fun r => ?_⟩
  unfold reportCycle ownerWalk
  rw [hnone]

end Database
end SymbolDocs
