import SymbolDocs.Proofs.Naming.Composition
import SymbolDocs.Proofs.Naming.Exports

/-!
# Scopes that tags state

A tag can state that a symbol is a static, an instance or an inner member, and this is its scope wherever it gets an
owner, with one exception. If the tags leave the place to the open contexts (`Doclet.LeftToContexts`), then a name
behind an export marker or behind `this.` shows a scope itself (`Naming.Shows`), and the scope that it shows takes the
place of the stated one. If what stands behind is a path, the stated scope is kept even there.
`Doclet.scope_of_resolve` puts this together.
-/

namespace SymbolDocs

open SymbolDocs.Text SymbolDocs.NamePath SymbolDocs.Naming

/-! ## Placements that keep a stated scope -/

namespace Placement

variable {d : Doclet} {s scope : Scope} {path owner name label : String}

/-- A symbol that is named by a path below an owner has the scope that tags state. -/
theorem scope_ofPath (hs : statedScope d = some s) (hm : (ofPath d path label).memberof ≠ none) :
    (ofPath d path label).scope = some s := by
  revert hm
  unfold ofPath
  split
  · exact fun hm => absurd rfl hm
  · rw [hs]
    exact fun _ => rfl

/-- A member has the scope that tags state if it is named by a path below its owner, and else the given one. -/
theorem scope_below (hs : statedScope d = some s) (hm : (below d owner scope name label).memberof ≠ none) :
    (below d owner scope name label).scope = some (if isNested name then s else scope) := by
  revert hm
  unfold below
  split
  · exact scope_ofPath hs
  · exact fun _ => rfl

end Placement

namespace Naming

open Placement

variable {R : Type} {dict : Dictionary R} {stack : ScopeStack} {d : Doclet} {s shown : Scope}
  {name memberof label : String}

theorem scope_placeInOwner (hs : statedScope d = some s) (hm : (placeInOwner d memberof name label).memberof ≠ none) :
    (placeInOwner d memberof name label).scope = some s := by
  revert hm
  unfold placeInOwner
  split
  · exact fun hm => (hm rfl).elim
  · dsimp only
    intro hm
    rw [scope_below hs hm, hs, Option.some_or, Option.getD_some, ite_self]

/-! ## Scopes that names show -/

/-- What a name shows of the scope of its symbol. Behind an export marker in a module is the name of a static member,
and behind `this.` that of an instance member of some owner. A path shows nothing. -/
inductive Shows (stack : ScopeStack) : String → Scope → Prop
  | exported {head name : String} (hm : moduleOwner? stack ≠ none) (hhead : head ∈ exportHeads)
      (hn : isNested name = false) : Shows stack (head ++ name) .static
  | member {name : String} (ho : ownerEntry? stack ≠ none) (hn : isNested name = false) :
      Shows stack ("this." ++ name) .perInstance
  | exportedMember {head name : String} (hm : moduleOwner? stack ≠ none) (hhead : head ∈ exportHeads)
      (hn : isNested name = false) : Shows stack (head ++ ("this." ++ name)) .perInstance

/-- A name in code with the scope that it shows itself. -/
def codeName (stack : ScopeStack) (name : String) : CodeName :=
  (CodeName.resolveExport { name, owner := ownerEntry? stack, scope := none } (moduleOwner? stack)).resolveThis

/-- Any other scope only counts where the name shows none. -/
theorem resolve_eq_codeName (stack : ScopeStack) (name : String) (scope : Option Scope) :
    (CodeName.resolveExport { name, owner := ownerEntry? stack, scope } (moduleOwner? stack)).resolveThis =
      { codeName stack name with scope := (codeName stack name).scope.or scope } := by
  have hthis (n : CodeName) : ({ n with scope := n.scope.or scope } : CodeName).resolveThis =
      { n.resolveThis with scope := n.resolveThis.scope.or scope } := by
    unfold CodeName.resolveThis
    dsimp only
    split <;> simp_all
  have hexport (owner : Option String) :
      let n := CodeName.resolveExport { name, owner := ownerEntry? stack, scope := none } owner
      CodeName.resolveExport { name, owner := ownerEntry? stack, scope } owner = { n with scope := n.scope.or scope } := by
    unfold CodeName.resolveExport
    split
    · rfl
    · dsimp only
      split <;> rfl
  rw [hexport, hthis]
  rfl

/-- A name behind `this.` starts with no export marker. -/
theorem findSome?_exportHeads_this (name : String) : exportHeads.findSome? (after? ("this." ++ name) ·) = none := by
  rw [List.findSome?_eq_none_iff]
  intro head hhead
  rw [after?, if_neg]
  rw [startsWith_iff, String.toList_append]
  rintro ⟨rest, hrest⟩
  rcases List.mem_cons.1 hhead with rfl | hhead
  · cases hrest
  · rw [List.mem_singleton.1 hhead] at hrest
    cases hrest

/-- The name in code shows the scope, and what it names is no path. -/
theorem Shows.scope_codeName (h : Shows stack name shown) :
    isNested (codeName stack name).name = false ∧ (codeName stack name).scope = some shown := by
  unfold codeName CodeName.resolveExport
  cases h with
  | exported hm hhead hn =>
    obtain ⟨owner, ho⟩ := Option.ne_none_iff_exists'.1 hm
    rw [ho]
    simp [findSome?_exportHeads hhead, CodeName.resolveThis, after?_this hn, hn]
  | exportedMember hm hhead hn =>
    obtain ⟨owner, ho⟩ := Option.ne_none_iff_exists'.1 hm
    rw [ho]
    simp [findSome?_exportHeads hhead, CodeName.resolveThis, after?_append, hn]
  | member ho hn =>
    obtain ⟨entry, he⟩ := Option.ne_none_iff_exists'.1 ho
    cases moduleOwner? stack <;> simp [findSome?_exportHeads_this, CodeName.resolveThis, after?_append, he, hn]

/-- A name shows one scope at most. -/
theorem Shows.unique {shown' : Scope} (h : Shows stack name shown) (h' : Shows stack name shown') : shown' = shown :=
  Option.some.inj (h'.scope_codeName.2.symm.trans h.scope_codeName.2)

/-- A name loses `this.` where an owner is known. -/
theorem CodeName.resolveThis_cases (n : CodeName) :
    n.resolveThis = n ∨ ∃ rest, n.owner ≠ none ∧ "this." ++ rest = n.name ∧
      n.resolveThis = { n with name := rest, scope := some .perInstance } := by
  unfold CodeName.resolveThis
  split
  · next howner hafter => exact .inr ⟨_, by simp [howner], append_of_after? hafter, rfl⟩
  · exact .inl rfl

/-- A name loses an export marker where a module is known. -/
theorem CodeName.resolveExport_cases (n : CodeName) (moduleOwner : Option String) :
    n.resolveExport moduleOwner = n ∨ ∃ head ∈ exportHeads, ∃ rest owner, moduleOwner ≠ none ∧ head ++ rest = n.name ∧
      n.resolveExport moduleOwner = { name := rest, owner := some owner, scope := some .static } := by
  unfold CodeName.resolveExport
  split
  · exact .inl rfl
  · next owner =>
    split
    · next rest hfound =>
      obtain ⟨head, hhead, hafter⟩ := List.exists_of_findSome?_eq_some hfound
      exact .inr ⟨head, hhead, rest, _, Option.some_ne_none _, append_of_after? hafter, rfl⟩
    · exact .inl rfl

/-- A name shows the scope that it is found to have in code, unless it names a path. -/
theorem shows_of_codeName (hn : isNested (codeName stack name).name = false)
    (hs : (codeName stack name).scope = some shown) : Shows stack name shown := by
  let code : CodeName := { name, owner := ownerEntry? stack, scope := none }
  unfold codeName at hn hs
  rcases code.resolveExport_cases (moduleOwner? stack) with he | ⟨head, hhead, rest, owner, hm, rfl, he⟩ <;>
    rw [he] at hn hs
  · rcases code.resolveThis_cases with ht | ⟨rest, ho, rfl, ht⟩ <;> rw [ht] at hn hs <;> cases hs
    exact .member ho hn
  · rcases CodeName.resolveThis_cases ⟨rest, some owner, some .static⟩ with ht | ⟨rest', -, rfl, ht⟩ <;>
      rw [ht] at hn hs <;> cases hs
    · exact .exported hm hhead hn
    · exact .exportedMember hm hhead hn

/-! ## Rules -/

/-- The scopes that a tag can state for a member. -/
def statableScopes : List Scope := [.static, .perInstance, .inner]

theorem memberScope_of_mem (h : s ∈ statableScopes) : memberScope s = s := by
  revert s
  decide

theorem ne_global_of_mem (h : s ∈ statableScopes) : s ≠ .global := by
  revert s
  decide

theorem Shows.mem_statableScopes (h : Shows stack name shown) : shown ∈ statableScopes := by cases h <;> decide

/-- In the open contexts a member has the scope that its name shows, and else the stated one. -/
theorem scope_placeInScope (hs : statedScope d = some s) (hd : d.scope = some s) (hmem : s ∈ statableScopes)
    (hm : (placeInScope stack d name label).memberof ≠ none) :
    (∃ shown, Shows stack name shown ∧ (placeInScope stack d name label).scope = some shown) ∨
      ((∀ shown, ¬ Shows stack name shown) ∧ (placeInScope stack d name label).scope = some s) := by
  have hnested (hn : isNested (codeName stack name).name = true) : ∀ shown, ¬ Shows stack name shown := by
    intro shown h
    rw [h.scope_codeName.1] at hn
    cases hn
  revert hm
  unfold placeInScope
  dsimp only
  rw [resolve_eq_codeName, hd]
  dsimp only
  split
  · split
    · next hn => exact fun hm => .inr ⟨hnested hn, scope_ofPath hs hm⟩
    · exact fun hm => (hm rfl).elim
  · intro hm
    rw [scope_below hs hm]
    by_cases hn : isNested (codeName stack name).name = true
    · exact .inr ⟨hnested hn, by rw [if_pos hn]⟩
    · rw [if_neg hn]
      cases hshown : (codeName stack name).scope with
      | none =>
        refine .inr ⟨fun shown h => ?_, congrArg some (memberScope_of_mem hmem)⟩
        rw [h.scope_codeName.2] at hshown
        cases hshown
      | some shown =>
        have hshows : Shows stack name shown := shows_of_codeName (eq_false_of_ne_true hn) hshown
        exact .inl ⟨shown, hshows, congrArg some (memberScope_of_mem hshows.mem_statableScopes)⟩

end Naming

namespace Doclet

open Placement

variable {R : Type} {dict : Dictionary R} {stack : ScopeStack} {d d' : Doclet} {s : Scope}

/-- Nothing but the open contexts gives the doclet a place: it is no root, not exported as a whole, and the tags state
neither an owner nor a path for its name. -/
structure LeftToContexts (dict : Dictionary R) (stack : ScopeStack) (d : Doclet) : Prop where
  not_root : isRootKind dict d.kind = false
  not_exported : d.origin.defaultExport = true → moduleOwner? stack = none
  no_owner : d.explicitMemberof = true → nonempty d.memberof = none
  no_name : d.explicitName = false
  no_path : d.taggedName = true → isNested (givenName d) = false
  no_lends : d.taggedName = false → nonempty d.lends = none

/-- Where nothing but the open contexts gives the doclet a place, its name shows a scope. -/
def ShowsScope (dict : Dictionary R) (stack : ScopeStack) (d : Doclet) (shown : Scope) : Prop :=
  d.LeftToContexts dict stack ∧ Shows stack (givenName d) shown

/-- A doclet with a stated scope gets the place that the open contexts give it, or else one that keeps the scope. -/
theorem scope_placement_of_stated (hs : statedScope d = some s) (hm : (placement dict stack d).memberof ≠ none) :
    (d.LeftToContexts dict stack ∧ placement dict stack d = placeInScope stack d (givenName d) (label dict d)) ∨
      (¬ d.LeftToContexts dict stack ∧ (placement dict stack d).scope = some s) := by
  revert hm
  unfold placement
  dsimp only
  by_cases hroot : isRootKind dict d.kind = true
  · rw [if_pos hroot]
    exact fun hm => (hm rfl).elim
  rw [if_neg hroot]
  cases hexport : if d.origin.defaultExport then moduleOwner? stack else none with
  | some owner => exact fun hm => (hm rfl).elim
  | none =>
    dsimp only
    cases howner : if d.explicitMemberof then nonempty d.memberof else none with
    | some memberof =>
      refine fun hm => .inr ⟨fun h => ?_, scope_placeInOwner hs hm⟩
      split at howner
      · next he => rw [h.no_owner he] at howner; cases howner
      · cases howner
    | none =>
      dsimp only
      by_cases hpath : (d.explicitName || (d.taggedName && isNested (givenName d))) = true
      · rw [if_pos hpath]
        refine fun hm => .inr ⟨fun h => ?_, scope_ofPath hs hm⟩
        rw [h.no_name, Bool.false_or, Bool.and_eq_true] at hpath
        rw [h.no_path hpath.1] at hpath
        cases hpath.2
      rw [if_neg hpath]
      cases hlends : if d.taggedName then none else nonempty d.lends with
      | some lends =>
        refine fun hm => .inr ⟨fun h => ?_, scope_ofPath hs hm⟩
        split at hlends
        · cases hlends
        · next ht => rw [h.no_lends (eq_false_of_ne_true ht)] at hlends; cases hlends
      | none =>
        dsimp only
        split
        · exact fun hm => (hm rfl).elim
        · rw [Bool.or_eq_true, Bool.and_eq_true, not_or, not_and, Bool.not_eq_true, Bool.not_eq_true] at hpath
          refine fun _ => .inl
            ⟨⟨eq_false_of_ne_true hroot, fun hx => ?_, fun he => ?_, hpath.1, hpath.2, fun ht => ?_⟩, rfl⟩
          · rwa [if_pos hx] at hexport
          · rwa [if_pos he] at howner
          · rwa [if_neg (ne_true_of_eq_false ht)] at hlends

/-- A doclet with a stated scope and an owner has the scope that its name shows, and else the stated one. -/
theorem scope_placement (hs : statedScope d = some s) (hd : d.scope = some s) (hmem : s ∈ statableScopes)
    (hm : (placement dict stack d).memberof ≠ none) :
    (∃ shown, d.ShowsScope dict stack shown ∧ (placement dict stack d).scope = some shown) ∨
      ((∀ shown, ¬ d.ShowsScope dict stack shown) ∧ (placement dict stack d).scope = some s) := by
  rcases scope_placement_of_stated hs hm with ⟨hleft, hp⟩ | ⟨hleft, hscope⟩
  · rw [hp] at hm ⊢
    rcases scope_placeInScope hs hd hmem hm with ⟨shown, hshown, hscope⟩ | ⟨hnone, hscope⟩
    · exact .inl ⟨shown, ⟨hleft, hshown⟩, hscope⟩
    · exact .inr ⟨fun shown h => hnone shown h.2, hscope⟩
  · exact .inr ⟨fun shown h => hleft h.1, hscope⟩

/-- **A stated scope wins wherever the symbol gets an owner, unless its name shows another one in the open contexts.**
If a tag states that a symbol is a static, an instance or an inner member, and the symbol gets an owner, then it has
this scope just if its name shows no other one where nothing but the open contexts gives it a place; and else it has
the scope that the name shows. -/
theorem scope_of_resolve (hr : d.resolve dict stack = .ok d') (he : d.explicitScope = true) (hd : d.scope = some s)
    (hmem : s ∈ statableScopes) (hm : d'.memberof ≠ none) :
    (d'.scope = some s ↔ ∀ shown, d.ShowsScope dict stack shown → shown = s) ∧
      ∀ shown, d.ShowsScope dict stack shown → d'.scope = some shown := by
  have hs : statedScope d = some s := by
    rw [statedScope, if_pos he, hd, Option.filter_some, if_pos (decide_eq_true (ne_global_of_mem hmem))]
  obtain rfl := eq_place_of_resolve hr
  have hplace : (d.place dict stack).scope = (placement dict stack d).scope := rfl
  rw [hplace]
  rcases scope_placement hs hd hmem hm with ⟨shown, hshown, hscope⟩ | ⟨hnone, hscope⟩
  · rw [hscope]
    refine ⟨⟨fun h shown' h' => ?_, fun h => congrArg some (h shown hshown)⟩, fun shown' h' => ?_⟩
    · rw [hshown.2.unique h'.2]
      exact Option.some.inj h
    · rw [hshown.2.unique h'.2]
  · exact ⟨iff_of_true hscope fun shown h => absurd h (hnone shown), fun shown h => absurd h (hnone shown)⟩

/-- The file of a module. -/
def inModule : ScopeStack := { root := some ⟨.inner, some "module:p"⟩ }

/-- An instance member of an exported class, where the stated scope wins over the separator in the name. -/
theorem scope_of_resolve_path :
    let d := { kind := some "function", name := some "exports.A.x" : Doclet }.withStatedScope .perInstance
    let d' := d.place Grammar.jsdoc.dictionary inModule
    d.resolve Grammar.jsdoc.dictionary inModule = .ok d' ∧ d.explicitScope = true ∧ .perInstance ∈ statableScopes ∧
      d'.memberof = some "module:p.A" ∧ d'.scope = some .perInstance ∧
      ∀ shown, d.ShowsScope Grammar.jsdoc.dictionary inModule shown → shown = .perInstance := by
  intro d d'
  have hr : d.resolve Grammar.jsdoc.dictionary inModule = .ok d' := rfl
  have hd' : d' = d.place (Grammar.jsdocTables (.all false)) inModule :=
    congrArg (d.place · inModule) (Grammar.jsdoc_dictionary_eq _)
  have hplace : d'.memberof = some "module:p.A" ∧ d'.scope = some .perInstance := by
    rw [hd']
    decide +kernel
  have hm : d'.memberof ≠ none := by simp [hplace.1]
  have h := scope_of_resolve hr rfl rfl (by decide) hm
  exact ⟨hr, rfl, by decide, hplace.1, hplace.2, h.1.1 hplace.2⟩

/-- The stated scope of an export is lost, and so is that of a member behind `this.`. -/
theorem scope_of_resolve_exports :
    let stated (name : String) (scope : Scope) :=
      { kind := some "function", name := some name : Doclet }.withStatedScope scope
    let exported := stated "exports.x" .perInstance
    let inner := stated "this.x" .inner
    exported.explicitScope = true ∧ exported.scope = some .perInstance ∧
      (exported.resolve Grammar.jsdoc.dictionary inModule).map place? =
        .ok (some "x", some "module:p", some .static, some "module:p.x") ∧
      inner.explicitScope = true ∧ inner.scope = some .inner ∧
      (inner.resolve Grammar.jsdoc.dictionary inModule).map place? =
        .ok (some "x", some "module:p", some .perInstance, some "module:p#x") := by
  rw [Grammar.jsdoc_dictionary_eq]
  decide +kernel

end Doclet
end SymbolDocs
