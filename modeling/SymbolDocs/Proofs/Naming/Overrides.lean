import SymbolDocs.Proofs.Naming.Exports

/-!
# Places that tags state

A tag can name a symbol absolutely or state its owner. What such tags say is a place by itself
(`Naming.statedPlacement`), and the open contexts have no part in it. The one thing that comes before it is an export: a
symbol that a module exports as a whole is named after the module, whatever its tags state, and the module is found in
the open contexts. So a stated place is the same in any two stacks just if the symbol is not exported as a whole or the
same module is found in both (`Doclet.resolve_stated`).
-/

namespace SymbolDocs

open SymbolDocs.Text SymbolDocs.NamePath SymbolDocs.Naming

/-! ## Stated places -/

namespace Naming

variable {R : Type} {dict : Dictionary R} {stack s t : ScopeStack} {d : Doclet} {owner memberof : String}

/-- The owner that a tag states. -/
def statedOwner? (d : Doclet) : Option String := if d.explicitMemberof then nonempty d.memberof else none

/-- The place that tags state: below the owner that they state, and otherwise at the path that they give as name. -/
def statedPlacement (d : Doclet) (label : String) : Placement :=
  match statedOwner? d with
  | some owner => placeInOwner d owner (givenName d) label
  | none => .ofPath d (givenName d) label

/-- The module that exports a symbol as a whole is the one that is found in the open contexts. -/
theorem exporter?_eq (hk : isRootKind dict d.kind = false) :
    exporter? dict stack d = if d.origin.defaultExport then moduleOwner? stack else none := by
  rw [exporter?, hk, if_neg Bool.false_ne_true]

theorem exporter?_eq_iff (hk : isRootKind dict d.kind = false) :
    exporter? dict s d = exporter? dict t d ↔ (d.origin.defaultExport = true → moduleOwner? s = moduleOwner? t) := by
  rw [exporter?_eq hk, exporter?_eq hk]
  cases d.origin.defaultExport <;> simp

/-- A symbol that never has an owner is placed by its name alone. -/
theorem placement_of_rootKind (hk : isRootKind dict d.kind = true) : placement dict stack d =
    .ofMember none (if d.kind = some "file" then some .global else none) (givenName d) (label dict d) :=
  if_pos hk

theorem placement_of_exporter (hk : isRootKind dict d.kind = false) (hx : exporter? dict stack d = some owner) :
    placement dict stack d = { name := owner, memberof := none, scope := none, longname := owner } := by
  rw [exporter?_eq hk] at hx
  split at hx
  · next hexport => exact Doclet.placement_wholeExport hk hexport hx
  · cases hx

/-- A stated owner places a symbol that is not exported as a whole. -/
theorem placement_of_statedOwner (hk : isRootKind dict d.kind = false) (hx : exporter? dict stack d = none)
    (ho : statedOwner? d = some memberof) :
    placement dict stack d = placeInOwner d memberof (givenName d) (label dict d) := by
  rw [exporter?_eq hk] at hx
  unfold statedOwner? at ho
  unfold placement
  simp only [hk, Bool.false_eq_true, if_false, hx, ho]

/-- A stated name places a symbol that is not exported as a whole and for which no owner is stated. -/
theorem placement_of_statedName (hk : isRootKind dict d.kind = false) (hx : exporter? dict stack d = none)
    (ho : statedOwner? d = none) (hn : d.explicitName = true) :
    placement dict stack d = .ofPath d (givenName d) (label dict d) := by
  rw [exporter?_eq hk] at hx
  unfold statedOwner? at ho
  unfold placement
  simp only [hk, Bool.false_eq_true, if_false, hx, ho, hn, Bool.true_or, if_true]

end Naming

/-! ## Stated places have a scope -/

namespace Placement

variable {d : Doclet} {owner name path label : String} {scope : Scope}

/-- A symbol at a path has a scope, if a tag that states its scope states one. -/
theorem scope_ofPath_ne_none (hd : d.explicitScope = true → d.scope ≠ none) :
    (ofPath d path label).scope ≠ none := by
  unfold ofPath
  rcases split_cases path with hs | ⟨owner, scope, name, -, -, -, -, hs⟩
  · rw [hs]
    dsimp only [ofMember]
    split
    · next he => exact hd he
    · exact Option.some_ne_none _
  · rw [hs]
    dsimp only [ofMember]
    cases statedScope d <;> simp

theorem scope_below_ne_none (hd : d.explicitScope = true → d.scope ≠ none) :
    (below d owner scope name label).scope ≠ none := by
  unfold below
  split
  · exact scope_ofPath_ne_none hd
  · exact Option.some_ne_none _

end Placement

namespace Naming

variable {d : Doclet} {memberof name label : String}

theorem scope_placeInOwner_ne_none (hd : d.explicitScope = true → d.scope ≠ none) :
    (placeInOwner d memberof name label).scope ≠ none := by
  unfold placeInOwner
  split
  · exact Option.some_ne_none _
  · exact Placement.scope_below_ne_none hd

theorem scope_statedPlacement_ne_none (hd : d.explicitScope = true → d.scope ≠ none) (label : String) :
    (statedPlacement d label).scope ≠ none := by
  unfold statedPlacement
  split
  · exact scope_placeInOwner_ne_none hd
  · exact Placement.scope_ofPath_ne_none hd

end Naming

/-! ## Stated places in open contexts -/

namespace Doclet

variable {R : Type} {dict : Dictionary R} {stack : ScopeStack} {d : Doclet}

/-- A tag names the symbol absolutely or states its owner. -/
def StatesPlace (d : Doclet) : Prop := d.explicitName = true ∨ statedOwner? d ≠ none

theorem StatesPlace.placement (h : d.StatesPlace) (hk : isRootKind dict d.kind = false)
    (hx : exporter? dict stack d = none) : Naming.placement dict stack d = statedPlacement d (label dict d) := by
  unfold statedPlacement
  cases ho : statedOwner? d with
  | some owner => exact placement_of_statedOwner hk hx ho
  | none => exact placement_of_statedName hk hx ho (h.resolve_right fun hne => hne ho)

/-- Where one stack has a module that exports the symbol as a whole, another stack gives it the same place only if it
has the same module: a stated place has a scope, and a whole export has none. -/
theorem StatesPlace.exporter?_eq_of_placement (h : d.StatesPlace) (hk : isRootKind dict d.kind = false)
    (hd : d.explicitScope = true → d.scope ≠ none) {s t : ScopeStack}
    (hn : (Naming.placement dict s d).name = (Naming.placement dict t d).name)
    (hs : (Naming.placement dict s d).scope = (Naming.placement dict t d).scope) :
    exporter? dict s d = exporter? dict t d := by
  have hscope := scope_statedPlacement_ne_none hd (label dict d)
  cases hes : exporter? dict s d with
  | none =>
    cases het : exporter? dict t d with
    | none => rfl
    | some owner =>
      rw [h.placement hk hes, placement_of_exporter hk het] at hs
      exact absurd hs hscope
  | some owner =>
    cases het : exporter? dict t d with
    | none =>
      rw [placement_of_exporter hk hes, h.placement hk het] at hs
      exact absurd hs.symm hscope
    | some owner' =>
      rw [placement_of_exporter hk hes, placement_of_exporter hk het] at hn
      exact congrArg some hn

/-- **What tags state about the name or the owner wins over the open contexts**, unless a module exports the symbol as
a whole. Two stacks give the symbol the same place if it is not exported as a whole, or if the same module is found in
both. Otherwise they give it different places, as long as a tag that states the scope does state one. -/
theorem resolve_stated (h : d.StatesPlace) (ha : d.awaitsName = true) (hk : isRootKind dict d.kind = false) :
    (∀ stack, exporter? dict stack d = none →
      let p := statedPlacement d (label dict d)
      (d.resolve dict stack).map place? =
        .ok (some p.name, p.memberof, p.scope, some (addVariation p.longname d.variation))) ∧
    (∀ s t, (d.origin.defaultExport = true → moduleOwner? s = moduleOwner? t) →
      (d.resolve dict s).map place? = (d.resolve dict t).map place?) ∧
    ((d.explicitScope = true → d.scope ≠ none) → ∀ s t, (d.resolve dict s).map place? = (d.resolve dict t).map place? →
      d.origin.defaultExport = true → moduleOwner? s = moduleOwner? t) := by
  refine ⟨fun stack hx => map_resolve ha (h.placement hk hx), fun s t hmodule => ?_, fun hd s t hsame => ?_⟩
  · have hexport := (exporter?_eq_iff hk).2 hmodule
    have hplace : Naming.placement dict s d = Naming.placement dict t d := by
      cases hx : exporter? dict t d with
      | none => rw [h.placement hk hx, h.placement hk (hexport.trans hx)]
      | some owner => rw [placement_of_exporter hk hx, placement_of_exporter hk (hexport.trans hx)]
    rw [map_resolve ha rfl, map_resolve ha rfl, hplace]
  · rw [map_resolve ha rfl, map_resolve ha rfl] at hsame
    simp only [Except.ok.injEq, Prod.mk.injEq, Option.some.injEq] at hsame
    exact (exporter?_eq_iff hk).1 (h.exporter?_eq_of_placement hk hd hsame.1 hsame.2.2.1)

/-- A function that is exported as a whole, and that a tag names. -/
def namedExport : Doclet :=
  { kind := some "function", origin := { defaultExport := true } : Doclet }.withStatedName "Bar.baz"

/-- In any two places of one module the function is named alike. Outside every module it is named by its tag, which is
another place. -/
theorem resolve_stated_namedExport :
    let dict := Grammar.jsdoc.dictionary
    namedExport.StatesPlace ∧ namedExport.awaitsName = true ∧ isRootKind dict namedExport.kind = false ∧
      namedExport.explicitScope = false ∧
      (namedExport.resolve dict {}).map place? = .ok (some "baz", some "Bar", some .static, some "Bar.baz") ∧
      moduleOwner? namelessInModule = moduleOwner? { root := namelessInModule.root } ∧
      (namedExport.resolve dict namelessInModule).map place? =
        (namedExport.resolve dict { root := namelessInModule.root }).map place? ∧
      (namedExport.resolve dict {}).map place? ≠ (namedExport.resolve dict namelessInModule).map place? := by
  intro dict
  have hs : namedExport.StatesPlace := .inl rfl
  have hmodule : moduleOwner? namelessInModule = moduleOwner? { root := namelessInModule.root } := by decide
  have houtside : moduleOwner? {} ≠ moduleOwner? namelessInModule := by decide
  have hplace : let p := statedPlacement namedExport (label dict namedExport)
      (some p.name, p.memberof, p.scope, some (addVariation p.longname namedExport.variation)) =
        (some "baz", some "Bar", some .static, some "Bar.baz") := by
    rw [show dict = _ from Grammar.jsdoc_dictionary_eq _]
    decide +kernel
  have hk : isRootKind dict namedExport.kind = false := function_placed_in_scope.1
  have hx : exporter? dict {} namedExport = none := by
    rw [exporter?_eq hk]
    decide
  obtain ⟨hstated, hsame, hdiffer⟩ := resolve_stated hs rfl hk
  exact ⟨hs, rfl, hk, rfl, (hstated {} hx).trans (congrArg Except.ok hplace), hmodule,
    hsame _ _ fun _ => hmodule, fun h => houtside (hdiffer nofun _ _ h rfl)⟩

/-- In a module the name that the tag gives is lost. -/
theorem resolve_namedExport_in_module :
    namedExport.StatesPlace ∧ isRootKind Grammar.jsdoc.dictionary namedExport.kind = false ∧
      (namedExport.resolve Grammar.jsdoc.dictionary {}).map place? =
        .ok (some "baz", some "Bar", some .static, some "Bar.baz") ∧
      (namedExport.resolve Grammar.jsdoc.dictionary { root := some ⟨.inner, some "module:p"⟩ }).map place? =
        .ok (some "module:p", none, none, some "module:p") := by
  refine ⟨.inl rfl, function_placed_in_scope.1, ?_⟩
  rw [Grammar.jsdoc_dictionary_eq]
  decide +kernel

end Doclet
end SymbolDocs
