import SymbolDocs.Proofs.Tag.Feasible

/-!
# The built-in dictionaries are feasible

All tags of the built-in grammars have feasible definitions (`definitions_feasible`), so every dictionary that
`Grammar.buildAll` gives is feasible.
-/

namespace SymbolDocs.Grammar

/-- The tags of a grammar have feasible definitions. -/
theorem definitions_feasible (g : Grammar) : ∀ d ∈ sharedTags ++ g.definitions, d.feasible = true := by
  rw [← List.all_eq_true]
  cases g <;> decide +kernel

theorem dictionary_feasible (g : Grammar) (allowUnknown : AllowUnknown) : (g.dictionary allowUnknown).Feasible :=
  dictionary_all g.definitions_feasible allowUnknown

/-- **Every dictionary of built-in grammars is feasible.** -/
theorem buildAll_feasible {names : List String} {allowUnknown : AllowUnknown} {dict : Dictionary}
    (h : buildAll names allowUnknown = .ok dict) : dict.Feasible :=
  buildAll_all definitions_feasible h

end SymbolDocs.Grammar
