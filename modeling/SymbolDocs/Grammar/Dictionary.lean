import SymbolDocs.Grammar.Closure
import SymbolDocs.Grammar.Shared
import SymbolDocs.Grammar.Jsdoc
import SymbolDocs.Tag.Dictionary

/-!
# The built-in dictionaries

`Grammar.build` gives the dictionary of one grammar, `Grammar.buildAll` the dictionary of several, in which later
grammars override earlier ones.
-/

namespace SymbolDocs

open SymbolDocs.Text

/-- A built-in grammar. -/
inductive Grammar where
  | jsdoc | closure
  deriving DecidableEq, Repr

/-- Why no dictionary can be built. -/
inductive GrammarFault where
  | unknown (name : String)
  | noneSelected
  deriving DecidableEq, Repr

namespace Grammar

/-- All grammars. -/
def available : List Grammar := [.jsdoc, .closure]

/-- The name of a grammar. -/
def name : Grammar → String
  | .jsdoc => "jsdoc"
  | .closure => "closure"

/-- The tags of a grammar beside the common ones. -/
def definitions : Grammar → List Definition
  | .jsdoc => Grammar.jsdocTags
  | .closure => Grammar.closureTags

/-- The grammar with a name, the case of which does not matter. -/
def ofName? (s : String) : Option Grammar := available.find? (·.name == lower s)

/-- The grammars that are used unless others are selected. -/
def defaults : List String := available.map name

/-- The dictionary of a grammar. -/
def dictionary (g : Grammar) (allowUnknown : AllowUnknown := .all false) : Dictionary :=
  ({ name := g.name, allowUnknown } : Dictionary).defineAll (sharedTags ++ g.definitions)

/-- The dictionary of the grammar with a name. -/
def build (name : String) (allowUnknown : AllowUnknown := .all false) : Except GrammarFault Dictionary :=
  match ofName? name with
  | some g => .ok (g.dictionary allowUnknown)
  | none => .error (.unknown name)

/-- The dictionary of several grammars, where later ones override earlier ones. -/
def buildAll (names : List String) (allowUnknown : AllowUnknown := .all false) : Except GrammarFault Dictionary := do
  match ← names.mapM (build · allowUnknown) with
  | [] => throw .noneSelected
  | [dict] => pure dict
  | dict :: others => pure (dict.merge others)

end Grammar

/-- The wording of a fault. -/
def GrammarFault.message : GrammarFault → String
  | .unknown name =>
    let known := ", ".intercalate (sortTexts (Grammar.available.map Grammar.name))
    "Unknown tag dictionary " ++ quoted name ++ ". Known dictionaries: " ++ known
  | .noneSelected => "At least one tag dictionary must be selected"

end SymbolDocs
