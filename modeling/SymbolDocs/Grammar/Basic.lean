import SymbolDocs.Tag.Definition

/-!
# Short forms of tag definitions
-/

namespace SymbolDocs.Grammar

/-- Stores the value of the tag in a field. -/
def store (field : TextField) : List Effect := [.store (.text field) none]

/-- Adds the value of the tag to a list. -/
def append (field : ListField) : List Effect := [.append field]

/-- Sets a field to yes. -/
def flag (field : FlagField) : List Effect := [.assign (.flag field) (.flag true)]

/-- States the kind of the symbol. -/
def kind (word : String) : List Effect := [.stateKind word]

/-- Follows a rule of its own. -/
def rule (handler : Handler) : List Effect := [.rule handler]

end SymbolDocs.Grammar
