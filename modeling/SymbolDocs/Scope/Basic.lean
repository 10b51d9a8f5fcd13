/-!
# Scopes

The scope of a symbol says how it belongs to its owner, and each scope has a separator that stands between the two in
a name path. A `ScopeEntry` is one open naming context.
-/

namespace SymbolDocs

/-- The scope that a symbol lives in. -/
inductive Scope where
  | global | static | perInstance | inner | anonymous
  deriving DecidableEq, Repr

namespace Scope

/-- All scopes. -/
def all : List Scope := [.global, .static, .perInstance, .inner, .anonymous]

/-- The word for a scope. -/
def word : Scope → String
  | .global => "global"
  | .static => "static"
  | .perInstance => "instance"
  | .inner => "inner"
  | .anonymous => "anonymous"

/-- The scope that a word names. -/
def ofWord? (word : String) : Option Scope := all.find? (·.word == word)

/-- What separates a symbol of this scope from its owner. -/
def punctuation : Scope → List Char
  | .global => []
  | .static => ['.']
  | .perInstance => ['#']
  | .inner => ['~']
  | .anonymous => ['~']

/-- The scope that a separator stands for. -/
def ofPunctuation? : Char → Option Scope
  | '.' => some .static
  | '#' => some .perInstance
  | '~' => some .inner
  | _ => none

theorem ofWord?_word (scope : Scope) : ofWord? scope.word = some scope := by cases scope <;> decide

end Scope

/-- One open naming context: how its members belong to it, and the longname of their owner. -/
structure ScopeEntry where
  kind : Scope
  owner : Option String := none
  deriving DecidableEq, Repr

namespace ScopeEntry

/-- The separator between the owner and a member. -/
def punctuation (entry : ScopeEntry) : List Char := entry.kind.punctuation

/-- Whether members of this context have no owner. -/
def isGlobal (entry : ScopeEntry) : Bool := entry.kind == .global || entry.owner.isNone

/-- The owner, unless it is missing or the empty text. -/
def namedOwner? (entry : ScopeEntry) : Option String := entry.owner.filter (!·.isEmpty)

end ScopeEntry
end SymbolDocs
