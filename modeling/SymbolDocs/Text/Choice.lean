import SymbolDocs.Text.Quoted

/-!
# Words out of a fixed choice
-/

namespace SymbolDocs.Text

/-- A word that is none of the words of its category. -/
structure UnknownWord where
  category : String
  word : String
  deriving DecidableEq, Repr

/-- The wording of the error. -/
def UnknownWord.message (e : UnknownWord) : String := quoted e.word ++ " is not a valid " ++ e.category

/-- The choice that a word stands for, or the error that it stands for none. -/
def choose (category : String) (ofWord? : String → Option α) (word : String) : Except UnknownWord α :=
  match ofWord? word with
  | some a => .ok a
  | none => .error { category, word }

end SymbolDocs.Text
