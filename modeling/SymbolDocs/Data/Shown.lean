import SymbolDocs.Data.Basic
import SymbolDocs.Text.Quoted

/-!
# Data as a text

`Data.shown` writes a value as it appears inside other values, with quotes around texts; `Data.plain` writes a value
that takes the place of a text.
-/

namespace SymbolDocs.Data

open SymbolDocs.Text

mutual

/-- The text of a value, with quotes around texts. -/
def shown : Data → String
  | .null => "None"
  | .flag true => "True"
  | .flag false => "False"
  | .int n => toString n
  | .decimal s => s
  | .text s => quoted s
  | .list items => "[" ++ ", ".intercalate (shownItems items) ++ "]"
  | .mapping entries => "\x7b" ++ ", ".intercalate (shownEntries entries) ++ "\x7d"

/-- The texts of the items of a list. -/
def shownItems : List Data → List String
  | [] => []
  | a :: as => shown a :: shownItems as

/-- The texts of the entries of a mapping. -/
def shownEntries : List DataEntry → List String
  | [] => []
  | .entry key value :: es => (quoted key ++ ": " ++ shown value) :: shownEntries es

end

/-- The text that a value stands for where a text is needed. -/
def plain : Data → String
  | .text s => s
  | d => d.shown

end SymbolDocs.Data
