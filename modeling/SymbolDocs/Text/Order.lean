/-!
# The order of texts
-/

namespace SymbolDocs.Text

/-- The order of texts by code points, as a test for sorting. -/
def textLe (s t : String) : Bool := !decide (t < s)

/-- The texts in order. -/
def sortTexts (texts : List String) : List String := texts.mergeSort textLe

theorem sortTexts_perm (texts : List String) : (sortTexts texts).Perm texts := List.mergeSort_perm _ _

end SymbolDocs.Text
