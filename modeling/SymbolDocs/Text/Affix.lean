/-!
# Beginnings and ends of texts
-/

namespace SymbolDocs.Text

/-- Whether a text begins with another one. -/
def startsWith (s lead : String) : Bool := lead.toList.isPrefixOf s.toList

/-- Whether a text ends with another one. -/
def endsWith (s tail : String) : Bool := tail.toList.isSuffixOf s.toList

/-- The text without its first characters. -/
def dropChars (s : String) (n : Nat) : String := String.ofList (s.toList.drop n)

/-- What follows a beginning, if the text begins with it. -/
def after? (s lead : String) : Option String := if startsWith s lead then some (dropChars s lead.length) else none

theorem startsWith_iff (s lead : String) : startsWith s lead = true ↔ lead.toList <+: s.toList := by
  simp [startsWith]

/-- A beginning and what follows it make the text. -/
theorem append_of_after? {s lead rest : String} (h : after? s lead = some rest) : lead ++ rest = s := by
  unfold after? at h
  split at h
  · next hs =>
    obtain ⟨t, ht⟩ := (startsWith_iff s lead).1 hs
    cases h
    apply String.toList_injective
    simp [dropChars, ← ht, ← String.length_toList]
  · simp at h

end SymbolDocs.Text
