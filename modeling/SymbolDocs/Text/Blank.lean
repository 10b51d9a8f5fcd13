/-!
# Blanks and trimming

`isBlank` holds of the characters that separate words: white space, the four information separators and the line
and paragraph separators. Trimming removes blanks from the ends of a text; `exists_trim` says that nothing else goes.
-/

namespace SymbolDocs.Text

/-- White space, including the information separators U+001C to U+001F. -/
def isBlank (c : Char) : Bool :=
  let n := c.toNat
  (9 ≤ n && n ≤ 13) || (28 ≤ n && n ≤ 32) || n = 0x85 || n = 0xA0 || n = 0x1680 || (0x2000 ≤ n && n ≤ 0x200A) ||
    n = 0x2028 || n = 0x2029 || n = 0x202F || n = 0x205F || n = 0x3000

/-- The text without the characters of a class at its end. -/
def dropEndWhile (p : Char → Bool) (cs : List Char) : List Char := (cs.reverse.dropWhile p).reverse

/-- The text without the characters of a class at its two ends. -/
def stripWhile (p : Char → Bool) (cs : List Char) : List Char := dropEndWhile p (cs.dropWhile p)

/-- The text without blanks at its start. -/
def trimLeft (cs : List Char) : List Char := cs.dropWhile isBlank

/-- The text without blanks at its end. -/
def trimRight (cs : List Char) : List Char := dropEndWhile isBlank cs

/-- The text without blanks at its two ends. -/
def trim (cs : List Char) : List Char := stripWhile isBlank cs

/-- A string without blanks at its two ends. -/
def strip (s : String) : String := String.ofList (trim s.toList)

/-- Whether a string holds blanks only. -/
def allBlank (s : String) : Bool := s.toList.all isBlank

theorem trim_eq (cs : List Char) : trim cs = trimRight (trimLeft cs) := rfl

theorem trimLeft_append (cs : List Char) : cs.takeWhile isBlank ++ trimLeft cs = cs :=
  List.takeWhile_append_dropWhile

/-- A beginning of a text without blanks at its start has none there either. -/
theorem trimLeft_eq_self {cs ds : List Char} (h : ds <+: trimLeft cs) : trimLeft ds = ds := by
  cases ds with
  | nil => rfl
  | cons c ds =>
    obtain ⟨rest, hr⟩ := h
    have hc := List.head?_dropWhile_not isBlank cs
    rw [← trimLeft, ← hr] at hc
    rw [trimLeft, List.dropWhile_cons_of_neg (by simpa using hc)]

/-- A trimmed text is left as it is. -/
theorem trim_trim (cs : List Char) : trim (trim cs) = trim cs := by
  have hright (ds : List Char) : trimRight ds = (trimLeft ds.reverse).reverse := rfl
  have hprefix : trim cs <+: trimLeft cs := by
    rw [trim_eq, hright, ← List.reverse_suffix, List.reverse_reverse]
    exact List.dropWhile_suffix _
  rw [trim_eq (trim cs), trimLeft_eq_self hprefix, trim_eq, hright (trimRight _), hright, List.reverse_reverse,
    trimLeft_eq_self List.prefix_rfl]

/-- Trimming takes nothing but blanks from the two ends. -/
theorem exists_trim (cs : List Char) : ∃ before after, cs = before ++ trim cs ++ after ∧
    (∀ c ∈ before, isBlank c = true) ∧ ∀ c ∈ after, isBlank c = true := by
  refine ⟨cs.takeWhile isBlank, ((trimLeft cs).reverse.takeWhile isBlank).reverse, ?_, ?_, ?_⟩
  · have hright : trim cs ++ ((trimLeft cs).reverse.takeWhile isBlank).reverse = trimLeft cs := by
      rw [trim_eq, trimRight, dropEndWhile, ← List.reverse_append, List.takeWhile_append_dropWhile,
        List.reverse_reverse]
    rw [List.append_assoc, hright, trimLeft_append]
  · exact fun c hc => List.all_eq_true.1 List.all_takeWhile c hc
  · exact fun c hc => List.all_eq_true.1 List.all_takeWhile c (List.mem_reverse.1 hc)

end SymbolDocs.Text
