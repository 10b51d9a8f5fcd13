import SymbolDocs.Text.Blank

/-!
# Lines

`splitLines` cuts a text at every line boundary, of whatever kind, and a boundary at the end opens no further line.
`splitNewline` and `joinNewline` know the newline alone and are inverse to each other (`joinNewline_splitNewline`).
`dedent` removes the indentation that all lines share.
-/

namespace SymbolDocs.Text

/-- A character that ends a line. -/
def isLineBreak (c : Char) : Bool :=
  let n := c.toNat
  (10 ≤ n && n ≤ 13) || (28 ≤ n && n ≤ 30) || n = 0x85 || n = 0x2028 || n = 0x2029

/-- The lines of a text without their ends. A carriage return and the newline after it end one line. -/
def splitLines : List Char → List (List Char)
  | [] => []
  | '\r' :: '\n' :: cs => [] :: splitLines cs
  | c :: cs =>
    if isLineBreak c then [] :: splitLines cs
    else match splitLines cs with
      | [] => [[c]]
      | l :: ls => (c :: l) :: ls

/-- The text with a newline for every carriage return and for every pair of a carriage return and a newline. -/
def unifyNewlines : List Char → List Char
  | [] => []
  | '\r' :: '\n' :: cs => '\n' :: unifyNewlines cs
  | c :: cs => (if c = '\r' then '\n' else c) :: unifyNewlines cs

/-- The pieces of a text between the characters of a class: one more than there are such characters. -/
def cutAt (p : Char → Bool) : List Char → List (List Char)
  | [] => [[]]
  | c :: cs =>
    if p c then [] :: cutAt p cs
    else match cutAt p cs with
      | [] => [[c]]
      | l :: ls => (c :: l) :: ls

/-- The pieces of a text between newlines. -/
def splitNewline (cs : List Char) : List (List Char) := cutAt (· = '\n') cs

/-- The pieces of a text between the characters of a class, empty pieces left out. -/
def pieces (p : Char → Bool) (cs : List Char) : List (List Char) := (cutAt p cs).filter (!·.isEmpty)

/-- The lines put together with a newline between any two. -/
def joinNewline : List (List Char) → List Char
  | [] => []
  | [l] => l
  | l :: m :: ls => l ++ '\n' :: joinNewline (m :: ls)

theorem cutAt_ne_nil (p : Char → Bool) (cs : List Char) : cutAt p cs ≠ [] := by
  cases cs with
  | nil => simp [cutAt]
  | cons c cs => simp only [cutAt]; split <;> (try split) <;> simp

theorem joinNewline_splitNewline (cs : List Char) : joinNewline (splitNewline cs) = cs := by
  unfold splitNewline
  induction cs with
  | nil => rfl
  | cons c cs ih =>
    simp only [cutAt]
    cases hs : cutAt (· = '\n') cs with
    | nil => exact absurd hs (cutAt_ne_nil _ cs)
    | cons l ls =>
      rw [hs] at ih
      split
      · next h => simp_all [joinNewline]
      · cases ls <;> simp_all [joinNewline]

/-! ## Indentation -/

/-- A character that indents. -/
def isIndent (c : Char) : Bool := c = ' ' || c = '\t'

/-- The longest text that both begin with. -/
def commonPrefix : List Char → List Char → List Char
  | a :: as, b :: bs => if a = b then a :: commonPrefix as bs else []
  | _, _ => []

/-- The indentation shared by the lines that hold more than indentation. -/
def margin (lines : List (List Char)) : List Char :=
  match (lines.filter (!·.all isIndent)).map (·.takeWhile isIndent) with
  | [] => []
  | m :: ms => ms.foldl commonPrefix m

/-- The text without the indentation that its lines share; lines of indentation alone become empty. -/
def dedent (cs : List Char) : List Char :=
  let lines := splitNewline cs
  let width := (margin lines).length
  joinNewline (lines.map fun l => if l.all isIndent then [] else l.drop width)

/-- The text without newlines at its ends and without blanks at its end. -/
def trimNewlines (cs : List Char) : List Char := trimRight (stripWhile (· = '\n') cs)

end SymbolDocs.Text
