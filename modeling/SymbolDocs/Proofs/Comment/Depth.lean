import SymbolDocs.Proofs.Comment.Brackets
import SymbolDocs.Proofs.Comment.Unwrapping
import SymbolDocs.Proofs.Text.LineContext

/-!
# How deep a place of a comment is in brackets

`depthBehind` is the number of braces and brackets that are open behind the lines of a text, as the splitter of tags
counts them from line to line. The same count can be kept while the text is read (`Count`), so that text without
brackets does not matter for it, wherever it stands. What goes when a comment is unwrapped is such text: the depth
behind a comment is that behind its body (`depthBehind_body`).
-/

namespace SymbolDocs

open SymbolDocs.Text

namespace Comment

/-! ## Counting -/

variable {cs ds l line : List Char} {lines : List (List Char)} {c : Char}

/-- How many braces and brackets are open behind the lines of a text. -/
def depthBehind (cs : List Char) : Nat := (splitLines cs).foldl depthAfter 0

/-- The counting of brackets while a text is read: how many are open in front of the line, and how many the line opens
and closes so far. -/
structure Count where
  depth : Nat := 0
  opened : Nat := 0
  closed : Nat := 0

namespace Count

/-- How many brackets are open if the line ends here. -/
def behind (k : Count) : Nat := k.depth + k.opened - k.closed

/-- The count behind one more character. -/
def read (k : Count) (c : Char) : Count :=
  if isLineBreak c then { depth := k.behind }
  else { k with opened := k.opened + openCount [c], closed := k.closed + closeCount [c] }

theorem read_of_isLineBreak (hc : isLineBreak c = true) (k : Count) : k.read c = { depth := k.behind } := if_pos hc

theorem behind_of_depth (n : Nat) : behind { depth := n } = n := rfl

theorem openCount_singleton (hc : isBracket c = false) : openCount [c] = 0 ∧ closeCount [c] = 0 := by
  rw [← openCount_filter, ← closeCount_filter, List.filter_cons_of_neg (by simp [hc])]
  exact ⟨rfl, rfl⟩

theorem read_of_plain (hb : isBracket c = false) (hc : isLineBreak c = false) (k : Count) : k.read c = k := by
  rw [read, if_neg (by simp [hc]), (openCount_singleton hb).1, (openCount_singleton hb).2]
  rfl

/-- Characters that are no brackets and do not end a line do not count. -/
theorem foldl_read_plain (h : ∀ c ∈ cs, isBracket c = false ∧ isLineBreak c = false) (k : Count) :
    cs.foldl read k = k := by
  induction cs with
  | nil => rfl
  | cons c cs ih =>
    obtain ⟨hc, hcs⟩ := List.forall_mem_cons.1 h
    rw [List.foldl_cons, read_of_plain hc.1 hc.2, ih hcs]

theorem behind_read (hb : isBracket c = false) (k : Count) : (k.read c).behind = k.behind := by
  cases hc : isLineBreak c with
  | true => rw [read_of_isLineBreak hc, behind_of_depth]
  | false => rw [read_of_plain hb hc]

/-- Without brackets the number of open ones stays the same. -/
theorem behind_foldl_read (h : ∀ c ∈ cs, isBracket c = false) (k : Count) : (cs.foldl read k).behind = k.behind := by
  induction cs generalizing k with
  | nil => rfl
  | cons c cs ih =>
    obtain ⟨hc, hcs⟩ := List.forall_mem_cons.1 h
    rw [List.foldl_cons, ih hcs, behind_read hc]

theorem foldl_read_start (h : ∀ c ∈ cs, isBracket c = false) (n : Nat) :
    cs.foldl read { depth := n } = { depth := n } := by
  induction cs with
  | nil => rfl
  | cons c cs ih =>
    obtain ⟨hc, hcs⟩ := List.forall_mem_cons.1 h
    cases hbreak : isLineBreak c with
    | true => rw [List.foldl_cons, read_of_isLineBreak hbreak, behind_of_depth, ih hcs]
    | false => rw [List.foldl_cons, read_of_plain hc hbreak, ih hcs]

/-- The count goes from line to line as the depth does. -/
theorem behind_foldl_read_splitLines (cs : List Char) (k : Count) : (cs.foldl read k).behind =
    match splitLines cs with
    | [] => k.behind
    | l :: ls => ls.foldl depthAfter (k.depth + (k.opened + openCount l) - (k.closed + closeCount l)) := by
  fun_induction splitLines cs generalizing k with
  | case1 => rfl
  | case2 cs ih =>
    rw [List.foldl_cons, List.foldl_cons, read_of_isLineBreak rfl, read_of_isLineBreak rfl, ih, behind_of_depth]
    cases splitLines cs with
    | nil => rfl
    | cons l ls => simp [behind, openCount, closeCount, depthAfter]
  | case3 c cs _ hc ih =>
    rw [List.foldl_cons, read_of_isLineBreak hc, ih, behind_of_depth]
    cases splitLines cs with
    | nil => rfl
    | cons l ls => simp [behind, openCount, closeCount, depthAfter]
  | case4 c cs _ hc hnil ih =>
    rw [List.foldl_cons, ih, hnil, read, if_neg hc]
    dsimp only [behind]
    rw [List.foldl_nil]
  | case5 c cs _ hc l ls hcons ih =>
    rw [List.foldl_cons, ih, hcons, read, if_neg hc]
    dsimp only
    rw [← List.singleton_append (l := l), openCount_append, closeCount_append, Nat.add_assoc k.opened,
      Nat.add_assoc k.closed]

end Count

theorem depthBehind_eq (cs : List Char) : depthBehind cs = (cs.foldl Count.read {}).behind := by
  rw [Count.behind_foldl_read_splitLines, depthBehind]
  cases splitLines cs with
  | nil => rfl
  | cons l ls => simp [openCount, closeCount, depthAfter]

/-- Text without brackets around a text does not change how many are open behind it. -/
theorem depthBehind_append_left (h : ∀ c ∈ ds, isBracket c = false) (cs : List Char) :
    depthBehind (ds ++ cs) = depthBehind cs := by
  rw [depthBehind_eq, depthBehind_eq, List.foldl_append, Count.foldl_read_start h]

theorem depthBehind_append_right (h : ∀ c ∈ ds, isBracket c = false) (cs : List Char) :
    depthBehind (cs ++ ds) = depthBehind cs := by
  rw [depthBehind_eq, depthBehind_eq, List.foldl_append, Count.behind_foldl_read h]

theorem depthAfter_congr (h : cs.filter isBracket = ds.filter isBracket) (n : Nat) :
    depthAfter n cs = depthAfter n ds := by
  have hopen : openCount cs = openCount ds := by rw [← openCount_filter, h, openCount_filter]
  have hclose : closeCount cs = closeCount ds := by rw [← closeCount_filter, h, closeCount_filter]
  exact congrArg₂ (n + · - ·) hopen hclose

theorem depthBehind_joinNewline (h : ∀ l ∈ lines, ∀ c ∈ l, isLineBreak c = false) :
    depthBehind (joinNewline lines) = lines.foldl depthAfter 0 := by
  unfold depthBehind
  generalize 0 = n
  induction lines generalizing n with
  | nil => rfl
  | cons l ls ih =>
    obtain ⟨hl, hls⟩ := List.forall_mem_cons.1 h
    cases ls with
    | nil =>
      rw [joinNewline]
      by_cases hne : l = []
      · subst hne
        rfl
      · rw [splitLines_eq_singleton hne hl]
    | cons m ls => rw [joinNewline, splitLines_append hl, List.foldl_cons, ih hls, List.foldl_cons (l := m :: ls)]

theorem depthBehind_append_line (hx : EndsLine cs) (hl : ∀ c ∈ l, isLineBreak c = false) :
    depthBehind (cs ++ l) = depthAfter (depthBehind cs) l := by
  have hhead : l.head? ≠ some '\n' := by
    intro h
    cases hl '\n' (List.mem_of_head? h)
  rw [depthBehind, splitLines_append_of_endsLine hx hhead, List.foldl_append]
  cases l with
  | nil => rfl
  | cons c l =>
    rw [splitLines_eq_singleton (List.cons_ne_nil c l) hl]
    rfl

/-! ## Bodies and depth -/

theorem isBracket_of_isBlank (hc : isBlank c = true) : isBracket c = false := by
  rw [Bool.eq_false_iff]
  intro hb
  have hno : isBlank c = false := not_of_isBracket (by decide) hb
  rw [hno] at hc
  cases hc

theorem overlooks_depthBehind : Overlooks isBracket depthBehind :=
  ⟨isBracket_of_isBlank, rfl, rfl, depthBehind_append_left, depthBehind_append_right⟩

/-- Text without brackets inside a line does not count. -/
theorem overlooks_depthAfter (n : Nat) : Overlooks isBracket (depthAfter n) := by
  have hnil {ds : List Char} (h : ∀ c ∈ ds, isBracket c = false) : ds.filter isBracket = [] :=
    List.filter_eq_nil_iff.2 fun c hc => by simp [h c hc]
  refine ⟨isBracket_of_isBlank, rfl, rfl, fun h cs => depthAfter_congr ?_ n, fun h cs => depthAfter_congr ?_ n⟩
  · rw [List.filter_append, hnil h, List.nil_append]
  · rw [List.filter_append, hnil h, List.append_nil]

theorem foldl_depthAfter_dropGutter (n : Nat) (lines : List (List Char)) :
    (lines.map dropGutter).foldl depthAfter n = lines.foldl depthAfter n := by
  rw [List.foldl_map]
  simp only [(overlooks_depthAfter _).dropGutter]

theorem foldl_read_clearIndent (k : Count) (line : List Char) :
    (clearIndent line).foldl Count.read k = line.foldl Count.read k := by
  obtain h | ⟨h, hindent⟩ := clearIndent_cases line
  · rw [h]
  · have hplain : ∀ c ∈ line, isBracket c = false ∧ isLineBreak c = false := by
      intro c hc
      rcases hindent c hc with rfl | rfl <;> exact ⟨rfl, rfl⟩
    rw [h, Count.foldl_read_plain hplain, List.foldl_nil]

theorem foldl_read_joinNewline (k : Count) (lines : List (List Char)) :
    (joinNewline (lines.map clearIndent)).foldl Count.read k = (joinNewline lines).foldl Count.read k := by
  induction lines generalizing k with
  | nil => rfl
  | cons l ls ih =>
    cases ls with
    | nil => exact foldl_read_clearIndent k l
    | cons m ls =>
      rw [joinNewline, List.map_cons, List.map_cons, joinNewline, List.foldl_append, List.foldl_append,
        List.foldl_cons, List.foldl_cons, foldl_read_clearIndent, ← List.map_cons, ih]

/-- **Unwrapping a comment does not change how many brackets are open at its end.** -/
theorem depthBehind_body (comment : String) : depthBehind (body comment).toList = depthBehind comment.toList := by
  refine overlooks_depthBehind.body (fun cs => ?_) (fun cs h => ?_) comment
  · rw [depthBehind_joinNewline (isLineBreak_map_dropGutter _), foldl_depthAfter_dropGutter]
    rfl
  · rw [dedent_eq h, depthBehind_eq, foldl_read_joinNewline, joinNewline_splitNewline, depthBehind_eq]

end Comment
end SymbolDocs
