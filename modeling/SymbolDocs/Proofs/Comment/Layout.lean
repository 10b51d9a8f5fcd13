import SymbolDocs.Comment.Body
import SymbolDocs.Proofs.Comment.Lines
import SymbolDocs.Proofs.Text.Trimming

/-!
# The usual layout of a comment

A text is laid out as a comment by putting a gutter in front of each of its lines and delimiters around them (`layout`).
The body of such a comment is the text again (`body_layout`), whatever its lines contain. The delimiters are taken off
by `dropOpening_layout` and `dropClosing_layout`, and what is left between them are the lines with their gutters
(`splitLines_joinNewline`), from which only these go (`dropGutter_gutter`).
-/

namespace SymbolDocs

/-! ## Lines -/

namespace Text

variable {p : Char → Bool} {c : Char} {cs ds l : List Char} {ls : List (List Char)}

/-- The first line in front of the others, each behind a newline. -/
theorem joinNewline_cons (l : List Char) (ls : List (List Char)) :
    joinNewline (l :: ls) = l ++ ls.flatMap ('\n' :: ·) := by
  induction ls generalizing l with
  | nil => simp [joinNewline]
  | cons m ls ih => rw [joinNewline, ih, List.flatMap_cons, List.cons_append]

/-- The pieces of a text hold its characters, without those that cut. -/
theorem mem_of_mem_cutAt (hl : l ∈ cutAt p cs) : ∀ d ∈ l, d ∈ cs ∧ p d = false := by
  induction cs generalizing l with
  | nil =>
    rw [cutAt, List.mem_singleton] at hl
    subst hl
    exact List.forall_mem_nil _
  | cons c cs ih =>
    have hrest {m : List Char} (hm : m ∈ cutAt p cs) (d : Char) (hd : d ∈ m) : d ∈ c :: cs ∧ p d = false :=
      (ih hm d hd).imp_left (List.mem_cons_of_mem c)
    rw [cutAt] at hl
    split at hl
    · rcases List.mem_cons.1 hl with rfl | hl
      · exact List.forall_mem_nil _
      · exact hrest hl
    · next hc =>
      have hfirst : c ∈ c :: cs ∧ p c = false := ⟨List.mem_cons_self, by simpa using hc⟩
      cases hcs : cutAt p cs with
      | nil => exact absurd hcs (cutAt_ne_nil p cs)
      | cons m ms =>
        rw [hcs] at hl hrest
        rcases List.mem_cons.1 hl with rfl | hl
        · exact List.forall_mem_cons.2 ⟨hfirst, hrest List.mem_cons_self⟩
        · exact hrest (List.mem_cons_of_mem m hl)

/-- A last character that does not cut ends the last piece. -/
theorem cutAt_concat (hc : p c = false) (cs : List Char) : ∃ ls l, cutAt p (cs ++ [c]) = ls ++ [l ++ [c]] := by
  induction cs with
  | nil => exact ⟨[], [], by simp [cutAt, hc]⟩
  | cons d cs ih =>
    obtain ⟨ls, l, hls⟩ := ih
    rw [List.cons_append, cutAt, hls]
    split
    · exact ⟨[] :: ls, l, rfl⟩
    · cases ls with
      | nil => exact ⟨[], d :: l, rfl⟩
      | cons m ls => exact ⟨(d :: m) :: ls, l, rfl⟩

theorem splitLines_cons (hc : isLineBreak c = false) (cs : List Char) :
    splitLines (c :: cs) = match splitLines cs with
      | [] => [[c]]
      | l :: ls => (c :: l) :: ls := by
  rw [splitLines]
  · exact if_neg (by simp [hc])
  · rintro cs' rfl
    cases hc

/-- A line goes up to its newline. -/
theorem splitLines_append (h : ∀ c ∈ l, isLineBreak c = false) (cs : List Char) :
    splitLines (l ++ '\n' :: cs) = l :: splitLines cs := by
  induction l with
  | nil => rfl
  | cons c l ih =>
    obtain ⟨hc, hl⟩ := List.forall_mem_cons.1 h
    rw [List.cons_append, splitLines_cons hc, ih hl]

theorem splitLines_eq_singleton (hne : l ≠ []) (h : ∀ c ∈ l, isLineBreak c = false) : splitLines l = [l] := by
  induction l with
  | nil => exact absurd rfl hne
  | cons c l ih =>
    obtain ⟨hc, hl⟩ := List.forall_mem_cons.1 h
    rw [splitLines_cons hc]
    cases l with
    | nil => rfl
    | cons d l => rw [ih (List.cons_ne_nil d l) hl]

/-- Lines that were joined are cut again at the same places, if the last one is not empty. -/
theorem splitLines_joinNewline (h : ∀ l ∈ ls, ∀ c ∈ l, isLineBreak c = false) (hlast : ls.getLast? ≠ some []) :
    splitLines (joinNewline ls) = ls := by
  induction ls with
  | nil => rfl
  | cons l ls ih =>
    obtain ⟨hl, hls⟩ := List.forall_mem_cons.1 h
    cases ls with
    | nil => exact splitLines_eq_singleton (fun he => hlast (congrArg some he)) hl
    | cons m ls =>
      rw [joinNewline, splitLines_append hl, ih hls]
      rwa [List.getLast?_cons_cons] at hlast

end Text

/-! ## The layout -/

namespace Comment

open SymbolDocs.Text

/-- What stands in front of a line. -/
def gutter : List Char := [' ', '*', ' ']

/-- The lines of a text, each with a gutter and behind a newline. -/
def layoutLines (text : String) : List Char := (splitNewline text.toList).flatMap fun l => '\n' :: gutter ++ l

/-- The usual layout of a text as a comment: an opening delimiter, a line with a gutter for each line of the text, and a
line with the closing delimiter. -/
def layout (text : String) : String := "/**" ++ String.ofList (layoutLines text) ++ "\n */"

/-- A text that fills its lines: newlines alone end them, and there is neither a newline at its start nor a blank at its
end. -/
structure Filled (text : String) : Prop where
  ne_empty : text ≠ ""
  start : text.toList.head? ≠ some '\n'
  ending : ∀ c ∈ text.toList.getLast?, isBlank c = false
  breaks : ∀ c ∈ text.toList, isLineBreak c = true → c = '\n'

variable {text : String}

theorem dropGutter_gutter (line : List Char) : dropGutter (gutter ++ line) = line := rfl

theorem layoutLines_eq (text : String) :
    layoutLines text = joinNewline ([] :: (splitNewline text.toList).map (gutter ++ ·)) := by
  rw [joinNewline_cons, List.flatMap_map, List.nil_append]
  rfl

/-- The last line of a text that fills its lines ends with a character other than a blank. -/
theorem Filled.exists_lines (h : Filled text) :
    ∃ ls l c, splitNewline text.toList = ls ++ [l ++ [c]] ∧ isBlank c = false := by
  have hne : text.toList ≠ [] := fun he => h.ne_empty (String.toList_eq_nil_iff.1 he)
  obtain ⟨cs, c, hcs⟩ := (List.eq_nil_or_concat text.toList).resolve_left hne
  rw [List.concat_eq_append] at hcs
  have hc : isBlank c = false := h.ending c (by simp [hcs])
  have hcut : c ≠ '\n' := by
    rintro rfl
    cases hc
  obtain ⟨ls, l, hls⟩ := cutAt_concat (p := (· = '\n')) (decide_eq_false hcut) cs
  exact ⟨ls, l, c, by rw [splitNewline, hcs, hls], hc⟩

theorem Filled.exists_concat (h : Filled text) : ∃ cs c, layoutLines text = cs ++ [c] ∧ isBlank c = false := by
  obtain ⟨ls, l, c, hls, hc⟩ := h.exists_lines
  refine ⟨ls.flatMap (fun l => '\n' :: gutter ++ l) ++ ('\n' :: gutter ++ l), c, ?_, hc⟩
  rw [layoutLines, hls, List.flatMap_append, List.flatMap_singleton, List.append_assoc, List.append_assoc]

/-- The lines with their gutters have no line break inside. -/
theorem Filled.breaks_gutter (h : Filled text) :
    ∀ l ∈ [] :: (splitNewline text.toList).map (gutter ++ ·), ∀ c ∈ l, isLineBreak c = false := by
  refine List.forall_mem_cons.2 ⟨List.forall_mem_nil _, fun l hl => ?_⟩
  obtain ⟨line, hline, rfl⟩ := List.mem_map.1 hl
  have hgutter : gutter.all (!isLineBreak ·) = true := by decide
  refine List.forall_mem_append.2 ⟨by simpa using hgutter, fun c hc => ?_⟩
  obtain ⟨hmem, hne⟩ := mem_of_mem_cutAt hline c hc
  rw [Bool.eq_false_iff]
  intro hbreak
  exact of_decide_eq_false hne (h.breaks c hmem hbreak)

/-! ## The body of a comment that is laid out -/

theorem dropOpening_layout (text : String) (cs : List Char) :
    dropOpening ('/' :: '*' :: '*' :: (layoutLines text ++ cs)) = layoutLines text ++ cs := by
  have hcons : ∃ ds, layoutLines text = '\n' :: ds := by
    rw [layoutLines]
    cases hs : splitNewline text.toList with
    | nil => exact absurd hs (cutAt_ne_nil _ _)
    | cons l ls => exact ⟨_, rfl⟩
  obtain ⟨ds, hds⟩ := hcons
  rw [hds]
  rfl

theorem dropClosing_append (cs : List Char) :
    dropClosing (cs ++ ['*', '/']) = trimRight (dropEndWhile (· = '*') cs) := by
  simp [dropClosing]

theorem dropClosing_eq_self {cs : List Char} (h : ∀ ds, cs ≠ ds ++ ['*', '/']) : dropClosing cs = cs := by
  unfold dropClosing
  split
  · next rest hrest => exact absurd (by simpa using congrArg List.reverse hrest) (h rest.reverse)
  · rfl

theorem dropClosing_layout (h : Filled text) :
    dropClosing (layoutLines text ++ ['\n', ' ', '*', '/']) = layoutLines text := by
  obtain ⟨cs, c, hcs, hc⟩ := h.exists_concat
  have hasterisks : dropEndWhile (· = '*') (layoutLines text ++ ['\n', ' ']) = layoutLines text ++ ['\n', ' '] :=
    dropEndWhile_eq_self (by simp)
  have hblanks : trimRight (layoutLines text ++ ['\n', ' ']) = layoutLines text := by
    rw [trimRight, dropEndWhile_append (List.all_eq_true.1 (by decide)), dropEndWhile_eq_self]
    simpa [hcs] using hc
  have hlayout : layoutLines text ++ ['\n', ' ', '*', '/'] = (layoutLines text ++ ['\n', ' ']) ++ ['*', '/'] := by simp
  rw [hlayout, dropClosing_append, hasterisks, hblanks]

/-- Between its delimiters the comment has an empty line and then the lines of the text with their gutters. -/
theorem splitLines_layoutLines (h : Filled text) :
    splitLines (layoutLines text) = [] :: (splitNewline text.toList).map (gutter ++ ·) := by
  rw [layoutLines_eq]
  refine splitLines_joinNewline h.breaks_gutter ?_
  obtain ⟨ls, l, c, hls, -⟩ := h.exists_lines
  simp [hls, List.getLast?_cons, gutter]

theorem joinNewline_nil_cons (text : String) : joinNewline ([] :: splitNewline text.toList) = '\n' :: text.toList := by
  cases hs : splitNewline text.toList with
  | nil => exact absurd hs (cutAt_ne_nil _ _)
  | cons l ls => rw [joinNewline, ← hs, joinNewline_splitNewline, List.nil_append]

theorem trimNewlines_cons (h : Filled text) : trimNewlines ('\n' :: text.toList) = text.toList := by
  have hhead : ∀ d ∈ text.toList.head?, decide (d = '\n') = false := by
    rintro d hd
    exact decide_eq_false fun he => h.start (he ▸ hd)
  have hlast : ∀ d ∈ text.toList.getLast?, decide (d = '\n') = false := by
    rintro d hd
    refine decide_eq_false fun he => ?_
    have hblank := h.ending d hd
    rw [he] at hblank
    cases hblank
  rw [trimNewlines, stripWhile_cons rfl, stripWhile_eq_self hhead hlast, trimRight, dropEndWhile_eq_self h.ending]

/-- **The body of a comment that is laid out is the text.** -/
theorem body_layout (h : Filled text) : body (layout text) = text := by
  have hlayout : (layout text).toList = '/' :: '*' :: '*' :: (layoutLines text ++ ['\n', ' ', '*', '/']) := by
    simp [layout]
  have htrim : trim (layout text).toList = (layout text).toList := by
    rw [hlayout]
    refine stripWhile_eq_self (fun d hd => ?_) fun d hd => ?_
    · cases hd
      rfl
    · obtain rfl : '/' = d := by simpa [List.getLast?_cons] using hd
      rfl
  have hgutters : (splitLines (layoutLines text)).map dropGutter = [] :: splitNewline text.toList := by
    have hid : dropGutter ∘ (gutter ++ ·) = id := funext dropGutter_gutter
    rw [splitLines_layoutLines h, List.map_cons, List.map_map, hid, List.map_id]
    rfl
  rw [body, htrim, hlayout, bodyOfTrimmed, dropOpening_layout, dropClosing_layout h, hgutters, joinNewline_nil_cons,
    trimNewlines_cons h, String.ofList_toList]

/-- Lines that look like delimiters and gutters, indented and empty lines are those of a text like any other. -/
theorem body_layout_delimiters :
    let text := "  * one */\n\n/** two\n * \n**/\n   **"
    Filled text ∧ body (layout text) = text := by
  intro text
  have hlast : text.toList.getLast? = some '*' := by decide
  have hbreaks : text.toList.all (fun c => !isLineBreak c || c = '\n') = true := by decide
  have h : Filled text := by
    refine ⟨by decide, by decide, fun c hc => ?_, fun c hc hb => ?_⟩
    · obtain rfl : '*' = c := Option.some.inj (hlast.symm.trans hc)
      rfl
    · simpa [hb] using List.all_eq_true.1 hbreaks c hc
  exact ⟨h, body_layout h⟩

end Comment
end SymbolDocs
