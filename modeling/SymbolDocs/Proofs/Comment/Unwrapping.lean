import SymbolDocs.Proofs.Comment.Layout

/-!
# What goes when a comment is unwrapped

Unwrapping takes blanks, asterisks and slashes off the ends of a comment and off the beginnings of its lines, and puts
other line breaks between these. So it does not change a measure of texts that overlooks such characters at the ends
(`Overlooks`) and does not depend on gutters and indentation (`Overlooks.body`). One such measure is the number of at
signs (`count_body`).
-/

namespace SymbolDocs

open SymbolDocs.Text

namespace Comment

variable {β : Type} {p : Char → Bool} {f : List Char → β} {c : Char} {cs line : List Char}

/-! ## The ends of a comment -/

/-- A measure of texts overlooks all characters outside a class at their ends. What wraps a comment is not of the
class. -/
structure Overlooks (p : Char → Bool) (f : List Char → β) : Prop where
  blank {c : Char} (hc : isBlank c = true) : p c = false
  asterisk : p '*' = false
  slash : p '/' = false
  left {ds : List Char} (h : ∀ c ∈ ds, p c = false) (cs : List Char) : f (ds ++ cs) = f cs
  right {ds : List Char} (h : ∀ c ∈ ds, p c = false) (cs : List Char) : f (cs ++ ds) = f cs

theorem eq_false_of_eq {d : Char} (hd : p d = false) (c : Char) (hc : decide (c = d) = true) : p c = false := by
  rwa [of_decide_eq_true hc]

namespace Overlooks

theorem dropWhile (h : Overlooks p f) {q : Char → Bool} (hq : ∀ c, q c = true → p c = false) (cs : List Char) :
    f (cs.dropWhile q) = f cs := by
  conv => rhs; rw [← List.takeWhile_append_dropWhile (p := q) (l := cs)]
  rw [h.left fun c hc => hq c (List.all_eq_true.1 List.all_takeWhile c hc)]

theorem dropEndWhile (h : Overlooks p f) {q : Char → Bool} (hq : ∀ c, q c = true → p c = false) (cs : List Char) :
    f (dropEndWhile q cs) = f cs := by
  have hcs : Text.dropEndWhile q cs ++ (cs.reverse.takeWhile q).reverse = cs := by
    rw [Text.dropEndWhile, ← List.reverse_append, List.takeWhile_append_dropWhile, List.reverse_reverse]
  conv => rhs; rw [← hcs]
  rw [h.right fun c hc => hq c (List.all_eq_true.1 List.all_takeWhile c (List.mem_reverse.1 hc))]

theorem trimLeft (h : Overlooks p f) (cs : List Char) : f (trimLeft cs) = f cs := h.dropWhile (fun _ => h.blank) cs

theorem trimRight (h : Overlooks p f) (cs : List Char) : f (trimRight cs) = f cs :=
  h.dropEndWhile (fun _ => h.blank) cs

theorem trim (h : Overlooks p f) (cs : List Char) : f (trim cs) = f cs :=
  (h.trimRight (Text.trimLeft cs)).trans (h.trimLeft cs)

theorem dropNewlines (h : Overlooks p f) (cs : List Char) : f (cs.dropWhile (· = '\n')) = f cs :=
  h.dropWhile (eq_false_of_eq (h.blank rfl)) cs

theorem trimNewlines (h : Overlooks p f) (cs : List Char) : f (trimNewlines cs) = f cs := by
  rw [Text.trimNewlines, h.trimRight, stripWhile, h.dropEndWhile (eq_false_of_eq (h.blank rfl)), h.dropNewlines]

theorem dropOpening (h : Overlooks p f) (cs : List Char) : f (dropOpening cs) = f cs := by
  unfold Comment.dropOpening
  split
  · next cs =>
    have hopening : ∀ c ∈ ['/', '*', '*'], p c = false := by simp [h.slash, h.asterisk]
    rw [h.dropWhile (eq_false_of_eq h.asterisk)]
    exact (h.left hopening cs).symm
  · rfl

theorem dropClosing (h : Overlooks p f) (cs : List Char) : f (dropClosing cs) = f cs := by
  by_cases hcs : ∃ ds, cs = ds ++ ['*', '/']
  · obtain ⟨ds, rfl⟩ := hcs
    have hclosing : ∀ c ∈ ['*', '/'], p c = false := by simp [h.slash, h.asterisk]
    rw [dropClosing_append, h.trimRight, h.dropEndWhile (eq_false_of_eq h.asterisk), h.right hclosing]
  · rw [dropClosing_eq_self fun ds hds => hcs ⟨ds, hds⟩]

/-- **What overlooks the wrapping does not change when a comment is unwrapped**, if it depends neither on the gutters of
the lines nor on their indentation. -/
theorem body (h : Overlooks p f) (hgutters : ∀ cs, f (joinNewline ((splitLines cs).map dropGutter)) = f cs)
    (hindent : ∀ cs, (∀ c ∈ cs.head?, isBlank c = false) → f (dedent cs) = f cs) (comment : String) :
    f (body comment).toList = f comment.toList := by
  rw [Comment.body, String.toList_ofList, ← h.trim comment.toList]
  have hhead := head_trim comment.toList
  generalize Text.trim comment.toList = cs at hhead ⊢
  unfold bodyOfTrimmed
  split
  · next cs => rw [h.trimNewlines, hgutters, h.dropClosing, h.dropOpening]
  · rw [h.trimNewlines, hindent _ hhead]

end Overlooks

/-! ## The beginnings of lines -/

/-- A gutter is what goes in front of a line. -/
theorem exists_dropGutter (line : List Char) : ∃ gutter, line = gutter ++ dropGutter line ∧
    ∀ c ∈ gutter, isBlank c = true ∨ c = '*' := by
  have hblank : ∀ c ∈ line.takeWhile isBlank, isBlank c = true ∨ c = '*' :=
    fun c hc => .inl (List.all_eq_true.1 List.all_takeWhile c hc)
  have hline := trimLeft_append line
  unfold dropGutter
  split
  · next cs hcs =>
    refine ⟨line.takeWhile isBlank ++ ['*', ' '], ?_, List.forall_mem_append.2 ⟨hblank, ?_⟩⟩
    · rw [List.append_assoc]
      exact (hcs ▸ hline).symm
    · exact List.forall_mem_cons.2 ⟨.inr rfl, List.forall_mem_singleton.2 (.inl rfl)⟩
  · next cs _ hcs =>
    refine ⟨line.takeWhile isBlank ++ ['*'], ?_, List.forall_mem_append.2 ⟨hblank, ?_⟩⟩
    · rw [List.append_assoc]
      exact (hcs ▸ hline).symm
    · exact List.forall_mem_singleton.2 (.inr rfl)
  · exact ⟨line.takeWhile isBlank, hline.symm, hblank⟩

theorem Overlooks.dropGutter (h : Overlooks p f) (line : List Char) : f (dropGutter line) = f line := by
  obtain ⟨gutter, hline, hgutter⟩ := exists_dropGutter line
  have hplain : ∀ c ∈ gutter, p c = false := by
    intro c hc
    obtain hb | rfl := hgutter c hc
    · exact h.blank hb
    · exact h.asterisk
  conv => rhs; rw [hline]
  rw [h.left hplain]

theorem isLineBreak_splitLines (cs : List Char) : ∀ l ∈ splitLines cs, ∀ c ∈ l, isLineBreak c = false := by
  fun_induction splitLines cs with
  | case1 => exact List.forall_mem_nil _
  | case2 cs ih => exact List.forall_mem_cons.2 ⟨List.forall_mem_nil _, ih⟩
  | case3 c cs _ _ ih => exact List.forall_mem_cons.2 ⟨List.forall_mem_nil _, ih⟩
  | case4 c cs _ hc hnil ih =>
    exact List.forall_mem_singleton.2 (List.forall_mem_singleton.2 (by simpa using hc))
  | case5 c cs _ hc l ls hcons ih =>
    rw [hcons] at ih
    obtain ⟨hl, hls⟩ := List.forall_mem_cons.1 ih
    exact List.forall_mem_cons.2 ⟨List.forall_mem_cons.2 ⟨by simpa using hc, hl⟩, hls⟩

theorem isLineBreak_dropGutter (hl : ∀ c ∈ line, isLineBreak c = false) :
    ∀ c ∈ dropGutter line, isLineBreak c = false := by
  obtain ⟨gutter, hline, -⟩ := exists_dropGutter line
  exact fun c hc => hl c (by rw [hline]; exact List.mem_append_right _ hc)

theorem isLineBreak_map_dropGutter (cs : List Char) :
    ∀ l ∈ (splitLines cs).map dropGutter, ∀ c ∈ l, isLineBreak c = false :=
  List.forall_mem_map.2 fun l hl => isLineBreak_dropGutter (isLineBreak_splitLines cs l hl)

/-- The line, if it is more than indentation. -/
def clearIndent (line : List Char) : List Char := if line.all isIndent then [] else line

theorem clearIndent_cases (line : List Char) :
    clearIndent line = line ∨ clearIndent line = [] ∧ ∀ c ∈ line, c = ' ' ∨ c = '\t' := by
  unfold clearIndent
  split
  · next hline => exact .inr ⟨rfl, fun c hc => by simpa [isIndent] using List.all_eq_true.1 hline c hc⟩
  · exact .inl rfl

/-- A text that starts with a character other than a blank has no indentation that its lines share. -/
theorem margin_eq_nil (h : ∀ c ∈ cs.head?, isBlank c = false) : margin (splitNewline cs) = [] := by
  have hfold (ls : List (List Char)) : ls.foldl commonPrefix [] = [] := by
    induction ls with
    | nil => rfl
    | cons l ls ih => exact ih
  cases cs with
  | nil => rfl
  | cons c cs =>
    have hblank := h c rfl
    have hindent : isIndent c = false := by
      rw [Bool.eq_false_iff]
      intro hi
      simp only [isIndent, Bool.or_eq_true, decide_eq_true_eq] at hi
      rcases hi with rfl | rfl <;> cases hblank
    have hcut : decide (c = '\n') = false := by
      refine decide_eq_false ?_
      rintro rfl
      cases hblank
    unfold splitNewline
    rw [cutAt, if_neg (by simp [hcut])]
    cases hcs : cutAt (· = '\n') cs with
    | nil => exact absurd hcs (cutAt_ne_nil _ cs)
    | cons l ls =>
      dsimp only
      rw [margin, List.filter_cons_of_pos (by simp [hindent]), List.map_cons,
        List.takeWhile_cons_of_neg (by simp [hindent])]
      exact hfold _

/-- Then only lines of indentation alone change if its indentation is removed. -/
theorem dedent_eq (h : ∀ c ∈ cs.head?, isBlank c = false) :
    dedent cs = joinNewline ((splitNewline cs).map clearIndent) := by
  unfold dedent
  simp only [margin_eq_nil h, List.length_nil, List.drop_zero]
  rfl

/-! ## At signs -/

theorem overlooks_count : Overlooks (· = '@') (List.count '@') := by
  have hcount {ds : List Char} (h : ∀ c ∈ ds, decide (c = '@') = false) : ds.count '@' = 0 :=
    List.count_eq_zero.2 fun hm => of_decide_eq_false (h '@' hm) rfl
  refine ⟨fun hc => decide_eq_false ?_, rfl, rfl, fun h cs => ?_, fun h cs => ?_⟩
  · rintro rfl
    cases hc
  · rw [List.count_append, hcount h, Nat.zero_add]
  · rw [List.count_append, hcount h, Nat.add_zero]

theorem count_clearIndent (line : List Char) : (clearIndent line).count '@' = line.count '@' := by
  obtain h | ⟨h, hindent⟩ := clearIndent_cases line
  · rw [h]
  · rw [h, List.count_nil, List.count_eq_zero.2]
    intro hm
    rcases hindent '@' hm with h | h <;> cases h

theorem count_joinNewline (ls : List (List Char)) : (joinNewline ls).count '@' = ls.flatten.count '@' := by
  induction ls with
  | nil => rfl
  | cons l ls ih =>
    cases ls with
    | nil => rw [joinNewline, List.flatten_singleton]
    | cons m ls =>
      rw [joinNewline, List.count_append, List.count_cons_of_ne (by decide), ih, ← List.count_append]
      rfl

theorem count_flatMap (ls : List (List Char)) : (ls.flatMap (· ++ ['\n'])).count '@' = ls.flatten.count '@' := by
  induction ls with
  | nil => rfl
  | cons l ls ih =>
    rw [List.flatMap_cons, List.count_append, ih, List.count_append, List.flatten_cons, List.count_append]
    rfl

theorem count_splitLines (cs : List Char) : (splitLines cs).flatten.count '@' = cs.count '@' := by
  fun_induction splitLines cs with
  | case1 => rfl
  | case2 cs ih =>
    rw [List.count_cons_of_ne (by decide), List.count_cons_of_ne (by decide)]
    exact ih
  | case3 c cs _ hc ih =>
    have hne : c ≠ '@' := by
      rintro rfl
      cases hc
    rw [List.count_cons_of_ne hne]
    exact ih
  | case4 c cs _ hc hnil ih =>
    rw [hnil] at ih
    rw [← List.singleton_append (l := cs), List.count_append, ← ih]
    rfl
  | case5 c cs _ hc l ls hcons ih =>
    rw [hcons] at ih
    rw [← List.singleton_append (l := cs), List.count_append, ← ih, ← List.count_append]
    rfl

theorem count_flatten_map {g : List Char → List Char} (hg : ∀ l, (g l).count '@' = l.count '@')
    (ls : List (List Char)) : (ls.map g).flatten.count '@' = ls.flatten.count '@' := by
  induction ls with
  | nil => rfl
  | cons l ls ih =>
    rw [List.map_cons, List.flatten_cons, List.count_append, hg, ih, ← List.count_append]
    rfl

/-- **Unwrapping a comment keeps its at signs.** -/
theorem count_body (comment : String) : (body comment).toList.count '@' = comment.toList.count '@' := by
  refine overlooks_count.body (fun cs => ?_) (fun cs h => ?_) comment
  · rw [count_joinNewline, count_flatten_map overlooks_count.dropGutter, count_splitLines]
  · conv => rhs; rw [← joinNewline_splitNewline cs]
    rw [dedent_eq h, count_joinNewline, count_flatten_map count_clearIndent, count_joinNewline]

end Comment
end SymbolDocs
