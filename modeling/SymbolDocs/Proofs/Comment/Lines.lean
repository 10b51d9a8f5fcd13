import Mathlib.Data.List.Forall2
import SymbolDocs.Comment.RawTag

/-!
# The lines of the tags are the lines of the comment

Cutting a comment into raw tags loses no line, repeats none and keeps their order (`rawTags_lines`). Each line of a tag
is a line of the comment, except that the line that opens the tag has its marker in front (`TagLine.Writes`). Only
blank lines before the first marker belong to no tag.

The lines are followed through the three steps of `rawTags`: which markers count (`forall₂_tagLines`), the grouping
(`groupLines_lines`) and the joining of the lines of each group (`splitNewline_joinNewline`).
-/

namespace SymbolDocs

/-! ## Cutting and joining lines -/

namespace Text

/-- Characters that do not cut stay with the first piece. -/
theorem cutAt_append {p : Char → Bool} {l : List Char} (h : ∀ c ∈ l, p c = false) (cs : List Char) :
    cutAt p (l ++ cs) = (cutAt p cs).modifyHead (l ++ ·) := by
  induction l with
  | nil => exact (congrFun List.modifyHead_id (cutAt p cs)).symm
  | cons c l ih =>
    obtain ⟨hc, hl⟩ := List.forall_mem_cons.1 h
    rw [List.cons_append, cutAt, hc, ih hl]
    cases hcs : cutAt p cs with
    | nil => exact absurd hcs (cutAt_ne_nil p cs)
    | cons m ms => rfl

/-- Lines that were joined are cut again at the same places. -/
theorem splitNewline_joinNewline {ls : List (List Char)} (hne : ls ≠ []) (h : ∀ l ∈ ls, '\n' ∉ l) :
    splitNewline (joinNewline ls) = ls := by
  have hcut {l : List Char} (hl : '\n' ∉ l) (cs : List Char) :
      splitNewline (l ++ cs) = (splitNewline cs).modifyHead (l ++ ·) :=
    cutAt_append (fun c hc => decide_eq_false (by rintro rfl; exact hl hc)) cs
  induction ls with
  | nil => exact absurd rfl hne
  | cons l ls ih =>
    obtain ⟨hl, hls⟩ := List.forall_mem_cons.1 h
    cases ls with
    | nil => simpa [joinNewline, splitNewline, cutAt] using hcut hl []
    | cons m ls =>
      have hnewline : splitNewline ('\n' :: joinNewline (m :: ls)) = [] :: m :: ls :=
        congrArg ([] :: ·) (ih (List.cons_ne_nil m ls) hls)
      rw [joinNewline, hcut hl, hnewline, List.modifyHead_cons, List.append_nil]

/-- A line has no newline of its own. -/
theorem newline_not_mem_splitLines {cs : List Char} : ∀ l ∈ splitLines cs, '\n' ∉ l := by
  fun_induction splitLines cs with
  | case1 => exact List.forall_mem_nil _
  | case2 cs ih => exact List.forall_mem_cons.2 ⟨List.not_mem_nil, ih⟩
  | case3 c cs _ _ ih => exact List.forall_mem_cons.2 ⟨List.not_mem_nil, ih⟩
  | case4 c cs _ hc hnil ih =>
    have hne : '\n' ≠ c := by rintro rfl; exact hc rfl
    exact List.forall_mem_singleton.2 fun hmem => hne (List.mem_singleton.1 hmem)
  | case5 c cs _ hc l ls hcons ih =>
    have hne : '\n' ≠ c := by rintro rfl; exact hc rfl
    rw [hcons] at ih
    obtain ⟨hl, hls⟩ := List.forall_mem_cons.1 ih
    refine List.forall_mem_cons.2 ⟨fun hmem => ?_, hls⟩
    rcases List.mem_cons.1 hmem with rfl | hmem
    · exact hne rfl
    · exact hl hmem

theorem all_isBlank_joinNewline {ls : List (List Char)} :
    (joinNewline ls).all isBlank = true ↔ ∀ l ∈ ls, ∀ c ∈ l, isBlank c = true := by
  induction ls with
  | nil => simp [joinNewline]
  | cons l ls ih =>
    cases ls with
    | nil => simp [joinNewline]
    | cons m ls =>
      have hn : isBlank '\n' = true := rfl
      rw [joinNewline, List.all_append, List.all_cons, hn, Bool.true_and, Bool.and_eq_true, ih, List.all_eq_true,
        List.forall_mem_cons (a := l)]

end Text

open SymbolDocs.Text

namespace Comment

variable {line : List Char} {lines : List (List Char)}

/-! ## What a line of a tag is in the comment -/

namespace TagLine

/-- The part of a line that belongs to the text of a tag. -/
def text : TagLine → List Char
  | .opening _ text => text
  | .plain line => line

/-- How a line of a tag stands in a comment: as it is, or with a marker in front if it opens the tag. A marker is an
at sign and the title, with blanks before and perhaps an exclamation mark behind it. -/
inductive Writes : List Char → TagLine → Prop
  | plain (line : List Char) : Writes line (.plain line)
  | opening {blanks title bang text : List Char} (hblanks : ∀ c ∈ blanks, isBlank c = true)
      (hbang : bang = [] ∨ bang = ['!']) : Writes (blanks ++ '@' :: title ++ bang ++ text) (.opening title text)

/-- The text of a tag has no characters that its lines in the comment do not have. -/
theorem Writes.text_subset {t : TagLine} (h : Writes line t) : t.text ⊆ line := by
  cases h with
  | plain => exact List.Subset.refl _
  | opening => exact List.subset_append_right _ _

end TagLine

theorem exists_dropBang (cs : List Char) : ∃ bang, (bang = [] ∨ bang = ['!']) ∧ cs = bang ++ dropBang cs := by
  unfold dropBang
  split
  · exact ⟨['!'], .inr rfl, rfl⟩
  · exact ⟨[], .inl rfl, rfl⟩

/-- A line that is an opening stands in the comment with its marker. -/
theorem writes_of_marker? {title text : List Char} (h : marker? line = some (title, text)) :
    TagLine.Writes line (.opening title text) := by
  unfold marker? at h
  split at h
  · next c cs hline =>
    split at h
    · cases h
      obtain ⟨bang, hbang, hrest⟩ := exists_dropBang (cs.dropWhile isTitleChar)
      have hwritten : line = line.takeWhile isBlank ++ '@' :: (c :: cs.takeWhile isTitleChar) ++ bang ++
          dropBang (cs.dropWhile isTitleChar) := by
        rw [List.append_assoc, ← hrest, List.append_assoc, List.cons_append, List.cons_append,
          List.takeWhile_append_dropWhile, ← hline, trimLeft_append]
      rw [hwritten]
      exact .opening (fun _ hb => List.all_eq_true.1 List.all_takeWhile _ hb) hbang
    · cases h
  · cases h

theorem writes_openIfMarked (line : List Char) : TagLine.Writes line (openIfMarked line) := by
  unfold openIfMarked
  split
  · next h => exact writes_of_marker? h
  · exact .plain line

/-- Whatever markers count, the lines are those of the comment in their order. -/
theorem forall₂_nestedTagLines (depth : Nat) (lines : List (List Char)) :
    List.Forall₂ TagLine.Writes lines (nestedTagLines depth lines).1 := by
  induction lines generalizing depth with
  | nil => exact .nil
  | cons line lines ih =>
    refine .cons ?_ (ih _)
    split
    · exact writes_openIfMarked line
    · exact .plain line

theorem forall₂_tagLines (lines : List (List Char)) : List.Forall₂ TagLine.Writes lines (tagLines lines) := by
  unfold tagLines
  split
  · next found hfound =>
    have h := forall₂_nestedTagLines 0 lines
    rwa [hfound] at h
  · exact List.forall₂_map_right_iff.2 (List.forall₂_same.2 fun line _ => writes_openIfMarked line)

/-! ## Groups -/

/-- The lines of an opening and of the text that follows it. -/
def openedLines (title : List Char) : List (List Char) → List TagLine
  | [] => []
  | first :: rest => .opening title first :: rest.map .plain

theorem map_text_plain (ls : List (List Char)) : (ls.map TagLine.plain).map TagLine.text = ls := by
  rw [List.map_map]
  exact List.map_id ls

theorem map_text_openedLines (title : List Char) (ls : List (List Char)) :
    (openedLines title ls).map TagLine.text = ls := by
  cases ls with
  | nil => rfl
  | cons first rest => exact congrArg (first :: ·) (map_text_plain rest)

/-- Grouping keeps all lines in their order. -/
theorem groupLines_lines (lines : List TagLine) :
    (groupLines lines).1.map .plain ++ (groupLines lines).2.flatMap (fun group => openedLines group.1 group.2) =
      lines := by
  induction lines with
  | nil => rfl
  | cons line lines ih =>
    cases line with
    | plain line => exact congrArg (TagLine.plain line :: ·) ih
    | opening title text => exact congrArg (TagLine.opening title text :: ·) ih

theorem groupLines_ne_nil (lines : List TagLine) : ∀ group ∈ (groupLines lines).2, group.2 ≠ [] := by
  induction lines with
  | nil => exact List.forall_mem_nil _
  | cons line lines ih =>
    cases line with
    | plain line => exact ih
    | opening title text => exact List.forall_mem_cons.2 ⟨List.cons_ne_nil _ _, ih⟩

/-- Groups have no other lines than those that were grouped. -/
theorem groupLines_texts (lines : List TagLine) :
    (groupLines lines).1 ++ (groupLines lines).2.flatMap (·.2) = lines.map TagLine.text := by
  conv => rhs; rw [← groupLines_lines lines]
  rw [List.map_append, map_text_plain, List.map_flatMap]
  simp only [map_text_openedLines]

end Comment

/-! ## Tags -/

/-- The lines of a raw tag. The first line of an explicit tag opens it. -/
def RawTag.lines (tag : RawTag) : List Comment.TagLine :=
  let ls := splitNewline tag.text.toList
  if tag.implicit then ls.map .plain else Comment.openedLines tag.title.toList ls

namespace Comment

theorem map_text_lines (tag : RawTag) : tag.lines.map TagLine.text = splitNewline tag.text.toList := by
  unfold RawTag.lines
  dsimp only
  split
  · exact map_text_plain _
  · exact map_text_openedLines _ _

/-- The tag of an opening and the lines that follow it. -/
def groupTag (group : List Char × List (List Char)) : RawTag :=
  { title := String.ofList group.1, text := String.ofList (joinNewline group.2) }

theorem rawTags_eq (text : String) :
    rawTags text = implicitTag (groupLines (tagLines (splitLines text.toList))).1 ++
      (groupLines (tagLines (splitLines text.toList))).2.map groupTag := rfl

/-- The tag of a group has the lines of the group. -/
theorem lines_groupTag {group : List Char × List (List Char)} (hne : group.2 ≠ []) (h : ∀ l ∈ group.2, '\n' ∉ l) :
    (groupTag group).lines = openedLines group.1 group.2 := by
  rw [RawTag.lines, groupTag, String.toList_ofList, String.toList_ofList, splitNewline_joinNewline hne h]
  exact if_neg Bool.false_ne_true

/-- The tag of the lines before the first marker has these lines, and is no blank description. -/
structure IsLeading (lead : List (List Char)) (tag : RawTag) : Prop where
  implicit : tag.implicit = true
  title : tag.title = "description"
  notBlank : allBlank tag.text = false
  lines : tag.lines = lead.map .plain

/-- Either the lines before the first marker are blank and make no tag, or they make one. -/
theorem implicitTag_cases {lead : List (List Char)} (h : ∀ l ∈ lead, '\n' ∉ l) :
    implicitTag lead = [] ∧ (∀ l ∈ lead, ∀ c ∈ l, isBlank c = true) ∨
      ∃ tag, implicitTag lead = [tag] ∧ IsLeading lead tag := by
  unfold implicitTag
  dsimp only
  split
  · next hblank => exact .inl ⟨rfl, all_isBlank_joinNewline.1 hblank⟩
  · next hblank =>
    have hne : lead ≠ [] := by
      rintro rfl
      exact hblank rfl
    refine .inr ⟨_, rfl, rfl, rfl, ?_, ?_⟩
    · rwa [allBlank, String.toList_ofList, ← Bool.not_eq_true]
    · rw [RawTag.lines, String.toList_ofList, splitNewline_joinNewline hne h, if_pos rfl]

/-- Lines without markers that are written first are the first lines of the comment. -/
theorem exists_of_writes_append {lead : List (List Char)} {ts : List TagLine}
    (h : List.Forall₂ TagLine.Writes lines (lead.map .plain ++ ts)) :
    ∃ body, lines = lead ++ body ∧ List.Forall₂ TagLine.Writes body ts := by
  induction lead generalizing lines with
  | nil => exact ⟨lines, rfl, h⟩
  | cons l lead ih =>
    cases h with
    | cons hw h =>
      cases hw
      obtain ⟨body, rfl, hbody⟩ := ih h
      exact ⟨body, rfl, hbody⟩

theorem newline_not_mem_text {ts : List TagLine} (h : List.Forall₂ TagLine.Writes lines ts)
    (hlines : ∀ l ∈ lines, '\n' ∉ l) : ∀ text ∈ ts.map TagLine.text, '\n' ∉ text := by
  induction h with
  | nil => exact List.forall_mem_nil _
  | cons hw _ ih =>
    obtain ⟨hline, hlines⟩ := List.forall_mem_cons.1 hlines
    exact List.forall_mem_cons.2 ⟨fun hmem => hline (hw.text_subset hmem), ih hlines⟩

/-- A comment has some lines before the first marker and then those of the explicit tags. -/
theorem rawTags_cases (text : String) : ∃ lead explicit,
    (∀ tag ∈ explicit, tag.implicit = false) ∧
    List.Forall₂ TagLine.Writes (splitLines text.toList) (lead.map .plain ++ explicit.flatMap RawTag.lines) ∧
    (rawTags text = explicit ∧ (∀ line ∈ lead, ∀ c ∈ line, isBlank c = true) ∨
      ∃ tag, rawTags text = tag :: explicit ∧ IsLeading lead tag) := by
  have hwrites := forall₂_tagLines (splitLines text.toList)
  have hnewline := newline_not_mem_text hwrites newline_not_mem_splitLines
  rw [← groupLines_texts, List.forall_mem_append] at hnewline
  have hne := groupLines_ne_nil (tagLines (splitLines text.toList))
  rw [← groupLines_lines (tagLines (splitLines text.toList))] at hwrites
  rw [rawTags_eq]
  generalize groupLines (tagLines (splitLines text.toList)) = grouped at hwrites hnewline hne ⊢
  obtain ⟨hlead, hgroups⟩ := hnewline
  have hlines : (grouped.2.map groupTag).flatMap RawTag.lines =
      grouped.2.flatMap fun group => openedLines group.1 group.2 := by
    rw [List.flatMap_map]
    refine List.flatMap_congr fun group hg => lines_groupTag (hne group hg) fun l hl => ?_
    exact hgroups l (List.mem_flatMap.2 ⟨group, hg, hl⟩)
  refine ⟨grouped.1, grouped.2.map groupTag, fun tag htag => ?_, hlines ▸ hwrites, ?_⟩
  · obtain ⟨group, -, rfl⟩ := List.mem_map.1 htag
    rfl
  · rcases implicitTag_cases hlead with ⟨hnone, hblank⟩ | ⟨tag, hone, htag⟩
    · exact .inl ⟨by rw [hnone, List.nil_append], hblank⟩
    · exact .inr ⟨tag, by rw [hone, List.singleton_append], htag⟩

/-- **The lines of the tags are the lines of the comment.** Behind some blank lines, which are none if the first tag is
implicit, every line of a comment belongs to one tag, and the lines of the tags in their order are these lines. An
implicit tag is the first one, a description, and not blank. -/
theorem rawTags_lines (text : String) :
    ∃ blank body, splitLines text.toList = blank ++ body ∧
      (∀ line ∈ blank, ∀ c ∈ line, isBlank c = true) ∧
      (∀ tag ∈ (rawTags text).head?, tag.implicit = true → blank = []) ∧
      (rawTags text = [] → body = []) ∧
      List.Forall₂ TagLine.Writes body ((rawTags text).flatMap RawTag.lines) ∧
      ((rawTags text).flatMap RawTag.lines).map TagLine.text =
        (rawTags text).flatMap (fun tag => splitNewline tag.text.toList) ∧
      ∀ before tag after, rawTags text = before ++ tag :: after → tag.implicit = true →
        before = [] ∧ tag.title = "description" ∧ allBlank tag.text = false := by
  have htexts : ((rawTags text).flatMap RawTag.lines).map TagLine.text =
      (rawTags text).flatMap fun tag => splitNewline tag.text.toList := by
    rw [List.map_flatMap]
    simp only [map_text_lines]
  have hempty {body : List (List Char)} (h : List.Forall₂ TagLine.Writes body ((rawTags text).flatMap RawTag.lines))
      (hnil : rawTags text = []) : body = [] := by
    rw [hnil, List.flatMap_nil] at h
    exact List.forall₂_nil_right_iff.1 h
  obtain ⟨lead, explicit, hexplicit, hwrites, ⟨htags, hblank⟩ | ⟨first, htags, hfirst⟩⟩ := rawTags_cases text
  · -- Without an implicit tag, the lines before the first marker are the blank ones.
    obtain ⟨body, hsplit, hbody⟩ := exists_of_writes_append hwrites
    rw [← htags] at hbody
    have hnone (tag : RawTag) (htag : tag ∈ rawTags text) : tag.implicit ≠ true := by
      rw [htags] at htag
      rw [hexplicit tag htag]
      exact Bool.false_ne_true
    refine ⟨lead, body, hsplit, hblank, fun tag htag hi => ?_, hempty hbody, hbody, htexts,
      fun before tag after heq hi => ?_⟩
    · exact absurd hi (hnone tag (List.mem_of_mem_head? htag))
    · exact absurd hi (hnone tag (heq ▸ List.mem_append_cons_self))
  · -- With an implicit tag, every line belongs to a tag.
    have hbody : List.Forall₂ TagLine.Writes (splitLines text.toList) ((rawTags text).flatMap RawTag.lines) := by
      rw [htags, List.flatMap_cons, hfirst.lines]
      exact hwrites
    refine ⟨[], splitLines text.toList, rfl, List.forall_mem_nil _, fun _ _ _ => rfl, hempty hbody, hbody, htexts,
      fun before tag after heq hi => ?_⟩
    rw [htags] at heq
    cases before with
    | nil =>
      obtain ⟨rfl, -⟩ := List.cons.inj heq
      exact ⟨rfl, hfirst.title, hfirst.notBlank⟩
    | cons b before =>
      have hmem : tag ∈ explicit := (List.cons.inj heq).2 ▸ List.mem_append_cons_self
      rw [hexplicit tag hmem] at hi
      cases hi

/-- A marker between braces is a line like any other. -/
example : rawTags "one \x7b\n@two\n\x7d\n @three! four" =
    [{ title := "description", text := "one \x7b\n@two\n\x7d", implicit := true },
      { title := "three", text := " four" }] := by
  decide +kernel

end Comment
end SymbolDocs
