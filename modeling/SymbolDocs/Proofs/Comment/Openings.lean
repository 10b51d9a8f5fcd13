import SymbolDocs.Proofs.Comment.Markers

/-!
# Every tag with a title of its own has a marker

The titles of the explicit tags of a comment all stand in markers (`exists_isMarker`), so that with the titles of
markers all titles of tags are meant.

A tag is followed back to the line that opens it (`exists_of_tagsOf`, `exists_of_tagLines`) and to the place of this
line in the body of the comment (`exists_of_splitLines`). The at sign there is one of the comment, with as many at signs
in front of it, since unwrapping keeps them all. What stands around it in the comment is then what a marker needs.
-/

namespace SymbolDocs

namespace Text

variable {c : Char} {cs ds cs' ds' l : List Char} {ls ms : List (List Char)} {n : Nat}

/-- A place of a character is known by how often the character stands in front of it. -/
theorem eq_of_append_cons (h : cs ++ c :: ds = cs' ++ c :: ds') (hcount : cs.count c = cs'.count c) :
    cs = cs' ∧ ds = ds' := by
  induction cs generalizing cs' with
  | nil =>
    cases cs' with
    | nil => exact ⟨rfl, (List.cons.inj h).2⟩
    | cons d cs' =>
      obtain ⟨rfl, -⟩ := List.cons.inj h
      simp at hcount
  | cons d cs ih =>
    cases cs' with
    | nil =>
      obtain ⟨rfl, -⟩ := List.cons.inj h
      simp at hcount
    | cons d' cs' =>
      obtain ⟨rfl, htail⟩ := List.cons.inj h
      rw [List.count_cons, List.count_cons, Nat.add_right_cancel_iff] at hcount
      exact (ih htail hcount).imp_left (congrArg (d :: ·))

theorem exists_of_lt_count (h : n < cs.count c) : ∃ front rest, cs = front ++ c :: rest ∧ front.count c = n := by
  induction cs generalizing n with
  | nil => cases h
  | cons d cs ih =>
    by_cases hd : d = c
    · subst hd
      cases n with
      | zero => exact ⟨[], cs, rfl, rfl⟩
      | succ n =>
        rw [List.count_cons_self, Nat.add_lt_add_iff_right] at h
        obtain ⟨front, rest, rfl, hn⟩ := ih h
        exact ⟨d :: front, rest, rfl, by rw [List.count_cons_self, hn]⟩
    · rw [List.count_cons_of_ne hd] at h
      obtain ⟨front, rest, rfl, hn⟩ := ih h
      exact ⟨d :: front, rest, rfl, by rw [List.count_cons_of_ne hd, hn]⟩

theorem splitLines_eq_nil (h : splitLines cs = []) : cs = [] := by
  by_contra hne
  exact splitLines_ne_nil hne h

/-- The place of a line in the text. -/
theorem exists_of_splitLines (h : splitLines cs = ls ++ l :: ms) :
    ∃ x y, cs = x ++ (l ++ y) ∧ EndsLine x ∧ splitLines x = ls ∧ ∀ c ∈ y.head?, isLineBreak c = true := by
  have hnil : EndsLine [] := by
    intro c hc
    cases hc
  fun_induction splitLines cs generalizing ls l ms with
  | case1 => simp at h
  | case2 cs ih =>
    obtain - | ⟨k, ls⟩ := ls
    · obtain ⟨rfl, -⟩ := List.cons.inj h
      exact ⟨[], '\r' :: '\n' :: cs, rfl, hnil, rfl, fun c hc => by cases hc; rfl⟩
    · obtain ⟨rfl, htail⟩ := List.cons.inj h
      obtain ⟨x, y, rfl, hx, rfl, hy⟩ := ih htail
      have hbreak : EndsLine ['\r', '\n'] := fun c hc => by cases hc; rfl
      exact ⟨'\r' :: '\n' :: x, y, rfl, hbreak.append hx, by rw [splitLines], hy⟩
  | case3 c cs hpair hc ih =>
    obtain - | ⟨k, ls⟩ := ls
    · obtain ⟨rfl, -⟩ := List.cons.inj h
      exact ⟨[], c :: cs, rfl, hnil, rfl, fun d hd => by cases hd; exact hc⟩
    · obtain ⟨rfl, htail⟩ := List.cons.inj h
      obtain ⟨x, y, rfl, hx, rfl, hy⟩ := ih htail
      have hbreak : EndsLine [c] := fun d hd => by cases hd; exact hc
      refine ⟨c :: x, y, rfl, hbreak.append hx, ?_, hy⟩
      rw [splitLines]
      · exact if_pos hc
      · rintro ds rfl rfl
        exact hpair _ rfl rfl
  | case4 c cs hpair hc hempty ih =>
    obtain - | ⟨k, ls⟩ := ls
    · obtain ⟨rfl, -⟩ := List.cons.inj h
      exact ⟨[], [], by rw [splitLines_eq_nil hempty]; rfl, hnil, rfl, fun d hd => by cases hd⟩
    · simp at h
  | case5 c cs hpair hc m ms' hcons ih =>
    obtain - | ⟨k, ls⟩ := ls
    · obtain ⟨rfl, rfl⟩ := List.cons.inj h
      obtain ⟨x, y, rfl, -, hx, hy⟩ := ih (hcons.trans (List.nil_append _).symm)
      obtain rfl := splitLines_eq_nil hx
      exact ⟨[], y, rfl, hnil, rfl, hy⟩
    · obtain ⟨rfl, htail⟩ := List.cons.inj h
      obtain ⟨x, y, rfl, hx, hsplit, hy⟩ := ih (show splitLines cs = (m :: ls) ++ l :: ms by rw [hcons, htail]; rfl)
      refine ⟨c :: x, y, rfl, ?_, by rw [splitLines_cons (by simpa using hc), hsplit], hy⟩
      obtain - | ⟨d, x⟩ := x
      · cases hsplit
      · exact fun e he => hx e (by simpa using he)

end Text

open SymbolDocs.Text

namespace Comment

variable {line text title : List Char} {lines : List (List Char)} {ts ts' : List TagLine}

/-! ## The line that opens a tag -/

/-- A line with a marker, of which the title and the text behind it are known. -/
theorem exists_of_marker? (h : marker? line = some (title, text)) :
    ∃ blanks rest, line = blanks ++ '@' :: (title ++ rest) ∧ (∀ c ∈ blanks, isBlank c = true) ∧
      isTitle title = true ∧ EndsTitle rest := by
  unfold marker? at h
  split at h
  · next c cs hline =>
    split at h
    · next hc =>
      cases h
      refine ⟨line.takeWhile isBlank, cs.dropWhile isTitleChar, ?_,
        fun c hb => List.all_eq_true.1 List.all_takeWhile c hb, ?_, head_dropWhile cs⟩
      · rw [List.cons_append, List.takeWhile_append_dropWhile, ← hline, trimLeft_append]
      · rw [isTitle, hc, List.all_takeWhile]
        rfl
    · cases h
  · cases h

theorem marker?_of_openIfMarked (h : openIfMarked line = .opening title text) : marker? line = some (title, text) := by
  unfold openIfMarked at h
  split at h
  · next hmarker =>
    cases h
    exact hmarker
  · cases h

theorem exists_of_nestedTagLines {n : Nat} (h : (nestedTagLines n lines).1 = ts ++ .opening title text :: ts') :
    ∃ ls l ms, lines = ls ++ l :: ms ∧ ls.length = ts.length ∧ marker? l = some (title, text) ∧
      ls.foldl depthAfter n = 0 := by
  induction lines generalizing n ts with
  | nil => simp [nestedTagLines] at h
  | cons line lines ih =>
    rw [nestedTagLines] at h
    dsimp only at h
    obtain - | ⟨first, ts⟩ := ts
    · obtain ⟨hline, -⟩ := List.cons.inj h
      split at hline
      · next hzero => exact ⟨[], line, lines, rfl, rfl, marker?_of_openIfMarked hline, hzero⟩
      · cases hline
    · obtain ⟨-, htail⟩ := List.cons.inj h
      obtain ⟨ls, l, ms, rfl, hlength, hmarker, hzero⟩ := ih htail
      exact ⟨line :: ls, l, ms, rfl, congrArg (· + 1) hlength, hmarker, hzero⟩

/-- A line opens a tag if it has a marker that counts. -/
theorem exists_of_tagLines (h : tagLines lines = ts ++ .opening title text :: ts') :
    ∃ ls l ms, lines = ls ++ l :: ms ∧ ls.length = ts.length ∧ marker? l = some (title, text) ∧
      (ls.foldl depthAfter 0 = 0 ∨ lines.foldl depthAfter 0 ≠ 0) := by
  rw [tagLines_eq_ite] at h
  split at h
  · obtain ⟨ls, l, ms, hlines, hlength, hmarker, hzero⟩ := exists_of_nestedTagLines h
    exact ⟨ls, l, ms, hlines, hlength, hmarker, .inl hzero⟩
  · next hne =>
    obtain ⟨ls, rest, rfl, hls, hrest⟩ := List.map_eq_append_iff.1 h
    obtain ⟨l, ms, rfl, hl, -⟩ := List.map_eq_cons_iff.1 hrest
    exact ⟨ls, l, ms, rfl, by rw [← hls, List.length_map], marker?_of_openIfMarked hl, .inr hne⟩

/-- The line that opens a group. -/
theorem exists_of_groupLines {groups groups' : List (List Char × List (List Char))}
    {group : List Char × List (List Char)} (h : (groupLines ts).2 = groups ++ group :: groups') :
    ∃ before text after, ts = before ++ .opening group.1 text :: after ∧
      groupLines before = ((groupLines ts).1, groups) := by
  induction ts generalizing groups with
  | nil => simp [groupLines] at h
  | cons line ts ih =>
    cases line with
    | plain line =>
      obtain ⟨before, text, after, rfl, hbefore⟩ := ih h
      exact ⟨.plain line :: before, text, after, rfl, by rw [groupLines, hbefore]; rfl⟩
    | opening title text =>
      obtain - | ⟨first, groups⟩ := groups
      · obtain ⟨rfl, -⟩ := List.cons.inj h
        exact ⟨[], text, ts, rfl, rfl⟩
      · obtain ⟨rfl, htail⟩ := List.cons.inj h
        obtain ⟨before, text', after, rfl, hbefore⟩ := ih htail
        exact ⟨.opening title text :: before, text', after, rfl, by rw [groupLines, hbefore]; rfl⟩

theorem implicit_of_mem_implicitTag {lead : List (List Char)} {raw : RawTag} (h : raw ∈ implicitTag lead) :
    raw.implicit = true := by
  unfold implicitTag at h
  dsimp only at h
  split at h
  · cases h
  · obtain rfl := List.mem_singleton.1 h
    rfl

/-- The line that opens an explicit tag. -/
theorem exists_of_tagsOf {raw : RawTag} {before after : List RawTag} (h : tagsOf ts = before ++ raw :: after)
    (hraw : raw.implicit = false) :
    ∃ front text rest, ts = front ++ .opening raw.title.toList text :: rest ∧ tagsOf front = before := by
  have hgroups : ∃ tags, before = implicitTag (groupLines ts).1 ++ tags ∧
      (groupLines ts).2.map groupTag = tags ++ raw :: after := by
    rcases List.append_eq_append_iff.1 h with ⟨tags, hbefore, hrest⟩ | ⟨tags, himplicit, hrest⟩
    · exact ⟨tags, hbefore, hrest⟩
    · obtain - | ⟨tag, tags⟩ := tags
      · exact ⟨[], by simpa using himplicit.symm, hrest.symm⟩
      · obtain ⟨rfl, -⟩ := List.cons.inj hrest
        have hmem : raw ∈ implicitTag (groupLines ts).1 := by
          rw [himplicit]
          simp
        rw [implicit_of_mem_implicitTag hmem] at hraw
        cases hraw
  obtain ⟨tags, rfl, hmap⟩ := hgroups
  obtain ⟨groups, rest, hsplit, rfl, hrest⟩ := List.map_eq_append_iff.1 hmap
  obtain ⟨group, groups', rfl, rfl, -⟩ := List.map_eq_cons_iff.1 hrest
  obtain ⟨front, text, after, hts, hfront⟩ := exists_of_groupLines hsplit
  exact ⟨front, text, after, by rw [hts, groupTag, String.toList_ofList], by rw [tagsOf, hfront]⟩

/-! ## Its place in the comment -/

theorem endsTitle_append {rest y : List Char} (h : EndsTitle rest) (hy : ∀ c ∈ y.head?, isLineBreak c = true) :
    EndsTitle (rest ++ y) := by
  cases rest with
  | nil => exact fun c hc => isTitleChar_of_isBlank (isBlank_of_isLineBreak (hy c hc))
  | cons d rest => exact fun c hc => h c (by simpa using hc)

/-- A line of the body that starts with an at sign and a title is the line of a place of the comment. -/
theorem exists_place {comment : String} {x blanks y : List Char}
    (hbody : (body comment).toList = x ++ (blanks ++ '@' :: (title ++ y))) (hx : EndsLine x)
    (hblanks : ∀ c ∈ blanks, isLineBreak c = false) (htitle : isTitle title = true) (hy : EndsTitle y) :
    ∃ pre post, comment.toList = pre ++ '@' :: (title ++ post) ∧ EndsTitle post ∧ lineBefore pre = blanks ∧
      ∃ y, BodyAround pre post x y := by
  have hcount : (x ++ blanks).count '@' < comment.toList.count '@' := by
    rw [← count_body, hbody]
    simp only [List.count_append, List.count_cons_self]
    omega
  obtain ⟨pre, rest, hcomment, hsigns⟩ := exists_of_lt_count hcount
  have hends : EndsTitle (rest.dropWhile isTitleChar) := head_dropWhile rest
  have hchars : TitleChars (rest.takeWhile isTitleChar) := fun c hc => List.all_eq_true.1 List.all_takeWhile c hc
  obtain ⟨x', y', hb⟩ := exists_bodyAround pre hends
  have hplace := hb.body _ hchars
  rw [List.takeWhile_append_dropWhile, ← hcomment, ← String.toList_ofList (l := bodyOfTrimmed _), ← body, hbody,
    ← List.append_assoc, ← List.append_assoc] at hplace
  obtain ⟨hfront, hback⟩ := eq_of_append_cons hplace (hsigns.symm.trans hb.signs.symm)
  have hline : lineBefore pre = blanks := by
    rw [← lastLine_append hb.line (isLineBreak_lineBefore pre), ← hfront, lastLine_append hx hblanks]
  obtain rfl : x = x' := by
    rw [hline] at hfront
    exact List.append_cancel_right hfront
  have hname : title = rest.takeWhile isTitleChar := by
    have htake := congrArg (List.takeWhile isTitleChar) hback
    rwa [takeWhile_title (titleChars_of_isTitle htitle) hy, takeWhile_title hchars hb.ends] at htake
  refine ⟨pre, rest.dropWhile isTitleChar, ?_, hends, hline, y', hb⟩
  rw [hname, List.takeWhile_append_dropWhile, hcomment]

/-- **Every explicit tag of a comment has a marker**, of which it has its title: with another title there, this tag has
the other title, and all other tags stay. -/
theorem exists_isMarker {comment : String} {raw : RawTag} {before after : List RawTag}
    (h : rawTags (body comment) = before ++ raw :: after) (hraw : raw.implicit = false) :
    ∃ pre post, comment.toList = pre ++ '@' :: (raw.title.toList ++ post) ∧ IsMarker pre raw.title.toList post ∧
      ∀ t, isTitle t = true → rawTags (body (String.ofList (pre ++ '@' :: (t ++ post)))) =
        before ++ { title := String.ofList t, text := raw.text } :: after := by
  obtain ⟨front, text, rest, hts, hfront⟩ := exists_of_tagsOf h hraw
  obtain ⟨ls, l, ms, hlines, hlength, hmarker, hcounts⟩ := exists_of_tagLines hts
  obtain ⟨blanks, behind, rfl, hblanks, htitle, hbehind⟩ := exists_of_marker? hmarker
  obtain ⟨x, y, hbody, hx, rfl, hy⟩ := exists_of_splitLines hlines
  have hbreaks : ∀ c ∈ blanks, isLineBreak c = false := fun c hc =>
    isLineBreak_splitLines _ _ (hlines ▸ List.mem_append_right _ (List.mem_cons_self ..)) c (List.mem_append_left _ hc)
  have hwhole : (body comment).toList = x ++ (blanks ++ '@' :: (raw.title.toList ++ (behind ++ y))) := by
    rw [hbody]
    simp
  obtain ⟨pre, post, hcomment, hends, hline, y', hb⟩ :=
    exists_place hwhole hx hbreaks htitle (endsTitle_append hbehind hy)
  have hm : IsMarker pre raw.title.toList post := by
    refine ⟨htitle, hends, by rwa [hline], hcounts.imp (fun hzero => ?_) fun hne => ?_⟩
    · rw [← hb.depth, hline, depthBehind_append_right fun c hc => isBracket_of_isBlank (hblanks c hc)]
      exact hzero
    · rw [← hcomment, ← depthBehind_body]
      exact hne
  refine ⟨pre, post, hcomment, hm, fun t ht => ?_⟩
  obtain ⟨front', text', rest', hlength', htags⟩ := hm.exists_tagLines hb
  have hsame : front' ++ .opening raw.title.toList text' :: rest' =
      front ++ .opening raw.title.toList text :: rest := by
    rw [← htags _ htitle, ← hcomment, String.ofList_toList, hts]
  obtain ⟨rfl, hrest⟩ := List.append_inj hsame (hlength'.trans hlength)
  obtain ⟨hopening, rfl⟩ := List.cons.inj hrest
  obtain ⟨-, rfl⟩ := TagLine.opening.inj hopening
  have htag := tagsOf_append_opening front' raw.title.toList text' rest'
  rw [← hts] at htag
  obtain ⟨hraw', rfl⟩ := List.cons.inj (List.append_cancel_left (hfront ▸ htag.symm.trans h))
  have hother := tagsOf_append_opening front' t text' rest'
  rw [← htags t ht, hfront] at hother
  rw [← hraw']
  exact hother

end Comment
end SymbolDocs
