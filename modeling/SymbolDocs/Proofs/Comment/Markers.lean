import SymbolDocs.Proofs.Comment.Depth

/-!
# The markers of a comment

A marker of a comment is an at sign and a title that the splitter takes for the start of a tag (`IsMarker`): behind the
delimiter and the gutter there are only blanks in front of it on its line, and no brace or bracket is open, unless those
of the comment never close.

The title of a marker is read as the title of a tag and nothing else (`IsMarker.exists_rawTags`). No step of the
unwrapping looks into it: characters of titles are no blanks, no asterisks, no slashes and no brackets, so that the text
in front of the at sign and the text behind the title become what they become with any other title
(`exists_bodyAround`). The same holds of the lines (`IsMarker.exists_tagLines`) and their groups. What no single title
changes, the titles of several markers do not change either (`Retitled.congr`).
-/

namespace SymbolDocs

open SymbolDocs.Text

namespace Comment

/-! ## Markers -/

/-- A title as a marker has it: a word character and then characters of titles. -/
def isTitle : List Char → Bool
  | [] => false
  | c :: cs => isWord c && cs.all isTitleChar

/-- A text of characters that may stand in titles. -/
def TitleChars (cs : List Char) : Prop := ∀ c ∈ cs, isTitleChar c = true

/-- A text in front of which a title ends. -/
def EndsTitle (cs : List Char) : Prop := ∀ c ∈ cs.head?, isTitleChar c = false

/-- What stands in front of a place of a comment on its line, without delimiter and gutter. All that stands in front of
the place is `pre`. -/
def lineBefore (pre : List Char) : List Char :=
  match trimLeft pre with
  | '/' :: '*' :: cs => dropGutter (lastLine (dropOpening ('/' :: '*' :: cs)))
  | cs => lastLine cs

/-- A marker of a comment, between what stands in front of it and behind it: an at sign and a title with nothing but
blanks in front of them on their line, where no brace or bracket is open, or anywhere if those of the comment never
close. -/
structure IsMarker (pre name post : List Char) : Prop where
  title : isTitle name = true
  ends : EndsTitle post
  start : ∀ c ∈ lineBefore pre, isBlank c = true
  counts : depthBehind pre = 0 ∨ depthBehind (pre ++ '@' :: (name ++ post)) ≠ 0

instance (cs : List Char) : Decidable (EndsTitle cs) :=
  decidable_of_iff (cs.head?.all (!isTitleChar ·) = true) (by cases cs <;> simp [EndsTitle])

instance (pre name post : List Char) : Decidable (IsMarker pre name post) :=
  decidable_of_iff (isTitle name = true ∧ EndsTitle post ∧ (lineBefore pre).all isBlank = true ∧
      (depthBehind pre = 0 ∨ depthBehind (pre ++ '@' :: (name ++ post)) ≠ 0))
    ⟨fun h => ⟨h.1, h.2.1, List.all_eq_true.1 h.2.2.1, h.2.2.2⟩,
      fun h => ⟨h.title, h.ends, List.all_eq_true.2 h.start, h.counts⟩⟩

variable {c : Char} {cs ds l pre post t : List Char} {lines : List (List Char)}

theorem EndsTitle.of_prefix (h : EndsTitle ds) (hp : cs <+: ds) : EndsTitle cs := by
  obtain ⟨es, rfl⟩ := hp
  intro c hc
  exact h c (by rw [List.head?_append, Option.mem_def.1 hc]; rfl)

/-- The code points of the blanks. -/
def blankCodes : List Nat :=
  List.range' 9 5 ++ List.range' 28 5 ++ [0x85, 0xA0, 0x1680] ++ List.range' 0x2000 11 ++
    [0x2028, 0x2029, 0x202F, 0x205F, 0x3000]

theorem toNat_mem_blankCodes (hc : isBlank c = true) : c.toNat ∈ blankCodes := by
  simp only [isBlank, Bool.or_eq_true, Bool.and_eq_true, decide_eq_true_eq] at hc
  simp only [blankCodes, List.mem_append, List.mem_range'_1, List.mem_cons, List.not_mem_nil, or_false]
  omega

theorem isTitleChar_of_isBlank (hc : isBlank c = true) : isTitleChar c = false := by
  have hall : blankCodes.all (fun n => !isTitleChar (Char.ofNat n)) = true := by decide +kernel
  have hno := List.all_eq_true.1 hall _ (toNat_mem_blankCodes hc)
  rw [Char.ofNat_toNat] at hno
  simpa using hno

theorem isBlank_of_isLineBreak (hc : isLineBreak c = true) : isBlank c = true := by
  simp only [isLineBreak, isBlank, Bool.or_eq_true, Bool.and_eq_true, decide_eq_true_eq] at hc ⊢
  omega

theorem isBlank_of_isTitleChar (hc : isTitleChar c = true) : isBlank c = false := by
  rw [Bool.eq_false_iff]
  intro hb
  rw [isTitleChar_of_isBlank hb] at hc
  cases hc

theorem isBracket_of_isTitleChar (hc : isTitleChar c = true) : isBracket c = false := by
  rw [Bool.eq_false_iff]
  intro hb
  rw [not_of_isBracket (p := isTitleChar) (by decide +kernel) hb] at hc
  cases hc

theorem isLineBreak_of_isBlank (hc : isBlank c = false) : isLineBreak c = false := by
  rw [Bool.eq_false_iff]
  intro hl
  rw [isBlank_of_isLineBreak hl] at hc
  cases hc

theorem ne_of_isTitleChar {d : Char} (hd : isTitleChar d = false) (hc : isTitleChar c = true) :
    decide (c = d) = false := by
  refine decide_eq_false ?_
  rintro rfl
  rw [hd] at hc
  cases hc

theorem titleChars_of_isTitle (ht : isTitle t = true) : TitleChars t := by
  cases t with
  | nil => cases ht
  | cons c cs =>
    rw [isTitle, Bool.and_eq_true, List.all_eq_true] at ht
    refine List.forall_mem_cons.2 ⟨?_, ht.2⟩
    rw [isTitleChar, ht.1]
    rfl

theorem isLineBreak_mark (ht : TitleChars t) : ∀ c ∈ '@' :: t, isLineBreak c = false :=
  List.forall_mem_cons.2 ⟨rfl, fun c hc => isLineBreak_of_isBlank (isBlank_of_isTitleChar (ht c hc))⟩

theorem isBracket_mark (ht : TitleChars t) : ∀ c ∈ '@' :: t, isBracket c = false :=
  List.forall_mem_cons.2 ⟨rfl, fun c hc => isBracket_of_isTitleChar (ht c hc)⟩

theorem exists_concat_mark (ht : TitleChars t) :
    ∃ u e, '@' :: t = u ++ [e] ∧ (e = '@' ∨ isTitleChar e = true) := by
  obtain h | ⟨u, e, h⟩ := List.eq_nil_or_concat ('@' :: t)
  · cases h
  · rw [List.concat_eq_append] at h
    have he : e ∈ '@' :: t := by
      rw [h]
      exact List.mem_append_right _ (List.mem_singleton_self e)
    exact ⟨u, e, h, (List.mem_cons.1 he).imp_right (ht e)⟩

/-! ## The body of a comment around an at sign -/

theorem dropWhile_mark {p : Char → Bool} (hp : p '@' = false) (cs ds : List Char) :
    (cs ++ '@' :: ds).dropWhile p = cs.dropWhile p ++ '@' :: ds := by
  rw [List.dropWhile_append]
  split
  · next hnil =>
    rw [List.isEmpty_iff.1 hnil, List.dropWhile_cons_of_neg (by simp [hp]), List.nil_append]
  · rfl

theorem dropEndWhile_mark {p : Char → Bool} (hsign : p '@' = false) (hp : ∀ c, isTitleChar c = true → p c = false)
    (ht : TitleChars t) (cs ds : List Char) :
    dropEndWhile p (cs ++ '@' :: (t ++ ds)) = cs ++ '@' :: (t ++ dropEndWhile p ds) := by
  obtain ⟨u, e, hmark, he⟩ := exists_concat_mark ht
  have hkept : p e = false := by
    rcases he with rfl | he
    · exact hsign
    · exact hp e he
  have hcons (ds : List Char) : cs ++ '@' :: (t ++ ds) = (cs ++ u) ++ e :: ds := by
    rw [← List.cons_append, hmark]
    simp
  rw [hcons, dropEndWhile_append_cons hkept, hcons]

theorem trim_mark (ht : TitleChars t) (pre post : List Char) :
    trim (pre ++ '@' :: (t ++ post)) = trimLeft pre ++ '@' :: (t ++ trimRight post) := by
  rw [trim_eq, trimLeft, dropWhile_mark rfl, trimRight, dropEndWhile_mark rfl (fun _ => isBlank_of_isTitleChar) ht]
  rfl

theorem dropOpening_eq_self (h : ∀ ds, cs ≠ '/' :: '*' :: '*' :: ds) : dropOpening cs = cs := by
  unfold dropOpening
  split
  · next ds => exact absurd rfl (h ds)
  · rfl

theorem dropOpening_mark (cs ds : List Char) : dropOpening (cs ++ '@' :: ds) = dropOpening cs ++ '@' :: ds := by
  by_cases h : ∃ es, cs = '/' :: '*' :: '*' :: es
  · obtain ⟨es, rfl⟩ := h
    exact dropWhile_mark rfl ..
  · rw [dropOpening_eq_self fun es he => h ⟨es, he⟩, dropOpening_eq_self]
    intro es he
    rcases cs with - | ⟨a, - | ⟨b, - | ⟨c, cs⟩⟩⟩
    · cases he
    · cases he
    · cases he
    · cases he
      exact h ⟨cs, rfl⟩

/-- A closing delimiter behind an at sign stands behind the title. -/
theorem exists_of_append_closing (ht : TitleChars t)
    (h : cs ++ '@' :: (t ++ ds) = l ++ ['*', '/']) : ∃ es, ds = es ++ ['*', '/'] := by
  obtain ⟨u, e, hmark, he⟩ := exists_concat_mark ht
  rw [← List.cons_append, hmark, ← List.append_assoc] at h
  rcases List.append_eq_append_iff.1 h with ⟨es, -, hds⟩ | ⟨es, hl, hclose⟩
  · exact ⟨es, hds⟩
  · rcases List.eq_nil_or_concat es with rfl | ⟨es, d, rfl⟩
    · exact ⟨[], hclose.symm⟩
    · obtain rfl : e = d := by
        have hlast := congrArg List.getLast? hl
        rw [List.concat_eq_append, ← List.append_assoc, ← List.append_assoc, List.getLast?_concat,
          List.getLast?_concat] at hlast
        exact Option.some.inj hlast
      have hmem : e ∈ ['*', '/'] := by rw [hclose]; simp
      simp only [List.mem_cons, List.not_mem_nil, or_false] at hmem
      rcases hmem with rfl | rfl <;> exact absurd he (by decide +kernel)

theorem dropClosing_mark (ht : TitleChars t) (cs ds : List Char) :
    dropClosing (cs ++ '@' :: (t ++ ds)) = cs ++ '@' :: (t ++ dropClosing ds) := by
  by_cases h : ∃ es, ds = es ++ ['*', '/']
  · obtain ⟨es, rfl⟩ := h
    have hassoc : cs ++ '@' :: (t ++ (es ++ ['*', '/'])) = (cs ++ '@' :: (t ++ es)) ++ ['*', '/'] := by simp
    have hstar : isTitleChar '*' = false := by decide +kernel
    rw [hassoc, dropClosing_append, dropClosing_append, dropEndWhile_mark rfl (fun _ => ne_of_isTitleChar hstar) ht,
      trimRight, dropEndWhile_mark rfl (fun _ => isBlank_of_isTitleChar) ht]
    rfl
  · rw [dropClosing_eq_self fun es he => h ⟨es, he⟩,
      dropClosing_eq_self fun es he => h (exists_of_append_closing ht he)]

theorem EndsTitle.dropEndWhile {p : Char → Bool} (h : EndsTitle cs) : EndsTitle (dropEndWhile p cs) :=
  h.of_prefix <| dropEndWhile_prefix cs

theorem EndsTitle.dropClosing (h : EndsTitle cs) : EndsTitle (dropClosing cs) := by
  by_cases hcs : ∃ ds, cs = ds ++ ['*', '/']
  · obtain ⟨ds, rfl⟩ := hcs
    rw [dropClosing_append]
    exact (h.of_prefix <| List.prefix_append ds _).dropEndWhile.dropEndWhile
  · rwa [dropClosing_eq_self fun ds hds => hcs ⟨ds, hds⟩]

theorem dropGutter_mark (cs ds : List Char) : dropGutter (cs ++ '@' :: ds) = dropGutter cs ++ '@' :: ds := by
  unfold dropGutter
  rw [trimLeft, trimLeft, dropWhile_mark rfl]
  rcases cs.dropWhile isBlank with - | ⟨a, cs⟩
  · rfl
  · by_cases ha : a = '*'
    · subst ha
      rcases cs with - | ⟨b, cs⟩
      · rfl
      · by_cases hb : b = ' '
        · subst hb
          rfl
        · simp [hb]
    · simp [ha]

theorem clearIndent_mark (cs ds : List Char) : clearIndent (cs ++ '@' :: ds) = cs ++ '@' :: ds := by
  have hno : isIndent '@' = false := by decide
  simp [clearIndent, hno]

/-- Lines that follow the rest of a line. -/
theorem endsTitle_append_lines (h : EndsTitle cs) (ls : List (List Char)) :
    EndsTitle (cs ++ ls.flatMap ('\n' :: ·)) := by
  cases cs with
  | nil =>
    cases ls with
    | nil => exact nofun
    | cons l ls =>
      intro c hc
      obtain rfl : '\n' = c := by simpa using hc
      exact isTitleChar_of_isBlank rfl
  | cons c cs => exact fun d hd => h d (by simpa using hd)

theorem trimNewlines_mark (ht : TitleChars t) (hl : ∀ c ∈ l, isLineBreak c = false) (x y : List Char) :
    trimNewlines (x ++ (l ++ '@' :: (t ++ y))) =
      x.dropWhile (· = '\n') ++ (l ++ '@' :: (t ++ trimRight (dropEndWhile (· = '\n') y))) := by
  have hnewline : isTitleChar '\n' = false := isTitleChar_of_isBlank rfl
  have hstart : (x ++ (l ++ '@' :: (t ++ y))).dropWhile (· = '\n') =
      x.dropWhile (· = '\n') ++ (l ++ '@' :: (t ++ y)) := by
    rw [List.dropWhile_append]
    split
    · next hnil =>
      have hkeep : l.dropWhile (· = '\n') = l := by
        cases l with
        | nil => rfl
        | cons c l =>
          refine List.dropWhile_cons_of_neg (by simp only [decide_eq_true_eq]; rintro rfl; cases hl '\n' (by simp))
      rw [dropWhile_mark rfl, hkeep, List.isEmpty_iff.1 hnil, List.nil_append]
    · rfl
  rw [trimNewlines, stripWhile, hstart, ← List.append_assoc,
    dropEndWhile_mark rfl (fun _ => ne_of_isTitleChar hnewline) ht, trimRight,
    dropEndWhile_mark rfl (fun _ => isBlank_of_isTitleChar) ht, List.append_assoc]
  rfl

theorem head_append_mark (hl : ∀ c ∈ l, isLineBreak c = false) (cs : List Char) :
    (l ++ '@' :: cs).head? ≠ some '\n' := by
  cases l with
  | nil => simp
  | cons c l =>
    rw [List.cons_append, List.head?_cons]
    rintro ⟨⟩
    cases hl '\n' (by simp)

/-- The lines of a comment around an at sign, without their gutters. -/
theorem exists_gutters {x : List Char} (hx : EndsLine x) (hl : ∀ c ∈ l, isLineBreak c = false)
    (hpost : EndsTitle post) :
    ∃ y, EndsTitle y ∧ ∀ t, TitleChars t →
      joinNewline ((splitLines (x ++ (l ++ '@' :: (t ++ post)))).map dropGutter) =
        ((splitLines x).map dropGutter).flatMap (· ++ ['\n']) ++ (dropGutter l ++ '@' :: (t ++ y)) := by
  obtain ⟨r, ls, hr, hlines⟩ := exists_splitLines_append post
  refine ⟨r ++ (ls.map dropGutter).flatMap ('\n' :: ·), endsTitle_append_lines (hpost.of_prefix hr) _, fun t ht => ?_⟩
  have hline : splitLines (l ++ '@' :: (t ++ post)) = (l ++ '@' :: (t ++ r)) :: ls := by
    have h := hlines (l ++ '@' :: t) (by simp) (List.forall_mem_append.2 ⟨hl, isLineBreak_mark ht⟩)
    simpa using h
  rw [splitLines_append_of_endsLine hx (head_append_mark hl _), hline, List.map_append, List.map_cons, dropGutter_mark,
    joinNewline_append_cons]
  simp

/-- The text of a comment around an at sign, without indentation on lines of indentation alone. -/
theorem exists_dedent (hpre : ∀ c ∈ pre.head?, isBlank c = false) (hpost : EndsTitle post) :
    ∃ (ls : List (List Char)) (m y : List Char), pre = ls.flatMap (· ++ ['\n']) ++ m ∧ EndsTitle y ∧
      ∀ t, TitleChars t → dedent (pre ++ '@' :: (t ++ post)) =
        (ls.map clearIndent).flatMap (· ++ ['\n']) ++ (m ++ '@' :: (t ++ y)) := by
  obtain ⟨ls, m, hls⟩ := (List.eq_nil_or_concat (splitNewline pre)).resolve_left (cutAt_ne_nil _ _)
  rw [List.concat_eq_append] at hls
  obtain ⟨r, ms, hms⟩ := List.exists_cons_of_ne_nil (cutAt_ne_nil (· = '\n') post)
  have hr : r <+: post := head_cutAt_prefix hms
  refine ⟨ls, m, r ++ (ms.map clearIndent).flatMap ('\n' :: ·), ?_,
    endsTitle_append_lines (hpost.of_prefix hr) _, fun t ht => ?_⟩
  · rw [← joinNewline_splitNewline pre, hls, joinNewline_append_cons, List.flatMap_nil, List.append_nil]
  · have hplain : ∀ c ∈ '@' :: t, decide (c = '\n') = false := fun c hc => by
      refine decide_eq_false ?_
      rintro rfl
      cases isLineBreak_mark ht '\n' hc
    have hlines : splitNewline (pre ++ '@' :: (t ++ post)) = ls ++ (m ++ '@' :: (t ++ r)) :: ms := by
      rw [splitNewline, cutAt_append_of_eq hls, ← List.cons_append, cutAt_append hplain, hms]
      rfl
    have hhead : ∀ c ∈ (pre ++ '@' :: (t ++ post)).head?, isBlank c = false := by
      cases pre with
      | nil => exact fun c hc => by cases hc; rfl
      | cons d pre => exact fun c hc => hpre c (by simpa using hc)
    rw [dedent_eq hhead, hlines, List.map_append, List.map_cons, clearIndent_mark, joinNewline_append_cons]
    simp

theorem foldl_read_flatMap (ls : List (List Char)) (k : Count) :
    ((ls.map clearIndent).flatMap (· ++ ['\n'])).foldl Count.read k =
      (ls.flatMap (· ++ ['\n'])).foldl Count.read k := by
  induction ls generalizing k with
  | nil => rfl
  | cons l ls ih =>
    simp only [List.map_cons, List.flatMap_cons, List.foldl_append, foldl_read_clearIndent, ih]

/-- What becomes of a comment around an at sign when it is unwrapped, whatever title stands behind the sign: `x` is the
text of the lines in front, `y` the text behind the title. -/
structure BodyAround (pre post x y : List Char) : Prop where
  line : EndsLine x
  ends : EndsTitle y
  depth : depthBehind (x ++ lineBefore pre) = depthBehind pre
  signs : (x ++ lineBefore pre).count '@' = pre.count '@'
  body : ∀ t, TitleChars t →
    bodyOfTrimmed (trim (pre ++ '@' :: (t ++ post))) = x ++ (lineBefore pre ++ '@' :: (t ++ y))

/-- The text of a block comment around an at sign. -/
theorem exists_bodyAround_block (hpre : trimLeft pre = '/' :: '*' :: cs) (hpost : EndsTitle post) :
    ∃ x y, BodyAround pre post x y := by
  obtain ⟨x, hx, hends, hbreaks⟩ := exists_lastLine (dropOpening (trimLeft pre))
  have hline : lineBefore pre = dropGutter (lastLine (dropOpening (trimLeft pre))) := by
    unfold lineBefore
    rw [hpre]
    rfl
  generalize lastLine (dropOpening (trimLeft pre)) = l at hx hbreaks hline
  have hlast := isLineBreak_dropGutter hbreaks
  have hclosing : EndsTitle (dropClosing (trimRight post)) := hpost.dropEndWhile.dropClosing
  obtain ⟨y, hy, hjoin⟩ := exists_gutters hends hbreaks hclosing
  have hkept : EndsLine ((((splitLines x).map dropGutter).flatMap (· ++ ['\n'])).dropWhile (· = '\n')) :=
    (endsLine_flatMap _).suffix (List.dropWhile_suffix _)
  refine ⟨_, trimRight (dropEndWhile (· = '\n') y), hkept, hy.dropEndWhile.dropEndWhile, ?_, ?_, fun t ht => ?_⟩
  · have hlines : depthBehind (((splitLines x).map dropGutter).flatMap (· ++ ['\n'])) = depthBehind x := by
      rw [depthBehind, splitLines_flatMap (isLineBreak_map_dropGutter x), foldl_depthAfter_dropGutter]
      rfl
    rw [hline, depthBehind_append_line hkept hlast, overlooks_depthBehind.dropNewlines, hlines,
      (overlooks_depthAfter _).dropGutter, ← depthBehind_append_line hends hbreaks, ← hx,
      overlooks_depthBehind.dropOpening, overlooks_depthBehind.trimLeft]
  · rw [hline, List.count_append, overlooks_count.dropNewlines, count_flatMap,
      count_flatten_map overlooks_count.dropGutter, count_splitLines, overlooks_count.dropGutter, ← List.count_append,
      ← hx, overlooks_count.dropOpening, overlooks_count.trimLeft]
  · rw [trim_mark ht, hpre, List.cons_append, List.cons_append, bodyOfTrimmed, ← List.cons_append, ← List.cons_append,
      ← hpre, dropOpening_mark, dropClosing_mark ht, hx, List.append_assoc, hjoin t ht, trimNewlines_mark ht hlast,
      hline]

/-- The text of another comment around an at sign. -/
theorem exists_bodyAround_plain (hpre : ∀ cs, trimLeft pre ≠ '/' :: '*' :: cs) (hpost : EndsTitle post) :
    ∃ x y, BodyAround pre post x y := by
  have hrest : EndsTitle (trimRight post) := hpost.dropEndWhile
  obtain ⟨ls, m, y, hlines, hy, hdedent⟩ := exists_dedent (head_trimLeft pre) hrest
  obtain ⟨x, hx, hends, hbreaks⟩ := exists_lastLine m
  generalize lastLine m = l at hx hbreaks
  rw [hx, ← List.append_assoc] at hlines
  have hline : lineBefore pre = l := by
    unfold lineBefore
    split
    · next cs hcs => exact absurd hcs (hpre cs)
    · rw [hlines, lastLine_append ((endsLine_flatMap ls).append hends) hbreaks]
  have hfront : EndsLine ((ls.map clearIndent).flatMap (· ++ ['\n']) ++ x) := (endsLine_flatMap _).append hends
  have hkept := hfront.suffix (List.dropWhile_suffix (· = '\n'))
  refine ⟨_, trimRight (dropEndWhile (· = '\n') y), hkept, hy.dropEndWhile.dropEndWhile, ?_, ?_, fun t ht => ?_⟩
  · rw [hline, depthBehind_append_line hkept hbreaks, overlooks_depthBehind.dropNewlines,
      ← depthBehind_append_line hfront hbreaks, ← overlooks_depthBehind.trimLeft pre, hlines, depthBehind_eq,
      depthBehind_eq]
    simp only [List.foldl_append, foldl_read_flatMap]
  · rw [hline, ← overlooks_count.trimLeft pre, hlines, List.count_append, overlooks_count.dropNewlines,
      List.count_append, count_flatMap, count_flatten_map count_clearIndent, ← count_flatMap, ← List.count_append,
      ← List.count_append]
  · have hplain : ∀ ds, trimLeft pre ++ '@' :: (t ++ trimRight post) ≠ '/' :: '*' :: ds := by
      intro ds hds
      generalize trimLeft pre = w at hpre hds
      rcases w with - | ⟨a, - | ⟨b, w⟩⟩
      · cases hds
      · cases hds
      · cases hds
        exact hpre w rfl
    have hbody (cs : List Char) (h : ∀ ds, cs ≠ '/' :: '*' :: ds) : bodyOfTrimmed cs = trimNewlines (dedent cs) := by
      unfold bodyOfTrimmed
      split
      · next ds => exact absurd rfl (h ds)
      · rfl
    rw [trim_mark ht, hbody _ hplain, hdedent t ht, hx, List.append_assoc, ← List.append_assoc,
      trimNewlines_mark ht hbreaks, hline]

/-- **The title behind an at sign is kept when a comment is unwrapped**, and so are the numbers of open brackets and of
at signs in front of it. -/
theorem exists_bodyAround (pre : List Char) (hpost : EndsTitle post) : ∃ x y, BodyAround pre post x y := by
  by_cases h : ∃ cs, trimLeft pre = '/' :: '*' :: cs
  · obtain ⟨cs, hcs⟩ := h
    exact exists_bodyAround_block hcs hpost
  · exact exists_bodyAround_plain (fun cs hcs => h ⟨cs, hcs⟩) hpost

theorem isLineBreak_lineBefore (pre : List Char) : ∀ c ∈ lineBefore pre, isLineBreak c = false := by
  have hlast (cs : List Char) : ∀ c ∈ lastLine cs, isLineBreak c = false := by
    obtain ⟨-, -, -, h⟩ := exists_lastLine cs
    exact h
  unfold lineBefore
  split
  · exact isLineBreak_dropGutter (hlast _)
  · exact hlast _

/-! ## The tags of a comment around a marker -/

theorem depthAfter_mark (ht : TitleChars t) (n : Nat) (cs ds : List Char) :
    depthAfter n (cs ++ '@' :: (t ++ ds)) = depthAfter n (cs ++ ds) := by
  have hplain : ('@' :: t).filter isBracket = [] :=
    List.filter_eq_nil_iff.2 fun c hc => by simp [isBracket_mark ht c hc]
  refine depthAfter_congr ?_ n
  rw [List.filter_append, ← List.cons_append, List.filter_append, hplain, List.nil_append, List.filter_append]

theorem takeWhile_title (ht : TitleChars t) (hds : EndsTitle ds) : (t ++ ds).takeWhile isTitleChar = t := by
  rw [List.takeWhile_append_of_pos ht]
  cases ds with
  | nil => simp
  | cons d ds => simp [hds d rfl]

theorem dropWhile_title (ht : TitleChars t) (hds : EndsTitle ds) : (t ++ ds).dropWhile isTitleChar = ds := by
  rw [List.dropWhile_append_of_pos ht]
  cases ds with
  | nil => rfl
  | cons d ds => exact List.dropWhile_cons_of_neg (by simp [hds d rfl])

theorem openIfMarked_mark (hcs : ∀ c ∈ cs, isBlank c = true) (ht : isTitle t = true) (hds : EndsTitle ds) :
    openIfMarked (cs ++ '@' :: (t ++ ds)) = .opening t (dropBang ds) := by
  cases t with
  | nil => cases ht
  | cons c t =>
    rw [isTitle, Bool.and_eq_true, List.all_eq_true] at ht
    have hmarker : marker? (cs ++ '@' :: (c :: t ++ ds)) = some (c :: t, dropBang ds) := by
      rw [marker?, trimLeft, List.dropWhile_append_of_pos hcs, List.dropWhile_cons_of_neg (by decide)]
      exact (if_pos ht.1).trans
        (congrArg₂ (fun a b => some (c :: a, dropBang b)) (takeWhile_title ht.2 hds) (dropWhile_title ht.2 hds))
    rw [openIfMarked, hmarker]

theorem tagLines_eq_ite (lines : List (List Char)) : tagLines lines =
    if lines.foldl depthAfter 0 = 0 then (nestedTagLines 0 lines).1 else lines.map openIfMarked := by
  rw [← nestedTagLines_snd, tagLines]
  split
  · next hfound => rw [hfound, if_pos rfl]
  · next hne =>
    rw [if_neg]
    exact fun hzero => hne _ (Prod.ext rfl hzero)

theorem nestedTagLines_append (n : Nat) (lines rest : List (List Char)) :
    (nestedTagLines n (lines ++ rest)).1 =
      (nestedTagLines n lines).1 ++ (nestedTagLines (lines.foldl depthAfter n) rest).1 := by
  induction lines generalizing n with
  | nil => rfl
  | cons line lines ih => exact congrArg (List.cons _) (ih (depthAfter n line))

/-- Where a marker counts, its line opens a tag, and the other lines are what they are with any other title. -/
theorem exists_tagLines {rest : List (List Char)} (hcs : ∀ c ∈ cs, isBlank c = true) (hds : EndsTitle ds)
    (hcounts : lines.foldl depthAfter 0 = 0 ∨ (lines ++ (cs ++ ds) :: rest).foldl depthAfter 0 ≠ 0) :
    ∃ before after, before.length = lines.length ∧ ∀ t, isTitle t = true →
      tagLines (lines ++ (cs ++ '@' :: (t ++ ds)) :: rest) = before ++ .opening t (dropBang ds) :: after := by
  have hdepth {t : List Char} (ht : isTitle t = true) :
      (lines ++ (cs ++ '@' :: (t ++ ds)) :: rest).foldl depthAfter 0 =
        (lines ++ (cs ++ ds) :: rest).foldl depthAfter 0 := by
    rw [List.foldl_append, List.foldl_append, List.foldl_cons, List.foldl_cons,
      depthAfter_mark (titleChars_of_isTitle ht)]
  by_cases hzero : (lines ++ (cs ++ ds) :: rest).foldl depthAfter 0 = 0
  · -- All is closed at the end: the markers outside brackets count.
    have hlevel := hcounts.resolve_right (not_not_intro hzero)
    refine ⟨(nestedTagLines 0 lines).1, (nestedTagLines (depthAfter 0 (cs ++ ds)) rest).1,
      (forall₂_nestedTagLines 0 lines).length_eq.symm, fun t ht => ?_⟩
    rw [tagLines_eq_ite, hdepth ht, if_pos hzero, nestedTagLines_append, hlevel, nestedTagLines, if_pos rfl,
      openIfMarked_mark hcs ht hds, depthAfter_mark (titleChars_of_isTitle ht)]
  · refine ⟨lines.map openIfMarked, rest.map openIfMarked, List.length_map _, fun t ht => ?_⟩
    rw [tagLines_eq_ite, hdepth ht, if_neg hzero, List.map_append, List.map_cons, openIfMarked_mark hcs ht hds]

/-- The tags of some lines of a comment. -/
def tagsOf (lines : List TagLine) : List RawTag :=
  implicitTag (groupLines lines).1 ++ (groupLines lines).2.map groupTag

theorem groupLines_append_opening (before : List TagLine) (title text : List Char) (after : List TagLine) :
    groupLines (before ++ .opening title text :: after) = ((groupLines before).1,
      (groupLines before).2 ++ (title, text :: (groupLines after).1) :: (groupLines after).2) := by
  induction before with
  | nil => rfl
  | cons line before ih =>
    cases line with
    | plain line => rw [List.cons_append, groupLines, ih]; rfl
    | opening title text => rw [List.cons_append, groupLines, ih]; rfl

theorem tagsOf_append_opening (before : List TagLine) (title text : List Char) (after : List TagLine) :
    tagsOf (before ++ .opening title text :: after) =
      tagsOf before ++ groupTag (title, text :: (groupLines after).1) :: (groupLines after).2.map groupTag := by
  rw [tagsOf, groupLines_append_opening, List.map_append, ← List.append_assoc]
  rfl

/-- The line of a marker opens a tag, whatever title of a marker stands there, and the other lines stay. -/
theorem IsMarker.exists_tagLines {x y name : List Char} (h : IsMarker pre name post) (hb : BodyAround pre post x y) :
    ∃ before text after, before.length = (splitLines x).length ∧ ∀ t, isTitle t = true →
      tagLines (splitLines (body (String.ofList (pre ++ '@' :: (t ++ post)))).toList) =
        before ++ .opening t text :: after := by
  obtain ⟨r, ls, hr, hlines⟩ := exists_splitLines_append y
  have hbreaks := isLineBreak_lineBefore pre
  have hsplit {t : List Char} (ht : isTitle t = true) :
      splitLines (body (String.ofList (pre ++ '@' :: (t ++ post)))).toList =
        splitLines x ++ (lineBefore pre ++ '@' :: (t ++ r)) :: ls := by
    have hline := hlines (lineBefore pre ++ '@' :: t) (by simp)
      (List.forall_mem_append.2 ⟨hbreaks, isLineBreak_mark (titleChars_of_isTitle ht)⟩)
    rw [body, String.toList_ofList, String.toList_ofList, hb.body t (titleChars_of_isTitle ht),
      splitLines_append_of_endsLine hb.line (head_append_mark hbreaks _)]
    simpa using hline
  have hcounts : (splitLines x).foldl depthAfter 0 = 0 ∨
      (splitLines x ++ (lineBefore pre ++ r) :: ls).foldl depthAfter 0 ≠ 0 := by
    refine h.counts.imp (fun hzero => ?_) fun hne => ?_
    · have hplain : ∀ c ∈ lineBefore pre, isBracket c = false := fun c hc => isBracket_of_isBlank (h.start c hc)
      rwa [← hb.depth, depthBehind_append_right hplain] at hzero
    · have hbehind := depthBehind_body (String.ofList (pre ++ '@' :: (name ++ post)))
      rw [depthBehind, hsplit h.title, List.foldl_append, List.foldl_cons,
        depthAfter_mark (titleChars_of_isTitle h.title), ← List.foldl_cons, ← List.foldl_append,
        String.toList_ofList] at hbehind
      rwa [hbehind]
  obtain ⟨before, after, hlength, htags⟩ := Comment.exists_tagLines h.start (hb.ends.of_prefix hr) hcounts
  exact ⟨before, dropBang r, after, hlength, fun t ht => by rw [hsplit ht, htags t ht]⟩

/-- **The title of a marker is the title of a tag and nothing else.** With any title in its place the comment has the
same tags, of which one has this title. -/
theorem IsMarker.exists_rawTags {name : List Char} (h : IsMarker pre name post) :
    ∃ before text after, ∀ t, isTitle t = true → rawTags (body (String.ofList (pre ++ '@' :: (t ++ post)))) =
      before ++ { title := String.ofList t, text } :: after := by
  obtain ⟨x, y, hb⟩ := exists_bodyAround pre h.ends
  obtain ⟨before, text, after, -, htags⟩ := h.exists_tagLines hb
  refine ⟨tagsOf before, String.ofList (joinNewline (text :: (groupLines after).1)),
    (groupLines after).2.map groupTag, fun t ht => ?_⟩
  have htag := tagsOf_append_opening before t text after
  rwa [← htags t ht] at htag

/-! ## Several markers -/

/-- The titles of some markers of a comment are replaced by others, to which a relation takes them. The parts of the two
comments behind `pre` are related. -/
inductive Retitled (R : String → String → Prop) : List Char → List Char → List Char → Prop
  | nil (pre : List Char) : Retitled R pre [] []
  | keep {pre cs ds : List Char} (c : Char) (h : Retitled R (pre ++ [c]) cs ds) : Retitled R pre (c :: cs) (c :: ds)
  | replace {pre name other post post' : List Char} (hm : IsMarker pre name post) (ho : isTitle other = true)
      (hR : R (String.ofList name) (String.ofList other)) (h : Retitled R (pre ++ '@' :: name) post post') :
      Retitled R pre ('@' :: (name ++ post)) ('@' :: (other ++ post'))

namespace Retitled

variable {R : String → String → Prop}

theorem keeps (h : Retitled R (pre ++ l) cs ds) : Retitled R pre (l ++ cs) (l ++ ds) := by
  induction l generalizing pre with
  | nil => rwa [List.append_nil] at h
  | cons c l ih => exact .keep c (ih (by rwa [List.append_assoc]))

theorem refl (pre cs : List Char) : Retitled R pre cs cs := by
  have h := keeps (l := cs) (Retitled.nil (R := R) (pre ++ cs))
  rwa [List.append_nil] at h

theorem endsTitle (h : Retitled R pre cs ds) (hcs : EndsTitle cs) : EndsTitle ds := by
  cases h with
  | nil => exact hcs
  | keep c h => exact fun d hd => hcs d hd
  | replace => exact fun d hd => by cases hd; decide +kernel

/-- The other titles have no brackets either. -/
theorem foldl_read (h : Retitled R pre cs ds) (k : Count) : cs.foldl Count.read k = ds.foldl Count.read k := by
  have hmark {t : List Char} (ht : isTitle t = true) (k : Count) : ('@' :: t).foldl Count.read k = k :=
    Count.foldl_read_plain (fun c hc => ⟨isBracket_mark (titleChars_of_isTitle ht) c hc,
      isLineBreak_mark (titleChars_of_isTitle ht) c hc⟩) k
  induction h generalizing k with
  | nil => rfl
  | keep c h ih => exact ih (k.read c)
  | replace hm ho hR h ih =>
    rw [← List.cons_append, ← List.cons_append, List.foldl_append, List.foldl_append, hmark hm.title, hmark ho, ih]

theorem depthBehind_eq (h : Retitled R pre cs ds) (front : List Char) :
    depthBehind (front ++ cs) = depthBehind (front ++ ds) := by
  rw [Comment.depthBehind_eq, Comment.depthBehind_eq, List.foldl_append, List.foldl_append, h.foldl_read]

/-- **What no single title changes, several titles do not change.** -/
theorem congr {α : Type} {f : List Char → α}
    (hf : ∀ pre name other post, IsMarker pre name post → isTitle other = true →
      R (String.ofList name) (String.ofList other) →
      f (pre ++ '@' :: (name ++ post)) = f (pre ++ '@' :: (other ++ post)))
    (h : Retitled R pre cs ds) : f (pre ++ cs) = f (pre ++ ds) := by
  induction h with
  | nil => rfl
  | @keep pre cs ds c h ih => simpa using ih
  | @replace pre name other post post' hm ho hR h ih =>
    -- The last titles are replaced first, so that what stands in front of a marker is as it was.
    have hmarker : IsMarker pre name post' := by
      refine ⟨hm.title, h.endsTitle hm.ends, hm.start, hm.counts.imp_right fun hne => ?_⟩
      have hdepth := h.depthBehind_eq (pre ++ '@' :: name)
      simp only [List.append_assoc, List.cons_append] at hdepth
      rwa [← hdepth]
    calc f (pre ++ '@' :: (name ++ post)) = f (pre ++ '@' :: (name ++ post')) := by simpa using ih
      _ = f (pre ++ '@' :: (other ++ post')) := hf pre name other post' hmarker ho hR

end Retitled

end Comment
end SymbolDocs
