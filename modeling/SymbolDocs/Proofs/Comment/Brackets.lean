import Mathlib.Data.List.Infix
import SymbolDocs.Proofs.Comment.Lines

/-!
# Tags do not cut brackets

Where the braces and square brackets of a text are balanced, a line opens a tag exactly if it starts with a marker and
no bracket is open in front of it, and the text of every tag is balanced again (`rawTags_balanced`).

Which lines open a tag depends on the depth that is counted from line to line: this holds of every text
(`exists_blocks`), and the lines fall into blocks, each of which makes a tag. In a balanced text the count is that of the
brackets, and it comes back to zero (`foldl_depthAfter`), so that a block has balanced brackets between two such points
(`Balanced.middle`).
-/

namespace SymbolDocs

open SymbolDocs.Text

namespace Comment

/-! ## Balanced brackets -/

/-- How many braces and square brackets a text opens. -/
def openCount (cs : List Char) : Nat := cs.countP fun c => c = '\x7b' || c = '['

/-- How many braces and square brackets a text closes. -/
def closeCount (cs : List Char) : Nat := cs.countP fun c => c = '\x7d' || c = ']'

/-- The braces and square brackets of a text are balanced: no beginning closes more of them than it opens, and the whole
text closes as many as it opens. -/
structure Balanced (cs : List Char) : Prop where
  covered : ∀ before, before <+: cs → closeCount before ≤ openCount before
  closed : closeCount cs = openCount cs

instance (cs : List Char) : Decidable (Balanced cs) :=
  decidable_of_iff ((∀ before ∈ cs.inits, closeCount before ≤ openCount before) ∧ closeCount cs = openCount cs)
    ⟨fun h => ⟨fun before hb => h.1 before ((List.mem_inits before cs).2 hb), h.2⟩,
      fun h => ⟨fun before hb => h.covered before ((List.mem_inits before cs).1 hb), h.closed⟩⟩

/-- A brace or a square bracket. -/
def isBracket (c : Char) : Bool := (c = '\x7b' || c = '[') || (c = '\x7d' || c = ']')

variable {cs ds mid line : List Char}

theorem openCount_append (cs ds : List Char) : openCount (cs ++ ds) = openCount cs + openCount ds :=
  List.countP_append

theorem closeCount_append (cs ds : List Char) : closeCount (cs ++ ds) = closeCount cs + closeCount ds :=
  List.countP_append

theorem openCount_filter (cs : List Char) : openCount (cs.filter isBracket) = openCount cs := by
  rw [openCount, List.countP_filter]
  exact List.countP_congr fun c _ => by simp +contextual [isBracket]

theorem closeCount_filter (cs : List Char) : closeCount (cs.filter isBracket) = closeCount cs := by
  rw [closeCount, List.countP_filter]
  exact List.countP_congr fun c _ => by simp +contextual [isBracket]

/-- Only the brackets matter. -/
theorem balanced_filter_iff : Balanced (cs.filter isBracket) ↔ Balanced cs := by
  constructor
  · refine fun h => ⟨fun before hb => ?_, ?_⟩
    · rw [← openCount_filter, ← closeCount_filter]
      exact h.covered _ (hb.filter isBracket)
    · rw [← openCount_filter, ← closeCount_filter]
      exact h.closed
  · refine fun h => ⟨fun before hb => ?_, ?_⟩
    · obtain ⟨whole, hw, rfl⟩ := List.prefix_filter_iff.1 hb
      rw [openCount_filter, closeCount_filter]
      exact h.covered whole hw
    · rw [openCount_filter, closeCount_filter]
      exact h.closed

theorem balanced_congr (h : cs.filter isBracket = ds.filter isBracket) : Balanced cs ↔ Balanced ds := by
  rw [← balanced_filter_iff, h, balanced_filter_iff]

/-- Between two points of a balanced text at which nothing is open, the brackets are balanced. -/
theorem Balanced.middle (h : Balanced (cs ++ mid ++ ds)) (hstart : closeCount cs = openCount cs)
    (hend : closeCount (cs ++ mid) = openCount (cs ++ mid)) : Balanced mid := by
  rw [openCount_append, closeCount_append] at hend
  refine ⟨fun before hb => ?_, by omega⟩
  have hprefix : cs ++ before <+: cs ++ mid ++ ds :=
    ((List.prefix_append_right_inj cs).2 hb).trans (List.prefix_append _ _)
  have hcovered := h.covered _ hprefix
  rw [openCount_append, closeCount_append] at hcovered
  omega

/-! ## Brackets of lines -/

theorem isBracket_iff {c : Char} : isBracket c = true ↔ c ∈ ['\x7b', '[', '\x7d', ']'] := by
  simp [isBracket, or_assoc]

theorem not_of_isBracket {p : Char → Bool} (hp : ['\x7b', '[', '\x7d', ']'].all (!p ·) = true) {c : Char}
    (h : isBracket c = true) : p c = false := by
  simpa using List.all_eq_true.1 hp c (isBracket_iff.1 h)

/-- A text of characters of a class without brackets has no brackets. -/
theorem filter_isBracket_eq_nil {p : Char → Bool} (hp : ['\x7b', '[', '\x7d', ']'].all (!p ·) = true)
    (h : ∀ c ∈ cs, p c = true) : cs.filter isBracket = [] := by
  rw [List.filter_eq_nil_iff]
  intro c hc hb
  have hno := not_of_isBracket hp hb
  rw [h c hc] at hno
  cases hno

theorem isBracket_of_isLineBreak {c : Char} (h : isLineBreak c = true) : isBracket c = false := by
  rw [Bool.eq_false_iff]
  intro hb
  have hno : isLineBreak c = false := not_of_isBracket (by decide) hb
  rw [hno] at h
  cases h

/-- Cutting a text into lines loses no bracket. -/
theorem filter_splitLines (cs : List Char) : (splitLines cs).flatten.filter isBracket = cs.filter isBracket := by
  fun_induction splitLines cs with
  | case1 => rfl
  | case2 cs ih => exact ih
  | case3 c cs _ hc ih => rw [List.filter_cons_of_neg (by simp [isBracket_of_isLineBreak hc]), ← ih]; rfl
  | case4 c cs _ hc hnil ih =>
    rw [hnil] at ih
    rw [← List.singleton_append (l := cs), List.filter_append, ← ih]
    simp
  | case5 c cs _ hc l ls hcons ih =>
    rw [hcons] at ih
    rw [← List.singleton_append (l := cs), List.filter_append, ← ih, ← List.filter_append]
    rfl

/-- Joining lines adds no bracket. -/
theorem filter_joinNewline (ls : List (List Char)) :
    (joinNewline ls).filter isBracket = ls.flatten.filter isBracket := by
  induction ls with
  | nil => rfl
  | cons l ls ih =>
    cases ls with
    | nil => simp [joinNewline]
    | cons m ls =>
      rw [joinNewline, List.filter_append, List.filter_cons_of_neg (by decide), ih, ← List.filter_append]
      rfl

/-- A marker has no brackets: those of a line stand behind it. -/
theorem filter_of_marker? {title first : List Char} (h : marker? line = some (title, first)) :
    first.filter isBracket = line.filter isBracket := by
  have htitle : title.filter isBracket = [] := by
    unfold marker? at h
    split at h
    · next c cs _ =>
      split at h
      · next hc =>
        cases h
        refine filter_isBracket_eq_nil (p := isTitleChar) (by decide +kernel) (List.forall_mem_cons.2 ⟨?_, ?_⟩)
        · simp [isTitleChar, hc]
        · exact fun d hd => List.all_eq_true.1 List.all_takeWhile d hd
      · cases h
    · cases h
  cases writes_of_marker? h with
  | @opening blanks _ bang _ hblanks hbang =>
    have hblank : blanks.filter isBracket = [] := filter_isBracket_eq_nil (by decide) hblanks
    have hmark : bang.filter isBracket = [] := by rcases hbang with rfl | rfl <;> rfl
    rw [List.filter_append, List.filter_append, List.filter_append, List.filter_cons_of_neg (by decide), hblank,
      htitle, hmark]
    rfl

/-! ## Depth -/

/-- As long as no line closes more than is open, the depth behind some lines is what they have left open. -/
theorem foldl_depthAfter {depth : Nat} {lines : List (List Char)}
    (h : ∀ before, before <+: lines → closeCount before.flatten ≤ depth + openCount before.flatten) :
    lines.foldl depthAfter depth + closeCount lines.flatten = depth + openCount lines.flatten := by
  induction lines generalizing depth with
  | nil => rfl
  | cons line lines ih =>
    have hdepth : depthAfter depth line + closeCount line = depth + openCount line := by
      have hline := h [line] (List.cons_prefix_cons.2 ⟨rfl, List.nil_prefix⟩)
      rw [List.flatten_singleton] at hline
      exact Nat.sub_add_cancel hline
    have hrest : ∀ before, before <+: lines →
        closeCount before.flatten ≤ depthAfter depth line + openCount before.flatten := by
      intro before hb
      have hlines := h (line :: before) (List.cons_prefix_cons.2 ⟨rfl, hb⟩)
      rw [List.flatten_cons, openCount_append, closeCount_append] at hlines
      omega
    have hlast := ih hrest
    rw [List.foldl_cons, List.flatten_cons, openCount_append, closeCount_append]
    omega

theorem nestedTagLines_snd (depth : Nat) (lines : List (List Char)) :
    (nestedTagLines depth lines).2 = lines.foldl depthAfter depth := by
  induction lines generalizing depth with
  | nil => rfl
  | cons line lines ih => exact ih (depthAfter depth line)

/-! ## Blocks -/

/-- The lines of an explicit tag: a line with a marker, and lines that follow it. -/
structure Block where
  line : List Char
  title : List Char
  /-- What stands behind the marker. -/
  first : List Char
  rest : List (List Char)
  marked : marker? line = some (title, first)

namespace Block

/-- The lines of the comment that make up a block. -/
def lines (b : Block) : List (List Char) := b.line :: b.rest

/-- The tag that a block makes. -/
def tag (b : Block) : RawTag :=
  { title := String.ofList b.title, text := String.ofList (joinNewline (b.first :: b.rest)) }

end Block

/-- Behind some lines, of which the first ones belong to no block, one of the blocks starts. -/
def StartsBehind (lead : List (List Char)) (blocks : List Block) (before : List (List Char)) : Prop :=
  ∃ bs b bs', blocks = bs ++ b :: bs' ∧ before = lead ++ bs.flatMap Block.lines

theorem startsBehind_nil_cons {b : Block} {blocks : List Block} : StartsBehind [] (b :: blocks) [] :=
  ⟨[], b, blocks, rfl, rfl⟩

/-- Behind the first line of a block the others are the lines in front of the next one. -/
theorem startsBehind_cons_iff {b : Block} {blocks : List Block} {before : List (List Char)} :
    StartsBehind [] (b :: blocks) (b.line :: before) ↔ StartsBehind b.rest blocks before := by
  constructor
  · rintro ⟨bs, b', bs', hblocks, hbefore⟩
    cases bs with
    | nil => cases hbefore
    | cons b₁ bs =>
      obtain ⟨rfl, rfl⟩ := List.cons.inj hblocks
      exact ⟨bs, b', bs', rfl, (List.cons.inj hbefore).2⟩
  · rintro ⟨bs, b', bs', rfl, rfl⟩
    exact ⟨b :: bs, b', bs', rfl, rfl⟩

theorem startsBehind_lead_iff {lead : List (List Char)} {blocks : List Block} {before : List (List Char)} :
    StartsBehind (line :: lead) blocks (line :: before) ↔ StartsBehind lead blocks before := by
  simp [StartsBehind]

/-- **In every text the lines fall into blocks.** A block starts where a line has a marker and the depth is zero. -/
theorem exists_blocks (depth : Nat) (lines : List (List Char)) : ∃ lead blocks,
    lines = lead ++ blocks.flatMap Block.lines ∧
    groupLines (nestedTagLines depth lines).1 = (lead, blocks.map fun b => (b.title, b.first :: b.rest)) ∧
    ∀ before line after, lines = before ++ line :: after →
      (StartsBehind lead blocks before ↔ (marker? line).isSome = true ∧ before.foldl depthAfter depth = 0) := by
  induction lines generalizing depth with
  | nil => exact ⟨[], [], rfl, rfl, fun before line after h => absurd h (by simp)⟩
  | cons line lines ih =>
    obtain ⟨lead, blocks, hlines, hgroups, hstarts⟩ := ih (depthAfter depth line)
    have hstay (hno : ¬ ((marker? line).isSome = true ∧ depth = 0)) : ∀ before line' after,
        line :: lines = before ++ line' :: after → (StartsBehind (line :: lead) blocks before ↔
          (marker? line').isSome = true ∧ before.foldl depthAfter depth = 0) := by
      intro before line' after h
      cases before with
      | nil =>
        obtain ⟨rfl, rfl⟩ := List.cons.inj h
        refine iff_of_false ?_ hno
        rintro ⟨bs, b, bs', -, hb⟩
        cases hb
      | cons first before =>
        obtain ⟨rfl, hrest⟩ := List.cons.inj h
        rw [startsBehind_lead_iff, hstarts before line' after hrest, List.foldl_cons]
    by_cases hd : depth = 0
    · cases hm : marker? line with
      | none =>
        refine ⟨line :: lead, blocks, congrArg (line :: ·) hlines, ?_, hstay (by simp [hm])⟩
        rw [nestedTagLines, if_pos hd, openIfMarked, hm, groupLines, hgroups]
      | some marked =>
        obtain ⟨title, first⟩ := marked
        refine ⟨[], ⟨line, title, first, lead, hm⟩ :: blocks, congrArg (line :: ·) hlines, ?_, ?_⟩
        · rw [nestedTagLines, if_pos hd, openIfMarked, hm, groupLines, hgroups]
          rfl
        · intro before line' after h
          cases before with
          | nil =>
            obtain ⟨rfl, rfl⟩ := List.cons.inj h
            exact iff_of_true startsBehind_nil_cons ⟨by rw [hm]; rfl, hd⟩
          | cons first' before =>
            obtain ⟨rfl, hrest⟩ := List.cons.inj h
            exact startsBehind_cons_iff.trans (hstarts before line' after hrest)
    · refine ⟨line :: lead, blocks, congrArg (line :: ·) hlines, ?_, hstay fun hb => hd hb.2⟩
      rw [nestedTagLines, if_neg hd, groupLines, hgroups]

/-! ## Tags -/

variable {text : String} {lead : List (List Char)} {blocks : List Block}

/-- The beginnings of the lines of a balanced text close no more than they open. -/
theorem Balanced.covered_lines (h : Balanced cs) {before : List (List Char)} (hb : before <+: splitLines cs) :
    closeCount before.flatten ≤ openCount before.flatten := by
  have hlines : Balanced (splitLines cs).flatten := (balanced_congr (filter_splitLines cs)).2 h
  obtain ⟨after, hafter⟩ := hb
  exact hlines.covered _ ⟨after.flatten, by rw [← List.flatten_append, hafter]⟩

/-- In a balanced text the depth is the number of brackets that are open. -/
theorem Balanced.foldl_depthAfter_eq_zero_iff (h : Balanced cs) {before : List (List Char)}
    (hb : before <+: splitLines cs) :
    before.foldl depthAfter 0 = 0 ↔ closeCount before.flatten = openCount before.flatten := by
  have hcovered (before' : List (List Char)) (hb' : before' <+: before) :
      closeCount before'.flatten ≤ 0 + openCount before'.flatten := by
    rw [Nat.zero_add]
    exact h.covered_lines (hb'.trans hb)
  have hdepth := foldl_depthAfter hcovered
  omega

/-- All markers outside brackets count: nothing is left open at the end. -/
theorem Balanced.tagLines_eq (h : Balanced cs) : tagLines (splitLines cs) = (nestedTagLines 0 (splitLines cs)).1 := by
  have hclosed : Balanced (splitLines cs).flatten := (balanced_congr (filter_splitLines cs)).2 h
  have hlast : (nestedTagLines 0 (splitLines cs)).2 = 0 := by
    rw [nestedTagLines_snd, h.foldl_depthAfter_eq_zero_iff List.prefix_rfl]
    exact hclosed.closed
  unfold tagLines
  split
  · next found hfound => rw [hfound]
  · next hne => exact (hne _ (Prod.ext rfl hlast)).elim

/-- The text of a block has the brackets of its lines. -/
theorem Block.balanced_tag_iff (b : Block) : Balanced b.tag.text.toList ↔ Balanced b.lines.flatten := by
  rw [Block.tag, String.toList_ofList]
  refine balanced_congr ?_
  rw [filter_joinNewline, List.flatten_cons, List.filter_append, filter_of_marker? b.marked, ← List.filter_append]
  rfl

theorem balanced_implicitTag (h : Balanced lead.flatten) : ∀ tag ∈ implicitTag lead, Balanced tag.text.toList := by
  intro tag htag
  unfold implicitTag at htag
  dsimp only at htag
  split at htag
  · cases htag
  · obtain rfl := List.mem_singleton.1 htag
    rw [String.toList_ofList]
    exact (balanced_congr (filter_joinNewline lead)).2 h

/-- If blocks start only where nothing is open, the text of every tag is balanced. -/
theorem balanced_text (h : Balanced (lead ++ blocks.flatMap Block.lines).flatten)
    (hlevel : ∀ bs bs', blocks = bs ++ bs' → closeCount (lead ++ bs.flatMap Block.lines).flatten =
      openCount (lead ++ bs.flatMap Block.lines).flatten) :
    ∀ tag ∈ implicitTag lead ++ blocks.map Block.tag, Balanced tag.text.toList := by
  refine List.forall_mem_append.2 ⟨balanced_implicitTag ?_, List.forall_mem_map.2 fun b hb => ?_⟩
  · have hsplit : Balanced ([] ++ lead.flatten ++ (blocks.flatMap Block.lines).flatten) := by
      rwa [List.nil_append, ← List.flatten_append]
    refine hsplit.middle rfl ?_
    simpa using hlevel [] blocks rfl
  · obtain ⟨bs, bs', hblocks⟩ := List.append_of_mem hb
    have hsplit : Balanced ((lead ++ bs.flatMap Block.lines).flatten ++ b.lines.flatten ++
        (bs'.flatMap Block.lines).flatten) := by
      rw [hblocks] at h
      simpa [List.flatten_append] using h
    refine b.balanced_tag_iff.2 (hsplit.middle (hlevel bs (b :: bs') hblocks) ?_)
    simpa [List.flatten_append] using hlevel (bs ++ [b]) bs' (by simpa using hblocks)

/-- **Tags do not cut brackets.** If the brackets of a text are balanced, its lines fall into some that belong to no
explicit tag and then the blocks of the explicit tags, in their order. One of the blocks starts at a line exactly if the
line has a marker and no bracket is open in front of it, and the text of every tag has balanced brackets. -/
theorem rawTags_balanced (h : Balanced text.toList) : ∃ lead blocks,
    splitLines text.toList = lead ++ blocks.flatMap Block.lines ∧
    rawTags text = implicitTag lead ++ blocks.map Block.tag ∧
    (∀ before line after, splitLines text.toList = before ++ line :: after →
      (StartsBehind lead blocks before ↔
        (marker? line).isSome = true ∧ closeCount before.flatten = openCount before.flatten)) ∧
    ∀ tag ∈ rawTags text, Balanced tag.text.toList := by
  obtain ⟨lead, blocks, hlines, hgroups, hstarts⟩ := exists_blocks 0 (splitLines text.toList)
  have htags : rawTags text = implicitTag lead ++ blocks.map Block.tag := by
    rw [rawTags_eq, h.tagLines_eq, hgroups, List.map_map]
    rfl
  have hlevel : ∀ before line after, splitLines text.toList = before ++ line :: after →
      (StartsBehind lead blocks before ↔
        (marker? line).isSome = true ∧ closeCount before.flatten = openCount before.flatten) := by
    intro before line after heq
    rw [hstarts before line after heq, h.foldl_depthAfter_eq_zero_iff (heq ▸ List.prefix_append _ _)]
  have hclosed : Balanced (splitLines text.toList).flatten := (balanced_congr (filter_splitLines text.toList)).2 h
  refine ⟨lead, blocks, hlines, htags, hlevel, ?_⟩
  rw [htags]
  refine balanced_text (hlines ▸ hclosed) fun bs bs' hblocks => ?_
  cases bs' with
  | nil =>
    rw [List.append_nil] at hblocks
    rw [← hblocks, ← hlines]
    exact hclosed.closed
  | cons b bs' =>
    refine ((hlevel _ b.line (b.rest ++ bs'.flatMap Block.lines) ?_).1 ⟨bs, b, bs', hblocks, rfl⟩).2
    rw [hlines, hblocks]
    simp [Block.lines]

/-- A marker in braces and one behind a bracket that its own line closes, between markers that count. -/
theorem rawTags_balanced_nested :
    let text := "lead\n@one \x7ba\n @two\n[\x7d\n@three ]\n @four! [b]"
    Balanced text.toList ∧ ∃ lead blocks,
      splitLines text.toList = lead ++ blocks.flatMap Block.lines ∧
      rawTags text = implicitTag lead ++ blocks.map Block.tag ∧
      (∀ before line after, splitLines text.toList = before ++ line :: after →
        (StartsBehind lead blocks before ↔
          (marker? line).isSome = true ∧ closeCount before.flatten = openCount before.flatten)) ∧
      ∀ tag ∈ rawTags text, Balanced tag.text.toList := by
  intro text
  have h : Balanced text.toList := by decide +kernel
  exact ⟨h, rawTags_balanced h⟩

end Comment
end SymbolDocs
