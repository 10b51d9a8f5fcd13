import SymbolDocs.Proofs.Text.Trimming
import SymbolDocs.Tag.Applying

/-!
# Tags that name a path

The text of some tags is a name path. Where a comment has such a tag, reading the comment gives a tag with that path
for its value, which has the effects of its title (`Tag.mem_readComment_of_hasTag`). A comment of nothing else gives
nothing else (`Tag.readComment_of_isTag`).
-/

namespace SymbolDocs

open SymbolDocs.Text

/-! ## Comments -/

/-- A tag `@title path` as it stands in a comment. -/
structure RawTag.Names (raw : RawTag) (title path : String) : Prop where
  title_eq : raw.title = title
  reads : Tag.readNamePath raw.text = .ok path
  path_ne_empty : path ≠ ""

namespace Comment

/-- A comment in which a tag `@title path` stands. -/
def HasTag (comment title path : String) : Prop := ∃ raw ∈ rawTags (body comment), raw.Names title path

/-- A comment of nothing but a tag `@title path`. -/
def IsTag (comment title path : String) : Prop := ∃ raw, rawTags (body comment) = [raw] ∧ raw.Names title path

/-- A blank comment has no tags. -/
theorem rawTags_of_allBlank {comment : String} (h : allBlank comment = true) : rawTags (body comment) = [] := by
  have htrim : trim comment.toList = [] := stripWhile_eq_nil_iff.2 (List.all_eq_true.1 h)
  rw [body, htrim]
  decide +kernel

end Comment

/-! ## Reading -/

/-- A definition of tags that take a name path. -/
structure Definition.TakesPath (d : Definition) : Prop where
  shape : d.shape = .namePath
  trims : d.keepsWhitespace = false
  permits : d.mustNotHaveValue = false

namespace Tag

variable {dict : Dictionary} {d : Definition} {raw : RawTag} {title path text comment : String}

/-- A path is read from the trimmed text. -/
theorem readNamePath_trim (text : String) : readNamePath (String.ofList (trim text.toList)) = readNamePath text := by
  unfold readNamePath
  rw [String.toList_ofList, trim_trim]

theorem trimFor_of_takesPath (hd : d.TakesPath) (text : String) : trimFor d text = trim text.toList := by
  rw [trimFor, hd.trims]
  rfl

theorem readValue_of_path (hd : d.TakesPath) (h : readNamePath text = .ok path) (hp : path ≠ "") :
    readValue d text = (none, .ok (some (.text path))) := by
  have hread := readNamePath_trim text
  unfold readValue
  rw [trimFor_of_takesPath hd]
  cases ht : trim text.toList with
  | nil =>
    rw [readNamePath, ht] at h
    cases h
    exact absurd rfl hp
  | cons c cs =>
    rw [ht, h] at hread
    simp only [hd.permits, Bool.false_eq_true, if_false, readShape, hd.shape, hread, Except.map, Function.comp_apply]

/-- A tag that names a path is read without diagnostics, and has the effects of its title. -/
theorem readRawTag_of_names (hl : dict.lookup title = some d) (hd : d.TakesPath) (h : raw.Names title path)
    (location : Location) : ∃ tag, readRawTag dict location raw = ([], some tag) ∧ tag.value = some (.text path) ∧
      effectsOf dict tag = d.effects := by
  obtain ⟨rfl, hread, hp⟩ := h
  have hdef : definitionOf? dict raw = some d := by rw [definitionOf?, hl, Option.some_or]
  refine ⟨{ title := d.name, text := strip raw.text, originalTitle := some raw.title, value := some (.text path) },
    ?_, rfl, ?_⟩
  · simp only [readRawTag, hdef, readKnown, readValue_of_path hd hread hp]
    rfl
  · rw [effectsOf, Option.getD_some, hl, Option.some_or, Option.map_some, Option.getD_some]

theorem mem_readComment_of_hasTag (hl : dict.lookup title = some d) (hd : d.TakesPath)
    (h : Comment.HasTag comment title path) (location : Location) :
    ∃ tag ∈ (readComment dict location comment).2, tag.value = some (.text path) ∧ effectsOf dict tag = d.effects := by
  obtain ⟨raw, hraw, hnames⟩ := h
  obtain ⟨tag, hread, htag⟩ := readRawTag_of_names hl hd hnames location
  have hmem : ([], some tag) ∈ (Comment.rawTags (Comment.body comment)).map (readRawTag dict location) := by
    rw [← hread]
    exact List.mem_map_of_mem hraw
  refine ⟨tag, ?_, htag⟩
  rw [readComment, List.mem_filterMap]
  exact ⟨_, hmem, rfl⟩

theorem readComment_of_isTag (hl : dict.lookup title = some d) (hd : d.TakesPath)
    (h : Comment.IsTag comment title path) (location : Location) :
    ∃ tag, readComment dict location comment = ([], [tag]) ∧ tag.value = some (.text path) ∧
      effectsOf dict tag = d.effects := by
  obtain ⟨raw, hraw, hnames⟩ := h
  obtain ⟨tag, hread, htag⟩ := readRawTag_of_names hl hd hnames location
  exact ⟨tag, by simp [readComment, hraw, hread], htag⟩

end Tag

end SymbolDocs
