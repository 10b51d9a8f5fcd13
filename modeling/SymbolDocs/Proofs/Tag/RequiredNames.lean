import SymbolDocs.Proofs.Grammar.Lookup
import SymbolDocs.Proofs.Tag.Feasible
import SymbolDocs.Proofs.Tag.PathTags
import SymbolDocs.Proofs.Tag.Structured

/-!
# Tags that must name a path

A tag with a required name path is dropped if its text is blank. This is decided before the braces around a path are
taken off, so a text that starts with braces around blanks passes, and the path that is read is empty
(`Tag.readValue_eq_empty_iff`). In all other texts the path has a character: a word starts with one that is no blank
(`Tag.ne_nil_of_scanWord`). `Tag.required_names` says this of all such definitions, and of the tags of the built-in
grammars that name other symbols.
-/

namespace SymbolDocs

open SymbolDocs.Text

/-- A definition of tags that must name a path. -/
structure Definition.RequiresPath (d : Definition) : Prop where
  shape : d.shape = .namePath
  required : d.mustHaveValue = true

namespace Tag

variable {dict : Dictionary} {location : Location} {raw : RawTag} {d : Definition} {text : String} {c : Char}
  {cs word inner rest : List Char}

/-- A text that starts with braces around nothing but blanks. -/
def EmptyBraces (cs : List Char) : Prop :=
  ∃ blanks rest, cs = '\x7b' :: (blanks ++ '\x7d' :: rest) ∧ ∀ c ∈ blanks, isBlank c = true

theorem emptyBraces_iff :
    EmptyBraces cs ↔ cs.head? = some '\x7b' ∧ (trimLeft cs.tail).head? = some '\x7d' := by
  constructor
  · rintro ⟨blanks, rest, rfl, hblanks⟩
    rw [List.tail_cons, trimLeft, List.dropWhile_append_of_pos hblanks, List.dropWhile_cons_of_neg (by decide)]
    exact ⟨rfl, rfl⟩
  · rintro ⟨hopener, hcloser⟩
    obtain ⟨tail, rfl⟩ := List.head?_eq_some_iff.1 hopener
    obtain ⟨rest, hrest⟩ := List.head?_eq_some_iff.1 hcloser
    refine ⟨tail.takeWhile isBlank, rest, ?_, fun c hc => List.all_eq_true.1 List.all_takeWhile c hc⟩
    rw [← hrest, List.tail_cons, trimLeft_append]

instance (cs : List Char) : Decidable (EmptyBraces cs) := decidable_of_iff _ emptyBraces_iff.symm

/-! ## Reading a path -/

/-- A word that starts with no blank has a character. -/
theorem ne_nil_of_scanWord (hb : isBlank c = false) (h : scanWord (c :: cs) = .ok (word, rest)) : word ≠ [] := by
  have hcons {found : Except ScanFault (List Char × List Char)} (hf : found.map (consFst c) = .ok (word, rest)) :
      word ≠ [] := by
    obtain ⟨p, -, hp⟩ := map_eq_ok.1 hf
    obtain rfl : c :: p.1 = word := congrArg Prod.fst hp
    exact List.cons_ne_nil c p.1
  rw [scanWord, scanOutside] at h
  split at h
  · exact hcons h
  · split at h
    · exact hcons h
    · split at h
      · cases h
      · rw [hb] at h
        exact hcons h

/-- Braces are read as the empty path if they stand around nothing but blanks. -/
theorem scanBraces_blank_iff :
    (∃ inner rest, scanBraces cs = .ok (inner, rest) ∧ trim inner = []) ↔ EmptyBraces ('\x7b' :: cs) := by
  constructor
  · rintro ⟨inner, rest, hscan, htrim⟩
    obtain ⟨rfl, -⟩ := scanBraces_eq_ok_iff.1 hscan
    exact ⟨inner, rest, rfl, stripWhile_eq_nil_iff.1 htrim⟩
  · rintro ⟨blanks, rest, heq, hblanks⟩
    cases heq
    have hne (b : Char) (hb : isBlank b = false) : b ∉ blanks := fun hm => by simp [hblanks b hm] at hb
    have hnested : Nested '\x7b' '\x7d' blanks := nested_of_not_mem (hne _ rfl) (hne _ rfl)
    exact ⟨blanks, rest, scanBraces_append hnested rest, stripWhile_eq_nil_iff.2 hblanks⟩

theorem ok_ofList_eq_empty {ε : Type} : (.ok (String.ofList cs) : Except ε String) = .ok "" ↔ cs = [] := by
  rw [Except.ok.injEq, ← String.toList_inj, String.toList_ofList]
  rfl

/-- **When a text that is not blank is read as the empty path.** -/
theorem readNamePath_eq_empty_iff (hne : trim text.toList ≠ []) :
    readNamePath text = .ok "" ↔ EmptyBraces (trim text.toList) := by
  unfold readNamePath
  split
  · next hnil => exact absurd hnil hne
  · next cs hcs =>
    rw [hcs, ← scanBraces_blank_iff]
    split
    · next inner rest hscan =>
      rw [ok_ofList_eq_empty, hscan]
      constructor
      · exact fun htrim => ⟨inner, rest, rfl, htrim⟩
      · rintro ⟨_, _, heq, htrim⟩
        cases heq
        exact htrim
    · next fault hscan =>
      rw [hscan]
      exact ⟨nofun, fun ⟨_, _, heq, _⟩ => nomatch heq⟩
  · next hbraces =>
    obtain ⟨c, cs, hcs⟩ := List.exists_cons_of_ne_nil hne
    rw [hcs] at hbraces ⊢
    have hnot : ¬ EmptyBraces (c :: cs) := by
      rintro ⟨blanks, rest, heq, -⟩
      exact hbraces _ heq
    refine ⟨fun h => ?_, fun h => absurd h hnot⟩
    split at h
    · next word rest hscan =>
      have hhead := head_trim text.toList
      rw [hcs] at hhead
      exact absurd (ok_ofList_eq_empty.1 h) (ne_nil_of_scanWord (hhead _ rfl) hscan)
    · cases h

/-! ## Reading a required path -/

/-- The text of a tag that is not empty is not blank either. -/
theorem trim_trimFor_ne_nil (h : trimFor d text ≠ []) : trim (trimFor d text) ≠ [] := by
  unfold trimFor at h ⊢
  split at h
  · next hkeeps =>
    rw [if_pos hkeeps]
    intro htrim
    have hblank := stripWhile_eq_nil_iff.1 htrim
    rw [trimNewlines, trimRight] at h hblank
    rw [← dropEndWhile_dropEndWhile, dropEndWhile_eq_nil_iff.2 hblank] at h
    exact h rfl
  · next hkeeps => rwa [if_neg hkeeps, trim_trim]

/-- **When the value of a tag that must name a path is the empty text.** -/
theorem readValue_eq_empty_iff (hd : d.RequiresPath) (text : String) :
    (readValue d text).2 = .ok (some (.text "")) ↔
      d.mustNotHaveValue = false ∧ EmptyBraces (trim (trimFor d text)) := by
  unfold readValue
  cases hcs : trimFor d text with
  | nil =>
    have hnot : ¬ EmptyBraces (trim []) := by
      rintro ⟨blanks, rest, heq, -⟩
      cases heq
    dsimp only
    rw [if_pos hd.required]
    exact ⟨nofun, fun h => absurd h.2 hnot⟩
  | cons c cs =>
    have hne : trim (String.ofList (c :: cs)).toList ≠ [] := by
      rw [String.toList_ofList, ← hcs]
      exact trim_trimFor_ne_nil (by simp [hcs])
    have hread := readNamePath_eq_empty_iff hne
    rw [String.toList_ofList] at hread
    dsimp only
    cases hpermits : d.mustNotHaveValue with
    | true => simp
    | false =>
      rw [if_neg Bool.false_ne_true, readShape, hd.shape, ← hread, map_eq_ok]
      constructor
      · rintro ⟨path, hpath, heq⟩
        cases heq
        exact ⟨rfl, hpath⟩
      · rintro ⟨-, hpath⟩
        exact ⟨"", hpath, rfl⟩

/-- What is read for a tag that must name a path is a text. -/
theorem exists_path_of_readValue {value : Option TagValue} (hd : d.RequiresPath)
    (h : (readValue d text).2 = .ok value) : ∃ path, value = some (.text path) :=
  text_of_readValue (by simp [Definition.givesText, hd.required, hd.shape]) (Prod.ext rfl h)

/-! ## Tags of the built-in grammars -/

/-- The names of the tags that name another symbol, or the symbol itself. -/
def namingTags : List String :=
  ["augments", "mixes", "implements", "alias", "lends", "listens", "fires", "requires", "callback", "memberof"]

/-- What the grammars ask of the tags that name a symbol. -/
structure NamesSymbol (d : Definition) : Prop extends d.TakesPath, d.RequiresPath where
  effects_ne_nil : d.effects ≠ []

theorem namesSymbol_of_mem (g : Grammar) {d : Definition} (hd : d ∈ Grammar.sharedTags ++ g.definitions)
    (hn : d.name ∈ namingTags) : NamesSymbol d := by
  have hall : ∀ d ∈ Grammar.sharedTags ++ g.definitions, d.name ∈ namingTags → d.shape = .namePath ∧
      d.mustHaveValue = true ∧ d.mustNotHaveValue = false ∧ d.keepsWhitespace = false ∧ d.effects.isEmpty = false := by
    cases g <;> decide +kernel
  obtain ⟨hshape, hrequired, hpermits, htrims, heffects⟩ := hall d hd hn
  exact { shape := hshape, required := hrequired, permits := hpermits, trims := htrims,
          effects_ne_nil := by simpa using heffects }

theorem namesSymbol_of_definitionOf? {names : List String} {allowUnknown : AllowUnknown}
    (h : Grammar.buildAll names allowUnknown = .ok dict) (hd : definitionOf? dict raw = some d)
    (hn : d.name ∈ namingTags) : NamesSymbol d :=
  of_definitionOf? (P := fun d => d.name ∈ namingTags → NamesSymbol d)
    (Grammar.buildAll_all (fun g _ hd => namesSymbol_of_mem g hd) h) (fun hn => absurd hn (by decide)) hd hn

/-- A tag that names a symbol comes to its effects with a path, which is empty for braces around nothing but blanks. -/
theorem NamesSymbol.value_of_readRawTag {tag : Tag} (hd : NamesSymbol d) (hdef : definitionOf? dict raw = some d)
    (hread : (readRawTag dict location raw).2 = some tag) :
    effectsOf dict tag = d.effects ∧
      ∃ path, tag.value = some (.text path) ∧ (path = "" ↔ EmptyBraces (trim raw.text.toList)) := by
  rw [readRawTag, hdef] at hread
  obtain ⟨ht, ho, hv⟩ := tag_of_readKnown hread
  obtain ⟨path, hpath⟩ := exists_path_of_readValue hd.toRequiresPath hv
  have hempty := readValue_eq_empty_iff hd.toRequiresPath raw.text
  rw [hv, hpath, trimFor_of_takesPath hd.toTakesPath, trim_trim] at hempty
  refine ⟨effectsOf_of_definitionOf? hdef ht ho, path, hpath, ?_⟩
  constructor
  · rintro rfl
    exact (hempty.1 rfl).2
  · intro hbraces
    have heq := hempty.2 ⟨hd.permits, hbraces⟩
    cases heq
    rfl

/-- **Required names.** The value of a tag that must name a path is a text, if the tag is not dropped, and it is the
empty text exactly if the text of the tag starts with braces around nothing but blanks. So the tags of the built-in
grammars that name a symbol come to their effects with an empty name for these texts, and for no others. -/
theorem required_names (d : Definition) :
    (d.RequiresPath → ∀ text,
      (∀ value, (readValue d text).2 = .ok value → ∃ path, value = some (.text path)) ∧
      ((readValue d text).2 = .ok (some (.text "")) ↔
        d.mustNotHaveValue = false ∧ EmptyBraces (trim (trimFor d text)))) ∧
    ∀ names allowUnknown dict raw, Grammar.buildAll names allowUnknown = .ok dict → definitionOf? dict raw = some d →
      d.name ∈ namingTags → ∀ location tag, (readRawTag dict location raw).2 = some tag →
        effectsOf dict tag = d.effects ∧ d.effects ≠ [] ∧
          ∃ path, tag.value = some (.text path) ∧ (path = "" ↔ EmptyBraces (trim raw.text.toList)) := by
  constructor
  · exact fun hd text => ⟨fun value h => exists_path_of_readValue hd h, readValue_eq_empty_iff hd text⟩
  · intro names allowUnknown dict raw hbuilt hdef hn location tag hread
    have hd := namesSymbol_of_definitionOf? hbuilt hdef hn
    obtain ⟨heffects, hvalue⟩ := hd.value_of_readRawTag hdef hread
    exact ⟨heffects, hd.effects_ne_nil, hvalue⟩

/-- The definition of the tag for the owner of a symbol. -/
def owner : Definition :=
  { name := "memberof", effects := Grammar.store .memberof, shape := .namePath, mustHaveValue := true }

/-- A tag that names the owner in braces. -/
theorem required_names_memberof :
    let dict := Grammar.jsdoc.dictionary
    let raw : RawTag := { title := "memberof", text := " \x7bRoom\x7d the owner" }
    Grammar.buildAll ["jsdoc"] (.all false) = .ok dict ∧ definitionOf? dict raw = some owner ∧
      owner.name ∈ namingTags ∧ owner.RequiresPath ∧ (readValue owner raw.text).2 ≠ .ok (some (.text "")) ∧
      ∃ tag, (readRawTag dict {} raw).2 = some tag ∧ effectsOf dict tag ≠ [] ∧
        ∃ path, tag.value = some (.text path) ∧ path ≠ "" := by
  intro dict raw
  have hbuilt : Grammar.buildAll ["jsdoc"] (.all false) = .ok dict := by with_unfolding_all rfl
  have hmem : owner ∈ Grammar.jsdocTags := by simp [Grammar.jsdocTags, owner]
  have hlookup : dict.lookup "memberof" = some owner := Grammar.lookup_jsdoc (List.mem_append_right _ hmem) _
  have hdef : definitionOf? dict raw = some owner := by rw [definitionOf?, hlookup, Option.some_or]
  have hnames : raw.Names "memberof" "Room" := ⟨rfl, by decide +kernel, by decide⟩
  obtain ⟨tag, hread, -, -⟩ := readRawTag_of_names hlookup ⟨rfl, rfl, rfl⟩ hnames {}
  have htag : (readRawTag dict {} raw).2 = some tag := congrArg Prod.snd hread
  have hbraces : ¬ EmptyBraces (trim raw.text.toList) := by decide +kernel
  obtain ⟨hvalues, htags⟩ := required_names owner
  obtain ⟨heffects, hne, path, hpath, hempty⟩ := htags _ _ _ raw hbuilt hdef (by decide) {} tag htag
  refine ⟨hbuilt, hdef, by decide, ⟨rfl, rfl⟩, fun hvalue => ?_, tag, htag, heffects ▸ hne, path, hpath,
    fun hp => hbraces (hempty.1 hp)⟩
  have hreads := ((hvalues ⟨rfl, rfl⟩ raw.text).2.1 hvalue).2
  rw [trimFor_of_takesPath ⟨rfl, rfl, rfl⟩, trim_trim] at hreads
  exact hbraces hreads

/-- A tag that names nothing in its braces is not dropped: the doclet augments the empty name. -/
theorem required_name_empty :
    let dict := Grammar.jsdoc.dictionary
    let comment := "/** @augments \x7b\x7d */"
    ((dict.lookup "augments").map fun d => (d.shape, d.mustHaveValue)) = some (.namePath, true) ∧
      (readComment dict {} comment).1 = [] ∧
      (applyAll dict {} (readComment dict {} comment).2 {}).1 = [] ∧
      ((applyAll dict {} (readComment dict {} comment).2 {}).2.toOption.map fun d => d.declared.augments) =
        some [""] := by
  rw [Grammar.jsdoc_dictionary_eq]
  decide +kernel

end Tag
end SymbolDocs
