import SymbolDocs.Grammar.Dictionary
import SymbolDocs.Proofs.Outcome
import SymbolDocs.Tag.Applying

/-!
# Tags that are only stored

A tag without effects goes to the end of the stored tags of the doclet and does nothing else. No effect with a built-in
rule or none reads the stored tags or writes them (`Effect.apply_setTags`), so what the other tags of a comment do is
what they do alone (`Tag.applyAll_filter_stores`). Tags that a dictionary does not define, but allows, are among those
that are only stored, with one exception: a tag with the title of descriptions is applied as the text before the first
tag is, even if it is explicit (`Tag.unknown_tags`).
-/

namespace SymbolDocs

open SymbolDocs.Text

/-- The tag that a raw tag without definition becomes. -/
def RawTag.kept (raw : RawTag) : Tag :=
  { title := raw.title, text := strip raw.text, originalTitle := some raw.title
    value := (nonempty (some (strip raw.text))).map .text }

namespace Doclet

/-- The doclet with other stored tags. -/
def setTags (d : Doclet) (tags : List Tag) : Doclet := { d with tags }

theorem tags_setTags (d : Doclet) (ts : List Tag) : (d.setTags ts).tags = ts := rfl

theorem setTags_self (d : Doclet) : d.setTags d.tags = d := rfl

theorem withTag_eq_setTags (d : Doclet) (tag : Tag) : d.withTag tag = d.setTags (d.tags ++ [tag]) := rfl

end Doclet

variable {dict : Dictionary} {tag : Tag} {tags ts : List Tag} {d : Doclet} {location : Location} {raw : RawTag}

/-! ## Effects and the stored tags -/

theorem setText_setTags (d : Doclet) (ts : List Tag) (text : Option String) (field : TextField) :
    (d.setTags ts).setText text field = (d.setText text field).setTags ts := by
  cases field <;> rfl

theorem setFlag_setTags (d : Doclet) (ts : List Tag) (b : Bool) (field : FlagField) :
    (d.setTags ts).setFlag b field = (d.setFlag b field).setTags ts := by
  cases field <;> rfl

theorem appendValue_setTags (d : Doclet) (ts : List Tag) (v : TagValue) (field : ListField) :
    (d.setTags ts).appendValue v field = (d.appendValue v field).setTags ts := by
  cases field <;> rfl

theorem assign_setTags (d : Doclet) (ts : List Tag) (datum : Option Datum) (field : ScalarField) :
    (d.setTags ts).assign datum field = (d.assign datum field).setTags ts := by
  cases field with
  | text field => rcases datum with - | (b | (t | spec | v)) <;> first | exact setText_setTags d ts _ field | rfl
  | flag field => rcases datum with - | (b | v) <;> first | exact setFlag_setTags d ts _ field | rfl
  | scope => rfl
  | type => rcases datum with - | (b | (t | spec | v)) <;> rfl
  | deprecated => rfl

theorem stateKind_setTags (d : Doclet) (ts : List Tag) (tag : Tag) (kind : String) :
    (d.setTags ts).stateKind tag kind = (d.stateKind tag kind).setTags ts := by
  unfold Doclet.stateKind Doclet.tagNameIfNonempty
  dsimp only
  split
  · split <;> rfl
  · split <;> rfl
  · rfl

theorem store_setTags (d : Doclet) (ts : List Tag) (tag : Tag) (datum : Option Datum) (field : ScalarField) :
    (d.setTags ts).store tag datum field = (d.store tag datum field).map (·.setTags ts) := by
  unfold Doclet.store
  extract_lets text
  clear_value text
  split
  · split <;> rfl
  · split <;> rfl
  · split
    · rfl
    · split <;> rfl
  · rw [assign_setTags]
    rfl

theorem Handler.apply_setTags (handler : Handler) (tag : Tag) (d : Doclet) (ts : List Tag) :
    handler.apply tag (d.setTags ts) = (handler.apply tag d).map (·.setTags ts) := by
  cases handler with
  | access | kind =>
    simp only [Handler.apply]
    split <;> rfl
  | augments | mixes | fires | listens | requires =>
    simp only [Handler.apply]
    cases tag.statedText <;> rfl
  | template =>
    simp only [Handler.apply]
    cases tag.optionalText <;> rfl
  | borrows =>
    simp only [Handler.apply]
    cases tag.optionalText with
    | error => rfl
    | ok text =>
      simp only [Except.bind]
      split <;> rfl
  | callback =>
    simp only [Handler.apply, Doclet.tagNameIfNonempty]
    split <;> rfl
  | constant =>
    simp only [Handler.apply, Doclet.tagNameIfNonempty]
    split
    · split <;> rfl
    · rfl
  | type | define =>
    simp only [Handler.apply]
    split <;> rfl
  | _ => rfl

/-- **An effect does not read the stored tags and leaves them alone.** -/
theorem Effect.apply_setTags (e : Effect) (tag : Tag) (d : Doclet) (ts : List Tag) :
    e.apply tag (d.setTags ts) = (e.apply tag d).map (·.setTags ts) := by
  cases e with
  | store field fixed => exact store_setTags ..
  | append field =>
    simp only [Effect.apply]
    split
    · rw [appendValue_setTags]
      rfl
    · rfl
  | assign field datum =>
    simp only [Effect.apply]
    rw [assign_setTags]
    rfl
  | addModifier modifier => rfl
  | stateKind kind =>
    simp only [Effect.apply]
    rw [stateKind_setTags]
    rfl
  | rule handler => exact Handler.apply_setTags ..

theorem Effect.tags_of_apply {d' : Doclet} {e : Effect} (h : e.apply tag d = .ok d') : d'.tags = d.tags := by
  have hkeeps := e.apply_setTags tag d d.tags
  rw [Doclet.setTags_self, h] at hkeeps
  have hsame : d' = d'.setTags d.tags := Except.ok.inj hkeeps
  calc d'.tags = (d'.setTags d.tags).tags := congrArg Doclet.tags hsame
    _ = d.tags := rfl

/-! ## Tags without effects -/

namespace Tag

/-- The tag has no effects, so that it is stored. -/
def stores (dict : Dictionary) (tag : Tag) : Bool := (effectsOf dict tag).isEmpty

/-- All that a tag does, in front of any other tags, is to go to the end of the stored tags. -/
def OnlyStored (dict : Dictionary) (tag : Tag) : Prop :=
  ∀ location tags d, applyAll dict location (tag :: tags) d = applyAll dict location tags (d.withTag tag)

/-- The outcome of applying tags, with other stored tags. -/
def restored (ts : List Tag) (applied : List Diagnostic × Except Obstacle Doclet) :
    List Diagnostic × Except Obstacle Doclet :=
  (applied.1, applied.2.map (·.setTags ts))

theorem restored_restored (ts ts' : List Tag) (applied : List Diagnostic × Except Obstacle Doclet) :
    restored ts' (restored ts applied) = restored ts' applied := by
  obtain ⟨found, result⟩ := applied
  cases result <;> rfl

theorem runEffects_setTags (tag : Tag) (es : List Effect) (d : Doclet) (ts : List Tag) :
    runEffects tag es (d.setTags ts) = ((runEffects tag es d).1.setTags ts, (runEffects tag es d).2) := by
  induction es generalizing d with
  | nil => rfl
  | cons e es ih =>
    rw [runEffects, runEffects, Effect.apply_setTags, Effect.leave_builtIn, Effect.leave_builtIn]
    cases e.apply tag d with
    | ok d' => exact ih d'
    | error fault => rfl

theorem tags_runEffects (tag : Tag) (es : List Effect) (d : Doclet) : (runEffects tag es d).1.tags = d.tags := by
  have h := runEffects_setTags tag es d d.tags
  rw [Doclet.setTags_self] at h
  exact congrArg (·.1.tags) h

theorem applyAll_cons_of_stores (h : stores dict tag = true) (location : Location) (tags : List Tag) (d : Doclet) :
    applyAll dict location (tag :: tags) d = applyAll dict location tags (d.withTag tag) := by
  rw [applyAll, List.isEmpty_iff.1 h]

theorem applyAll_cons_of_not_stores (h : stores dict tag = false) (location : Location) (tags : List Tag)
    (d : Doclet) :
    applyAll dict location (tag :: tags) d =
      match runEffects tag (effectsOf dict tag) d with
      | (d', none) => applyAll dict location tags d'
      | (d', some (.value problem)) =>
        (.ofProblem problem location :: (applyAll dict location tags d').1, (applyAll dict location tags d').2)
      | (_, some (.fatal obstacle)) => ([], .error obstacle) := by
  rw [applyAll]
  split
  · next hnil =>
    rw [stores, hnil] at h
    cases h
  · rfl

/-- Tags with effects do not see the stored tags. -/
theorem applyAll_setTags (h : ∀ tag ∈ tags, stores dict tag = false) (location : Location) (d : Doclet)
    (ts : List Tag) : applyAll dict location tags (d.setTags ts) = restored ts (applyAll dict location tags d) := by
  induction tags generalizing d with
  | nil => rfl
  | cons tag tags ih =>
    obtain ⟨htag, htags⟩ := List.forall_mem_cons.1 h
    rw [applyAll_cons_of_not_stores htag, applyAll_cons_of_not_stores htag, runEffects_setTags]
    obtain ⟨d', fault⟩ := runEffects tag (effectsOf dict tag) d
    rcases fault with - | (problem | obstacle)
    · exact ih htags d'
    · dsimp only
      rw [ih htags d']
      rfl
    · rfl

/-- **The other tags do what they do alone**, and the tags without effects go to the end of the stored tags. -/
theorem applyAll_filter_stores (dict : Dictionary) (location : Location) (tags : List Tag) (d : Doclet) :
    applyAll dict location tags d =
      restored (d.tags ++ tags.filter (stores dict))
        (applyAll dict location (tags.filter (!stores dict ·)) d) := by
  induction tags generalizing d with
  | nil =>
    rw [List.filter_nil, List.filter_nil, List.append_nil]
    rfl
  | cons tag tags ih =>
    cases hstores : stores dict tag with
    | true =>
      have hothers : ∀ other ∈ tags.filter (!stores dict ·), stores dict other = false := fun other hm => by
        simpa using (List.mem_filter.1 hm).2
      rw [applyAll_cons_of_stores hstores, ih, List.filter_cons_of_pos hstores,
        List.filter_cons_of_neg (by simp [hstores]), Doclet.withTag_eq_setTags, applyAll_setTags hothers,
        restored_restored, Doclet.tags_setTags, List.append_assoc, List.singleton_append]
    | false =>
      rw [List.filter_cons_of_neg (by simp [hstores]), List.filter_cons_of_pos (by simp [hstores]),
        applyAll_cons_of_not_stores hstores, applyAll_cons_of_not_stores hstores,
        ← tags_runEffects tag (effectsOf dict tag) d]
      obtain ⟨d', fault⟩ := runEffects tag (effectsOf dict tag) d
      rcases fault with - | (problem | obstacle)
      · exact ih d'
      · dsimp only
        rw [ih d']
        rfl
      · rfl

/-- The stored tags after some tags. -/
theorem tags_of_applyAll {d' : Doclet} (h : (applyAll dict location tags d).2 = .ok d') :
    d'.tags = d.tags ++ tags.filter (stores dict) := by
  rw [applyAll_filter_stores] at h
  obtain ⟨other, -, rfl⟩ := map_eq_ok.1 h
  rfl

/-- A tag with effects never goes to the stored tags. -/
theorem onlyStored_iff : OnlyStored dict tag ↔ stores dict tag = true := by
  refine ⟨fun h => ?_, applyAll_cons_of_stores⟩
  have hresult : (applyAll dict {} [tag] {}).2 = .ok (Doclet.withTag {} tag) := congrArg Prod.snd (h {} [] {})
  have htags : [tag] = [tag].filter (stores dict) := tags_of_applyAll hresult
  exact List.filter_eq_self.1 htags.symm tag (List.mem_singleton_self tag)

/-! ## Tags that a dictionary does not define -/

theorem readRawTag_of_unknown (hi : raw.implicit = false) (hl : dict.lookup raw.title = none)
    (ha : dict.allows raw.title = true) (location : Location) :
    readRawTag dict location raw = ([], some raw.kept) := by
  have hnone : definitionOf? dict raw = none := by simp [definitionOf?, hl, hi]
  rw [readRawTag, hnone]
  dsimp only
  rw [readUnknown, if_pos ha]
  dsimp only [RawTag.kept, nonempty]
  by_cases he : (strip raw.text).isEmpty = true <;> simp [he, Option.filter]

theorem effectsOf_kept (hl : dict.lookup raw.title = none) :
    effectsOf dict raw.kept = if raw.title = "description" then leadingDescription.effects else [] := by
  rw [effectsOf, RawTag.kept, Option.getD_some, hl, Option.none_or]
  split <;> rfl

theorem stores_kept (hl : dict.lookup raw.title = none) : stores dict raw.kept = true ↔ raw.title ≠ "description" := by
  rw [stores, effectsOf_kept hl]
  split
  · next ht => exact ⟨nofun, fun hne => absurd ht hne⟩
  · next hne => exact ⟨fun _ => hne, fun _ => rfl⟩

/-- A tag with the title of descriptions is applied as the text before the first tag is. -/
theorem applyAll_cons_description (hl : dict.lookup raw.title = none) (ht : raw.title = "description")
    (location : Location) (tags : List Tag) (d : Doclet) :
    applyAll dict location (raw.kept :: tags) d =
      applyAll dict location tags { d with description := nonempty (some (strip raw.text)) } := by
  have heffects : effectsOf dict raw.kept = leadingDescription.effects := by rw [effectsOf_kept hl, if_pos ht]
  have happly : Effect.apply raw.kept d (.store (.text .description) none : Effect) =
      .ok { d with description := nonempty (some (strip raw.text)) } := by
    simp only [Effect.apply, RawTag.kept, Option.none_or]
    cases nonempty (some (strip raw.text)) <;> rfl
  rw [applyAll, heffects]
  dsimp only [leadingDescription]
  rw [runEffects, happly]
  rfl

/-- **Allowed unknown tags.** An explicit tag that the dictionary does not define, but allows, is kept with its title
and its text without the blanks around it. All that it does is to go to the end of the stored tags, exactly if its
title is not that of descriptions: then it sets the description, as the text before the first tag does. Whatever the
tags of a comment are, those that are only stored stand behind the stored tags of the doclet in their order, and for
the rest the doclet and the diagnostics are what the other tags alone make of it, for rules that leave stored tags
alone, as the built-in ones do. -/
theorem unknown_tags (dict : Dictionary) (readAt appliedAt : Location) (comment : String) (d : Doclet) :
    let tags := (readComment dict readAt comment).2
    let others := applyAll dict appliedAt (tags.filter (!stores dict ·)) d
    tags = (Comment.rawTags (Comment.body comment)).filterMap (fun raw => (readRawTag dict readAt raw).2) ∧
    (∀ raw, raw.implicit = false → dict.lookup raw.title = none → dict.allows raw.title = true →
      readRawTag dict readAt raw = ([], some raw.kept) ∧
      (OnlyStored dict raw.kept ↔ raw.title ≠ "description") ∧
      (raw.title = "description" → ∀ tags d, applyAll dict appliedAt (raw.kept :: tags) d =
        applyAll dict appliedAt tags { d with description := nonempty (some (strip raw.text)) })) ∧
    (∀ tag, stores dict tag = true ↔ OnlyStored dict tag) ∧
    applyAll dict appliedAt tags d =
      (others.1, others.2.map fun d' => { d' with tags := d.tags ++ tags.filter (stores dict) }) := by
  intro tags others
  refine ⟨?_, fun raw hi hl ha => ?_, fun tag => onlyStored_iff.symm, applyAll_filter_stores ..⟩
  · simp only [tags, readComment, List.filterMap_map, Function.comp_def]
  · exact ⟨readRawTag_of_unknown hi hl ha readAt, onlyStored_iff.trans (stores_kept hl),
      fun ht tags d => applyAll_cons_description hl ht appliedAt tags d⟩

/-- The grammar "closure" has neither a tag for reviews nor one for descriptions. -/
theorem lookup_closure_eq_none :
    ∀ title ∈ ["review", "description"], (Grammar.closure.dictionary (.all true)).lookup title = none := by
  have hnone : ∀ title ∈ ["review", "description"],
      ((Grammar.closure.dictionary (.all true)).lookup title).isNone = true := by
    decide +kernel
  exact fun title ht => Option.isNone_iff_eq_none.1 (hnone title ht)

/-- An unknown tag beside one of the grammar. -/
theorem unknown_tags_review :
    let dict := Grammar.closure.dictionary (.all true)
    let raw : RawTag := { title := "review", text := " soon" }
    Comment.rawTags (Comment.body "/** @review soon\n@final */") = [raw, { title := "final", text := "" }] ∧
      dict.lookup raw.title = none ∧ dict.allows raw.title = true ∧
      readRawTag dict {} raw = ([], some raw.kept) ∧ OnlyStored dict raw.kept := by
  intro dict raw
  have hl : dict.lookup raw.title = none := lookup_closure_eq_none "review" (by simp)
  have ha : dict.allows raw.title = true := rfl
  obtain ⟨hread, honly, -⟩ := (unknown_tags dict {} {} "" {}).2.1 raw rfl hl ha
  exact ⟨by decide +kernel, hl, ha, hread, honly.2 (by decide)⟩

/-- An explicit tag for a description is not stored where the grammar does not have it: it sets the description. -/
theorem description_not_stored :
    let dict := Grammar.closure.dictionary (.all true)
    let comment := "/** @description A room. */"
    let raw : RawTag := { title := "description", text := " A room." }
    Comment.rawTags (Comment.body comment) = [raw] ∧ raw.implicit = false ∧ dict.lookup raw.title = none ∧
      dict.allows raw.title = true ∧ (readComment dict {} comment).2 = [raw.kept] ∧
      applyAll dict {} (readComment dict {} comment).2 {} = ([], .ok { description := some "A room." }) := by
  intro dict comment raw
  have hraws : Comment.rawTags (Comment.body comment) = [raw] := by decide +kernel
  have hl : dict.lookup raw.title = none := lookup_closure_eq_none "description" (by simp)
  have ha : dict.allows raw.title = true := rfl
  have hread : (readComment dict {} comment).2 = [raw.kept] := by
    simp [readComment, hraws, readRawTag_of_unknown rfl hl ha]
  have hdescription : nonempty (some (strip raw.text)) = some "A room." := by decide +kernel
  refine ⟨hraws, rfl, hl, ha, hread, ?_⟩
  rw [hread, applyAll_cons_description hl rfl, hdescription, applyAll]

end Tag
end SymbolDocs
