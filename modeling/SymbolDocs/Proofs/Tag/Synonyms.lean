import SymbolDocs.Proofs.Comment.Openings
import SymbolDocs.Proofs.Grammar.Assembly
import SymbolDocs.Proofs.Tag.Unknown

/-!
# Titles of the same definition are interchangeable

A tag of a comment may be written with the name of its definition, with a synonym of it, or with another case of the
first letter. If some titles of a comment are replaced by others for which the dictionary has the same definition, the
tags that are read are the same except for the titles they remember from the comment (`Tag.untitled`), and the doclet to
which they are applied is the same except for these titles in its stored tags (`Doclet.untitled`).

The title of a raw tag goes to two places, the remembered title and the wording of a diagnostic (`readRawTag_retitled`).
The remembered title is looked up once more when the tag is applied, which gives the same effects. That the effects do
the same is a matter of the rules of the dictionary: none of them may depend on the remembered titles
(`Dictionary.IgnoresTitles`), which a rule is free to read. The built-in ones do not (`Handler.ignoresTitles`).
-/

namespace SymbolDocs

open SymbolDocs.Text

variable {R : Type} {dict : Dictionary R} {tag other : Tag} {tags others : List Tag} {d d' : Doclet}

/-- The dictionary has the same definition for two titles. -/
def Dictionary.SameDefinition (dict : Dictionary R) (title other : String) : Prop :=
  ∃ d, dict.lookup title = some d ∧ dict.lookup other = some d

/-- The tag without the title that it has in the comment. -/
def Tag.untitled (tag : Tag) : Tag := { tag with originalTitle := none }

/-- The doclet, whose stored tags go without the titles that they have in the comment. -/
def Doclet.untitled (d : Doclet) : Doclet := d.setTags (d.tags.map Tag.untitled)

/-- A diagnostic without its wording. -/
def Diagnostic.kind (d : Diagnostic) : String × Severity × Location := (d.code, d.severity, d.location)

/-! ## Rules and the title in the comment -/

/-- The rule does not depend on the titles that tags have in the comment, neither that of its tag nor those of stored
ones. Without them, the doclet that it makes is the same except for the titles of stored tags, and so is the one that it
leaves behind if it fails. -/
structure IgnoresTitles [Rules R] (rule : R) : Prop where
  apply (tag : Tag) (d : Doclet) : (Rules.apply rule tag d).map Doclet.untitled =
    (Rules.apply rule tag.untitled d.untitled).map Doclet.untitled
  leave (tag : Tag) (d : Doclet) :
    (Rules.leave rule tag d).untitled = (Rules.leave rule tag.untitled d.untitled).untitled

/-- The rules of a dictionary do not depend on the titles that tags have in the comment. -/
def Dictionary.IgnoresTitles [Rules R] (dict : Dictionary R) : Prop :=
  dict.All fun d => ∀ rule, .rule rule ∈ d.effects → SymbolDocs.IgnoresTitles rule

theorem Doclet.untitled_setTags (ts : List Tag) (d : Doclet) :
    (d.setTags ts).untitled = d.setTags (ts.map Tag.untitled) := rfl

theorem Doclet.untitled_untitled (d : Doclet) : d.untitled.untitled = d.untitled := by
  have htags : d.untitled.tags.map Tag.untitled = d.tags.map Tag.untitled := List.map_map
  exact congrArg d.setTags htags

/-- A further tag is stored without its title in the comment. -/
theorem Doclet.untitled_withTag (d : Doclet) (tag : Tag) :
    (d.withTag tag).untitled = d.untitled.withTag tag.untitled := by
  rw [withTag_eq_setTags, untitled_setTags, List.map_append]
  rfl

/-- **An effect of a built-in grammar does not read the title in the comment.** -/
theorem Effect.apply_untitled_tag (e : Effect) (tag : Tag) (d : Doclet) : e.apply tag.untitled d = e.apply tag d := by
  cases e with
  | rule handler => cases handler <;> rfl
  | _ => rfl

theorem Effect.apply_untitled_builtIn (e : Effect) (tag : Tag) (d : Doclet) :
    (e.apply tag d).map Doclet.untitled = (e.apply tag.untitled d.untitled).map Doclet.untitled := by
  have hstored : e.apply tag.untitled d.untitled = (e.apply tag d).map (·.setTags (d.tags.map Tag.untitled)) := by
    rw [apply_untitled_tag, Doclet.untitled, apply_setTags]
  rw [hstored]
  cases h : e.apply tag d with
  | error fault => rfl
  | ok d' =>
    have huntitled : (d'.setTags (d.tags.map Tag.untitled)).untitled = d'.untitled := by
      rw [← tags_of_apply h]
      exact d'.untitled_untitled
    exact congrArg Except.ok huntitled.symm

/-- **The built-in rules do not depend on the titles in the comment.** -/
theorem Handler.ignoresTitles (handler : Handler) : IgnoresTitles handler where
  apply := Effect.apply_untitled_builtIn (.rule handler)
  leave _ d := d.untitled_untitled.symm

theorem Dictionary.ignoresTitles (dict : Dictionary) : dict.IgnoresTitles :=
  fun _ _ handler _ => handler.ignoresTitles

/-- Any function is a rule that does not depend on the titles in the comment if what it leaves of a doclet does not,
except for the titles of stored tags, and its fault does not. -/
theorem CustomRule.ignoresTitles {rule : CustomRule} (h : ∀ tag d,
    (rule.run tag d).1.untitled = (rule.run tag.untitled d.untitled).1.untitled ∧
      (rule.run tag d).2 = (rule.run tag.untitled d.untitled).2) : IgnoresTitles rule where
  apply tag d := by
    obtain ⟨hleft, hfault⟩ := h tag d
    simp only [Rules.apply]
    generalize rule.run tag d = left at hleft hfault
    generalize rule.run tag.untitled d.untitled = left' at hleft hfault
    obtain ⟨d₁, fault⟩ := left
    obtain ⟨d₂, fault'⟩ := left'
    obtain rfl : fault = fault' := hfault
    cases fault with
    | none => exact congrArg Except.ok hleft
    | some fault => rfl
  leave tag d := (h tag d).1

section Sum

variable {S : Type} [Rules R] [Rules S]

theorem IgnoresTitles.inl {rule : R} (h : IgnoresTitles rule) : IgnoresTitles (Sum.inl rule : R ⊕ S) where
  apply := h.apply
  leave := h.leave

theorem IgnoresTitles.inr {rule : S} (h : IgnoresTitles rule) : IgnoresTitles (Sum.inr rule : R ⊕ S) where
  apply := h.apply
  leave := h.leave

end Sum

/-! ## Effects and the title in the comment -/

section Effects

variable [Rules R] {e : Effect R} {es : List (Effect R)}

/-- What does not follow a rule is done in the same way in all grammars. -/
theorem Effect.apply_untitled (h : ∀ rule, e = .rule rule → IgnoresTitles rule) (tag : Tag) (d : Doclet) :
    (e.apply tag d).map Doclet.untitled = (e.apply tag.untitled d.untitled).map Doclet.untitled := by
  cases e with
  | rule rule => exact (h rule rfl).apply tag d
  | store field fixed => exact apply_untitled_builtIn (.store field fixed) tag d
  | append field => exact apply_untitled_builtIn (.append field) tag d
  | assign field datum => exact apply_untitled_builtIn (.assign field datum) tag d
  | addModifier modifier => exact apply_untitled_builtIn (.addModifier modifier) tag d
  | stateKind kind => exact apply_untitled_builtIn (.stateKind kind) tag d

theorem Effect.leave_untitled (h : ∀ rule, e = .rule rule → IgnoresTitles rule) (tag : Tag) (d : Doclet) :
    (e.leave tag d).untitled = (e.leave tag.untitled d.untitled).untitled := by
  cases e with
  | rule rule => exact (h rule rfl).leave tag d
  | _ => exact d.untitled_untitled.symm

namespace Tag

/-- **Two runs of effects** for tags and doclets that differ in the titles in the comment end with doclets that differ
in these, and with the same fault if any. -/
theorem runEffects_congr (h : ∀ rule, .rule rule ∈ es → IgnoresTitles rule) (htag : tag.untitled = other.untitled)
    (hd : d.untitled = d'.untitled) :
    (runEffects tag es d).1.untitled = (runEffects other es d').1.untitled ∧
      (runEffects tag es d).2 = (runEffects other es d').2 := by
  induction es generalizing d d' with
  | nil => exact ⟨hd, rfl⟩
  | cons e es ih =>
    have he (rule : R) (heq : e = .rule rule) : IgnoresTitles rule := h rule (heq ▸ List.mem_cons_self)
    have happly : (e.apply tag d).map Doclet.untitled = (e.apply other d').map Doclet.untitled := by
      rw [Effect.apply_untitled he, htag, hd, ← Effect.apply_untitled he]
    have hleave : (e.leave tag d).untitled = (e.leave other d').untitled := by
      rw [Effect.leave_untitled he, htag, hd, ← Effect.leave_untitled he]
    rw [runEffects, runEffects]
    cases htagged : e.apply tag d with
    | ok d₁ =>
      rw [htagged] at happly
      obtain ⟨d₂, hothers, hsame⟩ := map_eq_ok.1 happly.symm
      rw [hothers]
      exact ih (fun rule hr => h rule (List.mem_cons_of_mem e hr)) hsame.symm
    | error fault =>
      rw [htagged] at happly
      cases hothers : e.apply other d' with
      | ok d₂ =>
        rw [hothers] at happly
        cases happly
      | error fault' =>
        rw [hothers] at happly
        cases happly
        exact ⟨hleave, rfl⟩

/-! ## Applying tags -/

/-- All of a tag that matters if it is applied. -/
def applied (dict : Dictionary R) (tag : Tag) : Tag × List (Effect R) := (tag.untitled, effectsOf dict tag)

/-- The rules of a tag are those of a definition. -/
theorem ignoresTitles_of_mem_effectsOf (h : dict.IgnoresTitles) {rule : R} (hr : .rule rule ∈ effectsOf dict tag) :
    IgnoresTitles rule := by
  unfold effectsOf at hr
  cases hl : dict.lookup (tag.originalTitle.getD tag.title) with
  | some d =>
    rw [hl] at hr
    exact Dictionary.All.of_lookup h hl rule hr
  | none =>
    rw [hl, Option.none_or] at hr
    split at hr <;> simp [leadingDescription] at hr

/-- **Tags that differ in the titles in the comment do the same**, if these have the same effects. -/
theorem applyAll_congr (hrules : dict.IgnoresTitles) (location : Location)
    (h : tags.map (applied dict) = others.map (applied dict)) (hd : d.untitled = d'.untitled) :
    (applyAll dict location tags d).1 = (applyAll dict location others d').1 ∧
      (applyAll dict location tags d).2.map Doclet.untitled =
        (applyAll dict location others d').2.map Doclet.untitled := by
  induction tags generalizing others d d' with
  | nil =>
    obtain rfl : others = [] := by simpa using h.symm
    exact ⟨rfl, congrArg Except.ok hd⟩
  | cons tag tags ih =>
    obtain - | ⟨other, others⟩ := others
    · cases h
    · obtain ⟨hhead, htail⟩ := List.cons.inj h
      obtain ⟨htag, heffects⟩ : tag.untitled = other.untitled ∧ effectsOf dict tag = effectsOf dict other :=
        Prod.mk.inj hhead
      have hsilent (rule : R) (hr : .rule rule ∈ effectsOf dict tag) : IgnoresTitles rule :=
        ignoresTitles_of_mem_effectsOf hrules hr
      have hrun := runEffects_congr hsilent htag hd
      rw [applyAll, applyAll, ← heffects]
      cases hes : effectsOf dict tag with
      | nil => exact ih htail (by rw [Doclet.untitled_withTag, Doclet.untitled_withTag, hd, htag])
      | cons e es =>
        rw [hes] at hrun
        dsimp only
        generalize runEffects tag (e :: es) d = run at hrun
        generalize runEffects other (e :: es) d' = run' at hrun
        obtain ⟨d₁, fault⟩ := run
        obtain ⟨d₂, fault'⟩ := run'
        obtain ⟨hsame, rfl⟩ : d₁.untitled = d₂.untitled ∧ fault = fault' := hrun
        rcases fault with - | (problem | obstacle)
        · exact ih htail hsame
        · obtain ⟨hfound, hresult⟩ := ih htail hsame
          exact ⟨congrArg (.ofProblem problem location :: ·) hfound, hresult⟩
        · exact ⟨rfl, rfl⟩

end Tag
end Effects

namespace Tag

/-! ## Reading tags -/

/-- Two titles with the same definition make the same tag of a text, or the same diagnostic but for its wording. -/
theorem readRawTag_retitled {title other : String} (h : dict.SameDefinition title other) (location : Location)
    (text : String) :
    let outcome := readRawTag dict location { title, text }
    let outcome' := readRawTag dict location { title := other, text }
    outcome.1.map Diagnostic.kind = outcome'.1.map Diagnostic.kind ∧
      outcome.2.map (applied dict) = outcome'.2.map (applied dict) := by
  obtain ⟨d, htitle, hother⟩ := h
  have hread {title : String} (hl : dict.lookup title = some d) :
      readRawTag dict location { title, text } = readKnown d location { title, text } := by
    rw [readRawTag, definitionOf?, hl]
    rfl
  have heffects {title : String} (hl : dict.lookup title = some d) (tag : Tag) :
      effectsOf dict { tag with originalTitle := some title } = d.effects := by
    rw [effectsOf, Option.getD_some, hl]
    rfl
  intro outcome outcome'
  dsimp only [outcome, outcome']
  rw [hread htitle, hread hother, readKnown, readKnown]
  dsimp only
  generalize readValue d text = reading
  obtain ⟨problem, fault | value⟩ := reading <;> dsimp only
  · refine ⟨?_, rfl⟩
    rw [List.map_append, List.map_append]
    rfl
  · refine ⟨rfl, ?_⟩
    rw [Option.map_some, Option.map_some, applied, applied,
      heffects htitle { title := d.name, text := strip text, value },
      heffects hother { title := d.name, text := strip text, value }]
    rfl

/-- All of the outcome of reading a comment that does not depend on the titles of its markers. -/
def readings (dict : Dictionary R) (location : Location) (raws : List RawTag) :
    List (String × Severity × Location) × List (Tag × List (Effect R)) :=
  let outcomes := raws.map (readRawTag dict location)
  ((outcomes.flatMap (·.1)).map Diagnostic.kind, (outcomes.filterMap (·.2)).map (applied dict))

theorem readings_retitled {title other : String} (h : dict.SameDefinition title other) (location : Location)
    (before : List RawTag) (text : String) (after : List RawTag) :
    readings dict location (before ++ { title, text } :: after) =
      readings dict location (before ++ { title := other, text } :: after) := by
  obtain ⟨hfound, htag⟩ := readRawTag_retitled h location text
  have htoList (o : Outcome) (os : List Outcome) : (o :: os).filterMap (·.2) = o.2.toList ++ os.filterMap (·.2) := by
    rw [List.filterMap_cons]
    cases o.2 <;> rfl
  have htags := congrArg Option.toList htag
  rw [Option.toList_map, Option.toList_map] at htags
  simp only [readings, List.map_append, List.map_cons, List.flatMap_append, List.flatMap_cons, List.filterMap_append,
    htoList, hfound, htags]

theorem readings_comment (dict : Dictionary R) (location : Location) (comment : String) :
    readings dict location (Comment.rawTags (Comment.body comment)) =
      ((readComment dict location comment).1.map Diagnostic.kind,
        (readComment dict location comment).2.map (applied dict)) := by
  rw [readings, readComment]

/-- A rule of one's own, which takes the text of its tag for the summary. -/
def summarise : CustomRule where
  run tag d :=
    if tag.text.isEmpty then (d, some (d.misfit tag "requires a text")) else ({ d with summary := some tag.text }, none)

theorem ignoresTitles_summarise : IgnoresTitles summarise := CustomRule.ignoresTitles fun tag d => by
  have hrun (tag : Tag) (d : Doclet) : summarise.run tag d =
      if tag.text.isEmpty then (d, some (d.misfit tag "requires a text"))
      else ({ d with summary := some tag.text }, none) := rfl
  have htext : tag.untitled.text = tag.text := rfl
  rw [hrun, hrun, htext]
  split
  · exact ⟨d.untitled_untitled.symm, rfl⟩
  · exact ⟨(Doclet.untitled_untitled { d with summary := some tag.text }).symm, rfl⟩

/-- A rule that keeps the title in the comment tells synonyms apart. -/
example :
    let rule : CustomRule := { run := fun tag d => ({ d with summary := tag.originalTitle }, none) }
    let param : Definition CustomRule := { name := "param", synonyms := ["arg"], effects := [.rule rule] }
    let dict : Dictionary CustomRule := { definitions := [("param", param)], synonyms := [("arg", "param")] }
    let summary (comment : String) := (applyAll dict {} (readComment dict {} comment).2 {}).2.toOption.bind (·.summary)
    summary "/** @arg a */" = some "arg" ∧ summary "/** @param a */" = some "param" := by
  decide +kernel

end Tag
end SymbolDocs
