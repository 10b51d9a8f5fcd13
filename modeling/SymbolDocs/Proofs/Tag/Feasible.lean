import SymbolDocs.Proofs.Grammar.Assembly
import SymbolDocs.Proofs.Tag.Faults

/-!
# Feasible definitions

A definition is feasible if no text behind its title can make its effects impossible: it does not set the scope from
its value, and a rule that reads a text is only given to a title that always comes with one. In a dictionary of
feasible definitions every tag that `readComment` gives is applicable (`applicable_of_readComment`).
-/

namespace SymbolDocs

/-! ## Definitions -/

namespace Definition

/-- Whether every tag with this definition has a text for its value. -/
def givesText (d : Definition) : Bool := d.mustHaveValue && (d.shape = .text || d.shape = .namePath)

/-- Whether an effect can be had for every tag with this definition. -/
def canHave (d : Definition) : Effect → Bool
  | .store field _ => field ≠ .scope
  | .rule handler => !handler.readsText || d.givesText
  | _ => true

/-- Whether all effects can be had for every tag with this definition. -/
def feasible (d : Definition) : Bool := d.effects.all d.canHave

end Definition

/-- A dictionary of feasible definitions. -/
def Dictionary.Feasible (dict : Dictionary) : Prop := ∀ entry ∈ dict.definitions, entry.2.feasible = true

/-- A problem that an expression cannot be read as a type. -/
def Problem.IsTypeFault (problem : Problem) : Prop := ∃ expression fault, problem = .ofTypeFault expression fault

namespace Tag

variable {dict : Dictionary} {location : Location} {raw : RawTag} {d : Definition}

/-! ## Values -/

/-- A text is read where the definition promises one. -/
theorem text_of_readValue {text : String} {problem : Option Problem} {value : Option TagValue}
    (hg : d.givesText = true) (h : readValue d text = (problem, .ok value)) : ∃ t, value = some (.text t) := by
  rw [Definition.givesText, Bool.and_eq_true, Bool.or_eq_true, decide_eq_true_iff, decide_eq_true_iff] at hg
  obtain ⟨hmust, hshape⟩ := hg
  unfold readValue at h
  split at h
  · rw [if_pos hmust] at h
    cases h
  · split at h
    · cases h
    · unfold readShape at h
      rcases hshape with hs | hs <;> rw [hs] at h
      · cases h
        exact ⟨_, rfl⟩
      · obtain ⟨path, -, rfl⟩ := map_eq_ok.1 (Prod.mk.inj h).2
        exact ⟨path, rfl⟩

/-- The effects of a feasible definition suit every value that the definition lets through. -/
theorem suits_of_feasible {e : Effect} {value : Option TagValue} (hd : d.feasible = true) (he : e ∈ d.effects)
    (ht : d.givesText = true → ∃ t, value = some (.text t)) : e.Suits value := by
  have hc := List.all_eq_true.1 hd e he
  cases e with
  | store field fixed =>
    have hfield : field ≠ .scope := of_decide_eq_true hc
    exact hfield
  | rule handler =>
    intro hr
    rw [Definition.canHave, hr] at hc
    exact ht hc
  | append field => trivial
  | assign field datum => trivial
  | addModifier modifier => trivial
  | stateKind kind => trivial

theorem leadingDescription_feasible : leadingDescription.feasible = true := rfl

/-- The definition that a tag is read by gives the tag its effects. -/
theorem effectsOf_of_definitionOf? (h : definitionOf? dict raw = some d) {tag : Tag} (ht : tag.title = d.name)
    (ho : tag.originalTitle = some raw.title) : effectsOf dict tag = d.effects := by
  unfold definitionOf? at h
  unfold effectsOf
  rw [ho, Option.getD_some]
  cases hl : dict.lookup raw.title with
  | some d' =>
    rw [hl] at h
    cases h
    rfl
  | none =>
    rw [hl, Option.none_or] at h
    split at h
    · cases h
      have ht' : tag.title = "description" := ht
      rw [if_pos ht']
      rfl
    · cases h

/-- What holds of all definitions of a dictionary holds of the one that a tag is read by, if it holds of the definition
of leading descriptions. -/
theorem of_definitionOf? {P : Definition → Prop} (hall : dict.All P) (hl : P leadingDescription)
    (h : definitionOf? dict raw = some d) : P d := by
  unfold definitionOf? at h
  cases hd : dict.lookup raw.title with
  | some d' =>
    rw [hd] at h
    cases h
    exact hall.of_lookup hd
  | none =>
    rw [hd, Option.none_or] at h
    split at h <;> cases h
    exact hl

/-- The definition that a tag is read by is feasible, and gives the tag its effects. -/
theorem feasible_of_definitionOf? (hf : dict.Feasible) (h : definitionOf? dict raw = some d) {tag : Tag}
    (ht : tag.title = d.name) (ho : tag.originalTitle = some raw.title) :
    d.feasible = true ∧ effectsOf dict tag = d.effects :=
  ⟨of_definitionOf? (P := (·.feasible = true)) hf leadingDescription_feasible h, effectsOf_of_definitionOf? h ht ho⟩

/-! ## Reading -/

/-- What is reported beside a value is that a type in it cannot be read. -/
theorem isTypeFault_readType {expression : String} {problem : Problem} (h : problem ∈ (readType expression).1) :
    problem.IsTypeFault := by
  unfold readType at h
  split at h
  · cases h
  · cases h
    exact ⟨_, _, rfl⟩

theorem isTypeFault_readTypeValue {cs : List Char} {problem : Problem} (h : problem ∈ (readTypeValue cs).1) :
    problem.IsTypeFault := by
  unfold readTypeValue at h
  split at h
  · split at h
    · cases h
    · exact isTypeFault_readType h
  · exact isTypeFault_readType h

theorem isTypeFault_readStructured {named : Bool} {text : String} {problem : Problem}
    (h : problem ∈ (readStructured named text).1) : problem.IsTypeFault := by
  unfold readStructured at h
  split at h
  · split at h
    · cases h
    · exact isTypeFault_readType h
  · cases h

theorem isTypeFault_readValue {R : Type} {d : Definition R} {text : String} {problem : Problem}
    (h : problem ∈ (readValue d text).1) : problem.IsTypeFault := by
  unfold readValue at h
  split at h
  · split at h <;> cases h
  · split at h
    · cases h
    · unfold readShape at h
      cases hs : d.shape with
      | none => rw [hs] at h; cases h
      | text => rw [hs] at h; cases h
      | typeExpression => rw [hs] at h; exact isTypeFault_readTypeValue h
      | namePath => rw [hs] at h; cases h
      | structured => rw [hs] at h; exact isTypeFault_readStructured h

/-- A tag that is read by a definition has its name, the title in the comment, and the value that is read. -/
theorem tag_of_readKnown {tag : Tag} (h : (readKnown d location raw).2 = some tag) :
    tag.title = d.name ∧ tag.originalTitle = some raw.title ∧ (readValue d raw.text).2 = .ok tag.value := by
  unfold readKnown at h
  dsimp only at h
  split at h
  · next value hv =>
    cases h
    exact ⟨rfl, rfl, hv⟩
  · cases h

/-- A raw tag that is read by a feasible definition becomes an applicable tag. -/
theorem readKnown_spec (hf : dict.Feasible) (h : definitionOf? dict raw = some d) :
    (∀ x ∈ (readKnown d location raw).1, x.Mild) ∧ ∀ tag ∈ (readKnown d location raw).2, Applicable dict tag := by
  have hmild : ∀ x ∈ ((readValue d raw.text).1.map fun p => Diagnostic.ofProblem p location).toList, x.Mild := by
    intro x hx
    obtain ⟨problem, hp, rfl⟩ := Option.map_eq_some_iff.1 (Option.mem_toList.1 hx)
    obtain ⟨expression, fault, rfl⟩ := isTypeFault_readValue hp
    exact mild_typeFault _ _ _
  constructor
  · unfold readKnown
    dsimp only
    split
    · exact hmild
    · intro x hx
      rcases List.mem_append.1 hx with hx | hx
      · exact hmild x hx
      · rw [List.mem_singleton.1 hx]
        exact mild_tagValue _ _ _ _
  · intro tag htag e he
    obtain ⟨ht, ho, hv⟩ := tag_of_readKnown htag
    obtain ⟨hd, heff⟩ := feasible_of_definitionOf? hf h ht ho
    rw [heff] at he
    exact suits_of_feasible hd he fun hg => text_of_readValue hg (Prod.ext rfl hv)

/-- A tag without definition is applicable, since it has no effect or that of a description. -/
theorem readUnknown_spec (h : definitionOf? dict raw = none) :
    (∀ x ∈ (readUnknown dict location raw).1, x.Mild) ∧
      ∀ tag ∈ (readUnknown dict location raw).2, Applicable dict tag := by
  have hl : dict.lookup raw.title = none := (Option.or_eq_none_iff.1 h).1
  unfold readUnknown
  split
  · refine ⟨fun x hx => (by cases hx), fun tag htag e he => ?_⟩
    cases htag
    simp only [effectsOf, Option.getD_some, hl, Option.none_or] at he
    split at he
    · exact suits_of_feasible leadingDescription_feasible he fun hg => by cases hg
    · cases he
  · refine ⟨fun x hx => ?_, fun tag htag => by cases htag⟩
    rw [List.mem_singleton.1 hx]
    exact mild_unknownTag _ _

theorem readRawTag_spec (hf : dict.Feasible) (raw : RawTag) :
    (∀ x ∈ (readRawTag dict location raw).1, x.Mild) ∧
      ∀ tag ∈ (readRawTag dict location raw).2, Applicable dict tag := by
  unfold readRawTag
  split
  · next d hd => exact readKnown_spec hf hd
  · next hd => exact readUnknown_spec hd

/-- **In a feasible dictionary every comment gives applicable tags and mild diagnostics.** -/
theorem readComment_spec (hf : dict.Feasible) (location : Location) (comment : String) :
    (∀ x ∈ (readComment dict location comment).1, x.Mild) ∧
      ∀ tag ∈ (readComment dict location comment).2, Applicable dict tag := by
  unfold readComment
  dsimp only
  constructor
  · intro x hx
    obtain ⟨outcome, ho, hx⟩ := List.mem_flatMap.1 hx
    obtain ⟨raw, -, rfl⟩ := List.mem_map.1 ho
    exact (readRawTag_spec hf raw).1 x hx
  · intro tag htag
    obtain ⟨outcome, ho, ht⟩ := List.mem_filterMap.1 htag
    obtain ⟨raw, -, rfl⟩ := List.mem_map.1 ho
    exact (readRawTag_spec hf raw).2 tag ht

end Tag
end SymbolDocs
