import SymbolDocs.Proofs.Grammar.Feasible
import SymbolDocs.Proofs.Grammar.Lookup
import SymbolDocs.Proofs.Tag.Frame
import SymbolDocs.Proofs.Tag.Traces

/-!
# Tags that accumulate

A tag whose effect is to append adds its value to the end of a list of the doclet, unless the value is missing or the
empty text. No other effect writes such a list (`Effect.values_of_apply`), except for the list of required modules,
which has a rule of its own. A tag of the built-in grammars has one effect at most, so what it adds does not depend on
whether it fails (`Tag.values_afterTag`), and the values of all tags stand in the lists in the order of the tags
(`Tag.accumulating_tags`).
-/

namespace SymbolDocs

variable {tag : Tag} {tags : List Tag} {dict : Dictionary} {d d' : Doclet} {field : ListField} {e : Effect}

/-! ## Single effects -/

/-- Whether an effect adds the value of the tag to a list. -/
def Effect.appendsTo (field : ListField) : Effect → Bool
  | .append field' => field' = field
  | _ => false

/-- What an effect adds to a list. -/
def Effect.added (tag : Tag) (field : ListField) (e : Effect) : List TagValue :=
  if e.appendsTo field then tag.nonemptyValue.toList else []

theorem Handler.values_of_apply {handler : Handler} (hf : field ≠ .requires) (h : handler.apply tag d = .ok d') :
    d'.values field = d.values field := by
  rcases Handler.holdings_of_apply h with hs | ⟨path, -, -, rfl⟩ | ⟨path, -, -, rfl⟩ | ⟨v, -, rfl⟩
  · exact congrFun (congrArg Prod.snd hs) field
  · rfl
  · rfl
  · cases field <;> first | rfl | exact absurd rfl hf

namespace Effect

theorem values_of_append {field' : ListField} (h : (Effect.append field' : Effect).apply tag d = .ok d') :
    d'.values field = d.values field ++ (Effect.append field').added tag field := by
  have hadded : (Effect.append field').added tag field =
      if field' = field then tag.nonemptyValue.toList else [] := by simp [added, appendsTo]
  rw [hadded]
  simp only [Effect.apply] at h
  split at h
  · next v hv =>
    cases h
    rw [hv]
    rcases eq_or_ne field' field with rfl | hne
    · rw [if_pos rfl, Doclet.values_appendValue, Option.toList_some]
    · rw [if_neg hne, Doclet.values_appendValue_of_ne d v hne.symm, List.append_nil]
  · next hv =>
    cases h
    rw [hv, Option.toList_none, ite_self, List.append_nil]

/-- **What an effect adds to a list.** No effect but the rule of a tag for modules changes a list in another way. -/
theorem values_of_apply (hf : field ≠ .requires) (h : e.apply tag d = .ok d') :
    d'.values field = d.values field ++ e.added tag field := by
  have hsource (he : e.writesSource = true) : d'.values field = d.values field := by
    obtain ⟨source, rfl⟩ := eq_of_writesSource he h
    rfl
  -- An effect of any other sort adds nothing, and the lists are among the holdings that it keeps.
  cases e with
  | append field' => exact values_of_append h
  | store scalar fixed =>
    refine Eq.trans ?_ (List.append_nil _).symm
    rcases eq_or_ne scalar (.text .borrowedFrom) with rfl | hne
    · exact hsource rfl
    · exact congrFun (congrArg Prod.snd (holdings_store hne h)) field
  | assign scalar datum =>
    refine Eq.trans ?_ (List.append_nil _).symm
    rcases eq_or_ne scalar (.text .borrowedFrom) with rfl | hne
    · exact hsource rfl
    · cases h
      exact congrFun (congrArg Prod.snd (holdings_assign d (some datum) hne)) field
  | addModifier modifier =>
    cases h
    exact (List.append_nil _).symm
  | stateKind kind =>
    cases h
    refine Eq.trans ?_ (List.append_nil _).symm
    exact congrFun (congrArg Prod.snd (holdings_stateKind d tag kind)) field
  | rule handler =>
    refine Eq.trans ?_ (List.append_nil _).symm
    exact Handler.values_of_apply hf h

/-- An effect that fails adds nothing, since appending does not fail. -/
theorem added_of_error {fault : EffectFault} (h : e.apply tag d = .error fault) : e.added tag field = [] := by
  cases e with
  | append field' =>
    simp only [Effect.apply] at h
    split at h <;> cases h
  | _ => rfl

end Effect

/-! ## All tags of a comment -/

namespace Tag

/-- Whether the definition of a tag adds its value to a list. -/
def appendsTo (dict : Dictionary) (field : ListField) (tag : Tag) : Bool :=
  (effectsOf dict tag).any (·.appendsTo field)

/-- **What a tag adds to a list**, if it has one effect at most: its value, whether or not the effect fails. -/
theorem values_afterTag (hf : field ≠ .requires) (hlength : (effectsOf dict tag).length ≤ 1) (d : Doclet) :
    (afterTag dict tag d).values field =
      d.values field ++ if tag.appendsTo dict field then tag.nonemptyValue.toList else [] := by
  unfold afterTag appendsTo
  generalize effectsOf dict tag = es at hlength ⊢
  rcases es with - | ⟨e, - | ⟨e', es⟩⟩
  · exact (List.append_nil _).symm
  · have hany : [e].any (·.appendsTo field) = e.appendsTo field := by simp
    rw [hany]
    change (runEffects tag [e] d).1.values field = d.values field ++ e.added tag field
    rw [runEffects]
    split
    · next d' he => exact Effect.values_of_apply hf he
    · next fault he =>
      rw [Effect.added_of_error he, Effect.leave_builtIn]
      exact (List.append_nil _).symm
  · simp at hlength

/-- **The lists after some tags** with one effect at most each. -/
theorem values_of_applyAll {location : Location} (hf : field ≠ .requires)
    (hlength : ∀ tag, (effectsOf dict tag).length ≤ 1) (h : (applyAll dict location tags d).2 = .ok d') :
    d'.values field = d.values field ++ (tags.filter (appendsTo dict field)).filterMap nonemptyValue := by
  induction tags generalizing d with
  | nil =>
    cases h
    exact (List.append_nil _).symm
  | cons tag tags ih =>
    rw [ih (applyAll_of_cons h), values_afterTag hf (hlength tag), List.append_assoc]
    -- What is left says that the values of the tags are that of the first one and those of the others.
    congr 1
    cases happends : appendsTo dict field tag with
    | false => rw [List.filter_cons_of_neg (by simp [happends]), if_neg Bool.false_ne_true, List.nil_append]
    | true =>
      rw [List.filter_cons_of_pos happends, if_pos rfl, List.filterMap_cons]
      cases tag.nonemptyValue <;> rfl

/-- **Tags accumulate.** The tags of a comment can always be applied with a dictionary of built-in grammars, and each
list of the doclet but that of required modules is then what it was before, followed by the values of the tags that
append to it, in the order of the comment and without those that are missing or empty. -/
theorem accumulating_tags {names : List String} {allowUnknown : AllowUnknown} {dict : Dictionary}
    (h : Grammar.buildAll names allowUnknown = .ok dict) (d : Doclet) (comment : String)
    (readAt appliedAt : Location) :
    let tags := (readComment dict readAt comment).2
    ∃ d', (applyAll dict appliedAt tags d).2 = .ok d' ∧ ∀ field, field ≠ .requires →
      d'.values field = d.values field ++ (tags.filter (appendsTo dict field)).filterMap nonemptyValue := by
  intro tags
  obtain ⟨-, happlicable⟩ := readComment_spec (Grammar.buildAll_feasible h) readAt comment
  obtain ⟨d', hd'⟩ := applyAll_ok happlicable appliedAt d
  exact ⟨d', hd', fun field hf =>
    values_of_applyAll hf (effectsOf_length (Grammar.buildAll_all effects_length h)) hd'⟩

/-- Two tags of one kind with one between them that fails and one for another list, for a doclet whose list is not
empty. -/
theorem accumulating_tags_see :
    let dict := Grammar.jsdoc.dictionary
    let comment := "/** @see chat\n@access nobody\n@todo join\n@see chat.Room */"
    let d : Doclet := { see := [.text "lobby"] }
    Grammar.buildAll ["jsdoc"] (.all false) = .ok dict ∧
      ∃ d', (applyAll dict {} (readComment dict {} comment).2 d).2 = .ok d' ∧
        d'.see.map (·.text?) = [some "lobby", some "chat", some "chat.Room"] := by
  intro dict comment d
  have hbuilt : Grammar.buildAll ["jsdoc"] (.all false) = .ok dict := by with_unfolding_all rfl
  obtain ⟨d', hd', hvalues⟩ := accumulating_tags hbuilt d comment {} {}
  have hsee : d'.see = _ := hvalues .see (by decide)
  refine ⟨hbuilt, d', hd', ?_⟩
  rw [hsee, show dict = _ from Grammar.jsdoc_dictionary_eq _]
  decide +kernel

end Tag
end SymbolDocs
