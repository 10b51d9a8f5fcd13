import SymbolDocs.Proofs.Outcome
import SymbolDocs.Tag.Applying

/-!
# Faults of effects

An effect fails for one of three reasons (`Effect.fault_of_apply`): the value of the tag does not fit the doclet, which
is only a matter of a diagnostic; the effect sets the scope from the value; or its rule reads a text where the value is
none. So whatever the tags are, each diagnostic on the way says that a value does not fit (`misfit_of_applyAll`).
`applyAll_ok` says that tags of which every effect `Suits` their value can all be applied.
-/

namespace SymbolDocs

variable {tag : Tag} {d : Doclet} {fault : EffectFault}

/-! ## Diagnostics -/

/-- A diagnostic that is neither fatal nor about scopes. -/
def Diagnostic.Mild (x : Diagnostic) : Prop := x.code ≠ "scope-imbalance" ∧ x.severity ≠ .fatal

theorem mild_unknownTag (title : String) (location : Location) :
    (Diagnostic.ofProblem (.unknownTag title) location).Mild := by
  constructor <;> simp [Diagnostic.ofProblem, Problem.code, Problem.severity]

theorem mild_tagValue (title detail : String) (construct : Option String) (location : Location) :
    (Diagnostic.ofProblem (.tagValue title detail construct) location).Mild := by
  constructor <;> simp [Diagnostic.ofProblem, Problem.code, Problem.severity]

theorem mild_typeFault (expression : String) (fault : TypeExpr.Fault) (location : Location) :
    (Diagnostic.ofProblem (.ofTypeFault expression fault) location).Mild := by
  constructor <;> simp [Diagnostic.ofProblem, Problem.ofTypeFault, Problem.code, Problem.severity]

/-! ## Single effects -/

/-- Whether a rule reads the text of its tag. -/
def Handler.readsText : Handler → Bool
  | .augments | .mixes | .borrows | .fires | .listens | .requires | .template => true
  | _ => false

/-- The fault is that the value of the tag does not fit some doclet. -/
def EffectFault.IsMisfit (tag : Tag) (fault : EffectFault) : Prop := ∃ d detail, fault = Doclet.misfit d tag detail

/-- The fault is that a rule reads a text, and the value of the tag is none. -/
def EffectFault.IsTextless (tag : Tag) (fault : EffectFault) : Prop :=
  fault = .fatal (.noText tag.title) ∧ ∀ t, tag.value ≠ some (.text t)

theorem statedText_error (h : tag.statedText = .error fault) : fault.IsTextless tag := by
  unfold Tag.statedText at h
  split at h
  · cases h
  · next hne => exact ⟨(Except.error.inj h).symm, hne⟩

theorem optionalText_error (h : tag.optionalText = .error fault) : fault.IsTextless tag := by
  unfold Tag.optionalText at h
  split at h
  · cases h
  · exact statedText_error h

/-- Why a rule fails. -/
theorem Handler.fault_of_apply {handler : Handler} (h : handler.apply tag d = .error fault) :
    fault.IsMisfit tag ∨ (handler.readsText = true ∧ fault.IsTextless tag) := by
  cases handler with
  | augments => exact .inr ⟨rfl, statedText_error (map_eq_error.1 h)⟩
  | mixes => exact .inr ⟨rfl, statedText_error (map_eq_error.1 h)⟩
  | fires => exact .inr ⟨rfl, statedText_error (map_eq_error.1 h)⟩
  | listens => exact .inr ⟨rfl, statedText_error (map_eq_error.1 h)⟩
  | requires => exact .inr ⟨rfl, statedText_error (map_eq_error.1 h)⟩
  | template => exact .inr ⟨rfl, optionalText_error (map_eq_error.1 h)⟩
  | borrows =>
    simp only [Handler.apply] at h
    cases ht : tag.optionalText with
    | error e =>
      rw [ht] at h
      cases h
      exact .inr ⟨rfl, optionalText_error ht⟩
    | ok text =>
      rw [ht] at h
      simp only [Except.bind] at h
      split at h
      · cases h
      · exact .inl ⟨_, _, (Except.error.inj h).symm⟩
  | access =>
    simp only [Handler.apply] at h
    split at h
    · cases h
    · exact .inl ⟨_, _, (Except.error.inj h).symm⟩
  | kind =>
    simp only [Handler.apply] at h
    split at h
    · cases h
    · exact .inl ⟨_, _, (Except.error.inj h).symm⟩
  | constant => simp only [Handler.apply] at h; split at h <;> cases h
  | type => simp only [Handler.apply] at h; split at h <;> cases h
  | define => simp only [Handler.apply] at h; split at h <;> cases h
  | _ => cases h

/-- Why a value cannot be stored. -/
theorem Doclet.fault_of_store {datum : Option Datum} {field : ScalarField}
    (h : d.store tag datum field = .error fault) :
    fault.IsMisfit tag ∨ (field = .scope ∧ ∃ word, fault = .fatal (.scope word)) := by
  unfold Doclet.store at h
  extract_lets text at h
  clear_value text
  split at h
  · split at h
    · exact .inl ⟨_, _, (Except.error.inj h).symm⟩
    · cases h
  · split at h
    · exact .inl ⟨_, _, (Except.error.inj h).symm⟩
    · cases h
  · split at h
    · exact .inl ⟨_, _, (Except.error.inj h).symm⟩
    · split at h
      · cases h
      · exact .inr ⟨rfl, _, (Except.error.inj h).symm⟩
  · cases h

namespace Effect

/-- An effect that can be had for a value, whatever the doclet is. -/
def Suits (value : Option TagValue) : Effect → Prop
  | .store field _ => field ≠ .scope
  | .rule handler => handler.readsText = true → ∃ t, value = some (.text t)
  | _ => True

/-- Why an effect fails: the value does not fit the doclet, or the effect does not suit the value. -/
theorem fault_of_apply {e : Effect} (h : e.apply tag d = .error fault) :
    fault.IsMisfit tag ∨ (¬ e.Suits tag.value ∧ ∃ obstacle, fault = .fatal obstacle) := by
  cases e with
  | store field fixed =>
    rcases Doclet.fault_of_store h with hm | ⟨hf, word, hw⟩
    · exact .inl hm
    · exact .inr ⟨fun hs => hs hf, _, hw⟩
  | rule handler =>
    rcases Handler.fault_of_apply h with hm | ⟨hr, hfault, hn⟩
    · exact .inl hm
    · refine .inr ⟨fun hs => ?_, _, hfault⟩
      obtain ⟨t, ht⟩ := hs hr
      exact hn t ht
  | append field =>
    simp only [Effect.apply] at h
    split at h <;> cases h
  | assign field datum => cases h
  | addModifier modifier => cases h
  | stateKind kind => cases h

end Effect

/-! ## All tags of a comment -/

namespace Tag

variable {dict : Dictionary} {tags : List Tag}

/-- A tag whose value suits all its effects. -/
def Applicable (dict : Dictionary) (tag : Tag) : Prop := ∀ e ∈ effectsOf dict tag, e.Suits tag.value

/-- Why the effects of a tag fail. -/
theorem fault_of_runEffects {es : List Effect} (h : (runEffects tag es d).2 = some fault) :
    fault.IsMisfit tag ∨ (¬ (∀ e ∈ es, e.Suits tag.value) ∧ ∃ obstacle, fault = .fatal obstacle) := by
  induction es generalizing d with
  | nil => cases h
  | cons e es ih =>
    rw [List.forall_mem_cons]
    unfold runEffects at h
    split at h
    · exact (ih h).imp_right fun ⟨hs, hfatal⟩ => ⟨fun hall => hs hall.2, hfatal⟩
    · next he =>
      cases h
      exact (Effect.fault_of_apply he).imp_right fun ⟨hs, hfatal⟩ => ⟨fun hall => hs hall.1, hfatal⟩

/-- A diagnostic that the value of a tag does not fit. -/
def Misfit (location : Location) (x : Diagnostic) : Prop :=
  ∃ title detail construct, x = .ofProblem (.tagValue title detail construct) location

/-- **Whatever the tags are, the diagnostics of applying them say that values do not fit.** -/
theorem misfit_of_applyAll (dict : Dictionary) (location : Location) (tags : List Tag) (d : Doclet) :
    ∀ x ∈ (applyAll dict location tags d).1, Misfit location x := by
  induction tags generalizing d with
  | nil => exact fun x hx => by cases hx
  | cons tag tags ih =>
    unfold applyAll
    split
    · exact ih _
    · split
      · exact ih _
      · next d' problem hr =>
        intro x hx
        rcases List.mem_cons.1 hx with rfl | hx
        · rcases fault_of_runEffects (congrArg Prod.snd hr) with ⟨d₀, detail, heq⟩ | ⟨-, obstacle, heq⟩
          · cases heq
            exact ⟨_, _, _, rfl⟩
          · cases heq
        · exact ih d' x hx
      · exact fun x hx => by cases hx

/-- **Applicable tags can all be applied.** -/
theorem applyAll_ok (h : ∀ tag ∈ tags, Applicable dict tag) (location : Location) (d : Doclet) :
    ∃ d', (applyAll dict location tags d).2 = .ok d' := by
  induction tags generalizing d with
  | nil => exact ⟨d, rfl⟩
  | cons tag tags ih =>
    rw [List.forall_mem_cons] at h
    have hfault (effects : List Effect) (he : effectsOf dict tag = effects) (fault : EffectFault)
        (hf : (runEffects tag effects d).2 = some fault) : fault.IsMisfit tag :=
      (fault_of_runEffects hf).resolve_right fun hs => hs.1 (he ▸ h.1)
    unfold applyAll
    split
    · exact ih h.2 _
    · split
      · exact ih h.2 _
      · next d' problem hr => exact ih h.2 d'
      · next obstacle hr =>
        obtain ⟨d₀, detail, heq⟩ := hfault _ rfl (.fatal obstacle) (by rw [hr])
        cases heq

end Tag
end SymbolDocs
