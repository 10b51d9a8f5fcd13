import SymbolDocs.Proofs.Source.Building

/-!
# Where doclets come from

The doclet of an event has the comment of the event and the origin that its construct states, and is borrowed from
nowhere (`source_of_build`). No tag of the built-in grammars can change that.
-/

namespace SymbolDocs

/-- What a doclet tells of its event: the comment, and what the construct is called and where it is. -/
structure Provenance where
  comment : String
  name : Option String
  lineno : Option Int
  filename : Option String
  deriving DecidableEq

/-- What the doclet of an event in a file must tell. A construct that names no file is in the file of the event. -/
def SourceEvent.provenance (filename : String) (event : SourceEvent) : Provenance :=
  { comment := event.comment.getD "", name := event.context.bind (·.name), lineno := event.context.bind (·.lineno)
    filename := (event.context.bind (·.filename)).or (some filename) }

/-- What a doclet tells of its event. -/
def Doclet.provenance (d : Doclet) : Provenance :=
  { comment := d.comment, name := d.origin.codeName, lineno := d.origin.lineno, filename := d.origin.filename }

/-! ## Definitions that keep the source -/

/-- Whether no effect of a definition writes what a doclet is borrowed from. -/
def Definition.keepsSource (d : Definition) : Bool := d.effects.all (!·.writesSource)

/-- A dictionary of definitions that keep the source. -/
def Dictionary.KeepsSource (dict : Dictionary) : Prop := dict.All (·.keepsSource = true)

namespace Grammar

/-- The tags of a grammar keep the source. -/
theorem definitions_keepSource (g : Grammar) : ∀ d ∈ sharedTags ++ g.definitions, d.keepsSource = true := by
  rw [← List.all_eq_true]
  cases g <;> decide +kernel

theorem buildAll_keepsSource {names : List String} {allowUnknown : AllowUnknown} {dict : Dictionary}
    (h : buildAll names allowUnknown = .ok dict) : dict.KeepsSource :=
  buildAll_all definitions_keepSource h

end Grammar

/-! ## Doclets of events -/

variable {dict : Dictionary} {stack stack' : ScopeStack} {context : SourceContext} {event : ScopeEvent} {d d' : Doclet}

/-- The effects of a tag come from a definition of the dictionary, or are those of a description. -/
theorem Tag.writesSource_of_mem_effectsOf (hk : dict.KeepsSource) {tag : Tag} {e : Effect}
    (he : e ∈ effectsOf dict tag) : e.writesSource = false := by
  have hdefinition {definition : Definition} (hd : definition.keepsSource = true) (he : e ∈ definition.effects) :
      e.writesSource = false := by
    have he' := List.all_eq_true.1 hd e he
    simpa using he'
  unfold effectsOf at he
  cases hl : dict.lookup (tag.originalTitle.getD tag.title) with
  | some definition =>
    rw [hl] at he
    exact hdefinition (Dictionary.All.of_lookup hk hl) he
  | none =>
    rw [hl, Option.none_or] at he
    split at he
    · have hd : leadingDescription.keepsSource = true := rfl
      exact hdefinition hd he
    · cases he

/-- The tags of a comment keep the source of the doclet. -/
theorem source_of_applyComment (hk : dict.KeepsSource) {location : Location} {comment : String} {tags : List Tag}
    (h : (applyComment dict location comment d).2 = .ok (tags, d')) : d'.source = d.source := by
  unfold applyComment at h
  dsimp only at h
  obtain ⟨applied, happly, heq⟩ := map_eq_ok.1 h
  obtain ⟨-, rfl⟩ := Prod.mk.inj heq
  exact Tag.source_of_applyAll (fun tag _ e he => Tag.writesSource_of_mem_effectsOf hk he) happly

/-- **The doclet of an event has the comment of the event, and its origin is the construct of the event.** -/
theorem source_of_build (hk : dict.KeepsSource) {comment : Option String}
    (h : (build dict stack comment context event).2 = .ok (d, stack')) :
    d.source = { (Doclet.ofContext comment context).source with state := .nameResolved } := by
  unfold build at h
  obtain ⟨⟨tags, d₁⟩, happly, h⟩ := bind_eq_ok.1 h
  have hsource : d₁.source = (Doclet.ofContext comment context).source := by
    split at happly
    · cases happly
      rfl
    · exact source_of_applyComment hk happly
  cases (settle_complete dict stack event d₁ tags context).symm.trans h
  have hplace (d : Doclet) : (d.place dict stack).source = { d.source with state := .nameResolved } := rfl
  rw [hplace, Doclet.source, frame_complete, ← hsource]
  rfl

end SymbolDocs
