import SymbolDocs.Proofs.Source.Pairing
import SymbolDocs.Proofs.Tag.Feasible
import SymbolDocs.Proofs.Tag.Frame
import SymbolDocs.Source.Build

/-!
# Building doclets never fails

In a feasible dictionary every event has a doclet (`build_spec`): the tags of its comment can be applied, and the
doclet still awaits its name when it gets its place. The stack grows only where the event opens a scope.
-/

namespace SymbolDocs

variable {dict : Dictionary}

/-- A doclet opens a scope just if its event does. -/
theorem depth_afterDoclet (stack : ScopeStack) (dict : Dictionary) (d : Doclet) (event : ScopeEvent) :
    (stack.afterDoclet dict d event).depth = stack.depth + event.opened := by
  unfold ScopeStack.afterDoclet ScopeEvent.opened
  split
  · rfl
  · split <;> rfl

/-- In a feasible dictionary every comment can be applied. -/
theorem applyComment_spec (hf : dict.Feasible) (location : Location) (comment : String) (d : Doclet) :
    ∃ tags d', (applyComment dict location comment d).2 = .ok (tags, d') ∧
      ∀ x ∈ (applyComment dict location comment d).1, x.Mild := by
  obtain ⟨hmild, happ⟩ := Tag.readComment_spec hf location comment
  unfold applyComment
  dsimp only
  generalize Tag.readComment dict location comment = outcome at hmild happ
  obtain ⟨d', hd⟩ := Tag.applyAll_ok happ location d
  refine ⟨outcome.2, d', by rw [hd]; rfl, fun x hx => ?_⟩
  rcases List.mem_append.1 hx with hx | hx
  · exact hmild x hx
  · obtain ⟨title, detail, construct, rfl⟩ := Tag.misfit_of_applyAll _ _ _ _ x hx
    exact mild_tagValue title detail construct location

/-- What only the code says about a doclet leaves its frame alone, but for the state. -/
theorem frame_complete (d : Doclet) (tags : List Tag) (context : SourceContext) :
    (d.complete tags context).frame = { d.frame with state := .tagsApplied } := by
  have hname (d : Doclet) : (d.nameModule context).frame = d.frame := by
    unfold Doclet.nameModule
    split
    · split <;> rfl
    · rfl
  have hparams (d : Doclet) : (d.takeParams context).frame = d.frame := by
    unfold Doclet.takeParams
    split <;> rfl
  rw [Doclet.complete, hparams, hname]
  rfl

/-- A complete doclet awaits its name. -/
theorem state_complete (d : Doclet) (tags : List Tag) (context : SourceContext) :
    (d.complete tags context).state = .tagsApplied :=
  congrArg Frame.state (frame_complete d tags context)

/-- A complete doclet gets its place. -/
theorem settle_complete (dict : Dictionary) (stack : ScopeStack) (event : ScopeEvent) (d : Doclet)
    (tags : List Tag) (context : SourceContext) :
    (d.complete tags context).settle dict stack event =
      .ok ((d.complete tags context).place dict stack,
        stack.afterDoclet dict ((d.complete tags context).place dict stack) event) := by
  have ha : (d.complete tags context).awaitsName = true := by
    unfold Doclet.awaitsName
    rw [state_complete]
    rfl
  unfold Doclet.settle Doclet.resolve
  rw [if_pos ha]

/-- The doclet of an event is a placed one. -/
theorem place_of_build {stack stack' : ScopeStack} {comment : Option String} {context : SourceContext}
    {event : ScopeEvent} {d : Doclet} (h : (build dict stack comment context event).2 = .ok (d, stack')) :
    ∃ d₀ : Doclet, d = d₀.place dict stack := by
  unfold build at h
  obtain ⟨⟨tags, d₁⟩, -, h⟩ := bind_eq_ok.1 h
  cases (settle_complete dict stack event d₁ tags context).symm.trans h
  exact ⟨_, rfl⟩

/-- **In a feasible dictionary every event has a doclet, and makes only mild diagnostics.** -/
theorem build_spec (hf : dict.Feasible) (stack : ScopeStack) (comment : Option String) (context : SourceContext)
    (event : ScopeEvent) :
    ∃ found d, build dict stack comment context event = (found, .ok (d, stack.afterDoclet dict d event)) ∧
      ∀ x ∈ found, x.Mild := by
  unfold build
  dsimp only
  split
  · have hd := settle_complete dict stack event (Doclet.ofContext comment context) [] context
    exact ⟨[], _, by rw [← hd]; rfl, fun x hx => by cases hx⟩
  · obtain ⟨tags, d, hok, hmild⟩ := applyComment_spec hf context.location (Doclet.ofContext comment context).comment
      (Doclet.ofContext comment context)
    have hd := settle_complete dict stack event d tags context
    refine ⟨_, (d.complete tags context).place dict stack, ?_, hmild⟩
    rw [hok, ← hd]
    rfl

end SymbolDocs
