import SymbolDocs.Proofs.Tag.Frame

/-!
# References to events

Two tags refer to events, by a name path: one says that a symbol fires an event, the other that it listens to one. An
effect of a tag leaves both lists of events alone, unless it is the rule of such a tag, which adds the path with the
label of events at the end (`Effect.events_of_apply`). So the tags of a comment take no reference away, and each tag
that refers to an event leaves its reference there (`Tag.mem_events_of_applyAll`).
-/

namespace SymbolDocs

open SymbolDocs.Text Handler.apply

/-- The tags that refer to events. -/
inductive EventTag where
  | fires | listens
  deriving DecidableEq, Repr

namespace EventTag

/-- The title of the tag. -/
def title : EventTag → String
  | .fires => "fires"
  | .listens => "listens"

/-- The rule of the tag. -/
def handler : EventTag → Handler
  | .fires => .fires
  | .listens => .listens

/-- The events that a doclet refers to by such tags. -/
def events (d : Doclet) : EventTag → List String
  | .fires => d.fires
  | .listens => d.listens

end EventTag

variable {tag : Tag} {d d' : Doclet} {path : String} (r : EventTag)

theorem mem_addNew {item x : String} {items : List String} : x ∈ addNew item items ↔ x ∈ items ∨ x = item := by
  unfold addNew
  split
  · next h =>
    rw [List.contains_iff_mem] at h
    exact ⟨.inl, fun hx => hx.elim id (· ▸ h)⟩
  · simp

/-! ## Single effects -/

/-- The references to events are part of the frame of a doclet. -/
theorem events_of_frame (h : d'.frame = d.frame) : r.events d' = r.events d := by
  cases r with
  | fires => exact congrArg Frame.fires h
  | listens => exact congrArg Frame.listens h

/-- **An effect leaves the references to events alone**, unless it is the rule of the tag. -/
theorem Effect.events_of_apply {e : Effect} (h : e.apply tag d = .ok d') :
    r.events d' = r.events d ∨ (e = .rule r.handler ∧ ∃ path, tag.value = some (.text path) ∧
      r.events d' = addNew (NamePath.addNamespace path "event") (r.events d)) := by
  cases he : e.writesSource with
  | true =>
    -- What a doclet is borrowed from does not concern events.
    obtain ⟨source, rfl⟩ := Effect.eq_of_writesSource he h
    exact .inl (by cases r <;> rfl)
  | false =>
    rcases Effect.frame_of_apply he h with hf | ⟨path, rfl, hv, rfl⟩ | ⟨path, rfl, hv, rfl⟩
    · exact .inl (events_of_frame r hf)
    · cases r with
      | fires => exact .inr ⟨rfl, path, hv, rfl⟩
      | listens => exact .inl rfl
    · cases r with
      | fires => exact .inl rfl
      | listens => exact .inr ⟨rfl, path, hv, rfl⟩

theorem Effect.events_subset_of_apply {e : Effect} (h : e.apply tag d = .ok d') : r.events d ⊆ r.events d' := by
  rcases Effect.events_of_apply r h with hs | ⟨-, path, -, ha⟩
  · rw [hs]
    exact List.Subset.refl _
  · rw [ha]
    exact fun x hx => mem_addNew.2 (.inl hx)

/-! ## All tags of a comment -/

namespace Tag

variable {dict : Dictionary} {location : Location} {tags : List Tag}

/-- No tag takes a reference to an event away. -/
theorem events_subset_of_applyAll (h : (applyAll dict location tags d).2 = .ok d') : r.events d ⊆ r.events d' := by
  have hcarries : Carries fun d d' => r.events d ⊆ r.events d' :=
    ⟨fun d => List.Subset.refl _, List.Subset.trans, fun d tag => by cases r <;> exact List.Subset.refl _⟩
  exact hcarries.applyAll (fun _ _ _ _ _ _ => Effect.events_subset_of_apply r) h

/-- A tag that refers to an event adds it to the events that the doclet refers to. -/
theorem runEffects_eventTag (hv : tag.value = some (.text path)) (d : Doclet) :
    ∃ d', runEffects tag [.rule r.handler] d = (d', none) ∧
      r.events d' = addNew (NamePath.addNamespace path "event") (r.events d) := by
  have ht : tag.statedText = .ok path := by
    unfold statedText
    rw [hv]
  have happly : ∃ d', (Effect.rule r.handler).apply tag d = .ok d' ∧
      r.events d' = addNew (NamePath.addNamespace path "event") (r.events d) := by
    simp only [Effect.apply]
    cases r with
    | fires => exact ⟨{ d with fires := _ }, map_eq_ok.2 ⟨path, ht, rfl⟩, rfl⟩
    | listens => exact ⟨{ d with listens := _ }, map_eq_ok.2 ⟨path, ht, rfl⟩, rfl⟩
  obtain ⟨d', happly, hevents⟩ := happly
  exact ⟨d', by simp only [runEffects, happly], hevents⟩

theorem events_afterTag (he : effectsOf dict tag = [.rule r.handler]) (hv : tag.value = some (.text path))
    (d : Doclet) : r.events (afterTag dict tag d) = addNew (NamePath.addNamespace path "event") (r.events d) := by
  obtain ⟨d', hrun, hevents⟩ := runEffects_eventTag r hv d
  unfold afterTag
  rw [he]
  dsimp only
  rw [hrun, hevents]

/-- **A reference to an event stays** through the tags behind it. -/
theorem mem_events_of_applyAll (ht : tag ∈ tags) (he : effectsOf dict tag = [.rule r.handler])
    (hv : tag.value = some (.text path)) (h : (applyAll dict location tags d).2 = .ok d') :
    NamePath.addNamespace path "event" ∈ r.events d' := by
  induction tags generalizing d with
  | nil => cases ht
  | cons first tags ih =>
    have hrest := applyAll_of_cons h
    rcases List.mem_cons.1 ht with rfl | ht
    · refine events_subset_of_applyAll r hrest ?_
      rw [events_afterTag r he hv]
      exact mem_addNew.2 (.inr rfl)
    · exact ih ht hrest

end Tag
end SymbolDocs
