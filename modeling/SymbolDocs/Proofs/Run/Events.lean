import SymbolDocs.Proofs.Database.Listeners
import SymbolDocs.Proofs.Run.Ancestry
import SymbolDocs.Proofs.Grammar.Feasible
import SymbolDocs.Proofs.Grammar.Lookup
import SymbolDocs.Proofs.Naming.References
import SymbolDocs.Proofs.Source.Building
import SymbolDocs.Proofs.Tag.EventReferences
import SymbolDocs.Proofs.Tag.PathTags

/-!
# Events and their listeners

An event that a comment of its own declares is named by its placement, and the tags of other comments refer to it by
a longname that they make on their own. `build_event_listeners` says when the two are the same, and that the listeners
find the event then.
-/

namespace SymbolDocs

open SymbolDocs.Text SymbolDocs.NamePath SymbolDocs.Naming

/-! ## Building -/

/-- A comment is applied to what the construct implies, and the result gets its place. A blank comment is no
exception. -/
theorem build_eq (dict : Dictionary) (stack : ScopeStack) (comment : String) (context : SourceContext)
    (event : ScopeEvent) :
    build dict stack (some comment) context event =
      ((applyComment dict context.location comment (Doclet.ofContext (some comment) context)).1,
        (applyComment dict context.location comment (Doclet.ofContext (some comment) context)).2.bind
          fun (tags, d) => (d.complete tags context).settle dict stack event) := by
  have hcomment : (Doclet.ofContext (some comment) context).comment = comment := rfl
  unfold build
  dsimp only
  rw [hcomment]
  split
  · next hblank =>
    have hread : Tag.readComment dict context.location comment = ([], []) := by
      rw [Tag.readComment, Comment.rawTags_of_allBlank hblank]
      rfl
    rw [applyComment, hread]
    rfl
  · rfl

/-! ## Definitions of the tags -/

/-- The tag for events states the kind, which is part of longnames but holds no members. -/
theorem lookup_event (allowUnknown : AllowUnknown) :
    ∃ d, (Grammar.jsdoc.dictionary allowUnknown).lookup "event" = some d ∧ d.TakesPath ∧
      d.effects = [.stateKind "event"] ∧ d.isNamespace = false ∧ d.prefixesLongname = true := by
  have hmem : ({ name := "event", effects := Grammar.kind "event", shape := .namePath, mustHaveValue := true,
                 prefixesLongname := true } : Definition) ∈ Grammar.jsdocTags := by
    simp [Grammar.jsdocTags]
  exact ⟨_, Grammar.lookup_jsdoc (List.mem_append_right _ hmem) allowUnknown, ⟨rfl, rfl, rfl⟩, rfl, rfl, rfl⟩

/-- A tag that refers to events does nothing else. -/
theorem EventTag.lookup (r : EventTag) (allowUnknown : AllowUnknown) :
    ∃ d, (Grammar.jsdoc.dictionary allowUnknown).lookup r.title = some d ∧ d.TakesPath ∧
      d.effects = [.rule r.handler] := by
  cases r with
  | fires =>
    have hmem : ({ name := "fires", effects := Grammar.rule .fires, synonyms := ["emits"], shape := .namePath,
                   mustHaveValue := true } : Definition) ∈ Grammar.jsdocTags := by
      simp [Grammar.jsdocTags]
    exact ⟨_, Grammar.lookup_jsdoc (List.mem_append_right _ hmem) allowUnknown, ⟨rfl, rfl, rfl⟩, rfl⟩
  | listens =>
    have hmem : ({ name := "listens", effects := Grammar.rule .listens, shape := .namePath, mustHaveValue := true } :
        Definition) ∈ Grammar.jsdocTags := by
      simp [Grammar.jsdocTags]
    exact ⟨_, Grammar.lookup_jsdoc (List.mem_append_right _ hmem) allowUnknown, ⟨rfl, rfl, rfl⟩, rfl⟩

/-- Events are no namespaces, and their kind is part of their longnames. -/
theorem label_event (allowUnknown : AllowUnknown) {d : Doclet} (hk : d.kind = some "event") :
    isRootKind (Grammar.jsdoc.dictionary allowUnknown) d.kind = false ∧
      label (Grammar.jsdoc.dictionary allowUnknown) d = kindLabel (some "event") := by
  obtain ⟨definition, hl, -, -, hnamespace, hprefix⟩ := lookup_event allowUnknown
  generalize Grammar.jsdoc.dictionary allowUnknown = dict at *
  have hkind : dict.kindDefinition (some "event") = some definition := hl
  constructor
  · rw [isRootKind, Dictionary.opensNamespace, hk, hkind, Option.map_some, Option.getD_some, hnamespace]
    simp
  · rw [label, Dictionary.marksLongname, hk, hkind, Option.map_some, Option.getD_some, hprefix, if_pos rfl]

/-! ## Listeners -/

/-- What only the code says about a doclet does not concern events. -/
theorem events_complete (r : EventTag) (d : Doclet) (tags : List Tag) (context : SourceContext) :
    r.events (d.complete tags context) = r.events d := by
  have hf := frame_complete d tags context
  cases r with
  | fires => exact congrArg Frame.fires hf
  | listens => exact congrArg Frame.listens hf

theorem events_place (r : EventTag) (dict : Dictionary) (stack : ScopeStack) (d : Doclet) :
    r.events (d.place dict stack) = r.events d := by
  cases r <;> rfl

section Building

variable {allowUnknown : AllowUnknown} {stack stack' : ScopeStack} {comment path : String} {context : SourceContext}
  {event : ScopeEvent} {d : Doclet}

/-- The doclet of a comment is placed after the tags are applied. -/
theorem exists_applied_of_build {dict : Dictionary}
    (h : (build dict stack (some comment) context event).2 = .ok (d, stack')) :
    ∃ d₀ : Doclet, (Tag.applyAll dict context.location (Tag.readComment dict context.location comment).2
        (Doclet.ofContext (some comment) context)).2 = .ok d₀ ∧
      d = (d₀.complete (Tag.readComment dict context.location comment).2 context).place dict stack := by
  rw [build_eq] at h
  obtain ⟨⟨tags, d₀⟩, happly, hsettle⟩ := bind_eq_ok.1 h
  cases (settle_complete dict stack event d₀ tags context).symm.trans hsettle
  unfold applyComment at happly
  dsimp only at happly
  obtain ⟨d₁, hd₁, heq⟩ := map_eq_ok.1 happly
  obtain ⟨rfl, rfl⟩ := Prod.mk.inj heq
  exact ⟨d₁, hd₁, rfl⟩

/-- A doclet refers to the events that the tags of its comment refer to. -/
theorem mem_events_of_build (r : EventTag) (hc : Comment.HasTag comment r.title path)
    (h : (build (Grammar.jsdoc.dictionary allowUnknown) stack (some comment) context event).2 = .ok (d, stack')) :
    addNamespace path "event" ∈ r.events d := by
  obtain ⟨definition, hl, htakes, heffects⟩ := r.lookup allowUnknown
  generalize Grammar.jsdoc.dictionary allowUnknown = dict at *
  obtain ⟨d₀, happly, rfl⟩ := exists_applied_of_build h
  obtain ⟨tag, hmem, hvalue, heff⟩ := Tag.mem_readComment_of_hasTag hl htakes hc context.location
  rw [events_place, events_complete]
  exact Tag.mem_events_of_applyAll r hmem (heff.trans heffects) hvalue happly

/-- A comment of nothing but one reference to an event leaves no other one. -/
theorem events_of_build (r : EventTag) (hc : Comment.IsTag comment r.title path)
    (h : (build (Grammar.jsdoc.dictionary allowUnknown) stack (some comment) context event).2 = .ok (d, stack')) :
    r.events d = [addNamespace path "event"] := by
  obtain ⟨definition, hl, htakes, heffects⟩ := r.lookup allowUnknown
  generalize Grammar.jsdoc.dictionary allowUnknown = dict at *
  obtain ⟨d₀, happly, rfl⟩ := exists_applied_of_build h
  obtain ⟨tag, hread, hvalue, heff⟩ := Tag.readComment_of_isTag hl htakes hc context.location
  rw [hread] at happly
  cases Tag.applyAll_of_cons happly
  rw [events_place, events_complete, Tag.events_afterTag r (heff.trans heffects) hvalue]
  cases r <;> rfl

/-- Only modules are named after their files, and only functions and classes take parameters from the code. -/
theorem complete_of_kind {d : Doclet} (hm : d.kind ≠ some "module") (hf : d.kind ≠ some "function")
    (hc : d.kind ≠ some "class") (tags : List Tag) (context : SourceContext) :
    d.complete tags context = ({ d with state := .tagsApplied } : Doclet).markUndocumented tags := by
  have hname (d : Doclet) (hm : d.kind ≠ some "module") : d.nameModule context = d := by
    unfold Doclet.nameModule
    split
    · simp [hm]
    · rfl
  have hparams (d : Doclet) (hf : d.kind ≠ some "function") (hc : d.kind ≠ some "class") :
      d.takeParams context = d := by
    unfold Doclet.takeParams
    simp [hf, hc]
  let marked := ({ d with state := .tagsApplied } : Doclet).markUndocumented tags
  exact (congrArg (·.takeParams context) (hname marked hm)).trans (hparams marked hf hc)

/-- A comment of nothing but an event makes a doclet that the tag names and that nothing else places. -/
theorem build_event (allowUnknown : AllowUnknown) (hc : Comment.IsTag comment "event" path) (filename : Option String)
    (lineno : Option Int) :
    ∃ d : Doclet, d.Unplaced ∧ d.kind = some "event" ∧ d.variation = none ∧
      build (Grammar.jsdoc.dictionary allowUnknown) {} (some comment) { filename, lineno } .none =
        ([], .ok ((d.tagName path).place (Grammar.jsdoc.dictionary allowUnknown) {}, {})) := by
  obtain ⟨definition, hl, htakes, heffects, -⟩ := lookup_event allowUnknown
  generalize Grammar.jsdoc.dictionary allowUnknown = dict at *
  let context : SourceContext := { filename, lineno }
  obtain ⟨tag, hread, hvalue, heff⟩ := Tag.readComment_of_isTag hl htakes hc context.location
  obtain ⟨raw, -, hnames⟩ := hc
  let shell := Doclet.ofContext (some comment) context
  let d := ({ shell with kind := some "event", state := .tagsApplied } : Doclet).markUndocumented [tag]
  have hstate : Tag.applyAll dict context.location [tag] shell =
      ([], .ok (({ shell with kind := some "event" } : Doclet).tagName path)) := by
    have hname : nonempty (some path) = some path := nonempty_eq_some_iff.2 ⟨rfl, hnames.path_ne_empty⟩
    have happly : (Effect.stateKind "event" : Effect).apply tag shell =
        .ok (({ shell with kind := some "event" } : Doclet).tagName path) := by
      simp only [Effect.apply, Doclet.stateKind, hvalue, Doclet.tagNameIfNonempty, hname]
    simp only [Tag.applyAll, heff, heffects, Tag.runEffects, happly]
  have hcomplete : (({ shell with kind := some "event" } : Doclet).tagName path).complete [tag] context =
      d.tagName path :=
    complete_of_kind (by simp [Doclet.tagName]) (by simp [Doclet.tagName]) (by simp [Doclet.tagName]) [tag] context
  have hsettle : (d.tagName path).settle dict {} .none = .ok ((d.tagName path).place dict {}, {}) := by
    have hkind : ((d.tagName path).place dict {}).kind = some "event" := rfl
    have hresolve : (d.tagName path).resolve dict {} = .ok ((d.tagName path).place dict {}) := rfl
    simp [Doclet.settle, hresolve, ScopeStack.afterDoclet, hkind]
  have happly : applyComment dict context.location comment shell =
      ([], .ok ([tag], ({ shell with kind := some "event" } : Doclet).tagName path)) := by
    unfold applyComment
    rw [hread]
    dsimp only
    rw [hstate]
    rfl
  refine ⟨d, ⟨rfl, rfl, rfl, rfl, rfl, rfl, rfl, rfl⟩, rfl, rfl, ?_⟩
  rw [build_eq, happly, ← hsettle, ← hcomplete]
  rfl

/-- Every doclet has a longname. -/
theorem exists_longname_of_build {dict : Dictionary}
    (h : (build dict stack (some comment) context event).2 = .ok (d, stack')) :
    ∃ name, nonempty d.longname = some name := by
  obtain ⟨d₀, rfl⟩ := place_of_build h
  obtain ⟨name, hl, hne, -⟩ := Doclet.rooted_place dict stack d₀
  exact ⟨name, nonempty_eq_some_iff.2 ⟨hl, hne⟩⟩

end Building

/-! ## Events and their listeners -/

/-- When a comment of nothing but an event gives the event the longname of the references to it. -/
theorem longname_build_event_iff (allowUnknown : AllowUnknown) {path comment : String}
    (hc : Comment.IsTag comment "event" path) (ho : OnceLabelled (kindLabel (some "event")) (split path).2.2)
    (filename : Option String) (lineno : Option Int) :
    ∃ d, build (Grammar.jsdoc.dictionary allowUnknown) {} (some comment) { filename, lineno } .none =
        ([], .ok (d, {})) ∧ d.kind = some "event" ∧
      (d.longname = some (addNamespace path "event") ↔
        normalize path = path ∨ isNested path ≠ startsWith (split path).2.2 (kindLabel (some "event"))) := by
  obtain ⟨d, hplace, hkind, hvariation, hbuild⟩ := build_event allowUnknown hc filename lineno
  obtain ⟨hroot, hlabel⟩ := label_event allowUnknown hkind
  obtain ⟨raw, -, hnames⟩ := hc
  generalize Grammar.jsdoc.dictionary allowUnknown = dict at *
  have hlong : ((d.tagName path).place dict {}).longname = some (placement dict {} (d.tagName path)).longname := by
    have hnone : (d.tagName path).variation = none := hvariation
    rw [Doclet.place, hnone]
    rfl
  refine ⟨_, hbuild, hkind, ?_⟩
  rw [hlong, Option.some_inj]
  exact hplace.longname_tagName_eq_iff hroot hnames.path_ne_empty hlabel (by decide) (by decide) (by decide) ho

/-- **An event and the references to it.** A comment of nothing but `@event path`, outside every scope, makes a doclet
whose longname is that of the references to the event just if the path is in normal form, or if either the path has
several segments or the last one has the label of events, but not both. A tag `@fires path` or `@listens path` of
another comment leaves the reference in its doclet. If the longname is the same, then linking lists the listener in
the event. -/
theorem build_event_listeners (allowUnknown : AllowUnknown) {path comment : String}
    (hcomment : Comment.IsTag comment "event" path) (honce : OnceLabelled (kindLabel (some "event")) (split path).2.2)
    (filename : Option String) (lineno : Option Int) :
    let dict := Grammar.jsdoc.dictionary allowUnknown
    let reference := addNamespace path "event"
    ∃ event, build dict {} (some comment) { filename, lineno } .none = ([], .ok (event, {})) ∧
      (event.longname = some reference ↔
        normalize path = path ∨ isNested path ≠ startsWith (split path).2.2 (kindLabel (some "event"))) ∧
      ∀ (r : EventTag) (referring : String), Comment.HasTag referring r.title path → ∀ stack context scopeEvent,
        ∃ found d stack', build dict stack (some referring) context scopeEvent = (found, .ok (d, stack')) ∧
          reference ∈ r.events d ∧ (Comment.IsTag referring r.title path → r.events d = [reference]) ∧
          (r = .listens → event.longname = some reference → ∀ (l : Linking) (p : Nat),
            l.database.doclets[p]? = some event → d ∈ l.database.doclets →
              ∃ linked name, l.linkAll.database.doclets[p]? = some linked ∧
                Linking.isEvent reference linked = true ∧ d.longname = some name ∧ name ∈ linked.listeners) := by
  intro dict reference
  obtain ⟨event, hevent, hkind, hiff⟩ := longname_build_event_iff allowUnknown hcomment honce filename lineno
  refine ⟨event, hevent, hiff, fun r referring hc stack context scopeEvent => ?_⟩
  obtain ⟨found, d, hd, -⟩ := build_spec (Grammar.dictionary_feasible .jsdoc allowUnknown) stack (some referring)
    context scopeEvent
  have hok := congrArg Prod.snd hd
  have hmem := mem_events_of_build r hc hok
  refine ⟨found, d, _, hd, hmem, fun hc => events_of_build r hc hok, ?_⟩
  rintro rfl hsame l p hp hd
  obtain ⟨name, hname⟩ := exists_longname_of_build hok
  have hi : Linking.isEvent reference event = true :=
    Bool.and_eq_true_iff.2 ⟨decide_eq_true hsame, decide_eq_true hkind⟩
  obtain ⟨linked, hlinked, hi', hn⟩ := Linking.mem_listeners_linkAll hp hi hd hmem hname
  exact ⟨linked, name, hlinked, hi', (nonempty_eq_some_iff.1 hname).1, hn⟩

/-- An event of a class, and a function that listens to it. -/
theorem build_event_listeners_class :
    let dict := Grammar.jsdoc.dictionary
    let comment := "/** @event Hurl#snowball */"
    let listening := "/**\n * Handles snowballs.\n * @listens Hurl#snowball\n */"
    let context : SourceContext := { name := some "onSnowball", codeType := some "FunctionDeclaration" }
    Comment.IsTag comment "event" "Hurl#snowball" ∧
      OnceLabelled (kindLabel (some "event")) (split "Hurl#snowball").2.2 ∧
      Comment.HasTag listening "listens" "Hurl#snowball" ∧
      ∃ event found d stack', build dict {} (some comment) {} .none = ([], .ok (event, {})) ∧
        event.longname = some "Hurl#event:snowball" ∧
        build dict {} (some listening) context .none = (found, .ok (d, stack')) ∧
        "Hurl#event:snowball" ∈ d.listens ∧
        ∀ (l : Linking) (p : Nat), l.database.doclets[p]? = some event → d ∈ l.database.doclets →
          ∃ linked name, l.linkAll.database.doclets[p]? = some linked ∧
            Linking.isEvent "Hurl#event:snowball" linked = true ∧ d.longname = some name ∧ name ∈ linked.listeners := by
  intro dict comment listening context
  have hreads : Tag.readNamePath " Hurl#snowball" = .ok "Hurl#snowball" := by with_unfolding_all rfl
  have hcomment : Comment.IsTag comment "event" "Hurl#snowball" :=
    ⟨{ title := "event", text := " Hurl#snowball" }, by decide +kernel, rfl, hreads, by decide⟩
  have hlistening : Comment.HasTag listening "listens" "Hurl#snowball" :=
    ⟨{ title := "listens", text := " Hurl#snowball" }, by decide +kernel, rfl, hreads, by decide⟩
  have honce : OnceLabelled (kindLabel (some "event")) (split "Hurl#snowball").2.2 := by decide +kernel
  have href : addNamespace "Hurl#snowball" "event" = "Hurl#event:snowball" := by decide +kernel
  have hnormal : normalize "Hurl#snowball" = "Hurl#snowball" := by decide +kernel
  obtain ⟨event, hevent, hiff, hreferences⟩ := build_event_listeners (.all false) hcomment honce none none
  obtain ⟨found, d, stack', hd, hmem, -, hlinked⟩ := hreferences .listens listening hlistening {} context .none
  have hlong := hiff.2 (.inl hnormal)
  rw [href] at hlong hmem hlinked
  exact ⟨hcomment, honce, hlistening, event, found, d, stack', hevent, hlong, hd, hmem, hlinked rfl hlong⟩

/-- A path that has the label and is not in normal form. The reference keeps the prototype word, which the longname of
the event does not have, and the event has no listener. -/
theorem run_prototypeEvent :
    let path := "Foo.prototype.event:change"
    let comment := "/** @event Foo.prototype.event:change */"
    let listening := "/** @listens Foo.prototype.event:change */"
    let context : SourceContext := { name := some "onChange", codeType := some "FunctionDeclaration" }
    let files : List SourceFile :=
      [{ filename := "a.js", events := [{ comment }, { comment := some listening, context := some context }] }]
    Comment.IsTag comment "event" path ∧ OnceLabelled (kindLabel (some "event")) (split path).2.2 ∧
      Comment.IsTag listening "listens" path ∧
      (Pipeline.run { dict := Grammar.jsdoc.dictionary } files).toOption.map
          (fun run => run.database.doclets.map fun d => (d.longname, d.listens, d.listeners)) =
        some [(some "Foo#event:change", [], []), (some "onChange", [path], [])] := by
  have hreads : Tag.readNamePath " Foo.prototype.event:change" = .ok "Foo.prototype.event:change" := by
    with_unfolding_all rfl
  refine ⟨⟨{ title := "event", text := " Foo.prototype.event:change" }, by decide +kernel, rfl, hreads, by decide⟩,
    by decide +kernel,
    ⟨{ title := "listens", text := " Foo.prototype.event:change" }, by decide +kernel, rfl, hreads, by decide⟩, ?_⟩
  rw [Grammar.jsdoc_dictionary_eq]
  decide +kernel

end SymbolDocs
