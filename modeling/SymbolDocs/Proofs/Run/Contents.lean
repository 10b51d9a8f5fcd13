import SymbolDocs.Proofs.Database.Copies
import SymbolDocs.Proofs.Run.Ancestry
import SymbolDocs.Proofs.Source.Provenance

/-!
# What is in the database of a run

A run with the built-in grammars, without callbacks and over files whose scopes pair up, first builds what each file
alone gives, one file after the other: files do not influence each other before their doclets are linked
(`Pipeline.parseFiles_separate`). So there is one doclet for each event that closes no scope, in the order of the
events, and linking only puts copies behind these (`Pipeline.run_documents`).
-/

namespace SymbolDocs

variable {dict : Dictionary} {files : List SourceFile} {parts : List (List Doclet × List Diagnostic)}

namespace Run

/-! ## Files on their own -/

/-- A run has the doclets and diagnostics that its files give. -/
theorem parseFiles_of_yields (h : List.Forall₂ (fun file part => Yields dict file part.1 part.2) files parts)
    (reporter : Reporter) :
    ∃ parsed, parseFiles { dict, reporter } files = .ok parsed ∧ parsed.dict = dict ∧
      parsed.database.doclets = parts.flatMap (·.1) ∧
      parsed.reporter.records = reporter.records ++ parts.flatMap (·.2) := by
  obtain ⟨parsed, hparsed, hadds, -⟩ := gives_files h (start { dict, reporter } files) rfl rfl
  exact ⟨parsed, by rw [parseFiles_eq]; exact hparsed, hadds.dict, hadds.doclets, hadds.records⟩

/-- A run over a single file has what the file gives. -/
theorem mapM_parseFiles (h : List.Forall₂ (fun file part => Yields dict file part.1 part.2) files parts) :
    ∃ alone, files.mapM (fun file => parseFiles { dict } [file]) = .ok alone ∧
      alone.map (·.database.doclets) = parts.map (·.1) ∧ alone.map (·.reporter.records) = parts.map (·.2) := by
  induction h with
  | nil => exact ⟨[], rfl, rfl, rfl⟩
  | cons hfile _ ih =>
    obtain ⟨one, hone, -, hdoclets, hrecords⟩ := parseFiles_of_yields (.cons hfile .nil) {}
    obtain ⟨alone, halone, hds, hrs⟩ := ih
    refine ⟨one :: alone, ?_, ?_, ?_⟩
    · rw [List.mapM_cons, hone, halone]
      rfl
    · rw [List.map_cons, List.map_cons, hds, hdoclets]
      simp
    · rw [List.map_cons, List.map_cons, hrs, hrecords]
      simp

end Run

/-- **Files do not influence each other's doclets before they are linked.** With the built-in grammars, without
callbacks and over files whose scopes pair up, a run has read, when all files are read, what runs over the single files
have read, one after the other: the same doclets and the same diagnostics. -/
theorem Pipeline.parseFiles_separate {names : List String} {allowUnknown : AllowUnknown}
    (hd : Grammar.buildAll names allowUnknown = .ok dict) (reporter : Reporter)
    (hb : ∀ file ∈ files, file.Balanced) :
    ∃ parsed alone, Run.parseFiles { dict, reporter } files = .ok parsed ∧
      files.mapM (fun file => Run.parseFiles { dict } [file]) = .ok alone ∧
      parsed.database.doclets = alone.flatMap (·.database.doclets) ∧
      parsed.reporter.records = reporter.records ++ alone.flatMap (·.reporter.records) := by
  obtain ⟨parts, hparts⟩ := Run.exists_yields (Grammar.buildAll_feasible hd) hb
  obtain ⟨parsed, hparsed, -, hdoclets, hrecords⟩ := Run.parseFiles_of_yields hparts reporter
  obtain ⟨alone, halone, hds, hrs⟩ := Run.mapM_parseFiles hparts
  refine ⟨parsed, alone, hparsed, halone, ?_, ?_⟩
  · rw [hdoclets, List.flatMap_def, List.flatMap_def, hds]
  · rw [hrecords, List.flatMap_def, List.flatMap_def, hrs]

/-- A module is the root of its own file only. -/
theorem Pipeline.parseFiles_separate_module :
    let dict := Grammar.jsdoc.dictionary
    let files : List SourceFile := [
      { filename := "a.js", events := [
        { comment := some "/** @module a */" },
        { context := some { name := some "f", codeType := some "FunctionDeclaration" } }] },
      { filename := "b.js", events := [
        { comment := some "/** @unknown */"
          context := some { name := some "g", codeType := some "FunctionDeclaration" }, scopeEvent := .enter },
        { scopeEvent := .exit }] }]
    Grammar.buildAll ["jsdoc"] (.all false) = .ok dict ∧ (∀ file ∈ files, file.Balanced) ∧
      ∃ parsed alone, Run.parseFiles { dict } files = .ok parsed ∧
        files.mapM (fun file => Run.parseFiles { dict } [file]) = .ok alone ∧
        alone.map (·.database.doclets.map (·.longname)) = [[some "module:a", some "module:a~f"], [some "g"]] ∧
        parsed.database.doclets.map (·.longname) = [some "module:a", some "module:a~f", some "g"] ∧
        parsed.database.doclets = alone.flatMap (·.database.doclets) ∧
        parsed.reporter.records = alone.flatMap (·.reporter.records) := by
  intro dict files
  have hd : Grammar.buildAll ["jsdoc"] (.all false) = .ok dict := by with_unfolding_all rfl
  have hb : ∀ file ∈ files, file.Balanced := by decide
  have hlongnames : (files.mapM fun file => Run.parseFiles { dict } [file]).toOption.map
        (·.map (·.database.doclets.map (·.longname))) =
      some [[some "module:a", some "module:a~f"], [some "g"]] := by
    rw [show dict = _ from Grammar.jsdoc_dictionary_eq _]
    decide +kernel
  obtain ⟨parsed, alone, hparsed, halone, hdoclets, hrecords⟩ := parseFiles_separate hd {} hb
  rw [halone] at hlongnames
  have halone' : alone.map (·.database.doclets.map (·.longname)) =
      [[some "module:a", some "module:a~f"], [some "g"]] :=
    Option.some.inj hlongnames
  refine ⟨hd, hb, parsed, alone, hparsed, halone, halone', ?_, hdoclets, hrecords⟩
  rw [hdoclets, List.map_flatMap, List.flatMap_def, halone']
  rfl

/-! ## The doclets of events -/

/-- The doclet of an event tells of this event, and is borrowed from nowhere. -/
theorem SourceEvent.BuiltAs.source (hk : dict.KeepsSource) {filename : String} {event : SourceEvent} {d : Doclet}
    (h : event.BuiltAs dict filename d) :
    d.provenance = event.provenance filename ∧ d.borrowedFrom = none ∧ d.state = .nameResolved := by
  obtain ⟨comment, context, scopeEvent⟩ := event
  obtain ⟨stack, stack', hbuild⟩ := h
  have hs := source_of_build hk hbuild
  refine ⟨?_, congrArg Frame.borrowedFrom hs, congrArg Frame.state hs⟩
  have hprovenance : d.provenance =
      { comment := d.source.comment, name := d.source.origin.codeName, lineno := d.source.origin.lineno
        filename := d.source.origin.filename } := rfl
  rw [hprovenance, hs]
  cases context <;> rfl

theorem map_provenance (hk : dict.KeepsSource) {filename : String} {events : List SourceEvent} {ds : List Doclet}
    (h : List.Forall₂ (SourceEvent.BuiltAs dict filename) events ds) :
    ds.map Doclet.provenance = events.map (·.provenance filename) := by
  induction h with
  | nil => rfl
  | cons hd _ ih => rw [List.map_cons, List.map_cons, ih, (hd.source hk).1]

/-- The doclets that files give tell of their events, in order. -/
theorem Run.map_provenance_flatMap (hk : dict.KeepsSource)
    (h : List.Forall₂ (fun file part => Run.Yields dict file part.1 part.2) files parts) :
    (parts.flatMap (·.1)).map Doclet.provenance =
      files.flatMap fun file => (documented file.events).map (·.provenance file.filename) := by
  induction h with
  | nil => rfl
  | cons hfile _ ih => rw [List.flatMap_cons, List.flatMap_cons, List.map_append, ih, map_provenance hk hfile.built]

theorem forall_of_forall₂ {α β : Type} {R : α → β → Prop} {P : β → Prop} {xs : List α} {ys : List β}
    (h : List.Forall₂ R xs ys) (hP : ∀ x y, R x y → P y) : ∀ y ∈ ys, P y := by
  induction h with
  | nil => exact List.forall_mem_nil _
  | cons hr _ ih => exact List.forall_mem_cons.2 ⟨hP _ _ hr, ih⟩

/-- The doclets that files give are borrowed from nowhere, and are not linked yet. -/
theorem Run.source_of_yields (hk : dict.KeepsSource)
    (h : List.Forall₂ (fun file part => Run.Yields dict file part.1 part.2) files parts) :
    ∀ d ∈ parts.flatMap (·.1), d.borrowedFrom = none ∧ d.state = .nameResolved := by
  intro d hd
  obtain ⟨part, hpart, hd⟩ := List.mem_flatMap.1 hd
  have hall : ∀ part ∈ parts, ∀ d ∈ part.1, d.borrowedFrom = none ∧ d.state = .nameResolved := by
    refine forall_of_forall₂ h fun file part hy => ?_
    exact forall_of_forall₂ hy.built fun event d hbuilt => (hbuilt.source hk).2
  exact hall part hpart d hd

/-- A run links what it has when all files are read. -/
theorem Pipeline.run_of_parseFiles {reporter : Reporter} {parsed : Run}
    (h : Run.parseFiles { dict, reporter } files = .ok parsed) :
    Pipeline.run { dict, reporter } files =
      .ok (parsed.link.note ("Built " ++ toString parsed.link.database.size ++ " doclet(s)")) := by
  rw [Pipeline.run_eq, ← Run.parseFiles_eq, h]
  rfl

/-- **No event is lost or duplicated.** With the built-in grammars, without callbacks and over files whose scopes pair
up, a run comes to a database that starts with one doclet for each event that closes no scope, in the order of files
and events. Each has the comment of its event and the name, the line and the file of the construct. The doclets behind
these, and only they, are copies of borrowed symbols, and all doclets are linked. -/
theorem Pipeline.run_documents {names : List String} {allowUnknown : AllowUnknown}
    (hd : Grammar.buildAll names allowUnknown = .ok dict) (reporter : Reporter)
    (hb : ∀ file ∈ files, file.Balanced) :
    ∃ run built copies, Pipeline.run { dict, reporter } files = .ok run ∧ run.database.doclets = built ++ copies ∧
      built.map Doclet.provenance =
        files.flatMap (fun file => (documented file.events).map (·.provenance file.filename)) ∧
      (∀ d ∈ built, d.borrowedFrom = none) ∧ (∀ c ∈ copies, c.borrowedFrom ≠ none) ∧
      ∀ d ∈ run.database.doclets, d.state = .crossReferenced := by
  have hk := Grammar.buildAll_keepsSource hd
  obtain ⟨parts, hparts⟩ := Run.exists_yields (Grammar.buildAll_feasible hd) hb
  obtain ⟨parsed, hparsed, -, hdoclets, -⟩ := Run.parseFiles_of_yields hparts reporter
  have hsource : ∀ d ∈ parsed.database.doclets, d.borrowedFrom = none ∧ d.state = .nameResolved := by
    rw [hdoclets]
    exact Run.source_of_yields hk hparts
  have hrun := Pipeline.run_of_parseFiles hparsed
  let l : Linking := { database := parsed.database, reporter := parsed.reporter }
  refine ⟨_, l.linkAll.database.doclets.take l.database.size, l.linkAll.database.doclets.drop l.database.size, hrun,
    (List.take_append_drop _ _).symm, ?_, ?_, ?_, ?_⟩
  · have hkept : ∀ d d', Linking.Enriched d d' → d'.provenance = d.provenance := by
      rintro d d' ⟨⟩
      rfl
    have hbuilt : parsed.database.doclets.map Doclet.provenance =
        files.flatMap fun file => (documented file.events).map (·.provenance file.filename) := by
      rw [hdoclets]
      exact Run.map_provenance_flatMap hk hparts
    rw [Linking.map_take_linkAll hkept, ← hbuilt]
  · intro d hd
    obtain ⟨d₀, hd₀, henriched⟩ := Linking.enriched_of_mem_take l hd
    rw [henriched.borrowedFrom]
    exact (hsource d₀ hd₀).1
  · intro c hc
    exact Linking.borrowedFrom_linkAll l (Run.Placing.parseFiles hparsed).2.rooted.indexed hc
  · exact Linking.state_linkAll l fun d hd => (hsource d hd).2

/-- A namespace that borrows a function of another file, and a construct that names its file. -/
theorem Pipeline.run_documents_borrowed :
    let dict := Grammar.jsdoc.dictionary
    let borrowing := "/** @namespace\n * @borrows g as h */"
    let files : List SourceFile := [
      { filename := "a.js", events := [
        { comment := some borrowing, context := some { name := some "N", lineno := some 3 }, scopeEvent := .enter },
        { scopeEvent := .exit }] },
      { filename := "b.js", events := [
        { comment := some "/** @unknown */", context := some { name := some "g", filename := some "gen.js" } }] }]
    Grammar.buildAll ["jsdoc"] (.all false) = .ok dict ∧ (∀ file ∈ files, file.Balanced) ∧
      ∃ run built copies, Pipeline.run { dict } files = .ok run ∧ run.database.doclets = built ++ copies ∧
        run.database.longnames = ["N", "g", "N.h"] ∧ run.database.doclets.map (·.borrowedFrom) = [none, none, some "g"] ∧
        built.map Doclet.provenance = [
          { comment := borrowing, name := some "N", lineno := some 3, filename := some "a.js" },
          { comment := "/** @unknown */", name := some "g", lineno := none, filename := some "gen.js" }] ∧
        (∀ d ∈ built, d.borrowedFrom = none) ∧ (∀ c ∈ copies, c.borrowedFrom ≠ none) ∧
        ∀ d ∈ run.database.doclets, d.state = .crossReferenced := by
  intro dict borrowing files
  have hd : Grammar.buildAll ["jsdoc"] (.all false) = .ok dict := by with_unfolding_all rfl
  have hb : ∀ file ∈ files, file.Balanced := by decide
  have hcontents : (Pipeline.run { dict } files).toOption.map
        (fun run => (run.database.longnames, run.database.doclets.map (·.borrowedFrom))) =
      some (["N", "g", "N.h"], [none, none, some "g"]) := by
    rw [show dict = _ from Grammar.jsdoc_dictionary_eq _]
    decide +kernel
  obtain ⟨run, built, copies, hrun, hsplit, hbuilt, hrest⟩ := run_documents hd {} hb
  rw [hrun] at hcontents
  obtain ⟨hlongnames, hborrowed⟩ := Prod.mk.inj (Option.some.inj hcontents)
  exact ⟨hd, hb, run, built, copies, hrun, hsplit, hlongnames, hborrowed, hbuilt, hrest⟩

end SymbolDocs
