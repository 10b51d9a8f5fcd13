import SymbolDocs.Proofs.Database.Reports
import SymbolDocs.Proofs.Grammar.Lookup
import SymbolDocs.Proofs.Run.Balance
import SymbolDocs.Proofs.Tag.PathTags

/-!
# Errors are unknown tags

The only errors that a run without callbacks reports are the tags that are written out in a comment and that the
dictionary neither knows nor allows. A raw tag makes one error if it is such a tag and none otherwise
(`Tag.errors_readRawTag`), applying tags and linking doclets make none, and so the errors of a run are those of its
events, in order (`Run.Errs`). In particular there are errors just if there are such tags (`Pipeline.hasErrors_run`).
-/

namespace SymbolDocs

open SymbolDocs.Text

/-- Whether a raw tag is written out in the comment, but neither known to a dictionary nor allowed by it. -/
def RawTag.isUnknown (dict : Dictionary) (raw : RawTag) : Bool :=
  !raw.implicit && (dict.lookup raw.title).isNone && !dict.allows raw.title

/-- The raw tags of the comment of an event. -/
def SourceEvent.rawTags (event : SourceEvent) : List RawTag := Comment.rawTags (Comment.body (event.comment.getD ""))

/-- The diagnostics that count as errors. -/
def errors (found : List Diagnostic) : List Diagnostic := found.filter (·.isError)

theorem errors_append (found found' : List Diagnostic) : errors (found ++ found') = errors found ++ errors found' :=
  List.filter_append found found'

theorem errors_eq_nil {found : List Diagnostic} (h : ∀ x ∈ found, x.isError = false) : errors found = [] :=
  List.filter_eq_nil_iff.2 fun x hx => Bool.not_eq_true _ ▸ h x hx

/-! ## Comments -/

namespace Tag

variable {dict : Dictionary} {location : Location}

/-- The errors that raw tags make: one for each of them that is unknown. -/
def unknownTags (dict : Dictionary) (location : Location) (raws : List RawTag) : List Diagnostic :=
  (raws.filter (·.isUnknown dict)).map fun raw => .ofProblem (.unknownTag raw.title) location

theorem Misfit.isError {x : Diagnostic} (h : Misfit location x) : x.isError = false := by
  obtain ⟨title, detail, construct, rfl⟩ := h
  rfl

/-- A tag with a definition makes no error, whatever its text is. -/
theorem errors_readKnown (d : Definition) (location : Location) (raw : RawTag) :
    errors (readKnown d location raw).1 = [] := by
  have htypes : ∀ x ∈ ((readValue d raw.text).1.map fun p => Diagnostic.ofProblem p location).toList,
      x.isError = false := by
    intro x hx
    obtain ⟨problem, hp, rfl⟩ := Option.map_eq_some_iff.1 (Option.mem_toList.1 hx)
    obtain ⟨expression, fault, rfl⟩ := isTypeFault_readValue hp
    rfl
  unfold readKnown
  dsimp only
  split
  · exact errors_eq_nil htypes
  · rw [errors_append, errors_eq_nil htypes]
    rfl

/-- A raw tag makes one error if it is unknown, and none otherwise. -/
theorem errors_readRawTag (dict : Dictionary) (location : Location) (raw : RawTag) :
    errors (readRawTag dict location raw).1 = unknownTags dict location [raw] := by
  unfold readRawTag definitionOf?
  cases hl : dict.lookup raw.title with
  | some d =>
    have hknown : raw.isUnknown dict = false := by simp [RawTag.isUnknown, hl]
    rw [Option.some_or, unknownTags, List.filter_cons_of_neg (by simp [hknown])]
    exact errors_readKnown d location raw
  | none =>
    rw [Option.none_or]
    cases hi : raw.implicit with
    | true =>
      have hknown : raw.isUnknown dict = false := by simp [RawTag.isUnknown, hi]
      rw [if_pos rfl, unknownTags, List.filter_cons_of_neg (by simp [hknown])]
      exact errors_readKnown leadingDescription location raw
    | false =>
      rw [if_neg Bool.false_ne_true, unknownTags]
      dsimp only
      unfold readUnknown
      split
      · next ha =>
        rw [List.filter_cons_of_neg (by simp [RawTag.isUnknown, ha])]
        rfl
      · next ha =>
        rw [List.filter_cons_of_pos (by simp [RawTag.isUnknown, hi, hl, ha])]
        rfl

/-- A comment makes the errors of its raw tags. -/
theorem errors_readComment (dict : Dictionary) (location : Location) (comment : String) :
    errors (readComment dict location comment).1 =
      unknownTags dict location (Comment.rawTags (Comment.body comment)) := by
  simp only [readComment, List.flatMap_map]
  induction Comment.rawTags (Comment.body comment) with
  | nil => rfl
  | cons raw raws ih =>
    rw [List.flatMap_cons, errors_append, ih, errors_readRawTag, unknownTags, unknownTags, unknownTags,
      ← List.map_append, ← List.filter_append, List.singleton_append]

end Tag

/-- Building the doclet of an event makes the errors of the raw tags in its comment. -/
theorem errors_build (dict : Dictionary) (stack : ScopeStack) (comment : Option String) (context : SourceContext)
    (event : ScopeEvent) :
    errors (build dict stack comment context event).1 =
      Tag.unknownTags dict context.location (Comment.rawTags (Comment.body (comment.getD ""))) := by
  have hcomment : (Doclet.ofContext comment context).comment = comment.getD "" := rfl
  unfold build
  dsimp only
  rw [hcomment]
  split
  · next hblank =>
    rw [Comment.rawTags_of_allBlank hblank]
    rfl
  · have happlied := errors_eq_nil fun x hx => (Tag.misfit_of_applyAll dict context.location
      (Tag.readComment dict context.location (comment.getD "")).2 (Doclet.ofContext comment context) x hx).isError
    rw [applyComment, errors_append, Tag.errors_readComment, happlied, List.append_nil]

/-! ## Linking -/

/-- A link to a symbol that is not documented is no error, so linking makes none. -/
theorem Run.errors_link (run : Run) : errors run.link.reporter.records = errors run.reporter.records := by
  obtain ⟨found, hfound, hreports⟩ := Linking.reports_linkAll { database := run.database, reporter := run.reporter }
  have hnone : ∀ x ∈ found, x.isError = false := by
    intro x hx
    rcases hreports x hx with hs | ⟨relation, d, name, rfl⟩
    · cases hs <;> rfl
    · rfl
  calc errors run.link.reporter.records = errors (run.reporter.records ++ found) := congrArg errors hfound
    _ = errors run.reporter.records := by rw [errors_append, errors_eq_nil hnone, List.append_nil]

/-! ## Runs -/

/-- The errors that an event in a file makes: those of its comment, unless it closes a scope. -/
def SourceEvent.unknownTags (dict : Dictionary) (filename : String) (event : SourceEvent) : List Diagnostic :=
  if event.scopeEvent = .exit then [] else Tag.unknownTags dict (Run.contextOf filename event).location event.rawTags

/-- The errors that a file makes. -/
def SourceFile.unknownTags (dict : Dictionary) (file : SourceFile) : List Diagnostic :=
  file.events.flatMap (·.unknownTags dict file.filename)

namespace Run

variable {run mid last : Run} {es es' : List Diagnostic}

/-- A later state of a run with the same dictionary, and with further errors. -/
structure Errs (run : Run) (es : List Diagnostic) (last : Run) : Prop where
  dict : last.dict = run.dict
  errors : errors last.reporter.records = errors run.reporter.records ++ es

theorem Errs.refl (run : Run) : run.Errs [] run := ⟨rfl, (List.append_nil _).symm⟩

theorem Errs.trans (h : run.Errs es mid) (h' : mid.Errs es' last) : run.Errs (es ++ es') last :=
  ⟨h'.dict.trans h.dict, by rw [h'.errors, h.errors, List.append_assoc]⟩

/-- Steps make the errors that each of them makes, one after the other. -/
theorem errs_foldlM {α : Type} {step : Run → α → Except Stopped Run} (made : Dictionary → α → List Diagnostic)
    (hstep : ∀ run a last, step run a = .ok last → run.Errs (made run.dict a) last) {xs : List α}
    (h : xs.foldlM step run = .ok last) : run.Errs (xs.flatMap (made run.dict)) last := by
  induction xs generalizing run with
  | nil =>
    cases h
    exact .refl _
  | cons x xs ih =>
    rw [List.foldlM_cons] at h
    obtain ⟨mid, hmid, h⟩ := bind_eq_ok.1 h
    have hx := hstep _ x mid hmid
    exact hx.trans (hx.dict ▸ ih h)

/-- An event makes the errors of its comment, unless it closes a scope. -/
theorem errs_runEvent {filename : String} {event : SourceEvent} (h : runEvent [] filename run event = .ok last) :
    run.Errs (event.unknownTags run.dict filename) last := by
  unfold SourceEvent.unknownTags
  rcases runEvent_cases h with ⟨he, entry, inner, -, rfl⟩ | ⟨he, found, d, after, hbuild, rfl⟩
  · rw [if_pos he]
    exact ⟨rfl, (List.append_nil _).symm⟩
  · rw [if_neg he]
    have herrors := errors_build run.dict run.stack event.comment (contextOf filename event) event.scopeEvent
    rw [hbuild] at herrors
    refine ⟨rfl, ?_⟩
    calc errors (run.reporter.emitAll found).records = errors run.reporter.records ++ errors found := by
          rw [Reporter.records_emitAll, errors_append]
      _ = errors run.reporter.records ++ _ := by rw [herrors]; rfl

/-- A file makes the errors of its events. -/
theorem errs_readFile {file : SourceFile} (h : readFile [] run file = .ok last) :
    run.Errs (file.unknownTags run.dict) last := by
  obtain ⟨mid, hmid, rfl⟩ := readFile_cases h
  have hevents := errs_foldlM (fun dict event => event.unknownTags dict file.filename)
    (fun _ _ _ hstep => errs_runEvent hstep) hmid
  exact ⟨hevents.dict, hevents.errors⟩

end Run

theorem Reporter.hasErrors_iff (r : Reporter) : r.hasErrors = true ↔ ∃ x, x ∈ errors r.records := by
  simp [Reporter.hasErrors, errors]

/-- Files make an error just if some event that closes no scope has an unknown tag in its comment. -/
theorem exists_mem_unknownTags (dict : Dictionary) (files : List SourceFile) :
    (∃ x, x ∈ files.flatMap (·.unknownTags dict)) ↔
      ∃ file ∈ files, ∃ event ∈ documented file.events, ∃ raw ∈ event.rawTags, raw.isUnknown dict := by
  have hevent (filename : String) (event : SourceEvent) : (∃ x, x ∈ event.unknownTags dict filename) ↔
      event.scopeEvent ≠ .exit ∧ ∃ raw ∈ event.rawTags, raw.isUnknown dict := by
    unfold SourceEvent.unknownTags Tag.unknownTags
    split <;> simp [*]
  constructor
  · rintro ⟨x, hx⟩
    obtain ⟨file, hfile, hx⟩ := List.mem_flatMap.1 hx
    obtain ⟨event, hmem, hx⟩ := List.mem_flatMap.1 hx
    obtain ⟨hexit, hraw⟩ := (hevent file.filename event).1 ⟨x, hx⟩
    exact ⟨file, hfile, event, List.mem_filter.2 ⟨hmem, decide_eq_true hexit⟩, hraw⟩
  · rintro ⟨file, hfile, event, hmem, hraw⟩
    obtain ⟨hmem, hexit⟩ := List.mem_filter.1 hmem
    obtain ⟨x, hx⟩ := (hevent file.filename event).2 ⟨of_decide_eq_true hexit, hraw⟩
    exact ⟨x, List.mem_flatMap.2 ⟨file, hfile, List.mem_flatMap.2 ⟨event, hmem, hx⟩⟩⟩

/-- **The errors of a run are the unknown tags of its files.** With the built-in grammars, without callbacks and over
files whose scopes pair up, a run reports as errors one unknown tag after the other, and so a reporter without errors
has errors afterwards just if the comment of some event that closes no scope has an unknown tag. -/
theorem Pipeline.hasErrors_run {names : List String} {allowUnknown : AllowUnknown} {dict : Dictionary}
    (hd : Grammar.buildAll names allowUnknown = .ok dict) (reporter : Reporter) {files : List SourceFile}
    (hb : ∀ file ∈ files, file.Balanced) :
    ∃ run, Pipeline.run { dict, reporter } files = .ok run ∧
      errors run.reporter.records = errors reporter.records ++ files.flatMap (·.unknownTags dict) ∧
      (run.reporter.hasErrors = true ↔ reporter.hasErrors = true ∨
        ∃ file ∈ files, ∃ event ∈ documented file.events, ∃ raw ∈ event.rawTags, raw.isUnknown dict) := by
  have hf : (Run.start { dict, reporter } files).dict.Feasible := Grammar.buildAll_feasible hd
  obtain ⟨last, hlast, -⟩ := Run.readFiles_of_balanced hf rfl hb
  have herrs : (Run.start { dict, reporter } files).Errs (files.flatMap (·.unknownTags dict)) last :=
    Run.errs_foldlM (fun dict file => file.unknownTags dict) (fun _ _ _ h => Run.errs_readFile h) hlast
  have hstart : (Run.start { dict, reporter } files).reporter.records = reporter.records := rfl
  have hlinked := (Run.errors_link last).trans herrs.errors
  rw [hstart] at hlinked
  obtain ⟨run, hrun, hrecords⟩ : ∃ run, Pipeline.run { dict, reporter } files = .ok run ∧
      run.reporter.records = last.link.reporter.records := by
    refine ⟨_, by rw [Pipeline.run_eq, hlast]; rfl, ?_⟩
    exact Reporter.records_note ..
  rw [← hrecords] at hlinked
  refine ⟨run, hrun, hlinked, ?_⟩
  rw [Reporter.hasErrors_iff, Reporter.hasErrors_iff, hlinked]
  simp only [List.mem_append, exists_or]
  exact or_congr_right (exists_mem_unknownTags dict files)

/-- A tag is misspelt in the first file. The second one has a type that cannot be read, a tag without its value, a link
to nowhere and a tag that is allowed, and these are no errors; the misspelt tag of an event that closes a scope is not
even read. -/
theorem Pipeline.hasErrors_run_misspelt :
    let allowed := AllowUnknown.only ["internal"]
    let dict := Grammar.jsdoc.dictionary allowed
    let misspelt : SourceFile := { filename := "a.js", events := [{ comment := some "/** @retunrs x */" }] }
    let others : SourceFile := { filename := "b.js", events := [
      { comment := some "@type \x7b?!\x7d\n@memberof\n@borrows nowhere\n@internal", scopeEvent := .enter },
      { comment := some "@retunrs x", scopeEvent := .exit }] }
    Grammar.buildAll ["jsdoc"] allowed = .ok dict ∧ (∀ file ∈ [misspelt, others], file.Balanced) ∧
      (∃ run, Pipeline.run { dict } [misspelt, others] = .ok run ∧ run.reporter.hasErrors = true) ∧
      ∃ run, Pipeline.run { dict } [others] = .ok run ∧ run.reporter.hasErrors = false ∧
        run.reporter.records.map (·.code) = ["type-expression", "tag-value", "dangling-reference"] := by
  intro allowed dict misspelt others
  have hd : Grammar.buildAll ["jsdoc"] allowed = .ok dict := by with_unfolding_all rfl
  have hb : ∀ file ∈ [misspelt, others], file.Balanced := by decide
  have htables : dict = Grammar.jsdocTables allowed := Grammar.jsdoc_dictionary_eq _
  have hunknown : ∃ file ∈ [misspelt, others], ∃ event ∈ documented file.events, ∃ raw ∈ event.rawTags,
      raw.isUnknown dict := by
    rw [htables]
    decide +kernel
  have hknown : ¬ ∃ file ∈ [others], ∃ event ∈ documented file.events, ∃ raw ∈ event.rawTags,
      raw.isUnknown dict := by
    rw [htables]
    decide +kernel
  have hcodes : (Pipeline.run { dict } [others]).toOption.map (·.reporter.records.map (·.code)) =
      some ["type-expression", "tag-value", "dangling-reference"] := by
    rw [htables]
    decide +kernel
  obtain ⟨run, hrun, -, hiff⟩ := Pipeline.hasErrors_run hd {} hb
  obtain ⟨run', hrun', -, hiff'⟩ := Pipeline.hasErrors_run hd {} (List.forall_mem_cons.1 hb).2
  rw [hrun'] at hcodes
  have hno : ¬ run'.reporter.hasErrors = true := fun he => (hiff'.1 he).elim (by decide) hknown
  exact ⟨hd, hb, ⟨run, hrun, hiff.2 (.inr hunknown)⟩, run', hrun', eq_false_of_ne_true hno, Option.some.inj hcodes⟩

end SymbolDocs
