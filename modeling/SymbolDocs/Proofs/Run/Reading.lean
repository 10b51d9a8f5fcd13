import Mathlib.Data.List.Forall2
import SymbolDocs.Proofs.Source.Building
import SymbolDocs.Run.Pipeline

/-!
# What files give

Without callbacks, what a run adds for an event depends on the dictionary and on the open scopes only, not on what the
run has already (`Run.Gives`). The events of a file that pair up start and end without an open scope, and so the whole
file always gives the same doclets and diagnostics, one doclet for each event that closes no scope
(`Run.exists_yields`).
-/

namespace SymbolDocs

/-- A doclet is built for the event of a file. -/
def SourceEvent.BuiltAs (dict : Dictionary) (filename : String) (event : SourceEvent) (d : Doclet) : Prop :=
  ∃ stack stack', (build dict stack event.comment (Run.contextOf filename event) event.scopeEvent).2 = .ok (d, stack')

namespace Run

variable {dict : Dictionary} {run mid last : Run} {ds ds' : List Doclet} {found found' : List Diagnostic}
  {stack stack' stack'' : ScopeStack} {filename : String} {event : SourceEvent}

/-! ## Steps that give the same everywhere -/

/-- A later state of a run, with further doclets and diagnostics. -/
structure Adds (run : Run) (ds : List Doclet) (found : List Diagnostic) (last : Run) : Prop where
  dict : last.dict = run.dict
  doclets : last.database.doclets = run.database.doclets ++ ds
  records : last.reporter.records = run.reporter.records ++ found

theorem Adds.refl (run : Run) : run.Adds [] [] run := ⟨rfl, (List.append_nil _).symm, (List.append_nil _).symm⟩

theorem Adds.trans (h : run.Adds ds found mid) (h' : mid.Adds ds' found' last) :
    run.Adds (ds ++ ds') (found ++ found') last where
  dict := h'.dict.trans h.dict
  doclets := by rw [h'.doclets, h.doclets, List.append_assoc]
  records := by rw [h'.records, h.records, List.append_assoc]

/-- In every state with the dictionary and the first stack, a step adds the same doclets and diagnostics, and leaves
the second stack. -/
def Gives (dict : Dictionary) (stack : ScopeStack) (step : Run → Except Stopped Run) (ds : List Doclet)
    (found : List Diagnostic) (stack' : ScopeStack) : Prop :=
  ∀ run : Run, run.dict = dict → run.stack = stack →
    ∃ last, step run = .ok last ∧ run.Adds ds found last ∧ last.stack = stack'

theorem gives_pure (dict : Dictionary) (stack : ScopeStack) : Gives dict stack pure [] [] stack :=
  fun run _ hs => ⟨run, rfl, .refl run, hs⟩

/-- Steps one after the other give what each of them gives. -/
theorem Gives.bind {step step' : Run → Except Stopped Run} (h : Gives dict stack step ds found stack')
    (h' : Gives dict stack' step' ds' found' stack'') :
    Gives dict stack (fun run => step run >>= step') (ds ++ ds') (found ++ found') stack'' := by
  intro run hd hs
  obtain ⟨mid, hmid, hadds, hs'⟩ := h run hd hs
  obtain ⟨last, hlast, hadds', hs''⟩ := h' mid (hadds.dict.trans hd) hs'
  refine ⟨last, ?_, hadds.trans hadds', hs''⟩
  dsimp only
  rw [hmid]
  exact hlast

/-! ## Events -/

/-- The run after a doclet is built, which is not in the database yet. -/
def afterBuild (run : Run) (found : List Diagnostic) (d : Doclet) (stack : ScopeStack) : Run :=
  { run with stack, reporter := (run.reporter.emitAll found).note .debug "builder" d.builtNote }

theorem buildDoclet_of_build {d : Doclet}
    (hb : build run.dict run.stack event.comment (contextOf filename event) event.scopeEvent = (found, .ok (d, stack))) :
    run.buildDoclet filename event = .ok (run.afterBuild found d stack, d) := by
  rw [buildDoclet, hb]
  rfl

/-- Without callbacks an event that closes no scope adds its doclet. -/
theorem runEvent_eq (run : Run) (filename : String) (he : event.scopeEvent ≠ .exit) :
    runEvent [] filename run event = (run.buildDoclet filename event).map fun (mid, d) => mid.addDoclet d := by
  unfold runEvent
  rw [if_neg he]
  simp only [Callback.fireAll, List.foldlM_nil, bind, pure, Except.bind, Except.pure, Except.map]

/-- Leaving a scope needs an open one. -/
theorem exitScope_cases (run : Run) (filename : String) :
    (∃ inner : ScopeStack, run.stack.depth = inner.depth + 1 ∧ run.exitScope filename = .ok { run with stack := inner }) ∨
      (run.stack.depth = 0 ∧ run.exitScope filename = .error (run.imbalance filename .nothingOpen)) := by
  unfold exitScope ScopeStack.pop ScopeStack.depth
  cases run.stack.entries with
  | nil => exact .inr ⟨rfl, rfl⟩
  | cons entry entries => exact .inl ⟨{ entries, root := run.stack.root }, rfl, rfl⟩

/-- What an event that does not stop the run comes to: it leaves a scope, or its doclet is added. -/
theorem runEvent_cases (h : runEvent [] filename run event = .ok last) :
    (event.scopeEvent = .exit ∧ ∃ entry inner, run.stack.pop = .ok (entry, inner) ∧ last = { run with stack := inner }) ∨
      (event.scopeEvent ≠ .exit ∧ ∃ found d after,
        build run.dict run.stack event.comment (contextOf filename event) event.scopeEvent = (found, .ok (d, after)) ∧
        last = (run.afterBuild found d after).addDoclet d) := by
  by_cases he : event.scopeEvent = .exit
  · rw [runEvent, if_pos he, exitScope] at h
    split at h
    · next hpop =>
      cases h
      exact .inl ⟨he, _, _, hpop, rfl⟩
    · cases h
  · rw [runEvent_eq run filename he] at h
    obtain ⟨⟨mid, d⟩, hmid, rfl⟩ := map_eq_ok.1 h
    unfold buildDoclet at hmid
    split at hmid
    · next hbuild =>
      cases hmid
      exact .inr ⟨he, _, _, _, hbuild, rfl⟩
    · cases hmid

/-- An event that closes no scope gives its doclet. -/
theorem gives_event (hf : dict.Feasible) (stack : ScopeStack) (filename : String) (he : event.scopeEvent ≠ .exit) :
    ∃ d found, event.BuiltAs dict filename d ∧ (∀ x ∈ found, x.Mild) ∧
      Gives dict stack (runEvent [] filename · event) [d] found (stack.afterDoclet dict d event.scopeEvent) := by
  obtain ⟨found, d, hb, hm⟩ := build_spec hf stack event.comment (contextOf filename event) event.scopeEvent
  refine ⟨d, found, ⟨stack, _, congrArg Prod.snd hb⟩, hm, ?_⟩
  rintro run rfl rfl
  let built := run.afterBuild found d (run.stack.afterDoclet run.dict d event.scopeEvent)
  have hrun : runEvent [] filename run event = .ok (built.addDoclet d) := by
    rw [runEvent_eq run filename he, buildDoclet_of_build hb]
    rfl
  refine ⟨built.addDoclet d, hrun, ⟨rfl, rfl, ?_⟩, rfl⟩
  exact (Reporter.records_note ..).trans (Reporter.records_emitAll run.reporter found)

/-- An event that closes a scope gives nothing, if one is open. -/
theorem gives_exit (dict : Dictionary) (hs : 0 < stack.depth) (filename : String) (he : event.scopeEvent = .exit) :
    ∃ inner : ScopeStack, stack.depth = inner.depth + 1 ∧ Gives dict stack (runEvent [] filename · event) [] [] inner := by
  obtain ⟨entries, root⟩ := stack
  cases entries with
  | nil => cases hs
  | cons entry entries =>
    refine ⟨{ entries, root }, rfl, ?_⟩
    rintro run rfl hstack
    have hrun : runEvent [] filename run event = .ok { run with stack := { entries, root } } := by
      unfold runEvent
      rw [if_pos he, exitScope, hstack]
      rfl
    exact ⟨_, hrun, ⟨rfl, (List.append_nil _).symm, (List.append_nil _).symm⟩, rfl⟩

/-- Events that are covered give a doclet for each of them that closes no scope, and leave as many scopes open as they
opened and did not close. -/
theorem gives_events (hf : dict.Feasible) (filename : String) {events : List SourceEvent}
    (h : Covered stack.depth events) :
    ∃ ds found stack', Gives dict stack (events.foldlM (runEvent [] filename)) ds found stack' ∧
      List.Forall₂ (SourceEvent.BuiltAs dict filename) (documented events) ds ∧ (∀ x ∈ found, x.Mild) ∧
      stack'.depth + closings events = stack.depth + openings events := by
  induction events generalizing stack with
  | nil => exact ⟨[], [], stack, gives_pure dict stack, .nil, List.forall_mem_nil _, rfl⟩
  | cons event events ih =>
    by_cases he : event.scopeEvent = .exit
    · rw [covered_cons_exit he] at h
      obtain ⟨inner, hinner, hevent⟩ := gives_exit dict h.1 filename he
      have hcov : Covered inner.depth events := by
        rw [show inner.depth = stack.depth - 1 by omega]
        exact h.2
      obtain ⟨ds, found, stack', hgives, hds, hm, hcount⟩ := ih hcov
      refine ⟨ds, found, stack', hevent.bind hgives, by rwa [documented_cons_exit he], hm, ?_⟩
      rw [closings_cons_exit he, openings_cons, he]
      simp only [ScopeEvent.opened, reduceCtorEq, if_false]
      omega
    · obtain ⟨d, found, hbuilt, hm, hevent⟩ := gives_event hf stack filename he
      have hdepth := depth_afterDoclet stack dict d event.scopeEvent
      rw [covered_cons he, ← hdepth] at h
      obtain ⟨ds, found', stack', hgives, hds, hm', hcount⟩ := ih h
      refine ⟨d :: ds, found ++ found', stack', hevent.bind hgives, ?_, ?_, ?_⟩
      · rw [documented_cons he]
        exact .cons hbuilt hds
      · intro x hx
        rcases List.mem_append.1 hx with hx | hx
        · exact hm x hx
        · exact hm' x hx
      · rw [closings_cons he, openings_cons]
        omega

/-! ## Files -/

/-- The state in which the events of a file are taken. -/
def beginFile (run : Run) (filename : String) : Run := { run with filename := some filename }

theorem finishFile_of_closed (hz : run.stack.depth = 0) (filename : String) :
    run.finishFile filename = .ok { run with stack := {} } := by
  rw [finishFile, ScopeStack.finish, if_pos hz]

theorem finishFile_of_open (hz : run.stack.depth ≠ 0) (filename : String) :
    run.finishFile filename = .error (imbalance { run with stack := {} } filename
      (.leftOpen run.stack.depth (some filename))) := by
  rw [finishFile, ScopeStack.finish, if_neg hz]

/-- Without callbacks a file is its events and the check at its end. -/
theorem readFile_eq (run : Run) (file : SourceFile) :
    readFile [] run file =
      (file.events.foldlM (runEvent [] file.filename) (run.beginFile file.filename)).bind fun mid =>
        (mid.finishFile file.filename).map fun last => { last with filename := none } := by
  simp only [readFile, Callback.fireAll, List.foldlM_nil, bind, pure, Except.bind, Except.pure]
  rfl

/-- A file that does not stop the run comes to its events, and no scope is open behind it. -/
theorem readFile_cases {file : SourceFile} (h : readFile [] run file = .ok last) :
    ∃ mid, file.events.foldlM (runEvent [] file.filename) (run.beginFile file.filename) = .ok mid ∧
      last = { mid with stack := {}, filename := none } := by
  rw [readFile_eq] at h
  obtain ⟨mid, hmid, h⟩ := bind_eq_ok.1 h
  obtain ⟨done, hdone, rfl⟩ := map_eq_ok.1 h
  unfold finishFile at hdone
  split at hdone <;> cases hdone
  exact ⟨mid, hmid, rfl⟩

/-- A file whose scopes pair up gives a doclet for each event that closes no scope, and leaves no scope open. -/
theorem gives_file (hf : dict.Feasible) (hs : stack.depth = 0) {file : SourceFile} (h : file.Balanced) :
    ∃ ds found, Gives dict stack (readFile [] · file) ds found {} ∧
      List.Forall₂ (SourceEvent.BuiltAs dict file.filename) (documented file.events) ds ∧ ∀ x ∈ found, x.Mild := by
  obtain ⟨hc, heq⟩ := balanced_iff.1 h
  rw [← hs] at hc
  obtain ⟨ds, found, stack', hgives, hds, hm, hcount⟩ := gives_events hf file.filename hc
  have hzero : stack'.depth = 0 := by omega
  refine ⟨ds, found, ?_, hds, hm⟩
  rintro run hd hstack
  obtain ⟨mid, hmid, hadds, rfl⟩ := hgives (run.beginFile file.filename) hd hstack
  have hread : readFile [] run file = .ok { mid with stack := {}, filename := none } := by
    dsimp only at hmid
    rw [readFile_eq, hmid, Except.bind, finishFile_of_closed hzero]
    rfl
  exact ⟨_, hread, ⟨hadds.dict, hadds.doclets, hadds.records⟩, rfl⟩

/-- Without callbacks files are read one after the other. -/
theorem parseFiles_eq (dict : Dictionary) (reporter : Reporter) (files : List SourceFile) :
    parseFiles { dict, reporter } files = files.foldlM (readFile []) (start { dict, reporter } files) := by
  simp only [parseFiles, Callback.fireAll, List.foldlM_nil, bind, pure, Except.bind, Except.pure]
  cases files.foldlM (readFile []) (start { dict, reporter } files) <;> rfl

/-- What a file gives wherever a run meets it. -/
structure Yields (dict : Dictionary) (file : SourceFile) (ds : List Doclet) (found : List Diagnostic) : Prop where
  gives : Gives dict {} (readFile [] · file) ds found {}
  built : List.Forall₂ (SourceEvent.BuiltAs dict file.filename) (documented file.events) ds

/-- Each file whose scopes pair up always gives the same. -/
theorem exists_yields (hf : dict.Feasible) {files : List SourceFile} (h : ∀ file ∈ files, file.Balanced) :
    ∃ parts : List (List Doclet × List Diagnostic),
      List.Forall₂ (fun file part => Yields dict file part.1 part.2) files parts := by
  induction files with
  | nil => exact ⟨[], .nil⟩
  | cons file files ih =>
    rw [List.forall_mem_cons] at h
    have hz : ({} : ScopeStack).depth = 0 := rfl
    obtain ⟨ds, found, hgives, hds, -⟩ := gives_file hf hz h.1
    obtain ⟨parts, hparts⟩ := ih h.2
    exact ⟨(ds, found) :: parts, .cons ⟨hgives, hds⟩ hparts⟩

/-- **Files give what each of them gives, one after the other.** -/
theorem gives_files {files : List SourceFile} {parts : List (List Doclet × List Diagnostic)}
    (h : List.Forall₂ (fun file part => Yields dict file part.1 part.2) files parts) :
    Gives dict {} (files.foldlM (readFile [])) (parts.flatMap (·.1)) (parts.flatMap (·.2)) {} := by
  induction h with
  | nil => exact gives_pure dict {}
  | cons hfile _ ih => exact hfile.gives.bind ih

end Run
end SymbolDocs
