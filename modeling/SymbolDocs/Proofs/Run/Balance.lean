import SymbolDocs.Proofs.Grammar.Feasible
import SymbolDocs.Proofs.Run.Reading

/-!
# Only scopes that do not pair up stop a run

The scopes of a file pair up (`SourceFile.Balanced`) if no beginning of its events closes more scopes than it opens,
and all of them together close as many as they open. A run with the built-in grammars and without callbacks comes to a
database just if this is so for each of its files (`Pipeline.run_builtIn`), and otherwise stops at the first file for
which it is not. Each step keeps the number of open scopes equal to the scopes opened less those closed
(`runEvents_of_covered`), and whatever else it does, it makes only mild diagnostics (`Run.Extends`).
-/

namespace SymbolDocs

/-! ## What a run keeps -/

namespace Run

variable {run mid last : Run} {filename : String} {stopped : Stopped}

/-- A later state of a run: the dictionary is the same, and only mild diagnostics were made. -/
def Extends (run last : Run) : Prop :=
  last.dict = run.dict ∧ ∃ found, last.reporter.records = run.reporter.records ++ found ∧ ∀ x ∈ found, x.Mild

theorem Extends.refl (run : Run) : run.Extends run := ⟨rfl, [], (List.append_nil _).symm, fun x hx => by cases hx⟩

theorem Extends.trans (h : run.Extends mid) (h' : mid.Extends last) : run.Extends last := by
  obtain ⟨hd, found, hr, hm⟩ := h
  obtain ⟨hd', found', hr', hm'⟩ := h'
  refine ⟨hd'.trans hd, found ++ found', by rw [hr', hr, List.append_assoc], fun x hx => ?_⟩
  rcases List.mem_append.1 hx with hx | hx
  · exact hm x hx
  · exact hm' x hx

theorem Adds.extends {ds : List Doclet} {found : List Diagnostic} (h : run.Adds ds found last)
    (hm : ∀ x ∈ found, x.Mild) : run.Extends last :=
  ⟨h.dict, found, h.records, hm⟩

theorem Extends.feasible (h : run.Extends last) (hf : run.dict.Feasible) : last.dict.Feasible := h.1.symm ▸ hf

/-- A run stops at a file whose scopes do not pair up. -/
def StopsAt (run : Run) (filename : String) (stopped : Stopped) : Prop :=
  ∃ last fault, run.Extends last ∧ stopped = last.imbalance filename fault

theorem Extends.stopsAt (h : run.Extends mid) (hs : mid.StopsAt filename stopped) : run.StopsAt filename stopped := by
  obtain ⟨last, fault, hl, rfl⟩ := hs
  exact ⟨last, fault, h.trans hl, rfl⟩

/-! ## Events -/

/-- Leaving a scope needs an open one. -/
theorem exitScope_spec (run : Run) (filename : String) :
    (∃ last, run.exitScope filename = .ok last ∧ run.Extends last ∧ run.stack.depth = last.stack.depth + 1) ∨
      (run.stack.depth = 0 ∧ ∃ stopped, run.exitScope filename = .error stopped ∧ run.StopsAt filename stopped) := by
  rcases run.exitScope_cases filename with ⟨inner, hdepth, hrun⟩ | ⟨hzero, hrun⟩
  · exact .inl ⟨_, hrun, Extends.refl run, hdepth⟩
  · exact .inr ⟨hzero, _, hrun, run, .nothingOpen, Extends.refl run, rfl⟩

/-- An event that closes no scope is built and never stops the run. -/
theorem runEvent_spec (filename : String) (hf : run.dict.Feasible) {event : SourceEvent}
    (he : event.scopeEvent ≠ .exit) :
    ∃ last, runEvent [] filename run event = .ok last ∧ run.Extends last ∧
      last.stack.depth = run.stack.depth + event.scopeEvent.opened := by
  obtain ⟨d, found, -, hm, hgives⟩ := gives_event hf run.stack filename he
  obtain ⟨last, hlast, hadds, hstack⟩ := hgives run rfl rfl
  exact ⟨last, hlast, hadds.extends hm, hstack ▸ depth_afterDoclet _ _ _ _⟩

/-- Events that are covered are all taken, and leave as many scopes open as they opened and did not close. -/
theorem runEvents_of_covered (filename : String) (hf : run.dict.Feasible) {events : List SourceEvent}
    (h : Covered run.stack.depth events) :
    ∃ last, events.foldlM (runEvent [] filename) run = .ok last ∧ run.Extends last ∧
      last.stack.depth + closings events = run.stack.depth + openings events := by
  obtain ⟨ds, found, stack, hgives, -, hm, hcount⟩ := gives_events hf filename h
  obtain ⟨last, hlast, hadds, rfl⟩ := hgives run rfl rfl
  exact ⟨last, hlast, hadds.extends hm, hcount⟩

/-- Events that are not covered stop the run. -/
theorem runEvents_of_not_covered (filename : String) (hf : run.dict.Feasible) {events : List SourceEvent}
    (h : ¬ Covered run.stack.depth events) :
    ∃ stopped, events.foldlM (runEvent [] filename) run = .error stopped ∧ run.StopsAt filename stopped := by
  induction events generalizing run with
  | nil => exact absurd (covered_nil _) h
  | cons event events ih =>
    rw [List.foldlM_cons]
    by_cases he : event.scopeEvent = .exit
    · rw [covered_cons_exit he] at h
      rw [runEvent, if_pos he]
      rcases run.exitScope_spec filename with ⟨mid, hmid, hext, hdepth⟩ | ⟨-, stopped, hstopped, hs⟩
      · have hcov : ¬ Covered mid.stack.depth events := by
          intro hc
          rw [show mid.stack.depth = run.stack.depth - 1 by omega] at hc
          exact h ⟨by omega, hc⟩
        obtain ⟨stopped, hstopped, hs⟩ := ih (hext.feasible hf) hcov
        exact ⟨stopped, by rw [hmid]; exact hstopped, hext.stopsAt hs⟩
      · exact ⟨stopped, by rw [hstopped]; rfl, hs⟩
    · obtain ⟨mid, hmid, hext, hdepth⟩ := runEvent_spec filename hf he
      rw [covered_cons he, ← hdepth] at h
      obtain ⟨stopped, hstopped, hs⟩ := ih (hext.feasible hf) h
      exact ⟨stopped, by rw [hmid]; exact hstopped, hext.stopsAt hs⟩

/-! ## Files -/

/-- A file whose scopes pair up is read, and leaves no scope open. -/
theorem readFile_of_balanced (hf : run.dict.Feasible) (hz : run.stack.depth = 0) {file : SourceFile}
    (h : file.Balanced) :
    ∃ last, readFile [] run file = .ok last ∧ run.Extends last ∧ last.stack.depth = 0 := by
  obtain ⟨ds, found, hgives, -, hm⟩ := gives_file hf hz h
  obtain ⟨last, hlast, hadds, hstack⟩ := hgives run rfl rfl
  exact ⟨last, hlast, hadds.extends hm, hstack ▸ rfl⟩

/-- A file whose scopes do not pair up stops the run. -/
theorem readFile_of_not_balanced (hf : run.dict.Feasible) (hz : run.stack.depth = 0) {file : SourceFile}
    (h : ¬ file.Balanced) :
    ∃ stopped, readFile [] run file = .error stopped ∧ run.StopsAt file.filename stopped := by
  have hf' : (run.beginFile file.filename).dict.Feasible := hf
  have hbegin : (run.beginFile file.filename).stack.depth = 0 := hz
  by_cases hc : Covered (run.beginFile file.filename).stack.depth file.events
  · obtain ⟨mid, hmid, hext, hcount⟩ := runEvents_of_covered file.filename hf' hc
    have hopen : mid.stack.depth ≠ 0 := by
      intro hzero
      rw [hbegin] at hc
      exact h (balanced_iff.2 ⟨hc, by omega⟩)
    refine ⟨_, ?_, { mid with stack := {} }, .leftOpen mid.stack.depth (some file.filename), hext, rfl⟩
    rw [readFile_eq, hmid, Except.bind, finishFile_of_open hopen]
    rfl
  · obtain ⟨stopped, hstopped, hs⟩ := runEvents_of_not_covered file.filename hf' hc
    refine ⟨stopped, ?_, hs⟩
    rw [readFile_eq, hstopped]
    rfl

/-- Files whose scopes pair up are all read. -/
theorem readFiles_of_balanced (hf : run.dict.Feasible) (hz : run.stack.depth = 0) {files : List SourceFile}
    (h : ∀ file ∈ files, file.Balanced) : ∃ last, files.foldlM (readFile []) run = .ok last ∧ run.Extends last := by
  induction files generalizing run with
  | nil => exact ⟨run, rfl, Extends.refl run⟩
  | cons file files ih =>
    rw [List.forall_mem_cons] at h
    obtain ⟨mid, hmid, hext, hzero⟩ := readFile_of_balanced hf hz h.1
    obtain ⟨last, hlast, hext'⟩ := ih (hext.feasible hf) hzero h.2
    exact ⟨last, by rw [List.foldlM_cons, hmid]; exact hlast, hext.trans hext'⟩

/-- The first file whose scopes do not pair up stops the run. -/
theorem readFiles_of_not_balanced (hf : run.dict.Feasible) (hz : run.stack.depth = 0) {files : List SourceFile}
    (h : ¬ ∀ file ∈ files, file.Balanced) :
    ∃ before file after stopped, files = before ++ file :: after ∧ (∀ earlier ∈ before, earlier.Balanced) ∧
      ¬ file.Balanced ∧ files.foldlM (readFile []) run = .error stopped ∧ run.StopsAt file.filename stopped := by
  induction files generalizing run with
  | nil => exact absurd (fun file hm => by cases hm) h
  | cons first files ih =>
    rw [List.forall_mem_cons] at h
    by_cases hb : first.Balanced
    · obtain ⟨mid, hmid, hext, hzero⟩ := readFile_of_balanced hf hz hb
      obtain ⟨before, file, after, stopped, rfl, hbefore, hfile, hstopped, hs⟩ :=
        ih (hext.feasible hf) hzero fun hall => h ⟨hb, hall⟩
      refine ⟨first :: before, file, after, stopped, rfl, List.forall_mem_cons.2 ⟨hb, hbefore⟩, hfile, ?_,
        hext.stopsAt hs⟩
      rw [List.foldlM_cons, hmid]
      exact hstopped
    · obtain ⟨stopped, hstopped, hs⟩ := readFile_of_not_balanced hf hz hb
      refine ⟨[], first, files, stopped, rfl, fun file hm => (by cases hm), hb, ?_, hs⟩
      rw [List.foldlM_cons, hstopped]
      rfl

end Run

/-! ## The whole run -/

/-- Without callbacks a run takes the files one by one and links what they give. -/
theorem Pipeline.run_eq (dict : Dictionary) (reporter : Reporter) (files : List SourceFile) :
    Pipeline.run { dict, reporter } files =
      (files.foldlM (Run.readFile []) (Run.start { dict, reporter } files)).map fun run =>
        run.link.note ("Built " ++ toString run.link.database.size ++ " doclet(s)") := by
  simp only [Pipeline.run, Run.parseFiles_eq, Callback.fireAll, List.foldlM_nil, bind, pure, Except.bind, Except.pure]
  cases files.foldlM (Run.readFile []) (Run.start { dict, reporter } files) <;> rfl

/-- **With the built-in grammars and without callbacks, a run comes to a database just if the scopes of each file pair
up. Otherwise it stops because they do not, and after mild diagnostics it reports this at the first such file.** -/
theorem Pipeline.run_builtIn {names : List String} {allowUnknown : AllowUnknown} {dict : Dictionary}
    (hd : Grammar.buildAll names allowUnknown = .ok dict) (reporter : Reporter) (files : List SourceFile) :
    let pipeline : Pipeline := { dict, reporter }
    ((∃ run, pipeline.run files = .ok run) ↔ ∀ file ∈ files, file.Balanced) ∧
      ∀ run failure, pipeline.run files = .error (run, failure) →
        ∃ before file after fault found,
          files = before ++ file :: after ∧ (∀ earlier ∈ before, earlier.Balanced) ∧ ¬ file.Balanced ∧
          failure = .problem (.ofImbalance fault) ∧
          run.reporter.records = reporter.records ++ found ++
            [{ severity := .fatal, code := "scope-imbalance", message := fault.message,
               location := { filename := some file.filename } }] ∧
          ∀ x ∈ found, x.code ≠ "scope-imbalance" ∧ x.severity ≠ .fatal := by
  intro pipeline
  have hf : (Run.start pipeline files).dict.Feasible := Grammar.buildAll_feasible hd
  have hz : (Run.start pipeline files).stack.depth = 0 := rfl
  rw [Pipeline.run_eq]
  by_cases hb : ∀ file ∈ files, file.Balanced
  · obtain ⟨last, hlast, -⟩ := Run.readFiles_of_balanced hf hz hb
    rw [hlast]
    exact ⟨⟨fun _ => hb, fun _ => ⟨_, rfl⟩⟩, fun run failure he => by cases he⟩
  · obtain ⟨before, file, after, stopped, hfiles, hbefore, hfile, hstopped, last, fault, hext, rfl⟩ :=
      Run.readFiles_of_not_balanced hf hz hb
    rw [hstopped]
    refine ⟨⟨fun ⟨run, hrun⟩ => (by cases hrun), fun hall => absurd hall hb⟩, fun run failure he => ?_⟩
    cases he
    obtain ⟨-, found, hr, hm⟩ := hext
    refine ⟨before, file, after, fault, found, hfiles, hbefore, hfile, rfl, ?_, hm⟩
    rw [Reporter.report, Reporter.records_emit, hr]
    rfl

/-- A file with a scope that is never closed stops a run with both grammars. -/
theorem Pipeline.run_builtIn_unclosed :
    let names := ["jsdoc", "closure"]
    let files : List SourceFile := [
      { filename := "a.js", events := [{ scopeEvent := .enter }, { scopeEvent := .exit }] },
      { filename := "b.js", events := [{ comment := some "/** @requires */", scopeEvent := .enter }] }]
    Grammar.buildAll names (.all false) = .ok Pipeline.defaultDictionary ∧
      ¬ ∃ run, Pipeline.run { dict := Pipeline.defaultDictionary } files = .ok run := by
  intro names files
  have hd : Grammar.buildAll names (.all false) = .ok Pipeline.defaultDictionary := by with_unfolding_all rfl
  refine ⟨hd, fun hrun => ?_⟩
  have hall := (Pipeline.run_builtIn hd {} files).1.1 hrun
  have hcount := (hall _ (List.mem_cons_of_mem _ List.mem_cons_self)).2
  revert hcount
  decide

end SymbolDocs
