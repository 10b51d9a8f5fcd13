import SymbolDocs.Proofs.Grammar.Feasible
import SymbolDocs.Proofs.Run.Reading

/-!
# The stages of a run

Callbacks that only record see a run go through its stages in a fixed order, and at each of them the number of open
scopes and the size of the database are those that the events so far leave (`Moment.ofRun`). A run that stops has gone
through a beginning of these stages, up to the event of the first unbalanced file for which no scope is open, or to the
end of its events (`Moment.ofStopped`). `Pipeline.moments_run` says this of every run with the built-in grammars.
-/

namespace SymbolDocs

/-- What a recording callback sees of a run: the stage, the file, and how many scopes are open and doclets there. -/
structure Moment where
  stage : Stage
  filename : Option String
  depth : Nat
  size : Nat
  deriving DecidableEq, Repr

/-- How many doclets the events of some files have. -/
def documentedCount (files : List SourceFile) : Nat := (files.flatMap fun file => documented file.events).length

/-! ## The order of stages -/

namespace Moment

/-- The moments of an event in a file, which some events come before. -/
def ofEvent (filename : String) (size : Nat) (before : List SourceEvent) (event : SourceEvent) : List Moment :=
  if event.scopeEvent = .exit then []
  else
    let depth := openings before - closings before
    let size := size + (documented before).length
    [{ stage := .commentFound, filename := some filename, depth, size },
      { stage := .docletCreated, filename := some filename, depth := depth + event.scopeEvent.opened, size }]

/-- The moments of some events in a file, which others come before. -/
def ofEvents (filename : String) (size : Nat) : List SourceEvent → List SourceEvent → List Moment
  | _, [] => []
  | before, event :: events =>
    ofEvent filename size before event ++ ofEvents filename size (before ++ [event]) events

/-- The beginning of a file. -/
def fileBegin (filename : String) (size : Nat) : Moment :=
  { stage := .fileBegin, filename := some filename, depth := 0, size }

/-- The end of a file. -/
def fileComplete (filename : String) (size : Nat) : Moment :=
  { stage := .fileComplete, filename := some filename, depth := 0, size }

/-- The moments of a file. -/
def ofFile (size : Nat) (file : SourceFile) : List Moment :=
  fileBegin file.filename size :: ofEvents file.filename size [] file.events ++
    [fileComplete file.filename (size + (documented file.events).length)]

/-- The moments of some files. -/
def ofFiles : Nat → List SourceFile → List Moment
  | _, [] => []
  | size, file :: files => ofFile size file ++ ofFiles (size + (documented file.events).length) files

/-- The beginning of a run. -/
def parseBegin : Moment := { stage := .parseBegin, filename := none, depth := 0, size := 0 }

/-- The end of a run: all files are read, and then all doclets are linked. -/
def ending (size linked : Nat) : List Moment :=
  [{ stage := .parseComplete, filename := none, depth := 0, size },
    { stage := .processingComplete, filename := none, depth := 0, size := linked }]

/-- The moments of a run that comes to its end, with so many doclets once they are linked. -/
def ofRun (files : List SourceFile) (linked : Nat) : List Moment :=
  parseBegin :: ofFiles 0 files ++ ending (documentedCount files) linked

/-- The moments of a run that stops in a file, after some of its events. -/
def ofStopped (before : List SourceFile) (file : SourceFile) (taken : List SourceEvent) : List Moment :=
  parseBegin :: ofFiles 0 before ++
    fileBegin file.filename (documentedCount before) :: ofEvents file.filename (documentedCount before) [] taken

variable {filename : String} {size : Nat}

theorem ofEvents_append (before xs ys : List SourceEvent) :
    ofEvents filename size before (xs ++ ys) =
      ofEvents filename size before xs ++ ofEvents filename size (before ++ xs) ys := by
  induction xs generalizing before with
  | nil => simp [ofEvents]
  | cons x xs ih => simp [ofEvents, ih]

theorem ofEvents_concat (before : List SourceEvent) (event : SourceEvent) :
    ofEvents filename size [] (before ++ [event]) =
      ofEvents filename size [] before ++ ofEvent filename size before event := by
  simp [ofEvents_append, ofEvents]

end Moment

theorem documentedCount_cons (file : SourceFile) (files : List SourceFile) :
    documentedCount (file :: files) = (documented file.events).length + documentedCount files := by
  simp [documentedCount]

theorem Moment.ofFiles_append (size : Nat) (xs ys : List SourceFile) :
    ofFiles size (xs ++ ys) = ofFiles size xs ++ ofFiles (size + documentedCount xs) ys := by
  induction xs generalizing size with
  | nil => rfl
  | cons x xs ih => simp [ofFiles, ih, documentedCount_cons, Nat.add_assoc]

/-- A run that stops is not through all stages of its files. -/
theorem Moment.ofStopped_prefix (before after : List SourceFile) {file : SourceFile} {taken : List SourceEvent}
    (ht : taken <+: file.events) (linked : Nat) :
    ofStopped before file taken <+: ofRun (before ++ file :: after) linked ∧
      ofStopped before file taken ≠ ofRun (before ++ file :: after) linked := by
  obtain ⟨events, he⟩ := ht
  let size := documentedCount before
  let size' := size + (documented file.events).length
  have hrest : ofRun (before ++ file :: after) linked = ofStopped before file taken ++
      (ofEvents file.filename size taken events ++ fileComplete file.filename size' ::
        (ofFiles size' after ++ ending (documentedCount (before ++ file :: after)) linked)) := by
    rw [ofRun, ofFiles_append, ofFiles, ofFile, ← he, ofEvents_append, he]
    simp only [ofStopped, Nat.zero_add, List.nil_append, List.append_assoc, List.cons_append]
    rfl
  rw [hrest]
  refine ⟨List.prefix_append _ _, fun h => ?_⟩
  simp at h

/-! ## Recording callbacks -/

/-- A recording callback for each stage. -/
def Callback.recorders : List Callback := Stage.all.map recorder

namespace Run

variable {dict : Dictionary} {run : Run} {filename : String} {event : SourceEvent}

/-- The run after the recording callback of a stage. -/
def see (stage : Stage) (payload : Payload) (run : Run) : Run :=
  { run with
    trace := run.trace ++ [{
      stage, filename := run.filename, payload := Callback.payloadData run payload, depth := run.stack.depth
      size := run.database.size }] }

/-- The recording callbacks do nothing else. -/
theorem fireAll_recorders (stage : Stage) (run : Run) (payload : Payload) :
    Callback.fireAll Callback.recorders stage run payload = .ok (run.see stage payload, payload) := by
  cases stage <;> rfl

/-- The moments that the callbacks of a run have recorded. -/
def moments (run : Run) : List Moment :=
  run.trace.map fun seen => { stage := seen.stage, filename := seen.filename, depth := seen.depth, size := seen.size }

theorem moments_see (stage : Stage) (payload : Payload) (run : Run) :
    (run.see stage payload).moments =
      run.moments ++ [{ stage, filename := run.filename, depth := run.stack.depth, size := run.database.size }] := by
  simp [moments, see]

theorem moments_note (run : Run) (text : String) : (run.note text).moments = run.moments := rfl

/-! ## Events -/

/-- An event that closes no scope is seen before and after its doclet is built. -/
theorem runEvent_recorders (run : Run) (filename : String) (he : event.scopeEvent ≠ .exit) :
    runEvent Callback.recorders filename run event =
      ((run.see .commentFound (.event event)).buildDoclet filename event).map fun (mid, d) =>
        (mid.see .docletCreated (.doclet d)).addDoclet d := by
  unfold runEvent
  rw [if_neg he, fireAll_recorders]
  simp only [bind, Except.bind, fireAll_recorders]
  cases (run.see .commentFound (.event event)).buildDoclet filename event <;> rfl

/-- A run inside a file, in which some events are taken and their moments recorded. -/
structure Within (dict : Dictionary) (seen : List Moment) (filename : String) (size : Nat) (before : List SourceEvent)
    (run : Run) : Prop where
  dict_eq : run.dict = dict
  filename_eq : run.filename = some filename
  depth_eq : run.stack.depth + closings before = openings before
  size_eq : run.database.size = size + (documented before).length
  moments_eq : run.moments = seen ++ Moment.ofEvents filename size [] before

variable {seen : List Moment} {size : Nat} {before : List SourceEvent}

/-- An event that closes no scope is taken. -/
theorem Within.build (h : run.Within dict seen filename size before) (hf : dict.Feasible)
    (he : event.scopeEvent ≠ .exit) :
    ∃ last, runEvent Callback.recorders filename run event = .ok last ∧
      last.Within dict seen filename size (before ++ [event]) ∧
      last.stack.depth = run.stack.depth + event.scopeEvent.opened := by
  obtain ⟨rfl, hfilename, hdepth, hsize, hmoments⟩ := h
  obtain ⟨found, d, hb, -⟩ := build_spec hf run.stack event.comment (contextOf filename event) event.scopeEvent
  let first := run.see .commentFound (.event event)
  let built := first.afterBuild found d (run.stack.afterDoclet run.dict d event.scopeEvent)
  have hbuilt : first.buildDoclet filename event = .ok (built, d) := buildDoclet_of_build hb
  let last := (built.see .docletCreated (.doclet d)).addDoclet d
  have hrun : runEvent Callback.recorders filename run event = .ok last := by
    rw [runEvent_recorders run filename he, hbuilt]
    rfl
  have hopened : last.stack.depth = run.stack.depth + event.scopeEvent.opened := depth_afterDoclet _ _ _ _
  refine ⟨last, hrun, ⟨rfl, hfilename, ?_, ?_, ?_⟩, hopened⟩
  · rw [hopened, openings_append, closings_append, openings_cons, closings_cons he, openings_nil, closings_nil]
    omega
  · have hs : last.database.size = run.database.size + 1 := Database.size_add _ _
    rw [hs, hsize, documented_append, documented_cons he, documented_nil, List.length_append]
    rfl
  · have hd : run.stack.depth = openings before - closings before := by omega
    have hevent : Moment.ofEvent filename size before event =
        [{ stage := .commentFound, filename := run.filename, depth := run.stack.depth, size := run.database.size },
          { stage := .docletCreated, filename := run.filename, depth := last.stack.depth
            size := run.database.size }] := by
      rw [Moment.ofEvent, if_neg he, hopened, hd, hfilename, hsize]
    have hlast : last.moments = (built.see .docletCreated (.doclet d)).moments := rfl
    have hfirst : built.moments = first.moments := rfl
    rw [hlast, moments_see, hfirst, moments_see, Moment.ofEvents_concat, hevent, hmoments, List.append_assoc,
      List.append_assoc]
    rfl

/-- An event that closes a scope is taken if one is open, and leaves no moment. -/
theorem Within.exit (h : run.Within dict seen filename size before) (he : event.scopeEvent = .exit)
    {inner : ScopeStack} (hinner : run.stack.depth = inner.depth + 1) :
    Within dict seen filename size (before ++ [event]) { run with stack := inner } := by
  obtain ⟨hdict, hfilename, hdepth, hsize, hmoments⟩ := h
  refine ⟨hdict, hfilename, ?_, ?_, ?_⟩
  · rw [openings_append, closings_append, closings_cons_exit he, openings_cons, he]
    simp only [ScopeEvent.opened, reduceCtorEq, if_false, openings_nil, closings_nil]
    omega
  · rw [documented_append, documented_cons_exit he, documented_nil, List.append_nil]
    exact hsize
  · rw [Moment.ofEvents_concat, Moment.ofEvent, if_pos he, List.append_nil]
    exact hmoments

/-- **An event is taken, unless it closes a scope while none is open.** -/
theorem Within.runEvent (h : run.Within dict seen filename size before) (hf : dict.Feasible) (event : SourceEvent) :
    (∃ last, Run.runEvent Callback.recorders filename run event = .ok last ∧
      last.Within dict seen filename size (before ++ [event]) ∧
      ∀ rest, Covered run.stack.depth (event :: rest) ↔ Covered last.stack.depth rest) ∨
    (event.scopeEvent = .exit ∧ run.stack.depth = 0 ∧
      ∃ stopped, Run.runEvent Callback.recorders filename run event = .error stopped ∧
        stopped.1.moments = run.moments) := by
  by_cases he : event.scopeEvent = .exit
  · have hrun : Run.runEvent Callback.recorders filename run event = run.exitScope filename := by
      rw [Run.runEvent, if_pos he]
    rw [hrun]
    rcases run.exitScope_cases filename with ⟨inner, hdepth, hexit⟩ | ⟨hzero, hexit⟩
    · refine .inl ⟨_, hexit, h.exit he hdepth, fun rest => ?_⟩
      rw [covered_cons_exit he, hdepth]
      exact and_iff_right (Nat.succ_pos _)
    · exact .inr ⟨he, hzero, _, hexit, rfl⟩
  · obtain ⟨last, hrun, hlast, hdepth⟩ := h.build hf he
    refine .inl ⟨last, hrun, hlast, fun rest => ?_⟩
    rw [covered_cons he, hdepth]

/-- The events of a file are taken up to the first one that closes a scope while none is open. -/
theorem Within.runEvents (h : run.Within dict seen filename size before) (hf : dict.Feasible)
    (events : List SourceEvent) :
    ∃ taken, LongestCovered run.stack.depth events taken ∧
      ((Covered run.stack.depth events ∧
          ∃ last, events.foldlM (Run.runEvent Callback.recorders filename) run = .ok last ∧
            last.Within dict seen filename size (before ++ events)) ∨
        (¬ Covered run.stack.depth events ∧
          ∃ stopped, events.foldlM (Run.runEvent Callback.recorders filename) run = .error stopped ∧
            stopped.1.moments = seen ++ Moment.ofEvents filename size [] (before ++ taken))) := by
  induction events generalizing run before with
  | nil =>
    refine ⟨[], longestCovered_self (covered_nil _), .inl ⟨covered_nil _, run, rfl, ?_⟩⟩
    rwa [List.append_nil]
  | cons event events ih =>
    rw [List.foldlM_cons]
    rcases h.runEvent hf event with ⟨mid, hmid, hwithin, hiff⟩ | ⟨he, hzero, stopped, hstopped, hmoments⟩
    · obtain ⟨taken, hlongest, houtcome⟩ := ih hwithin
      refine ⟨event :: taken, hlongest.cons_of_iff hiff, ?_⟩
      rw [hiff, hmid, List.append_cons before event taken, List.append_cons before event events]
      exact houtcome
    · refine ⟨[], hzero ▸ longestCovered_nothingOpen he events, .inr ⟨fun hc => ?_, stopped, ?_, ?_⟩⟩
      · rw [covered_cons_exit he, hzero] at hc
        exact Nat.lt_irrefl 0 hc.1
      · rw [hstopped]
        rfl
      · rw [hmoments, h.moments_eq, List.append_nil]

/-! ## Files -/

/-- A file is seen at its begin and at its end. -/
theorem readFile_recorders (run : Run) (file : SourceFile) :
    readFile Callback.recorders run file =
      (file.events.foldlM (runEvent Callback.recorders file.filename)
        ((run.beginFile file.filename).see .fileBegin (.file file.filename))).bind fun mid =>
          (mid.finishFile file.filename).map fun last =>
            { last.see .fileComplete (.file file.filename) with filename := none } := by
  simp only [readFile, fireAll_recorders, bind, pure, Except.bind, Except.pure]
  rfl

/-- A run between two files, when so many doclets are built. -/
structure Between (dict : Dictionary) (seen : List Moment) (size : Nat) (run : Run) : Prop where
  dict_eq : run.dict = dict
  filename_eq : run.filename = none
  depth_eq : run.stack.depth = 0
  size_eq : run.database.size = size
  moments_eq : run.moments = seen

variable {taken : List SourceEvent} {file : SourceFile}

theorem Between.begin (h : run.Between dict seen size) (filename : String) :
    Within dict (seen ++ [Moment.fileBegin filename size]) filename size []
      ((run.beginFile filename).see .fileBegin (.file filename)) := by
  obtain ⟨hdict, -, hdepth, hsize, hmoments⟩ := h
  have hbegin : (run.beginFile filename).moments = run.moments := rfl
  refine ⟨hdict, rfl, hdepth, hsize, ?_⟩
  rw [moments_see, hbegin, hmoments, Moment.ofEvents, List.append_nil, ← hsize, Moment.fileBegin, ← hdepth]
  rfl

/-- When all events of a file are taken, its end is still to be seen. -/
theorem Within.finish (h : run.Within dict (seen ++ [Moment.fileBegin file.filename size]) file.filename size file.events) :
    Between dict (seen ++ Moment.ofFile size file) (size + (documented file.events).length)
      { see .fileComplete (.file file.filename) { run with stack := {} } with filename := none } := by
  obtain ⟨hdict, hfilename, -, hsize, hmoments⟩ := h
  refine ⟨hdict, rfl, rfl, hsize, ?_⟩
  have hseen : (see .fileComplete (.file file.filename) { run with stack := {} }).moments =
      run.moments ++ [Moment.fileComplete file.filename (size + (documented file.events).length)] := by
    rw [moments_see, Moment.fileComplete, ← hsize, ← hfilename]
    rfl
  have hlast : moments { see .fileComplete (.file file.filename) { run with stack := {} } with filename := none } =
      (see .fileComplete (.file file.filename) { run with stack := {} }).moments := rfl
  rw [hlast, hseen, hmoments, Moment.ofFile]
  simp

/-- **A file is taken just if its scopes pair up**, and else up to the end of the longest covered part. -/
theorem Between.readFile (h : run.Between dict seen size) (hf : dict.Feasible) (file : SourceFile) :
    (file.Balanced ∧ ∃ last, Run.readFile Callback.recorders run file = .ok last ∧
      last.Between dict (seen ++ Moment.ofFile size file) (size + (documented file.events).length)) ∨
    (¬ file.Balanced ∧ ∃ taken stopped, LongestCovered 0 file.events taken ∧
      Run.readFile Callback.recorders run file = .error stopped ∧
      stopped.1.moments = seen ++ Moment.fileBegin file.filename size :: Moment.ofEvents file.filename size [] taken) := by
  rw [readFile_recorders]
  obtain ⟨taken, hlongest, houtcome⟩ := (h.begin file.filename).runEvents hf file.events
  have hzero : ((run.beginFile file.filename).see .fileBegin (.file file.filename)).stack.depth = 0 := h.depth_eq
  rw [hzero] at hlongest houtcome
  rw [List.nil_append, List.nil_append] at houtcome
  rcases houtcome with ⟨hc, mid, hmid, hwithin⟩ | ⟨hc, stopped, hstopped, hmoments⟩
  · have hdepth := hwithin.depth_eq
    rw [hmid]
    by_cases hz : mid.stack.depth = 0
    · refine .inl ⟨balanced_iff.2 ⟨hc, by omega⟩, _, ?_, hwithin.finish⟩
      rw [Except.bind, finishFile_of_closed hz]
      rfl
    · refine .inr ⟨fun hb => hz ?_, file.events, ?_⟩
      · have heq := (balanced_iff.1 hb).2
        omega
      · refine ⟨_, longestCovered_self hc, by rw [Except.bind, finishFile_of_open hz]; rfl, ?_⟩
        have hstopped : Run.moments (imbalance { mid with stack := {} } file.filename
            (.leftOpen mid.stack.depth (some file.filename))).1 = mid.moments := rfl
        rw [hstopped, hwithin.moments_eq, List.append_assoc]
        rfl
  · refine .inr ⟨fun hb => hc (balanced_iff.1 hb).1, taken, stopped, hlongest, by rw [hstopped]; rfl, ?_⟩
    rw [hmoments, List.append_assoc]
    rfl

/-- **Files are taken up to the first one whose scopes do not pair up.** -/
theorem Between.readFiles (h : run.Between dict seen size) (hf : dict.Feasible) (files : List SourceFile) :
    ((∀ file ∈ files, file.Balanced) ∧
      ∃ last, files.foldlM (Run.readFile Callback.recorders) run = .ok last ∧
        last.Between dict (seen ++ Moment.ofFiles size files) (size + documentedCount files)) ∨
    ∃ before file after taken stopped, files = before ++ file :: after ∧ (∀ earlier ∈ before, earlier.Balanced) ∧
      ¬ file.Balanced ∧ LongestCovered 0 file.events taken ∧
      files.foldlM (Run.readFile Callback.recorders) run = .error stopped ∧
      stopped.1.moments = seen ++ Moment.ofFiles size before ++
        Moment.fileBegin file.filename (size + documentedCount before) ::
          Moment.ofEvents file.filename (size + documentedCount before) [] taken := by
  induction files generalizing run seen size with
  | nil =>
    refine .inl ⟨List.forall_mem_nil _, run, rfl, ?_⟩
    rwa [Moment.ofFiles, List.append_nil]
  | cons first files ih =>
    rw [List.foldlM_cons]
    rcases h.readFile hf first with ⟨hb, mid, hmid, hbetween⟩ | ⟨hb, taken, stopped, hlongest, hstopped, hmoments⟩
    · rw [hmid]
      rcases ih hbetween with ⟨hall, last, hlast, hbetween⟩ |
        ⟨before, file, after, taken, stopped, rfl, hbefore, hfile, hlongest, hstopped, hmoments⟩
      · refine .inl ⟨List.forall_mem_cons.2 ⟨hb, hall⟩, last, hlast, ?_⟩
        rwa [Moment.ofFiles, documentedCount_cons, ← List.append_assoc, ← Nat.add_assoc]
      · refine .inr ⟨first :: before, file, after, taken, stopped, rfl, List.forall_mem_cons.2 ⟨hb, hbefore⟩, hfile,
          hlongest, hstopped, ?_⟩
        rw [hmoments, Moment.ofFiles, documentedCount_cons, ← List.append_assoc, ← Nat.add_assoc]
    · refine .inr ⟨[], first, files, taken, stopped, rfl, List.forall_mem_nil _, hb, hlongest, ?_, ?_⟩
      · rw [hstopped]
        rfl
      · rw [hmoments, Moment.ofFiles, List.append_nil]
        rfl

end Run

/-! ## The whole run -/

/-- A run is seen at its begin, when all files are read, and when their doclets are linked. -/
theorem Pipeline.run_recorders (dict : Dictionary) (reporter : Reporter) (files : List SourceFile) :
    let pipeline : Pipeline := { dict, reporter, callbacks := Callback.recorders }
    pipeline.run files =
      (files.foldlM (Run.readFile Callback.recorders)
        ((Run.start pipeline files).see .parseBegin (.files (files.map (·.filename))))).map fun run =>
          let linked := (run.see .parseComplete .database).link.see .processingComplete .database
          linked.note ("Built " ++ toString linked.database.size ++ " doclet(s)") := by
  intro pipeline
  simp only [Pipeline.run, Run.parseFiles, pipeline, Run.fireAll_recorders, bind, pure, Except.bind, Except.pure]
  cases files.foldlM (Run.readFile Callback.recorders)
    ((Run.start pipeline files).see .parseBegin (.files (files.map (·.filename)))) <;> rfl

/-- What is seen once all files are read. -/
theorem Run.Between.finish {dict : Dictionary} {run : Run} {files : List SourceFile}
    (h : run.Between dict (Moment.parseBegin :: Moment.ofFiles 0 files) (documentedCount files)) :
    ((run.see .parseComplete .database).link.see .processingComplete .database).moments =
      Moment.ofRun files (run.see .parseComplete .database).link.database.size := by
  obtain ⟨-, hfilename, hdepth, hsize, hmoments⟩ := h
  have hlink : (run.see .parseComplete .database).link.moments = (run.see .parseComplete .database).moments := rfl
  rw [moments_see, hlink, moments_see, hmoments, hfilename, hdepth, hsize, List.append_assoc, Moment.ofRun,
    Moment.ending, ← hfilename, ← hdepth]
  rfl

/-- **The stages of a run.** With the built-in grammars and callbacks that only record, a run over files whose scopes
pair up goes through all stages of its files. Otherwise it stops in the first file whose scopes do not pair up, after
the longest covered part of the events, and has gone through a part of the stages only. -/
theorem Pipeline.moments_run {names : List String} {allowUnknown : AllowUnknown} {dict : Dictionary}
    (hd : Grammar.buildAll names allowUnknown = .ok dict) (reporter : Reporter) (files : List SourceFile) :
    let pipeline : Pipeline := { dict, reporter, callbacks := Callback.recorders }
    ((∀ file ∈ files, file.Balanced) ∧
      ∃ run, pipeline.run files = .ok run ∧ run.moments = Moment.ofRun files run.database.size) ∨
    ∃ before file after taken run failure,
      files = before ++ file :: after ∧ (∀ earlier ∈ before, earlier.Balanced) ∧ ¬ file.Balanced ∧
      LongestCovered 0 file.events taken ∧ pipeline.run files = .error (run, failure) ∧
      run.moments = Moment.ofStopped before file taken ∧
      ∀ linked, run.moments <+: Moment.ofRun files linked ∧ run.moments ≠ Moment.ofRun files linked := by
  intro pipeline
  have hf := Grammar.buildAll_feasible hd
  have hstart : Run.Between dict [Moment.parseBegin] 0
      ((Run.start pipeline files).see .parseBegin (.files (files.map (·.filename)))) := ⟨rfl, rfl, rfl, rfl, rfl⟩
  rw [Pipeline.run_recorders]
  rcases hstart.readFiles hf files with ⟨hall, last, hlast, hbetween⟩ |
    ⟨before, file, after, taken, ⟨run, failure⟩, rfl, hbefore, hfile, hlongest, hstopped, hmoments⟩
  · rw [Nat.zero_add] at hbetween
    let linked := (last.see .parseComplete .database).link.see .processingComplete .database
    refine .inl ⟨hall, linked.note ("Built " ++ toString linked.database.size ++ " doclet(s)"), ?_, ?_⟩
    · rw [hlast]
      rfl
    · rw [Run.moments_note]
      exact hbetween.finish
  · rw [Nat.zero_add] at hmoments
    have hrun : run.moments = Moment.ofStopped before file taken := hmoments
    refine .inr ⟨before, file, after, taken, run, failure, rfl, hbefore, hfile, hlongest, by rw [hstopped]; rfl, hrun, ?_⟩
    rw [hrun]
    exact Moment.ofStopped_prefix before after hlongest.beginning

/-- The second file closes a scope that it never opened. -/
theorem Pipeline.moments_run_nothingOpen :
    let pipeline : Pipeline := { dict := Grammar.jsdoc.dictionary, callbacks := Callback.recorders }
    let files : List SourceFile := [
      { filename := "a.js", events := [{ scopeEvent := .enter }, { }, { scopeEvent := .exit }] },
      { filename := "b.js", events := [{ }, { scopeEvent := .exit }, { }] },
      { filename := "c.js", events := [{ }] }]
    let seen : List Moment := [
      .parseBegin,
      .fileBegin "a.js" 0,
      { stage := .commentFound, filename := some "a.js", depth := 0, size := 0 },
      { stage := .docletCreated, filename := some "a.js", depth := 1, size := 0 },
      { stage := .commentFound, filename := some "a.js", depth := 1, size := 1 },
      { stage := .docletCreated, filename := some "a.js", depth := 1, size := 1 },
      .fileComplete "a.js" 2,
      .fileBegin "b.js" 2,
      { stage := .commentFound, filename := some "b.js", depth := 0, size := 2 },
      { stage := .docletCreated, filename := some "b.js", depth := 0, size := 2 }]
    Grammar.buildAll ["jsdoc"] (.all false) = .ok pipeline.dict ∧
      ∃ run failure, pipeline.run files = .error (run, failure) ∧ run.moments = seen ∧
        ∀ linked, run.moments <+: Moment.ofRun files linked ∧ run.moments ≠ Moment.ofRun files linked := by
  intro pipeline files seen
  have hd : Grammar.buildAll ["jsdoc"] (.all false) = .ok pipeline.dict := by with_unfolding_all rfl
  have hseen : (match pipeline.run files with
      | .ok _ => []
      | .error (run, _) => run.moments) = seen := by
    decide +kernel
  rcases moments_run hd {} files with ⟨hall, -⟩ | ⟨before, file, after, taken, run, failure, -, -, -, -, hrun, -, hpart⟩
  · exact absurd hall (by decide)
  · have hrun : pipeline.run files = .error (run, failure) := hrun
    rw [hrun] at hseen
    exact ⟨hd, run, failure, hrun, hseen, hpart⟩

end SymbolDocs
