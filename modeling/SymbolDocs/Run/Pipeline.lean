import SymbolDocs.Run.Plugin

/-!
# Runs

`Pipeline.run` takes the events of some files to a database of doclets. The doclets of each file are built in the
order of its events, and when all files are read the doclets are linked. Only scopes that do not pair up stop a run,
unless a callback does or a tag of a foreign grammar cannot be applied at all.
-/

namespace SymbolDocs

/-- What a run is started with: the dictionary in the hands of the caller, a reporter, and callbacks. -/
structure Pipeline where
  dict : Dictionary
  reporter : Reporter := {}
  callbacks : List Callback := []

namespace Pipeline

/-- The dictionary of the default grammars. -/
def defaultDictionary : Dictionary := Grammar.jsdoc.dictionary.merge [Grammar.closure.dictionary]

/-- Registers the callbacks of a plugin. -/
def register (p : Pipeline) (plugin : Plugin) : Pipeline :=
  { p with
    callbacks := p.callbacks ++ plugin.callbacks
    reporter := p.reporter.note .debug "pipeline" ("Registered plugin " ++ plugin.shownName) }

/-- Registers a callback. -/
def on (p : Pipeline) (c : Callback) : Pipeline := { p with callbacks := p.callbacks ++ [c] }

end Pipeline

namespace Run

/-- Stops because scopes do not pair up, which is reported. -/
def imbalance (run : Run) (filename : String) (fault : ScopeImbalance) : Stopped :=
  ({ run with reporter := run.reporter.report (.ofImbalance fault) { filename := some filename } },
    .problem (.ofImbalance fault))

/-- Leaves the innermost scope. -/
def exitScope (run : Run) (filename : String) : Except Stopped Run :=
  match run.stack.pop with
  | .ok (_, stack) => .ok { run with stack }
  | .error fault => .error (run.imbalance filename fault)

/-- The construct of an event, which is in the given file unless it says otherwise. -/
def contextOf (filename : String) (event : SourceEvent) : SourceContext :=
  let context := event.context.getD {}
  { context with filename := context.filename.or (some filename) }

/-- Builds the doclet of an event, which is not yet in the database. -/
def buildDoclet (run : Run) (filename : String) (event : SourceEvent) : Except Stopped (Run × Doclet) :=
  match build run.dict run.stack event.comment (contextOf filename event) event.scopeEvent with
  | (found, .ok (d, stack)) =>
    .ok ({ run with stack, reporter := (run.reporter.emitAll found).note .debug "builder" d.builtNote }, d)
  | (found, .error obstacle) => .error ({ run with reporter := run.reporter.emitAll found }, .obstacle obstacle)

/-- Adds a doclet to the database. -/
def addDoclet (run : Run) (d : Doclet) : Run := { run with database := run.database.add d }

/-- Takes one event. -/
def runEvent (callbacks : List Callback) (filename : String) (run : Run) (event : SourceEvent) :
    Except Stopped Run := do
  if event.scopeEvent = .exit then run.exitScope filename
  else
    let (run, payload) ← Callback.fireAll callbacks .commentFound run (.event event)
    let event := match payload with
      | .event e => e
      | _ => event
    let (run, d) ← run.buildDoclet filename event
    let (run, payload) ← Callback.fireAll callbacks .docletCreated run (.doclet d)
    let d := match payload with
      | .doclet d => d
      | _ => d
    pure (run.addDoclet d)

/-- Ends a file, in which no scope may be open any more. -/
def finishFile (run : Run) (filename : String) : Except Stopped Run :=
  match run.stack.finish (some filename) with
  | .ok () => .ok { run with stack := {} }
  | .error fault => .error (imbalance { run with stack := {} } filename fault)

/-- Takes one file. -/
def readFile (callbacks : List Callback) (run : Run) (file : SourceFile) : Except Stopped Run := do
  let run := { run with filename := some file.filename }
  let (run, _) ← Callback.fireAll callbacks .fileBegin run (.file file.filename)
  let run ← file.events.foldlM (runEvent callbacks file.filename) run
  let run ← run.finishFile file.filename
  let (run, _) ← Callback.fireAll callbacks .fileComplete run (.file file.filename)
  pure { run with filename := none }

/-- Links the doclets. -/
def link (run : Run) : Run :=
  let linked := Linking.linkAll { database := run.database, reporter := run.reporter }
  { run with database := linked.database, reporter := linked.reporter }

/-- Adds a line to the log. -/
def note (run : Run) (text : String) : Run := { run with reporter := run.reporter.note .info "pipeline" text }

/-- The state before the first file. -/
def start (p : Pipeline) (files : List SourceFile) : Run :=
  let run : Run := { dict := p.dict, outer := p.dict, reporter := p.reporter }
  run.note ("Building doclets for " ++ toString files.length ++ " file(s) with the " ++ p.dict.name ++ " dictionary")

/-- Takes all files, up to the stage at which every comment is read. -/
def parseFiles (p : Pipeline) (files : List SourceFile) : Except Stopped Run := do
  let (run, _) ← Callback.fireAll p.callbacks .parseBegin (start p files) (.files (files.map (·.filename)))
  let run ← files.foldlM (readFile p.callbacks) run
  let (run, _) ← Callback.fireAll p.callbacks .parseComplete run .database
  pure run

end Run

/-- Takes the events of files to a database. -/
def Pipeline.run (p : Pipeline) (files : List SourceFile) : Except Stopped Run := do
  let run ← Run.parseFiles p files
  let (run, _) ← Callback.fireAll p.callbacks .processingComplete run.link .database
  pure (run.note ("Built " ++ toString run.database.size ++ " doclet(s)"))

end SymbolDocs
