import SymbolDocs.Database.Linking
import SymbolDocs.Grammar.Dictionary
import SymbolDocs.Source.Build

/-!
# Callbacks

A run goes through stages, and at each stage the callbacks registered for it are called in order. A callback sees the
whole state of the run and what the stage is about; it may change both, or stop the run.
-/

namespace SymbolDocs

open SymbolDocs.Text

/-- The stages of a run, in the order in which they come. -/
inductive Stage where
  | parseBegin | fileBegin | commentFound | docletCreated | fileComplete | parseComplete | processingComplete
  deriving DecidableEq, Repr

namespace Stage

/-- All stages. -/
def all : List Stage :=
  [.parseBegin, .fileBegin, .commentFound, .docletCreated, .fileComplete, .parseComplete, .processingComplete]

/-- The word for a stage. -/
def word : Stage → String
  | .parseBegin => "parse_begin"
  | .fileBegin => "file_begin"
  | .commentFound => "comment_found"
  | .docletCreated => "doclet_created"
  | .fileComplete => "file_complete"
  | .parseComplete => "parse_complete"
  | .processingComplete => "processing_complete"

/-- The stage that a word names. -/
def ofWord? (word : String) : Option Stage := all.find? (·.word == word)

end Stage

/-- What a stage is about. -/
inductive Payload where
  | files (names : List String)
  | file (name : String)
  | event (event : SourceEvent)
  | doclet (doclet : Doclet)
  | database

/-- What a recording callback saw: the stage, the file, what the stage was about in plain data, and the sizes of the
stack of scopes and of the database. -/
structure Sighting where
  stage : Stage
  filename : Option String
  payload : Data
  depth : Nat
  size : Nat

/-- The state of a run. -/
structure Run where
  /-- The dictionary that the run uses from its start to its end. -/
  dict : Dictionary
  /-- The dictionary that the caller holds. -/
  outer : Dictionary
  reporter : Reporter
  stack : ScopeStack := {}
  database : Database := {}
  filename : Option String := none
  trace : List Sighting := []

/-- Why a run stops. -/
inductive Failure where
  | problem (problem : Problem)
  | obstacle (obstacle : Obstacle)
  | callback (message : String)
  deriving DecidableEq, Repr

/-- The wording of a failure. -/
def Failure.message : Failure → String
  | .problem p => p.message
  | .obstacle o => o.message
  | .callback message => message

/-- The state in which a run stopped, and why. -/
abbrev Stopped := Run × Failure

/-- A function that is called at a stage. -/
structure Callback where
  stage : Stage
  action : Run → Payload → Except String (Run × Payload)

namespace Callback

/-- Calls a callback that is registered for the stage. -/
def fire (stage : Stage) (state : Run × Payload) (c : Callback) : Except Stopped (Run × Payload) :=
  if c.stage = stage then
    match c.action state.1 state.2 with
    | .ok next => .ok next
    | .error message => .error (state.1, .callback message)
  else .ok state

/-- Calls all callbacks that are registered for the stage. -/
def fireAll (callbacks : List Callback) (stage : Stage) (run : Run) (payload : Payload) :
    Except Stopped (Run × Payload) :=
  callbacks.foldlM (fire stage) (run, payload)

/-! ## Callbacks -/

/-- A callback that changes what the stage is about. -/
def onPayload (stage : Stage) (f : Run → Payload → Payload) : Callback :=
  { stage, action := fun run payload => .ok (run, f run payload) }

/-- A callback that changes the doclet of the stage. -/
def onDoclet (stage : Stage) (f : Doclet → Doclet) : Callback :=
  onPayload stage fun _ payload =>
    match payload with
    | .doclet d => .doclet (f d)
    | other => other

/-- A callback that changes the comment of the stage. -/
def onComment (stage : Stage) (f : Run → Option String → Option String) : Callback :=
  onPayload stage fun run payload =>
    match payload with
    | .event e => .event { e with comment := f run e.comment }
    | other => other

/-- A callback that puts a dictionary into the hands of the caller. -/
def swapOuter (stage : Stage) (dict : Dictionary) : Callback :=
  { stage, action := fun run payload => .ok ({ run with outer := dict }, payload) }

/-- A callback that stops the run. -/
def stop (stage : Stage) (message : String) : Callback :=
  { stage, action := fun _ _ => .error message }

/-- What a recording callback notes of the subject of a stage. -/
def payloadData (run : Run) : Payload → Data
  | .files names => .ofTexts names
  | .file name => .text name
  | .event e => .ofText? e.comment
  | .doclet d => .ofText? d.longname
  | .database => .list (run.database.doclets.map fun d => .ofText? d.longname)

/-- A callback that only records what it sees. -/
def recorder (stage : Stage) : Callback :=
  { stage
    action := fun run payload =>
      let seen := {
        stage, filename := run.filename, payload := payloadData run payload, depth := run.stack.depth
        size := run.database.size }
      .ok ({ run with trace := run.trace ++ [seen] }, payload) }

end Callback
end SymbolDocs
