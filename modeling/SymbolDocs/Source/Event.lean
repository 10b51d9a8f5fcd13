import SymbolDocs.Data.Shown
import SymbolDocs.Scope.Basic
import SymbolDocs.Text.Choice

/-!
# Events of source files

A reader of source code reports for each file its comments, the constructs that they are attached to, and where
scopes open and close. `SourceFile.ofData` takes such a report from plain data.
-/

namespace SymbolDocs

open SymbolDocs.Text

/-- What a construct does to the nesting of scopes. -/
inductive ScopeEvent where
  | enter | exit | none
  deriving DecidableEq, Repr

namespace ScopeEvent

/-- All scope events. -/
def all : List ScopeEvent := [.enter, .exit, .none]

/-- The word for a scope event. -/
def word : ScopeEvent → String
  | .enter => "enter"
  | .exit => "exit"
  | .none => "none"

/-- The scope event that a word names. -/
def ofWord? (word : String) : Option ScopeEvent := all.find? (·.word == word)

end ScopeEvent

/-- What is known of the construct that a comment is attached to. -/
structure SourceContext where
  name : Option String := none
  kind : Option String := none
  scope : Option Scope := none
  codeType : Option String := none
  filename : Option String := none
  lineno : Option Int := none
  params : List String := []
  value : Option String := none
  isDefaultExport : Bool := false
  deriving DecidableEq, Repr

/-- A comment with its construct. -/
structure SourceEvent where
  comment : Option String := none
  context : Option SourceContext := none
  scopeEvent : ScopeEvent := .none
  deriving DecidableEq, Repr

/-- The events of a file, in the order of the code. -/
structure SourceFile where
  filename : String
  events : List SourceEvent := []
  deriving DecidableEq, Repr

/-- Why data does not report source files. -/
inductive ReportFault where
  | notAList
  | noFilename
  | word (word : UnknownWord)
  deriving DecidableEq, Repr

/-- The wording of a fault. -/
def ReportFault.message : ReportFault → String
  | .notAList => "Walker input must be a list of files or an object with a 'files' list"
  | .noFilename => "Each walker file needs a 'filename'"
  | .word w => w.message

/-- The texts that a list of parameters holds; a text stands for the list of its characters. -/
def paramsOfData : Data → List String
  | .list items => items.map Data.plain
  | .text s => s.toList.map String.singleton
  | .mapping entries => entries.map (·.key)
  | _ => []

/-- A choice by its word; null and empty values choose nothing. -/
def chooseData (category : String) (ofWord? : String → Option α) (d : Data) : Except UnknownWord (Option α) :=
  if d.truthy then (choose category ofWord? d.plain).map some else .ok none

/-- The construct that data reports; it is in the given file unless it names another one. -/
def SourceContext.ofData (filename : Option String) (d : Data) : Except UnknownWord SourceContext := do
  let codeType := if (d.get "code_type").truthy then d.get "code_type" else d.get "type"
  let scope ← chooseData "Scope" Scope.ofWord? (d.get "scope")
  pure {
    name := (d.get "name").text?
    kind := (d.get "kind").text?
    scope
    codeType := codeType.text?
    filename := if (d.get "filename").truthy then (d.get "filename").text? else filename
    lineno := (d.get "lineno").int?
    params := paramsOfData (d.get "params")
    value := (d.get "value").text?
    isDefaultExport := (d.get "is_default_export").truthy }

/-- The event that data reports. A context that is no mapping does not count. -/
def SourceEvent.ofData (filename : Option String) (d : Data) : Except UnknownWord SourceEvent := do
  let context ← match d.get "context" with
    | .mapping entries => (SourceContext.ofData filename (.mapping entries)).map some
    | _ => pure none
  let scopeEvent ← chooseData "ScopeEvent" ScopeEvent.ofWord? (d.get "scope_event")
  pure { comment := (d.get "comment").text?, context, scopeEvent := scopeEvent.getD .none }

/-- The file that data reports. -/
def SourceFile.ofData (d : Data) : Except ReportFault SourceFile :=
  match d.get? "filename" with
  | none => .error .noFilename
  | some name =>
    let items := match d.get "events" with
      | .list items => items
      | _ => []
    match items.mapM (SourceEvent.ofData (some name.plain)) with
    | .ok events => .ok { filename := name.plain, events }
    | .error w => .error (.word w)

/-- The files that data reports: a list of files, or a mapping with such a list. -/
def SourceFile.listOfData (d : Data) : Except ReportFault (List SourceFile) :=
  let payload := match d with
    | .mapping entries => ((Data.mapping entries).get? "files").getD (.list [])
    | d => d
  match payload with
  | .list items => items.mapM SourceFile.ofData
  | _ => .error .notAList

end SymbolDocs
