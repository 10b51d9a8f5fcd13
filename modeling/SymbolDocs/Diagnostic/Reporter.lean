import SymbolDocs.Diagnostic.Problem

/-!
# Reporting problems

A reporter collects diagnostics. It can hold back problems that were reported before under the same key, and it
passes every new diagnostic on to its listeners and to the log.
-/

namespace SymbolDocs

/-- Where a problem was found. -/
structure Location where
  filename : Option String := none
  lineno : Option Int := none
  longname : Option String := none
  deriving DecidableEq, Repr

/-- The text of a location: file and line, then the symbol. Parts that are missing or empty are left out. -/
def Location.text (place : Location) : String :=
  let file := match place.filename.filter (!·.isEmpty), place.lineno with
    | some name, some line => [name ++ ":" ++ toString line]
    | some name, none => [name]
    | none, _ => []
  " ".intercalate (file ++ (place.longname.filter (!·.isEmpty)).toList)

/-- One reported problem. -/
structure Diagnostic where
  severity : Severity
  code : String
  message : String
  location : Location := {}
  deriving DecidableEq, Repr

namespace Diagnostic

/-- The text of a diagnostic, with its location in front. -/
def text (d : Diagnostic) : String :=
  let place := d.location.text
  if place.isEmpty then d.message else place ++ " - " ++ d.message

/-- The diagnostic for a problem, of its usual severity unless another one is given. -/
def ofProblem (problem : Problem) (location : Location) (severity : Option Severity := none) : Diagnostic :=
  { severity := severity.getD problem.severity, code := problem.code, message := problem.message, location }

/-- Whether a diagnostic counts as an error. -/
def isError (d : Diagnostic) : Bool := d.severity == .fatal || d.severity == .error

end Diagnostic

/-- A line of the log: how severe it is, the component it comes from, and its text. -/
structure LogLine where
  severity : Severity
  component : String
  text : String
  deriving DecidableEq, Repr

/-- The collected diagnostics with what the reporting depends on. -/
structure Reporter where
  /-- The diagnostics, in the order of the reports. -/
  records : List Diagnostic := []
  /-- The codes and keys of the problems that are reported once. -/
  reportedOnce : List (String × String) := []
  /-- The names of the listeners. -/
  listeners : List String := []
  /-- What each listener heard. -/
  heard : List (String × Diagnostic) := []
  log : List LogLine := []
  deriving DecidableEq, Repr

namespace Reporter

/-- Adds a line to the log. -/
def note (r : Reporter) (severity : Severity) (component text : String) : Reporter :=
  { r with log := r.log ++ [{ severity, component, text }] }

/-- Records a diagnostic, which also goes to the log and to the listeners. -/
def emit (r : Reporter) (d : Diagnostic) : Reporter :=
  { r with
    records := r.records ++ [d]
    log := r.log ++ [{ severity := d.severity, component := "diagnostics", text := d.text }]
    heard := r.heard ++ r.listeners.map (·, d) }

/-- Records several diagnostics. -/
def emitAll (r : Reporter) (ds : List Diagnostic) : Reporter := ds.foldl emit r

/-- Records a problem. -/
def report (r : Reporter) (problem : Problem) (location : Location := {}) (severity : Option Severity := none) :
    Reporter :=
  r.emit (.ofProblem problem location severity)

/-- Whether a problem was reported under this key before. -/
def hasReported (r : Reporter) (key : String) (problem : Problem) : Bool :=
  r.reportedOnce.contains (problem.code, key)

/-- Records a problem, unless one of its code was reported under the same key before. -/
def reportOnce (r : Reporter) (key : String) (problem : Problem) (location : Location := {})
    (severity : Option Severity := none) : Reporter :=
  if r.hasReported key problem then r
  else { r with reportedOnce := (problem.code, key) :: r.reportedOnce }.report problem location severity

/-- Adds a listener, who may listen several times. -/
def subscribe (r : Reporter) (listener : String) : Reporter := { r with listeners := r.listeners ++ [listener] }

/-- Removes a listener once. -/
def unsubscribe (r : Reporter) (listener : String) : Reporter := { r with listeners := r.listeners.erase listener }

/-- The diagnostics of a severity. -/
def bySeverity (r : Reporter) (severity : Severity) : List Diagnostic := r.records.filter (·.severity == severity)

/-- The diagnostics with a code. -/
def byCode (r : Reporter) (code : String) : List Diagnostic := r.records.filter (·.code == code)

/-- Whether there is a diagnostic that counts as an error. -/
def hasErrors (r : Reporter) : Bool := r.records.any (·.isError)

/-- Forgets the diagnostics and the keys. -/
def clear (r : Reporter) : Reporter := { r with records := [], reportedOnce := [] }

theorem records_emit (r : Reporter) (d : Diagnostic) : (r.emit d).records = r.records ++ [d] := rfl

theorem records_emitAll (r : Reporter) (ds : List Diagnostic) : (r.emitAll ds).records = r.records ++ ds := by
  induction ds generalizing r with
  | nil => simp [emitAll]
  | cons d ds ih => simpa [emitAll, records_emit, List.append_assoc] using ih (r.emit d)

theorem records_note (r : Reporter) (severity : Severity) (component text : String) :
    (r.note severity component text).records = r.records := rfl

end Reporter
end SymbolDocs
