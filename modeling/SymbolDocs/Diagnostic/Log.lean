import SymbolDocs.Diagnostic.Reporter

/-!
# The log

How the lines of the log are shown. The console hides every line below a threshold; a log file keeps all of them, each
with the component that it comes from.
-/

namespace SymbolDocs

namespace Severity

/-- What the log calls a severity. -/
def logWord : Severity → String
  | .fatal => "CRITICAL"
  | .error => "ERROR"
  | .warning => "WARNING"
  | .info => "INFO"
  | .debug => "DEBUG"

/-- How severe a severity is, as a number. -/
def rank : Severity → Nat
  | .fatal => 5
  | .error => 4
  | .warning => 3
  | .info => 2
  | .debug => 1

end Severity

/-- The least severity that the console shows. A wish for more lines overrides a wish for fewer. -/
def consoleThreshold (verbose quiet : Bool) : Severity :=
  if verbose then .debug else if quiet then .error else .warning

/-- The name under which a component writes to the log. Without a component it is the name of the whole log. -/
def logName (component : Option String) : String :=
  match component.filter (!·.isEmpty) with
  | some name => "doclets." ++ name
  | none => "doclets"

namespace LogLine

/-- Whether the console shows a line. -/
def reaches (l : LogLine) (threshold : Severity) : Bool := threshold.rank ≤ l.severity.rank

/-- A line as the console shows it. -/
def consoleText (l : LogLine) : String := "[doclets] " ++ l.severity.logWord ++ " " ++ l.text ++ "\n"

/-- A line as a log file keeps it, but for the time. -/
def fileText (l : LogLine) : String :=
  l.severity.logWord ++ " " ++ logName (some l.component) ++ ": " ++ l.text ++ "\n"

end LogLine

/-- What the console shows of a log. -/
def consoleLog (threshold : Severity) (lines : List LogLine) : String :=
  String.join ((lines.filter (·.reaches threshold)).map LogLine.consoleText)

/-- What a log file keeps of a log, but for the times. -/
def fileLog (lines : List LogLine) : String := String.join (lines.map LogLine.fileText)

end SymbolDocs
