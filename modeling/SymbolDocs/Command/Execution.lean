import SymbolDocs.Command.Folder
import SymbolDocs.Command.Invocation
import SymbolDocs.Diagnostic.Log
import SymbolDocs.Json.Printer
import SymbolDocs.Json.Reader
import SymbolDocs.Run.Pipeline
import SymbolDocs.Settings

/-!
# Executing commands

`Command.execute` takes a command line and a folder to what is printed and to the folder afterwards.
-/

namespace SymbolDocs.Command

open SymbolDocs.Text

/-- What came of a command. -/
structure Outcome where
  /-- Zero for success, one for errors in the work, two for a command line that is not understood. -/
  exit : Nat := 0
  stdout : String := ""
  stderr : String := ""
  folder : Folder

/-! ## Building doclets -/

/-- Why doclets are not built. -/
inductive BuildFault where
  | settings (fault : SettingsFault)
  | noEvents (path : String)
  | badEvents (path message : String)
  | grammar (fault : GrammarFault)
  | plugin (fault : PluginFault)
  | run (failure : Failure)
  deriving DecidableEq, Repr

/-- The report that the build failed, with the advice to look at the log. -/
def failedText (message : String) : String :=
  "doclets build failed: " ++ message ++ "\nRun with --verbose for more details."

/-- The wording of a fault. -/
def BuildFault.message : BuildFault → String
  | .settings fault => fault.message
  | .noEvents path => "Walker events file not found: " ++ path
  | .badEvents path message => "Invalid walker events in " ++ path ++ ": " ++ message
  | .grammar fault => failedText fault.message
  | .plugin fault => failedText fault.message
  | .run (.problem problem) => "doclets build failed: " ++ problem.message
  | .run failure => failedText failure.message

/-- The file of the settings that a path names. -/
def settingsPath (folder : Folder) (path : String) : String :=
  if folder.isFolder path then inFolder path Settings.fileName else path

/-- The settings that a path names; without a file the default ones. -/
def loadSettings (folder : Folder) (path : String) : Except SettingsFault Settings :=
  let path := settingsPath folder path
  match folder.read? path with
  | some text => Settings.ofText (String.ofList (baseName path)) text
  | none => .ok {}

/-- The settings with what the command line overrides. -/
def BuildOptions.override (o : BuildOptions) (s : Settings) : Settings :=
  { s with
    dictionaries := if o.dictionaries.isEmpty then s.dictionaries else o.dictionaries
    allowUnknown := if o.allowUnknownTags then .all true else s.allowUnknown }

/-- The source files that a file reports. -/
def loadEvents (folder : Folder) (path : String) : Except BuildFault (List SourceFile) := do
  let name := cleanPath path
  match folder.read? path with
  | none => throw (.noEvents name)
  | some text =>
    let data ← (Json.read text).mapError (.badEvents name)
    (SourceFile.listOfData data).mapError fun fault => .badEvents name fault.message

/-- The pipeline that settings describe. -/
def pipelineOf (s : Settings) : Except BuildFault Pipeline := do
  let dict ← (Grammar.buildAll s.dictionaries s.allowUnknown).mapError BuildFault.grammar
  let plugins ← (Plugin.discover s.plugins []).mapError BuildFault.plugin
  pure (plugins.foldl Pipeline.register { dict })

/-- What came of a build: the settings in use, and the doclets or the reason for there being none. -/
structure BuildResult where
  settings : Settings := {}
  reporter : Reporter := {}
  database : Except BuildFault Database

/-- Takes the reported source files to doclets. -/
def BuildOptions.run (o : BuildOptions) (folder : Folder) : BuildResult :=
  let prepared : Except BuildFault (Settings × List SourceFile × Pipeline) := do
    let settings ← (loadSettings folder o.config).mapError BuildFault.settings
    let settings := o.override settings
    let files ← loadEvents folder o.events
    let pipeline ← pipelineOf settings
    pure (settings, files, pipeline)
  match prepared with
  | .error fault => { database := .error fault }
  | .ok (settings, files, pipeline) =>
    match pipeline.run files with
    | .ok run => { settings, reporter := run.reporter, database := .ok run.database }
    | .error (run, failure) => { settings, reporter := run.reporter, database := .error (.run failure) }

/-- Puts the doclets where they belong. -/
def BuildOptions.deliver (o : BuildOptions) (db : Database) (out : Outcome) : Outcome :=
  let text := Json.print db.toData ++ "\n"
  match o.output with
  | some path =>
    { out with
      folder := out.folder.write path text
      stdout := out.stdout ++ "Wrote " ++ toString db.size ++ " doclet(s) to " ++ path ++ "\n" }
  | none => { out with stdout := out.stdout ++ text }

/-- Ends a command with a report of an error. -/
def Outcome.fail (out : Outcome) (message : String) : Outcome :=
  { out with exit := 1, stderr := out.stderr ++ message ++ "\n" }

/-- The folder with the log file in it, which is there even if it stays empty. -/
def LogOptions.prepare (o : LogOptions) (folder : Folder) : Folder :=
  match o.logFile with
  | some path => folder.append path ""
  | none => folder

/-- Writes the log to the console and to the log file. -/
def LogOptions.deliver (o : LogOptions) (lines : List LogLine) (out : Outcome) : Outcome :=
  { out with
    stderr := out.stderr ++ consoleLog (consoleThreshold o.verbose o.quiet) lines
    folder := match o.logFile with
      | some path => out.folder.append path (fileLog lines)
      | none => out.folder }

/-- Builds doclets. -/
def BuildOptions.execute (o : BuildOptions) (log : LogOptions) (folder : Folder) : Outcome :=
  let result := o.run folder
  let out := log.deliver result.reporter.log { folder }
  match result.database with
  | .error fault => out.fail fault.message
  | .ok db =>
    let out := o.deliver (if o.prune then db.pruned result.settings.prune else db) out
    if result.reporter.hasErrors then
      out.fail "doclets build reported errors. Run with --verbose for details."
    else out

/-! ## Listing tags -/

/-- The line for a tag: its title and the synonyms that its definition gives it. -/
def tagLine (dict : Dictionary) (title : String) : String :=
  let synonyms := ((dict.lookup title).map Definition.sortedSynonyms).getD []
  "@" ++ title ++ (if synonyms.isEmpty then "" else " (" ++ ", ".intercalate synonyms ++ ")") ++ "\n"

/-- The lines for the tags of a dictionary, in order. -/
def tagLines (dict : Dictionary) : String := String.join (dict.titles.map (tagLine dict))

/-- Lists the tags of grammars, or of the default ones. -/
def listTags (names : List String) (out : Outcome) : Outcome :=
  match Grammar.buildAll (if names.isEmpty then Grammar.defaults else names) with
  | .ok dict => { out with stdout := out.stdout ++ tagLines dict }
  | .error fault => out.fail fault.message

/-! ## Command lines -/

/-- How the program is called. -/
def usage : String :=
  "usage: doclets [-h] [-v] [-q] [--log-file FILE] \x7bbuild,tags\x7d ...\n\n" ++
  "build  Run the doclet pipeline over a JSON file of walker events.\n" ++
  "tags   List the tags recognized by the selected dictionaries.\n"

/-- Does what a request asks for. -/
def Request.execute (folder : Folder) : Request → Outcome
  | .help => { stdout := usage, folder }
  | .act log (.build options) => options.execute log (log.prepare folder)
  | .act log (.tags names) => listTags names { folder := log.prepare folder }

/-- The files that a request may look at. -/
def Request.paths : Request → List String
  | .help => []
  | .act log (.build options) =>
    [options.config, inFolder options.config Settings.fileName, options.events] ++ options.output.toList ++
      log.logFile.toList
  | .act log (.tags _) => log.logFile.toList

/-- The files that a command line may look at. -/
def pathsOf (words : List String) : List String :=
  match Request.ofWords words with
  | .ok request => request.paths
  | .error _ => []

/-- Does what a command line asks for. -/
def execute (folder : Folder) (words : List String) : Outcome :=
  match Request.ofWords words with
  | .ok request => request.execute folder
  | .error fault => { exit := 2, stderr := usage ++ "doclets: error: " ++ fault.message ++ "\n", folder }

end SymbolDocs.Command
