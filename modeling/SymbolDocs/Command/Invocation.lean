import SymbolDocs.Command.Switch
import SymbolDocs.Grammar.Dictionary

/-!
# Invocations

`Request.ofWords` reads a command line: the switches of the log, a command, and the switches of the command.
-/

namespace SymbolDocs.Command

/-- Where the log goes. -/
structure LogOptions where
  verbose : Bool := false
  quiet : Bool := false
  logFile : Option String := none
  deriving DecidableEq, Repr

/-- What to build and where to put it. -/
structure BuildOptions where
  /-- The file that reports the source files. -/
  events : String
  /-- The file of the settings, or its folder. -/
  config : String := "."
  /-- The grammars in use; without any those of the settings. -/
  dictionaries : List String := []
  allowUnknownTags : Bool := false
  prune : Bool := false
  /-- The file for the doclets, which are printed if there is none. -/
  output : Option String := none
  deriving DecidableEq, Repr

/-- What is to be done. -/
inductive Action where
  | build (options : BuildOptions)
  /-- Lists the tags of some grammars, or of the default ones. -/
  | tags (dictionaries : List String)
  deriving DecidableEq, Repr

/-- What a command line asks for. -/
inductive Request where
  | help
  | act (log : LogOptions) (action : Action)
  deriving DecidableEq, Repr

/-- Whether a switch is given. -/
def gives (given : List Given) (s : Switch) : Bool := given.any (·.switch = s)

/-- The values that a switch is given. -/
def valuesOf (given : List Given) (s : Switch) : List String := (given.filter (·.switch = s)).map (·.value)

/-- The grammars that a line selects. -/
def readDictionaries (given : List Given) : Except UsageFault (List String) :=
  let names := valuesOf given .dictionary
  match names.find? (!Grammar.defaults.contains ·) with
  | some name => .error (.badChoice name)
  | none => .ok names

/-- The command that a line states. -/
def readAction (given : List Given) : String → Line → Except UsageFault Action
  | "build", { words := [events], .. } => do
    pure (.build {
      events
      config := (valuesOf given .config).getLast?.getD "."
      dictionaries := ← readDictionaries given
      allowUnknownTags := gives given .allowUnknownTags
      prune := gives given .prune
      output := (valuesOf given .output).getLast?.filter (!·.isEmpty) })
  | "build", { words := [], .. } => .error .noEvents
  | "tags", { words := [], parted := false, .. } => do pure (.tags (← readDictionaries given))
  | _, line => .error (.unknown line.words)

/-- The commands with their switches. -/
def commands : List (String × SwitchTable) := [("build", buildSwitches), ("tags", tagsSwitches)]

/-- What a command line asks for. -/
def Request.ofWords (words : List String) : Except UsageFault Request := do
  let front ← readLine mainSwitches true .later words
  if gives front.given .help then pure .help
  else match front.words with
    | [] => throw .noCommand
    | name :: rest =>
      match commands.lookup name with
      | none => throw (.badChoice name)
      | some table =>
        let line ← readLine table false .before rest
        if gives line.given .help then pure .help
        else
          let action ← readAction line.given name line
          pure (.act {
            verbose := gives (front.given ++ line.given) .verbose
            quiet := gives front.given .quiet
            logFile := (valuesOf front.given .logFile).getLast? } action)

end SymbolDocs.Command
