import SymbolDocs.Text.Affix

/-!
# Switches

The switches of a command line. A long name may be cut short as long as only one switch begins so, a value may stand
behind an equals sign, and letters may be written together behind one dash.
-/

namespace SymbolDocs.Command

open SymbolDocs.Text

/-- A switch. -/
inductive Switch where
  | help | verbose | quiet | logFile | dictionary | config | allowUnknownTags | prune | output
  deriving DecidableEq, Repr

/-- Whether a switch has a value. -/
def Switch.takesValue : Switch → Bool
  | .logFile | .dictionary | .config | .output => true
  | _ => false

/-- The names of switches. -/
abbrev SwitchTable := List (String × Switch)

/-- The names of the switches that stand before the command. -/
def mainSwitches : SwitchTable :=
  [("-h", .help), ("--help", .help), ("-v", .verbose), ("--verbose", .verbose), ("-q", .quiet), ("--quiet", .quiet),
    ("--log-file", .logFile)]

/-- The names of the switches of the command that lists tags. -/
def tagsSwitches : SwitchTable :=
  [("-h", .help), ("--help", .help), ("-v", .verbose), ("--verbose", .verbose), ("--dictionary", .dictionary)]

/-- The names of the switches of the command that builds doclets. -/
def buildSwitches : SwitchTable :=
  tagsSwitches ++
    [("--config", .config), ("--allow-unknown-tags", .allowUnknownTags), ("--prune", .prune), ("--output", .output),
      ("-o", .output)]

/-- Why a command line is not understood. -/
inductive UsageFault where
  | ambiguous (word : String)
  | unknown (words : List String)
  | noValue (name : String)
  | unusedValue (value : String)
  | badChoice (value : String)
  | noCommand
  | noEvents
  deriving DecidableEq, Repr

/-- The wording of a fault. -/
def UsageFault.message : UsageFault → String
  | .ambiguous word => "ambiguous option: " ++ word
  | .unknown words => "unrecognized arguments: " ++ " ".intercalate words
  | .noValue name => "argument " ++ name ++ ": expected one argument"
  | .unusedValue value => "ignored explicit argument: " ++ value
  | .badChoice value => "invalid choice: " ++ value
  | .noCommand => "the following arguments are required: command"
  | .noEvents => "the following arguments are required: events"

/-! ## Single words -/

/-- What a word of a command line is. -/
inductive Word where
  | plain
  /-- A switch by the name in use, perhaps with the text that is attached to it, equals sign included. -/
  | named (name : String) (switch : Switch) (attached : Option String)
  | unknown
  | ambiguous
  deriving DecidableEq, Repr

/-- A word cut before its first equals sign. -/
def cutEquals (word : String) : String × Option String :=
  let front := word.toList.takeWhile (· ≠ '=')
  match word.toList.drop front.length with
  | [] => (word, none)
  | rest => (String.ofList front, some (String.ofList rest))

/-- The switches that a word may stand for by being cut short, or by having a text attached to a letter. -/
def candidates (table : SwitchTable) (word : String) : List (String × Switch × Option String) :=
  if startsWith word "--" then
    let (front, rest) := cutEquals word
    (table.filter fun (name, _) => startsWith name front).map fun (name, s) => (name, s, rest)
  else
    (table.filter fun (name, _) => name = String.ofList (word.toList.take 2)).map fun (name, s) =>
      (name, s, some (dropChars word 2))

/-- Whether a word behind a dash is a number, perhaps with a point. -/
def isNumber (cs : List Char) : Bool :=
  let whole := cs.takeWhile Char.isDigit
  match cs.drop whole.length with
  | [] => !whole.isEmpty
  | '.' :: fraction => !fraction.isEmpty && fraction.all Char.isDigit
  | _ => false

/-- What a word is. Numbers and words with spaces are no switches. -/
def classify (table : SwitchTable) (word : String) : Word :=
  match word.toList with
  | '-' :: c :: cs =>
    match table.lookup word with
    | some s => .named word s none
    | none =>
      let (front, rest) := cutEquals word
      match rest.bind fun text => (table.lookup front).map fun s => Word.named front s (some text) with
      | some found => found
      | none =>
        match candidates table word with
        | [(name, s, attached)] => .named name s attached
        | _ :: _ => .ambiguous
        | [] => if isNumber (c :: cs) || word.toList.contains ' ' then .plain else .unknown
  | _ => .plain

/-! ## Several words -/

/-- A switch as it is given, with its value if it takes one. -/
structure Given where
  switch : Switch
  value : String := ""
  deriving DecidableEq, Repr

/-- The value that an attached text gives. An equals sign in front does not count. -/
def attachedValue : List Char → String
  | '=' :: value => String.ofList value
  | value => String.ofList value

/-- The switches behind one dash: letters of switches without value, up to one that takes the rest as its value. Also
says which switch still waits for a value. -/
def spread (table : SwitchTable) (name : String) (s : Switch) (attached : Option (List Char)) :
    Except UsageFault (List Given × Option (String × Switch)) :=
  match attached with
  | none => .ok (if s.takesValue then ([], some (name, s)) else ([⟨s, ""⟩], none))
  | some [] => .error (.unusedValue "")
  | some (c :: cs) =>
    if s.takesValue then .ok ([⟨s, attachedValue (c :: cs)⟩], none)
    else
      let letter := String.ofList ['-', c]
      match if startsWith name "--" then none else table.lookup letter with
      | none => .error (.unusedValue (attachedValue (c :: cs)))
      | some next => do
        let (given, waiting) ← spread table letter next (if cs.isEmpty then none else some cs)
        pure (⟨s, ""⟩ :: given, waiting)
termination_by (attached.getD []).length
decreasing_by split <;> simp_all

/-- What a command line says: its switches, its plain words, and whether two dashes part them from each other. -/
structure Line where
  given : List Given := []
  words : List String := []
  parted : Bool := false
  deriving DecidableEq, Repr

/-- The line with switches added in front. -/
def Line.give (l : Line) (given : List Given) : Line := { l with given := given ++ l.given }

/-- The line with a plain word added in front. -/
def Line.say (l : Line) (word : String) : Line := { l with words := word :: l.words }

/-- Where the reading of a line is: before the first plain word, right behind a plain word, or later. -/
inductive Place where
  | before | behindWord | later
  deriving DecidableEq, Repr

/-- The place behind a switch. -/
def Place.passSwitch : Place → Place
  | .before => .before
  | _ => .later

/-- Reads a line, or only as far as its first plain word. Behind two dashes all words are plain; the dashes have to
stand next to the first plain word. -/
def readLine (table : SwitchTable) (onlyFirst : Bool) (place : Place) : List String → Except UsageFault Line
  | [] => .ok {}
  | word :: rest =>
    if word = "--" then
      if place = .later then .error (.unknown (word :: rest)) else .ok { words := rest, parted := true }
    else match classify table word with
      | .plain =>
        if onlyFirst then .ok { words := word :: rest }
        else (readLine table onlyFirst .behindWord rest).map (·.say word)
      | .ambiguous => .error (.ambiguous word)
      | .unknown => .error (.unknown [word])
      | .named name s attached => do
        match ← spread table name s (attached.map String.toList), rest with
        | (given, none), rest => (readLine table onlyFirst place.passSwitch rest).map (·.give given)
        | (_, some (name, _)), [] => .error (.noValue name)
        | (given, some (name, s)), value :: rest =>
          if value ≠ "--" && classify table value = .plain then
            (readLine table onlyFirst place.passSwitch rest).map (·.give (given ++ [⟨s, value⟩]))
          else .error (.noValue name)

end SymbolDocs.Command
