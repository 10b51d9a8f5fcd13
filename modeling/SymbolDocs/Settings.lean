import SymbolDocs.Database.Pruning
import SymbolDocs.Grammar.Dictionary
import SymbolDocs.Data.Shown
import SymbolDocs.Text.FileName
import SymbolDocs.Yaml.Block

/-!
# Settings

The settings of a project are in a file of YAML. What the file does not say, and what it says in a form that is not
known, has its default.
-/

namespace SymbolDocs

open SymbolDocs.Text

/-- How symbols are documented in a project. -/
structure Settings where
  allowUnknown : AllowUnknown := .all false
  /-- The grammars in use. -/
  dictionaries : List String := Grammar.defaults
  prune : PruneOptions := {}
  plugins : List String := []
  deriving DecidableEq, Repr

/-- Why a file gives no settings. -/
inductive SettingsFault where
  | unreadable (file : String)
  | noMapping (file : String)
  | allowUnknown
  deriving DecidableEq, Repr

/-- The wording of a fault. -/
def SettingsFault.message : SettingsFault → String
  | .unreadable file => "Failed to parse " ++ file
  | .noMapping file => file ++ " must contain a mapping at the root"
  | .allowUnknown => "tags.allow_unknown_tags must be a boolean or a list of tag names"

namespace Settings

/-- The name of the file in a folder. -/
def fileName : String := ".doclets.yml"

/-! ## Parts of the file -/

/-- The text that a list item stands for; null, lists and mappings stand for none. -/
def itemText? : Data → Option String
  | .null | .list _ | .mapping _ => none
  | d => some d.plain

/-- A list of texts. One text is a list of its own, and what is no list is empty. -/
def texts : Data → List String
  | .text s => [s]
  | .list items => items.filterMap itemText?
  | _ => []

/-- A yes or no, also as a word in any case. Everything else is no. -/
def isYes : Data → Bool
  | .flag b => b
  | .text s => ["true", "yes", "1"].contains (lower (strip s))
  | _ => false

/-- The unknown tags that comments may use. -/
def readAllowUnknown : Data → Except SettingsFault AllowUnknown
  | .null => .ok (.all false)
  | .flag b => .ok (.all b)
  | .text s => .ok (.only [s])
  | .list items => .ok (.only (texts (.list items)))
  | _ => .error .allowUnknown

/-- The access levels of the doclets that are published. -/
def readAccess : Data → Option (List String)
  | .null => none
  | d => some (texts d)

/-- The entry for unknown tags, which has two spellings; the first one counts even if it is null. -/
def allowUnknownEntry (tags : Data) : Data :=
  match tags.get? "allow_unknown_tags" with
  | some d => d
  | none => tags.get "allowUnknownTags"

/-- The grammars in use, which are the default ones if none are named. -/
def readDictionaries (d : Data) : List String :=
  match texts d with
  | [] => Grammar.defaults
  | names => names

/-! ## The file -/

/-- The settings that the data of a file gives. A value that says no stands for an empty file. -/
def ofData (file : String) (d : Data) : Except SettingsFault Settings := do
  match d with
  | .mapping entries =>
    let root := Data.mapping entries
    let tags := root.get "tags"
    let prune := root.get "prune"
    pure {
      allowUnknown := ← readAllowUnknown (allowUnknownEntry tags)
      dictionaries := readDictionaries (tags.get "dictionaries")
      prune := {
        access := readAccess (prune.get "access")
        showPrivate := isYes (prune.get "private")
        includeUndocumented := isYes (prune.get "include_undocumented") }
      plugins := texts (root.get "plugins") }
  | d => if d.truthy then throw (.noMapping file) else pure {}

/-- The settings that the text of a file gives. -/
def ofText (file text : String) : Except SettingsFault Settings :=
  if allBlank text then .ok {}
  else match Yaml.read? text with
    | some d => ofData file d
    | none => .error (.unreadable file)

end Settings
end SymbolDocs
