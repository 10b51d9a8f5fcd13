import SymbolDocs.Run.Callback

/-!
# Plugins

A plugin is a named bundle of callbacks. Plugins are chosen by name, in any case of letters: the built-in ones come
first, then those that installed packages offer.
-/

namespace SymbolDocs

open SymbolDocs.Text

/-- A bundle of callbacks. The log names a plugin without name by its type. -/
structure Plugin where
  name : String
  typeName : String
  callbacks : List Callback

namespace Plugin

/-- What the log calls a plugin. -/
def shownName (p : Plugin) : String := if p.name.isEmpty then p.typeName else p.name

/-- The stages that a plugin has callbacks for, in the order of the stages. -/
def stages (p : Plugin) : List Stage := Stage.all.filter fun stage => p.callbacks.any (·.stage = stage)

end Plugin

/-! ## Template tags -/

/-- The text behind the last `%>`, if there is one. -/
def afterLastClose : List Char → Option (List Char)
  | [] => none
  | c :: cs =>
    match afterLastClose cs with
    | some rest => some rest
    | none => if ['%', '>'].isPrefixOf (c :: cs) then some (cs.drop 1) else none

/-- The line without what stands between its first `<%` and the last `%>` behind it. -/
def stripTemplateLine : List Char → List Char
  | [] => []
  | '<' :: '%' :: cs =>
    match afterLastClose cs with
    | some rest => rest
    | none => '<' :: '%' :: cs
  | c :: cs => c :: stripTemplateLine cs

/-- The text without template tags. -/
def withoutTemplates (text : String) : String :=
  String.ofList (joinNewline ((splitNewline text.toList).map stripTemplateLine))

/-- Whether a file is a template. -/
def isTemplateFile (filename : Option String) : Bool := (filename.map (endsWith · ".erb")).getD false

/-- The comment of an event in a file, without template tags if the file is a template. -/
def stripTemplateComment (filename : Option String) (comment : Option String) : Option String :=
  if isTemplateFile filename then comment.map withoutTemplates else comment

/-- Removes template tags from the comments of templates. -/
def railsTemplate : Plugin :=
  { name := "rails_template"
    typeName := "RailsTemplatePlugin"
    callbacks := [.onComment .commentFound fun run comment => stripTemplateComment run.filename comment] }

/-! ## Discovery -/

/-- What an entry point gives when it is loaded. -/
inductive Provision where
  | plugin (plugin : Plugin)
  | notAPlugin
  | broken (reason : String)

/-- An offer of an installed package. -/
structure EntryPoint where
  name : String
  group : String := "doclets.plugins"
  loads : Provision

/-- Why plugins are not available. -/
inductive PluginFault where
  | unknown (names : List String)
  | broken (name reason : String)
  | notAPlugin
  deriving DecidableEq, Repr

/-- The wording of a fault. -/
def PluginFault.message : PluginFault → String
  | .unknown names => "Unknown plugins requested: " ++ ", ".intercalate names
  | .broken name reason => "Failed to load plugin entry point '" ++ name ++ "': " ++ reason
  | .notAPlugin => "Plugin entry point must be a Plugin subclass or factory"

namespace Plugin

/-- The built-in plugins by name. -/
def builtin : List (String × Plugin) := [("rails_template", railsTemplate)]

/-- The group of entry points that offer plugins. -/
def groupOfPlugins : String := "doclets.plugins"

/-- Plugins found so far, and the names that are still looked for. -/
structure Search where
  found : List Plugin := []
  wanted : List String

/-- Takes a plugin if its name is looked for. -/
def Search.offer (s : Search) (name : String) (plugin : Plugin) : Search :=
  let name := lower name
  if s.wanted.contains name then { found := s.found ++ [plugin], wanted := s.wanted.filter (· ≠ name) } else s

/-- Loads an entry point if its name is looked for. -/
def Search.load (s : Search) (entry : EntryPoint) : Except PluginFault Search :=
  if s.wanted.contains (lower entry.name) then
    match entry.loads with
    | .plugin plugin => .ok (s.offer entry.name plugin)
    | .notAPlugin => .error .notAPlugin
    | .broken reason => .error (.broken entry.name reason)
  else .ok s

/-- The plugins with the given names. -/
def discover (enabled : List String) (entries : List EntryPoint) : Except PluginFault (List Plugin) := do
  let search : Search := { wanted := (enabled.map lower).eraseDups }
  let search := builtin.foldl (fun s (name, plugin) => s.offer name plugin) search
  let search ← (entries.filter (·.group = groupOfPlugins)).foldlM Search.load search
  match search.wanted with
  | [] => pure search.found
  | missing => throw (.unknown (sortTexts missing))

end Plugin
end SymbolDocs
