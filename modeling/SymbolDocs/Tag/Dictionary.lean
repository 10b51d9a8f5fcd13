import SymbolDocs.Tag.Definition
import SymbolDocs.Text.Case
import SymbolDocs.Text.Quoted

/-!
# Tag dictionaries

A dictionary finds the definition of a tag by its title or by a synonym. The case of the first letter of a title does
not matter, so both are kept under a `key` with a small first letter.
-/

namespace SymbolDocs

open SymbolDocs.Text

/-- Which unknown tags a comment may use. -/
inductive AllowUnknown where
  | all (allowed : Bool)
  | only (titles : List String)
  deriving DecidableEq, Repr

/-- The fault of a synonym that stands for a key without definition. -/
structure DanglingSynonym where
  target : String
  deriving DecidableEq, Repr

/-- The tags that comments may use. -/
structure Dictionary (R : Type := Handler) where
  name : String := "custom"
  allowUnknown : AllowUnknown := .all false
  /-- The definitions by key, in the order in which their keys were first defined. -/
  definitions : List (String × Definition R) := []
  /-- The synonyms by key, each with the key of its definition. -/
  synonyms : List (String × String) := []

namespace Dictionary

variable {R : Type}

/-- The title with a small first letter. -/
def key (title : String) : String :=
  match title.toList with
  | [] => ""
  | c :: cs => lower (String.singleton c) ++ String.ofList cs

/-- Puts a value under a key: in place of an earlier one, or at the end. -/
def put (k : String) (v : α) : List (String × α) → List (String × α)
  | [] => [(k, v)]
  | (k', v') :: rest => if k' = k then (k, v) :: rest else (k', v') :: put k v rest

/-- Adds a definition. It takes the place of an earlier one with the same title, whose synonyms go. -/
def define (dict : Dictionary R) (d : Definition R) : Dictionary R :=
  let k := key d.name
  let stale := match dict.definitions.lookup k with
    | some previous => previous.synonyms.map key
    | none => []
  { dict with
    definitions := put k d dict.definitions
    synonyms := (d.synonyms.map key).foldl (fun table s => put s k table)
      (dict.synonyms.filter fun (s, _) => !stale.contains s) }

/-- Adds several definitions. -/
def defineAll (dict : Dictionary R) (ds : List (Definition R)) : Dictionary R := ds.foldl define dict

/-- The definition of a title, by name or by synonym. -/
def lookup (dict : Dictionary R) (title : String) : Option (Definition R) :=
  match dict.definitions.lookup (key title) with
  | some d => some d
  | none => (dict.synonyms.lookup (key title)).bind (List.lookup · dict.definitions)

/-- The name that the tables give a title: that of the definition under its key, or else of the one that its synonym
stands for. A title in neither table is its own name. -/
def canonical (dict : Dictionary R) (title : String) : Except DanglingSynonym String :=
  match dict.definitions.lookup (key title) with
  | some d => .ok d.name
  | none =>
    match dict.synonyms.lookup (key title) with
    | none => .ok title
    | some target =>
      match dict.definitions.lookup target with
      | some d => .ok d.name
      | none => .error { target }

/-- The name of a title, or the title itself if the tables give it none. -/
def normalise (dict : Dictionary R) (title : String) : String :=
  match dict.canonical title with
  | .ok name => name
  | .error _ => title

/-- Whether a title has a definition. -/
def contains (dict : Dictionary R) (title : String) : Bool := (dict.lookup title).isSome

/-- How many definitions there are. -/
def size (dict : Dictionary R) : Nat := dict.definitions.length

/-- All definitions. -/
def toList (dict : Dictionary R) : List (Definition R) := dict.definitions.map (·.2)

/-- The names of all definitions, in order. -/
def titles (dict : Dictionary R) : List String := sortTexts (dict.toList.map (·.name))

/-- Whether a comment may use a tag without definition. -/
def allows (dict : Dictionary R) (title : String) : Bool :=
  match dict.allowUnknown with
  | .all allowed => allowed
  | .only titles => titles.contains title

/-- The definition of a kind of symbol. A missing or empty kind has none. -/
def kindDefinition (dict : Dictionary R) (kind : Option String) : Option (Definition R) :=
  (kind.filter (!·.isEmpty)).bind dict.lookup

/-- Whether symbols of a kind hold their members as a namespace does. -/
def opensNamespace (dict : Dictionary R) (kind : Option String) : Bool :=
  ((dict.kindDefinition kind).map (·.isNamespace)).getD false

/-- Whether the longnames of symbols of a kind start with the kind. -/
def marksLongname (dict : Dictionary R) (kind : Option String) : Bool :=
  ((dict.kindDefinition kind).map (·.prefixesLongname)).getD false

/-- The names of the kinds that hold their members as a namespace does, in order. -/
def namespaceKinds (dict : Dictionary R) : List String :=
  sortTexts ((dict.toList.filter (·.isNamespace)).map (·.name))

/-- The names of the kinds that longnames start with, in order. -/
def prefixedKinds (dict : Dictionary R) : List String :=
  sortTexts ((dict.toList.filter (·.prefixesLongname)).map (·.name))

/-- The same dictionary, perhaps under another name. -/
def rename (dict : Dictionary R) (name : Option String) : Dictionary R :=
  { dict with name := (name.filter (!·.isEmpty)).getD dict.name }

/-- The dictionary with the definitions of others added, in order. -/
def merge (dict : Dictionary R) (others : List (Dictionary R)) : Dictionary R :=
  let name := "+".intercalate (dict.name :: others.map (·.name))
  others.foldl (fun acc other => acc.defineAll other.toList) (dict.rename (some name))

/-- A short description. -/
def summary (dict : Dictionary R) : String :=
  "TagDictionary(name=" ++ quoted dict.name ++ ", tags=" ++ toString dict.size ++ ")"

end Dictionary
end SymbolDocs
