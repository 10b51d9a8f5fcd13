import SymbolDocs.NamePath.Basic

/-!
# The tree of longnames

Longnames are arranged by their owners. The key of a node is its own name with the separator in front, so that the
keys on the way from the root to a node make up its longname.
-/

namespace SymbolDocs.NamePath

/-- A tree of longnames, with the children of a node in the order of their first appearance. -/
inductive Tree where
  | node (key longname : String) (children : List Tree)

/-- The key of the root of a tree. -/
def Tree.key : Tree → String
  | .node key _ _ => key

/-- The paths from the outermost owner of a path to the path itself, innermost first, each with its key. -/
def chainUp (cs : List Char) : List (List Char × List Char) :=
  if cs = [] then []
  else
    let parts := splitChars cs
    let key := (parts.scope.map Scope.punctuation).getD [] ++ parts.name
    match h : (splitChars cs).memberof with
    | none => [(key, cs)]
    | some owner =>
      have := splitChars_length_lt h
      (key, cs) :: chainUp owner
termination_by cs.length

/-- The paths from the outermost owner of a path to the path itself, each with its key. -/
def chain (longname : String) : List (String × String) :=
  (chainUp longname.toList).reverse.map fun (key, path) => (String.ofList key, String.ofList path)

/-- Puts a chain into the trees of one level, reusing the nodes that are there. -/
def Tree.insert : List (String × String) → List Tree → List Tree
  | [], level => level
  | (key, longname) :: rest, level =>
    if level.any (·.key == key) then
      level.map fun
        | .node k l children => if k == key then .node k l (Tree.insert rest children) else .node k l children
    else level ++ [.node key longname (Tree.insert rest [])]

/-- The tree of some longnames. -/
def Tree.ofLongnames (longnames : List String) : List Tree :=
  longnames.foldl (fun level longname => Tree.insert (chain longname) level) []

end SymbolDocs.NamePath
