import SymbolDocs.Text.Line

/-!
# File names

Paths have components between slashes. `cleanPath` leaves out what does not count in a path; `resolvePath` also takes
the steps to parent folders, so that two paths to one file become the same.
-/

namespace SymbolDocs.Text

/-- The components of a path. Empty ones and single dots do not count. -/
def components (path : String) : List (List Char) := (pieces (· = '/') path.toList).filter (· ≠ ['.'])

/-- The last component of a path. -/
def baseName (path : String) : List Char := (components path).getLast?.getD []

/-- The last component of a path without its extension. A dot at its start or end makes no extension. -/
def stem (path : String) : String :=
  let name := baseName path
  let reversed := name.reverse
  let extension := reversed.takeWhile (· ≠ '.')
  match reversed.dropWhile (· ≠ '.') with
  | _ :: front => String.ofList (if front.isEmpty || extension.isEmpty then name else front.reverse)
  | [] => String.ofList name

/-- The slashes that a path from the root starts with: one, or exactly two. -/
def rootSlashes (path : List Char) : List Char :=
  match path.takeWhile (· = '/') with
  | [] => []
  | ['/', '/'] => ['/', '/']
  | _ => ['/']

/-- A path without the components that do not count. A path without components is a dot. -/
def cleanPath (path : String) : String :=
  let front := String.ofList (rootSlashes path.toList)
  let clean := front ++ "/".intercalate ((components path).map String.ofList)
  if clean.isEmpty then "." else clean

/-- Takes a component of a path; two dots take away the last component that is not itself two dots. -/
def descend (taken : List (List Char)) (component : List Char) : List (List Char) :=
  match taken.getLast? with
  | some last => if component = ['.', '.'] && last ≠ ['.', '.'] then taken.dropLast else taken ++ [component]
  | none => [component]

/-- A path with the steps to parent folders taken as far as they can be. The path of the folder itself is empty. -/
def resolvePath (path : String) : String :=
  String.ofList (rootSlashes path.toList) ++ "/".intercalate (((components path).foldl descend []).map String.ofList)

/-- The path of the folder that a path is in. -/
def parentFolder (path : String) : String :=
  cleanPath (String.ofList (rootSlashes path.toList) ++ "/".intercalate ((components path).dropLast.map String.ofList))

/-- The path of a file in a folder. -/
def inFolder (folder file : String) : String := cleanPath (folder ++ "/" ++ file)

end SymbolDocs.Text
