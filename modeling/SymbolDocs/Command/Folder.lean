import SymbolDocs.Text.Affix
import SymbolDocs.Text.FileName
import SymbolDocs.Text.Line

/-!
# Folders

The files that a command works on, by their paths. Two paths name the same file if they resolve to the same path.
-/

namespace SymbolDocs.Command

open SymbolDocs.Text

/-- A folder: its files, each with its path and its text. -/
structure Folder where
  files : List (String × String) := []
  deriving DecidableEq, Repr

namespace Folder

/-- The text of a file, as it was written. -/
def content? (f : Folder) (path : String) : Option String :=
  (f.files.find? fun (p, _) => resolvePath p = resolvePath path).map (·.2)

/-- The text of a file, with a newline at the end of every line. -/
def read? (f : Folder) (path : String) : Option String :=
  (f.content? path).map fun text => String.ofList (unifyNewlines text.toList)

/-- Whether a path names a folder that has files in it, or the whole folder. -/
def isFolder (f : Folder) (path : String) : Bool :=
  let front := resolvePath path
  front.isEmpty || f.files.any fun (p, _) => startsWith (resolvePath p) (front ++ "/")

/-- Puts a text in place of what a file holds. -/
def write (f : Folder) (path text : String) : Folder :=
  if (f.content? path).isSome then
    { files := f.files.map fun (p, old) => (p, if resolvePath p = resolvePath path then text else old) }
  else { files := f.files ++ [(resolvePath path, text)] }

/-- Adds a text at the end of a file, which is there afterwards even if the text is empty. -/
def append (f : Folder) (path text : String) : Folder := f.write path ((f.content? path).getD "" ++ text)

/-- The files that are not in another folder with the same text. -/
def changedFrom (f old : Folder) : List (String × String) := f.files.filter fun (p, text) => old.content? p ≠ some text

end Folder
end SymbolDocs.Command
