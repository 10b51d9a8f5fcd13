import SymbolDocs.Command.Execution

/-!
# The program

Reads the files that a command line may look at, executes the command line on them, prints what comes of it, and writes
the files that changed.
-/

namespace SymbolDocs.Command

open SymbolDocs.Text

/-- The text of a file, if it can be read. -/
def readFile? (path : String) : IO (Option String) := do
  try return some (← IO.FS.readFile path) catch _ => return none

/-- The files among some paths. -/
def loadFolder (paths : List String) : IO Folder := do
  let files ← paths.eraseDups.mapM fun path => do return (← readFile? path).map (path, ·)
  return { files := files.filterMap id }

/-- Writes a file. The folder that it is in is made if need be. -/
def writeFile (path text : String) : IO Unit := do
  IO.FS.createDirAll (parentFolder path)
  IO.FS.writeFile path text

end SymbolDocs.Command

/-- Executes a command line. -/
def main (words : List String) : IO UInt32 := do
  let before ← SymbolDocs.Command.loadFolder (SymbolDocs.Command.pathsOf words)
  let out := SymbolDocs.Command.execute before words
  for (path, text) in out.folder.changedFrom before do
    SymbolDocs.Command.writeFile path text
  (← IO.getStdout).putStr out.stdout
  (← IO.getStderr).putStr out.stderr
  return UInt32.ofNat out.exit
