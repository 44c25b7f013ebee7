import RenderVerdict.Command.Run

/-! The program: what the arguments name is taken from the file system, and what a run prints and
writes is carried out. Files are taken as bytes; a caller that can decode pictures runs
`runProgram` on a tree of its own. -/
namespace RenderVerdict.FileTree

def pathText (location : List String) : String := "/" ++ "/".intercalate location

def takeLocation (tree : FileTree) (location : List String) : IO FileTree := do
  if ← (System.mkFilePath [pathText location]).isDir then return tree.put location .directory
  match ← (IO.FS.readBinFile (pathText location)).toBaseIO with
  | .ok data => return tree.put location (.file (.bytes data.data))
  | .error _ => return tree

def takePath (tree : FileTree) (path : String) : IO FileTree := do
  let .ok start := tree.start path | return tree
  let along := locationsAlong start (Path.components path)
  let tree ← along.foldlM takeLocation tree
  let location := along.getLastD start
  let directory := System.mkFilePath [pathText location]
  if ← directory.isDir then
    let inside := (← directory.readDir).toList.map fun entry => location ++ [entry.fileName]
    inside.foldlM takeLocation tree
  else return tree

def storeEntry : List String × FileEntry → IO Unit
  | (location, .directory) => IO.FS.createDirAll (pathText location)
  | (location, .file (.bytes data)) => IO.FS.writeBinFile (pathText location) ⟨data⟩
  | (_, .file _) => pure ()

end RenderVerdict.FileTree

open RenderVerdict

def main (arguments : List String) : IO UInt32 := do
  let here := Path.components (← IO.currentDir).toString
  let files ← arguments.foldlM FileTree.takePath (FileTree.empty here)
  let result := runProgram files arguments
  IO.print result.stdout
  IO.eprint result.stderr
  (result.files.changesFrom files).forM FileTree.storeEntry
  return result.code.toUInt32
