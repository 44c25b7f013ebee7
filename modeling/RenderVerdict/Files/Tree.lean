import RenderVerdict.Files.Path
import RenderVerdict.Image.Picture

/-! File trees: what files and directories hold, seen from a working directory. -/
namespace RenderVerdict

inductive FileContent where
  | bytes (data : Array UInt8)
  | png (picture : Picture)
deriving DecidableEq

inductive FileEntry where
  | directory
  | file (content : FileContent)
deriving DecidableEq

/-- Entries with their locations, each a list of names from the root on. -/
structure FileTree where
  /-- The location of the working directory. -/
  here : List String
  entries : List (List String × FileEntry)

namespace FileTree

def entry? (tree : FileTree) (location : List String) : Option FileEntry :=
  if location.isEmpty then some .directory else tree.entries.lookup location

def put (tree : FileTree) (location : List String) (entry : FileEntry) : FileTree :=
  { tree with entries := (location, entry) :: tree.entries.filter (·.1 ≠ location) }

def changesFrom (tree earlier : FileTree) : List (List String × FileEntry) :=
  (tree.entries.filter fun entry => earlier.entry? entry.1 ≠ some entry.2).reverse

def start (tree : FileTree) (path : String) : Except FileFault (List String) :=
  if path = "" then .error .notFound
  else if path.toList.contains '\x00' then .error .nulInName
  else if Path.maxLength < path.utf8ByteSize then .error .nameTooLong
  else .ok (if path.startsWith "/" then [] else tree.here)

/-- The location at which a walk ends. Every step but the last is to lead through a directory. -/
def walk (tree : FileTree) (location : List String) :
    List String → Except FileFault (List String)
  | [] => if (tree.entry? location).isSome then .ok location else .error .notFound
  | step :: rest =>
    match tree.entry? location with
    | none => .error .notFound
    | some (.file _) => .error .notDirectory
    | some .directory =>
      if step = "" ∨ step = "." then tree.walk location rest
      else if step = ".." then tree.walk location.dropLast rest
      else if Path.maxName < step.utf8ByteSize then .error .nameTooLong
      else tree.walk (location ++ [step]) rest

def locationsAlong (location : List String) : List String → List (List String)
  | [] => []
  | step :: rest =>
    let location := if step = ".." then location.dropLast else location ++ [step]
    location :: locationsAlong location rest

def find (tree : FileTree) (path : String) : Except FileFault FileEntry := do
  let location ← tree.walk (← tree.start path) (Path.steps path)
  match tree.entry? location with
  | some entry => .ok entry
  | none => .error .notFound

def isDirectory (tree : FileTree) (path : String) : Bool :=
  match tree.find path with
  | .ok .directory => true
  | _ => false

/-- The text of a file. The first byte of a PNG file is in no text. -/
def readText (tree : FileTree) (path : String) : Except FileFault String := do
  match ← tree.find path with
  | .directory => .error .isDirectory
  | .file (.bytes data) =>
    match String.fromUTF8? ⟨data⟩ with
    | some text => .ok text
    | none => .error .invalidUtf8
  | .file (.png _) => .error .invalidUtf8

/-- The tree with a file written at a path, in place of any file that was there. A path that ends
with a slash or leads to a directory names no file. -/
def write (tree : FileTree) (path : String) (content : FileContent) :
    Except FileFault FileTree := do
  let names := ((Path.steps path).reverse.dropWhile (· = "")).reverse
  let directory ← tree.walk (← tree.start path) names.dropLast
  match tree.entry? directory, names.getLast? with
  | some .directory, some name =>
    if (Path.steps path).getLast? = some "" ∨ name = "." ∨ name = ".." then .error .isDirectory
    else if Path.maxName < name.utf8ByteSize then .error .nameTooLong
    else
      match tree.entry? (directory ++ [name]) with
      | some .directory => .error .isDirectory
      | _ => .ok (tree.put (directory ++ [name]) (.file content))
  | some .directory, none => .error .isDirectory
  | _, _ => .error .notDirectory

/-- The tree with the directories of a walk made, up to a name that is too long or is a file's. -/
def makeAlong (tree : FileTree) (location : List String) : List String → FileTree
  | [] => tree
  | step :: rest =>
    if step = ".." then tree.makeAlong location.dropLast rest
    else if Path.maxName < step.utf8ByteSize then tree
    else
      let location := location ++ [step]
      match tree.entry? location with
      | some .directory => tree.makeAlong location rest
      | some (.file _) => tree
      | none => (tree.put location .directory).makeAlong location rest

def makeDirectory (tree : FileTree) (path : String) : FileTree :=
  match tree.start path with
  | .ok location => tree.makeAlong location (Path.components path)
  | .error _ => tree

def makeParents (tree : FileTree) (path : String) : FileTree :=
  tree.makeDirectory (Path.parent path)

def empty (here : List String) : FileTree := makeAlong ⟨here, []⟩ [] here

instance : Inhabited FileTree := ⟨empty []⟩

end FileTree

end RenderVerdict
