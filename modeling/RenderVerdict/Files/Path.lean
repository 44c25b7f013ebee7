/-! Paths as text: steps with slashes between them. -/
namespace RenderVerdict.Path

def maxLength : Nat := 4095

def maxName : Nat := 255

def steps (path : String) : List String := (path.toList.splitOn '/').map String.ofList

def components (path : String) : List String :=
  (steps path).filter fun step => step ≠ "" ∧ step ≠ "."

/-- Steps without those at the end that lead nowhere. The first step is kept: it says where a path
starts. -/
def settled : List String → List String
  | [] => []
  | first :: rest =>
    first :: (rest.reverse.dropWhile fun step => step = "" ∨ step = ".").reverse

/-- The path of the directory above. It is empty where only one step leads somewhere. -/
def parent (path : String) : String :=
  "/".intercalate (settled (settled (steps path)).dropLast)

def join (directory name : String) : String :=
  if directory = "" ∨ directory.endsWith '/' then directory ++ name
  else directory ++ "/" ++ name

/-- What follows the last point of the last name of a path, unless the point starts the name. -/
def extension? (path : String) : Option String :=
  match (components path).getLast? with
  | none | some ".." => none
  | some name =>
    let reversed := name.toList.reverse
    let ending := reversed.takeWhile (· ≠ '.')
    let before := reversed.drop (ending.length + 1)
    if before.isEmpty then none else some (String.ofList ending.reverse)

end RenderVerdict.Path
