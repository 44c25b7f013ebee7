import RenderVerdict.Files.Tree
import RenderVerdict.Proofs.Outcome

/-! Writing files: what is written at a path is what the path leads to. -/
namespace RenderVerdict.FileTree

variable {tree left : FileTree} {location place found : List String} {entry : FileEntry}
  {steps : List String} {path : String}

end RenderVerdict.FileTree
