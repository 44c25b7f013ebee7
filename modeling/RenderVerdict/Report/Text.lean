import RenderVerdict.Report.Case

/-! Reports: cases with the verdict on all of them, their lines and their data. -/
namespace RenderVerdict

structure Report where
  cases : List Case
deriving Inhabited

namespace PixelReport

def text (report : PixelReport) : String :=
  "invalid " ++ toString report.invalidPixels ++ "/" ++ toString report.totalPixels ++ " = " ++
    report.invalidFraction.fixedText 4 ++ " (limit " ++ proseStyle.text report.threshold ++
    ", tolerance " ++ proseStyle.text report.tolerance ++ ", max diff " ++
    proseStyle.text report.maxDifference ++ ")"

def fields (report : PixelReport) : List (String × Json) := [
  ("channel", .str report.channel.name),
  ("shape", .obj [("width", .int report.shape.width), ("height", .int report.shape.height),
    ("channels", .int report.shape.channels)]),
  ("total_pixels", .int report.totalPixels),
  ("invalid_pixels", .int report.invalidPixels),
  ("invalid_fraction", .real report.invalidFraction),
  ("tolerance", .real report.tolerance),
  ("threshold", .real report.threshold),
  ("max_difference", .real report.maxDifference),
  ("sample_invalid", .arr (report.sampleInvalid.map fun (x, y) => .arr [.int x, .int y])),
  ("passed", .bool report.passed)]

end PixelReport

namespace SectionMismatch

def text (mismatch : SectionMismatch) : String :=
  "\n  section '" ++ mismatch.name ++ "': " ++ mismatch.actual.compact ++ " != " ++
    mismatch.expected.compact

def toJson (mismatch : SectionMismatch) : Json :=
  .obj [("section", .str mismatch.name), ("actual", mismatch.actual),
    ("expected", mismatch.expected)]

end SectionMismatch

namespace NodeMismatch

def text (mismatch : NodeMismatch) : String :=
  String.join (mismatch.missing.map fun node => "\n  missing node: " ++ node.compact) ++
    String.join (mismatch.unexpected.map fun node => "\n  unexpected node: " ++ node.compact)

def toJson (mismatch : NodeMismatch) : Json :=
  .obj [("missing", .arr mismatch.missing), ("unexpected", .arr mismatch.unexpected)]

end NodeMismatch

namespace StructureFailure

def key : StructureFailure → String
  | .scalarSections => "scalar_sections"
  | .nodeMultiset => "node_multiset"

end StructureFailure

namespace StructureReport

def text (report : StructureReport) : String :=
  String.join (report.sections.map SectionMismatch.text) ++
    (report.nodes.map NodeMismatch.text).getD ""

def fields (report : StructureReport) : List (String × Json) := [
  ("section_mismatches", .arr (report.sections.map SectionMismatch.toJson)),
  ("node_mismatch", (report.nodes.map NodeMismatch.toJson).getD .null),
  ("actual_nodes", .int report.actualNodes),
  ("expected_nodes", .int report.expectedNodes)]

end StructureReport

namespace Outcome

def toJson : Outcome → Json
  | .passed => .obj [("status", .str "passed")]
  | .exceeded => .obj [("status", .str "threshold_exceeded")]
  | .fatal kind message =>
    .obj [("status", .str "fatal"), ("kind", .str kind.key), ("message", .str message)]

end Outcome

namespace Detail

def toJson : Detail → Json
  | .pixels report => .obj (("type", .str "pixels") :: report.fields)
  | .scene report => .obj (("type", .str "structure") :: report.fields)

end Detail

namespace Case

def findings (c : Case) : String :=
  match c.outcome, c.detail with
  | .fatal kind message, _ => "FATAL (" ++ kind.label ++ ") " ++ message
  | .passed, some (.pixels report) => "ok " ++ report.text
  | .exceeded, some (.pixels report) => "FAILED " ++ report.text
  | .passed, _ => "ok"
  | .exceeded, some (.scene report) => "FAILED" ++ report.text
  | .exceeded, none => "FAILED"

def text (c : Case) : String :=
  "frame " ++ toString c.frame ++ " " ++ c.channel.name ++ " " ++ c.kind.label ++ ": " ++ c.findings

def toJson (c : Case) : Json :=
  .obj ([("frame", .int c.frame), ("kind", .str c.kind.key), ("channel", .str c.channel.name),
    ("outcome", c.outcome.toJson)] ++ (c.detail.map fun detail => ("detail", detail.toJson)).toList)

end Case

namespace Report

def passed (report : Report) : Bool := report.cases.all Case.passed

def hasFatal (report : Report) : Bool := report.cases.any Case.isFatal

def failures (report : Report) : List Case := report.cases.filter fun c => !c.passed

def find? (report : Report) (frame : Nat) (kind : CaseKind) (channel : Channel) : Option Case :=
  report.cases.find? fun c => c.key = (frame, kind, channel)

def text (report : Report) : String :=
  let failed := report.failures.length
  String.join (report.cases.map fun c => c.text ++ "\n") ++ toString report.cases.length ++
    " cases, " ++ toString (report.cases.length - failed) ++ " passed, " ++ toString failed ++
    " failed"

def toJson (report : Report) : Json := .obj [("cases", .arr (report.cases.map Case.toJson))]

end Report

end RenderVerdict
