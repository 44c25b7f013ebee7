import RenderVerdict.Image.Comparison
import RenderVerdict.Scene.Difference

/-! Cases: the verdict on one channel of one frame, in pictures or in documents. -/
namespace RenderVerdict

inductive CaseKind where
  | image
  | document
deriving DecidableEq, Repr

namespace CaseKind

def key : CaseKind → String
  | .image => "image"
  | .document => "document"

def label : CaseKind → String
  | .image => "image"
  | .document => "gltf"

def rank : CaseKind → Nat
  | .image => 0
  | .document => 1

end CaseKind

inductive Outcome where
  | passed
  /-- The candidate differs from the reference beyond tolerance. -/
  | exceeded
  /-- The inputs could not be compared at all. -/
  | fatal (kind : FaultKind) (message : String)
deriving DecidableEq, Repr

inductive Detail where
  | pixels (report : PixelReport)
  | scene (report : StructureReport)

structure Case where
  frame : Nat
  kind : CaseKind
  channel : Channel
  outcome : Outcome
  detail : Option Detail

namespace Case

def ofFault (frame : Nat) (kind : CaseKind) (channel : Channel) (fault : Fault) : Case where
  frame := frame
  kind := kind
  channel := channel
  outcome := .fatal fault.kind fault.message
  detail := none

def ofPixels (frame : Nat) (channel : Channel) : Except Fault PixelReport → Case
  | .ok report => {
      frame, channel
      kind := .image
      outcome := if report.passed then .passed else .exceeded
      detail := some (.pixels report) }
  | .error fault => ofFault frame .image channel fault

def ofStructure (frame : Nat) (channel : Channel) : Except Fault StructureReport → Case
  | .ok report => {
      frame, channel
      kind := .document
      outcome := if report.isMatch then .passed else .exceeded
      detail := some (.scene report) }
  | .error fault => ofFault frame .document channel fault

def passed (c : Case) : Bool := decide (c.outcome = .passed)

def isFatal (c : Case) : Bool :=
  match c.outcome with
  | .fatal .. => true
  | _ => false

def key (c : Case) : Nat × CaseKind × Channel := (c.frame, c.kind, c.channel)

/-- Whether a case may stand before another in a report: by frame, then pictures before documents,
then by channel. -/
def precedes (a b : Case) : Bool :=
  if a.frame ≠ b.frame then a.frame < b.frame
  else if a.kind ≠ b.kind then a.kind.rank < b.kind.rank
  else a.channel.rank ≤ b.channel.rank

end Case

end RenderVerdict
