import RenderVerdict.Scene.Normal

/-! How two scene documents differ once they are in normal form. -/
namespace RenderVerdict

structure SectionMismatch where
  name : String
  actual : Json
  expected : Json

structure NodeMismatch where
  /-- Expected nodes without a counterpart. -/
  missing : List Json
  /-- Actual nodes without a counterpart. -/
  unexpected : List Json

structure StructureReport where
  sections : List SectionMismatch
  nodes : Option NodeMismatch
  actualNodes : Nat
  expectedNodes : Nat

inductive StructureFailure where
  | scalarSections
  | nodeMultiset
deriving DecidableEq, Repr

namespace StructureReport

def isMatch (report : StructureReport) : Bool :=
  report.sections.isEmpty && report.nodes.isNone

def failures (report : StructureReport) : List StructureFailure :=
  (if report.sections.isEmpty then [] else [.scalarSections]) ++
    (if report.nodes.isSome then [.nodeMultiset] else [])

end StructureReport

namespace Node

/-- Pairs each actual node with the first expected node that is the same and not yet paired: the
actual nodes and the expected nodes that are left over. -/
def pairOff : List Node → List Node → List Node × List Node
  | [], expected => ([], expected)
  | node :: rest, expected =>
    if expected.any (·.same node) then pairOff rest (expected.eraseP (·.same node))
    else
      let left := pairOff rest expected
      (node :: left.1, left.2)

def difference? (actual expected : List Node) : Option NodeMismatch :=
  let left := pairOff actual expected
  if left.1.isEmpty && left.2.isEmpty then none
  else some ⟨left.2.map toJson, left.1.map toJson⟩

end Node

namespace Schema

def requireSection (side : Side) (document : NormalDocument) (name : String) :
    Except Fault Node :=
  match document.find? name with
  | some node => .ok node
  | none => .error (.malformed (.sectionMissing side name))

def compareSection (actual expected : NormalDocument) (name : String) :
    Except Fault (Option SectionMismatch) := do
  let a ← requireSection .actual actual name
  let e ← requireSection .expected expected name
  return if a.same e then none else some ⟨name, a.toJson, e.toJson⟩

def compareNormal (schema : Schema) (actual expected : NormalDocument) :
    Except Fault StructureReport := do
  let sections ← schema.scalarSections.mapM (compareSection actual expected)
  return {
    sections := sections.filterMap id
    nodes := Node.difference? actual.nodes expected.nodes
    actualNodes := actual.nodes.length
    expectedNodes := expected.nodes.length }

def compare (schema : Schema) (actual expected : Document) : Except Stop StructureReport := do
  let actual ← schema.normalize actual
  let expected ← schema.normalize expected
  schema.compareNormal actual expected

end Schema

end RenderVerdict
