import RenderVerdict.Files.Load
import RenderVerdict.Report.Text

/-! Batches: all channels of all frames, as one report. No case depends on another: a broken input
fails its own case only. -/
namespace RenderVerdict

structure ChannelPaths where
  color : String
  depth : String
  label : String
deriving DecidableEq, Repr

namespace ChannelPaths

def get (paths : ChannelPaths) : Channel → String
  | .color => paths.color
  | .depth => paths.depth
  | .label => paths.label

end ChannelPaths

structure RenderOutputs where
  images : ChannelPaths
  /-- Scene documents, if the side writes them. -/
  documents : Option ChannelPaths
deriving DecidableEq, Repr

structure FramePair where
  frame : Nat
  candidate : RenderOutputs
  reference : RenderOutputs
deriving DecidableEq, Repr

structure ImageSet where
  color : ColorRaster
  depth : DepthRaster
  label : LabelRaster

inductive Mode where
  | images
  | documents
  | all
deriving DecidableEq, Repr

namespace Mode

def kinds : Mode → List CaseKind
  | .images => [.image]
  | .documents => [.document]
  | .all => [.image, .document]

end Mode

namespace Settings

def compareImageFiles (settings : Settings) (files : FileTree) (channel : Channel)
    (candidate reference : String) : Except Fault PixelReport := do
  match channel with
  | .color =>
    settings.tolerances.compareColor (← files.loadColor candidate) (← files.loadColor reference)
  | .depth =>
    settings.tolerances.compareDepth (← files.loadDepth candidate) (← files.loadDepth reference)
  | .label =>
    settings.tolerances.compareLabel (← files.loadLabel candidate) (← files.loadLabel reference)

def compareDocumentFiles (settings : Settings) (files : FileTree)
    (candidate reference : String) : Except Stop StructureReport := do
  let actual ← files.loadDocument candidate
  let expected ← files.loadDocument reference
  settings.schema.compare actual expected

def compareImageSet (settings : Settings) (frame : Nat) (candidate reference : ImageSet) :
    List Case := [
  .ofPixels frame .color (settings.tolerances.compareColor candidate.color reference.color),
  .ofPixels frame .depth (settings.tolerances.compareDepth candidate.depth reference.depth),
  .ofPixels frame .label (settings.tolerances.compareLabel candidate.label reference.label)]

def compareDocumentPair (settings : Settings) (frame : Nat) (channel : Channel)
    (actual expected : Document) : Option Case :=
  (Stop.settle (settings.schema.compare actual expected)).map (.ofStructure frame channel)

def imageCases (settings : Settings) (files : FileTree) (pair : FramePair) : List Case :=
  Channel.all.map fun channel =>
    .ofPixels pair.frame channel (settings.compareImageFiles files channel
      (pair.candidate.images.get channel) (pair.reference.images.get channel))

/-- The cases of the documents of a frame, unless the schema asks for too many places. There are
none unless both sides have documents. -/
def documentCases (settings : Settings) (files : FileTree) (pair : FramePair) :
    Option (List Case) :=
  match pair.candidate.documents, pair.reference.documents with
  | some candidate, some reference => Channel.all.mapM fun channel =>
    (Stop.settle (settings.compareDocumentFiles files (candidate.get channel)
      (reference.get channel))).map (.ofStructure pair.frame channel)
  | _, _ => some []

def casesOf (settings : Settings) (files : FileTree) (pair : FramePair) :
    CaseKind → Option (List Case)
  | .image => some (settings.imageCases files pair)
  | .document => settings.documentCases files pair

def runPair (settings : Settings) (files : FileTree) (mode : Mode) (pair : FramePair) :
    Option (List Case) := do
  return (← mode.kinds.mapM (settings.casesOf files pair)).flatten

/-- The report on all frames, in the order of reports; cases of equal place keep the order of the
frames' pairs. There is none if the schema asks for too many places anywhere. -/
def run (settings : Settings) (files : FileTree) (mode : Mode) (pairs : List FramePair) :
    Option Report := do
  return ⟨(← pairs.mapM (settings.runPair files mode)).flatten.mergeSort Case.precedes⟩

end Settings

end RenderVerdict
