import RenderVerdict.Image.Shape
import RenderVerdict.Json.Printer
import RenderVerdict.Packing.Basic

/-! What can be wrong with the inputs of a comparison. A difference beyond tolerance is no fault:
it is a verdict. -/
namespace RenderVerdict

def proseStyle : NumberStyle where
  tie := .away
  positional := none
  wholePoint := false

inductive Side where
  | actual
  | expected
deriving DecidableEq, Repr

def Side.name : Side → String
  | .actual => "actual"
  | .expected => "expected"

inductive Malformed where
  | rootNotObject
  | missingCollection (collection : String)
  | notAnArray (collection : String)
  | indexOutOfRange (index : Nat) (collection : String) (length : Nat)
  | notAnIndex (field collection : String) (found : Json)
  | nodesMissing
  | nodesNotObjects
  | sectionMissing (side : Side) (name : String)

inductive FileFault where
  | notFound
  | isDirectory
  | notDirectory
  | nameTooLong
  | nulInName
  | invalidUtf8
  | unexpectedEnd
  | shortRead
  | invalidArgument
  | badPacking (fault : PackingFault)
deriving DecidableEq, Repr

inductive RasterFault where
  | noChannels
  | sampleCount (shape : Shape) (found : Nat)
  | integerSamples (path : String)
  | samplesDoNotTile (path : String) (found width height : Nat)
  | notGrayscale (channels : Channels) (kind : SampleKind)
deriving DecidableEq, Repr

inductive SettingsFault where
  | unreadable
  | tooManyPlaces (places : Nat)
  | referenceAndIdentity (field : String)
  | negativeTolerance (name : String) (value : Double)
  | fractionOutOfRange (value : Double)

inductive Fault where
  | malformed (cause : Malformed)
  | referenceCycle (collection : String) (index : Nat)
  | shapeMismatch (candidate reference : Shape)
  | file (path : String) (cause : FileFault)
  | notJson (path : String)
  | notPicture (path : String)
  | notTiff (path : String)
  | raster (cause : RasterFault)
  | settings (cause : SettingsFault)

/-- Why work on a document ended without a result: a fault, which a report can tell of, or a number
that was to have more decimal places than one can be written with. -/
inductive Stop where
  | fault (cause : Fault)
  | tooManyPlaces

inductive FaultKind where
  | malformedDocument
  | shapeMismatch
  | io
  | decode
  | config
deriving DecidableEq, Repr

namespace Malformed

def message : Malformed → String
  | .rootNotObject => "document root is not an object"
  | .missingCollection collection => "missing collection '" ++ collection ++ "'"
  | .notAnArray collection => "collection '" ++ collection ++ "' is not an array"
  | .indexOutOfRange index collection length =>
    "index " ++ toString index ++ " out of range for '" ++ collection ++ "' (len " ++
      toString length ++ ")"
  | .notAnIndex field collection found =>
    "field '" ++ field ++ "' must hold an index into '" ++ collection ++ "', found " ++
      found.compact
  | .nodesMissing => "missing 'nodes' section"
  | .nodesNotObjects => "'nodes' is not an array of objects"
  | .sectionMissing side name => side.name ++ " document has no '" ++ name ++ "' section"

end Malformed

namespace FileFault

def message : FileFault → String
  | .notFound => "No such file or directory (os error 2)"
  | .isDirectory => "Is a directory (os error 21)"
  | .notDirectory => "Not a directory (os error 20)"
  | .nameTooLong => "File name too long (os error 36)"
  | .nulInName => "file name contained an unexpected NUL byte"
  | .invalidUtf8 => "stream did not contain valid UTF-8"
  | .unexpectedEnd => "unexpected end of file"
  | .shortRead => "failed to fill whole buffer"
  | .invalidArgument => "Invalid argument (os error 22)"
  | .badPacking fault => fault.message

end FileFault

namespace RasterFault

def message : RasterFault → String
  | .noChannels => "raster needs at least one channel"
  | .sampleCount shape found =>
    shape.text ++ " raster needs " ++ toString shape.count ++ " samples, got " ++ toString found
  | .integerSamples path => path ++ " holds integer samples, depth needs 32-bit float"
  | .samplesDoNotTile path found width height =>
    path ++ ": " ++ toString found ++ " samples do not tile a " ++ toString width ++ "x" ++
      toString height ++ " image"
  | .notGrayscale channels kind =>
    "label image must be 8 or 16-bit grayscale, got " ++ channels.name ++ kind.name

end RasterFault

namespace SettingsFault

def message : SettingsFault → String
  | .unreadable => "TOML parse error"
  | .tooManyPlaces places => "precision " ++ toString places ++ " exceeds 15 decimal places"
  | .referenceAndIdentity field =>
    "field '" ++ field ++ "' is both a reference and an identity field"
  | .negativeTolerance name value =>
    name ++ " tolerance must be non-negative, got " ++ proseStyle.text value
  | .fractionOutOfRange value =>
    "invalid_fraction must be in (0, 1], got " ++ proseStyle.text value

end SettingsFault

namespace FaultKind

def key : FaultKind → String
  | .malformedDocument => "malformed_document"
  | .shapeMismatch => "shape_mismatch"
  | .io => "io"
  | .decode => "decode"
  | .config => "config"

def label : FaultKind → String
  | .malformedDocument => "MalformedDocument"
  | .shapeMismatch => "ShapeMismatch"
  | .io => "Io"
  | .decode => "Decode"
  | .config => "Config"

end FaultKind

namespace Fault

def kind : Fault → FaultKind
  | .malformed _ | .referenceCycle .. => .malformedDocument
  | .shapeMismatch .. => .shapeMismatch
  | .file .. => .io
  | .notJson _ | .notPicture _ | .notTiff _ | .raster _ => .decode
  | .settings _ => .config

def message : Fault → String
  | .malformed cause => "malformed document: " ++ cause.message
  | .referenceCycle collection index =>
    "reference cycle through " ++ collection ++ "[" ++ toString index ++ "]"
  | .shapeMismatch candidate reference =>
    "shape mismatch: candidate is " ++ candidate.text ++ ", reference is " ++ reference.text
  | .file path cause => "failed to read " ++ path ++ ": " ++ cause.message
  | .notJson path => "failed to parse " ++ path ++ " as JSON"
  | .notPicture path => "failed to decode image " ++ path
  | .notTiff path => "failed to decode TIFF " ++ path
  | .raster cause => "invalid raster: " ++ cause.message
  | .settings cause => "invalid configuration: " ++ cause.message

end Fault

namespace Stop

variable {α : Type}

def ofFault : Except Fault α → Except Stop α
  | .ok value => .ok value
  | .error cause => .error (.fault cause)

instance : MonadLift (Except Fault) (Except Stop) := ⟨ofFault⟩

def settle : Except Stop α → Option (Except Fault α)
  | .ok value => some (.ok value)
  | .error (.fault cause) => some (.error cause)
  | .error .tooManyPlaces => none

end Stop

end RenderVerdict
