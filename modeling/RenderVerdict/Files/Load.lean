import RenderVerdict.Files.Tree
import RenderVerdict.Png.Content
import RenderVerdict.Scene.Document
import RenderVerdict.Settings
import RenderVerdict.Tiff.Content

/-! Loading pictures, documents and settings from files. -/
namespace RenderVerdict

inductive PictureFormat where
  | png
  | tiff
deriving DecidableEq, Repr

namespace PictureFormat

def ofPath? (path : String) : Option PictureFormat := do
  let ending := (← Path.extension? path).toList.map Char.toLower
  if ending = ['p', 'n', 'g'] then some .png
  else if ending = ['t', 'i', 'f'] ∨ ending = ['t', 'i', 'f', 'f'] then some .tiff
  else none

/-- The fault of bytes that are no file of a format; `broken` is the one of a broken rule. -/
def fault (format : PictureFormat) (path : String) (broken : Fault) : Damage → Fault
  | .cutOff => .file path (match format with | .png => .unexpectedEnd | .tiff => .shortRead)
  | .unreachable => .file path .invalidArgument
  | .badPacking fault => .file path (.badPacking fault)
  | .broken => broken

end PictureFormat

namespace FileTree

def findEntry (files : FileTree) (path : String) : Except Fault FileEntry :=
  match files.find path with
  | .ok entry => .ok entry
  | .error cause => .error (.file path cause)

def text (files : FileTree) (path : String) : Except Fault String :=
  match files.readText path with
  | .ok text => .ok text
  | .error cause => .error (.file path cause)

/-- The picture of a file. A file is opened before its format is looked at, and its format before
anything is read. -/
def loadPicture (files : FileTree) (path : String) : Except Fault Picture := do
  let entry ← files.findEntry path
  match PictureFormat.ofPath? path, entry with
  | none, _ => .error (.notPicture path)
  | some _, .directory => .error (.file path .isDirectory)
  | some .png, .file (.png picture) => .ok picture
  | some .png, .file (.bytes data) =>
    (Png.scanPicture.read data).mapError (PictureFormat.png.fault path (.notPicture path))
  | some .tiff, .file (.bytes data) =>
    (Tiff.scanPicture.read data).mapError (PictureFormat.tiff.fault path (.notPicture path))
  | some .tiff, .file (.png _) => .error (.notPicture path)

def loadColor (files : FileTree) (path : String) : Except Fault ColorRaster := do
  (← files.loadPicture path).toColor

/-- The depth of a file. A TIFF file is taken as it stores its samples, which are not to be
integers. -/
def loadDepth (files : FileTree) (path : String) : Except Fault DepthRaster := do
  if PictureFormat.ofPath? path = some .tiff then
    match ← files.findEntry path with
    | .directory => .error (.file path .isDirectory)
    | .file (.bytes data) =>
      match Tiff.Values.scan.read data with
      | .ok (some values) => values.toDepth path
      | .ok none => .error (.raster (.integerSamples path))
      | .error damage => .error (PictureFormat.tiff.fault path (.notTiff path) damage)
    | .file (.png _) => .error (.notTiff path)
  else (← files.loadPicture path).toDepth

def loadLabel (files : FileTree) (path : String) : Except Fault LabelRaster := do
  (← files.loadPicture path).toLabel

def loadDocument (files : FileTree) (path : String) : Except Fault Document := do
  Document.read path (← files.text path)

def loadSettings (files : FileTree) (path : String) : Except Fault Settings := do
  Settings.read (← files.text path)

end FileTree

end RenderVerdict
