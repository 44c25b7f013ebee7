import RenderVerdict.Command.Options
import RenderVerdict.Number.Text
import RenderVerdict.Report.Batch

/-! The command line: a run over files, with what it prints, what it writes and how it exits. -/
namespace RenderVerdict

inductive CommandFault where
  | options (cause : OptionFault)
  | settings (path : String) (cause : Fault)
  | unknownCommand (name : String)
  | imageOperands
  | documentOperands
  | tooManyFrames
  | noMemory (bytes : Nat)
  | tooManyPlaces
  | report (path : String) (cause : FileFault)

namespace CommandFault

def usage : String :=
  let options := " [--config FILE] [--report FILE]"
  "usage:" ++
  "\n  render_compare images <candidate_dir> <reference_dir> [--frames N]" ++ options ++
  "\n  render_compare gltf <candidate.gltf> <reference.gltf> [--channel color|depth|label]" ++
    options ++
  "\n  render_compare gltf <export_dir> <truth_dir>" ++ options

def chain : Fault → String
  | .file path cause => (Fault.file path cause).message ++ ": " ++ cause.message
  | fault => fault.message

def message : CommandFault → String
  | .options cause => cause.message
  | .settings path cause => "loading config " ++ path ++ ": " ++ chain cause
  | .unknownCommand name => "unknown command '" ++ name ++ "'\n" ++ usage
  | .imageOperands => "images needs <candidate_dir> <reference_dir>\n" ++ usage
  | .documentOperands => "gltf needs <candidate.gltf> <reference.gltf>\n" ++ usage
  | .tooManyFrames => "capacity overflow"
  | .noMemory bytes => "memory allocation of " ++ toString bytes ++ " bytes failed"
  | .tooManyPlaces => "numbers cannot be written with that many decimal places"
  | .report path cause => "writing report " ++ path ++ ": " ++ cause.message

/-- The code of a run that ends where it is, instead of reporting what is wrong. One that ends for
want of memory is killed. -/
def abortCode? : CommandFault → Option Nat
  | .tooManyFrames | .tooManyPlaces => some 101
  | .noMemory _ => some 134
  | _ => none

end CommandFault

def padded (width n : Nat) : String := String.ofList (padZeros width (Nat.toDigits 10 n))

def framePaths (directory : String) (frame : Nat) : ChannelPaths where
  color := Path.join directory ("color_" ++ padded 3 frame ++ ".png")
  depth := Path.join directory ("depth_" ++ padded 3 frame ++ ".tiff")
  label := Path.join directory ("label_" ++ padded 3 frame ++ ".png")

def framePair (candidate reference : String) (frame : Nat) : FramePair where
  frame
  candidate := ⟨framePaths candidate frame, none⟩
  reference := ⟨framePaths reference frame, none⟩

/-- How many bytes a pair takes: its number, and twelve paths of three words each. -/
def FramePair.bytes : Nat := 8 + 12 * 24

/-- The pictures of the first frames in two directories. Room for all of them is made at first. -/
def framePairs (candidate reference : String) (frames : Nat) :
    Except CommandFault (List FramePair) :=
  let bytes := frames * FramePair.bytes
  if maxArrayBytes < bytes then .error .tooManyFrames
  else if addressableBytes < bytes then .error (.noMemory bytes)
  else .ok ((List.range frames).map (framePair candidate reference))

def exportPaths (directory : String) : ChannelPaths :=
  let path (number : Nat) (channel : Channel) :=
    Path.join directory (padded 19 number ++ "-" ++ channel.name ++ ".gltf")
  ⟨path 1 .color, path 2 .depth, path 3 .label⟩

def truthPaths (directory : String) : ChannelPaths :=
  let path (channel : Channel) := Path.join directory ("test_" ++ channel.name ++ "_scene.gltf")
  ⟨path .color, path .depth, path .label⟩

def documentOutputs (paths : ChannelPaths) : RenderOutputs := ⟨paths, some paths⟩

namespace Settings

/-- The report on two operands of the document command: two directories with a document for each
channel, or two documents of one channel. -/
def compareOperands (settings : Settings) (files : FileTree) (channel : Channel)
    (candidate reference : String) : Option Report :=
  if files.isDirectory candidate && files.isDirectory reference then
    settings.run files .documents [{
      frame := 0
      candidate := documentOutputs (exportPaths candidate)
      reference := documentOutputs (truthPaths reference) }]
  else
    match files.loadDocument candidate, files.loadDocument reference with
    | .ok actual, .ok expected =>
      (settings.compareDocumentPair 0 channel actual expected).map fun c => ⟨[c]⟩
    | .error fault, _ | .ok _, .error fault => some ⟨[.ofStructure 0 channel (.error fault)]⟩

def requireReport : Option Report → Except CommandFault Report
  | some report => .ok report
  | none => .error .tooManyPlaces

def runCommand (settings : Settings) (files : FileTree) (command : String) (options : Options) :
    Except CommandFault Report :=
  if command = "images" then
    match options.positional with
    | [candidate, reference] => do
      let pairs ← framePairs candidate reference (options.frames.getD 2)
      requireReport (settings.run files .images pairs)
    | _ => .error .imageOperands
  else if command = "gltf" then
    match options.positional with
    | [candidate, reference] =>
      requireReport
        (settings.compareOperands files (options.channel.getD .color) candidate reference)
    | _ => .error .documentOperands
  else .error (.unknownCommand command)

end Settings

structure Exit where
  code : Nat
  stdout : String
  stderr : String
  files : FileTree

namespace Exit

def failed (files : FileTree) (stdout : String) (fault : CommandFault) : Exit :=
  match fault.abortCode? with
  | some code => ⟨code, stdout, fault.message ++ "\n", files⟩
  | none => ⟨2, stdout, "render_compare: " ++ fault.message ++ "\n", files⟩

end Exit

namespace Report

/-- Two if a case was fatal, else zero if every case passed, else one. -/
def exitCode (report : Report) : Nat :=
  if report.hasFatal then 2 else if report.passed then 0 else 1

def deliver (report : Report) (files : FileTree) (path? : Option String) : Exit :=
  let printed := report.text ++ "\n"
  match path? with
  | none => ⟨report.exitCode, printed, "", files⟩
  | some path =>
    let files := files.makeParents path
    match files.write path (.bytes report.toJson.pretty.toUTF8.data) with
    | .ok files =>
      ⟨report.exitCode, printed ++ "report written to " ++ path ++ "\n", "", files⟩
    | .error cause => .failed files printed (.report path cause)

end Report

namespace Options

def settings (options : Options) (files : FileTree) : Except CommandFault Settings :=
  match options.config with
  | none => .ok Settings.standard
  | some path =>
    match files.loadSettings path with
    | .ok settings => .ok settings
    | .error cause => .error (.settings path cause)

end Options

/-- Options first, then the settings, then the command: the first of them that is wrong is
reported. -/
def prepare (files : FileTree) (command : String) (arguments : List String) :
    Except CommandFault (Options × Report) :=
  match Options.parse arguments with
  | .error cause => .error (.options cause)
  | .ok options => do
    let settings ← options.settings files
    return (options, ← settings.runCommand files command options)

def runProgram (files : FileTree) : List String → Exit
  | [] => ⟨2, CommandFault.usage ++ "\n", "", files⟩
  | command :: arguments =>
    match prepare files command arguments with
    | .ok (options, report) => report.deliver files options.report
    | .error fault => .failed files "" fault

end RenderVerdict
