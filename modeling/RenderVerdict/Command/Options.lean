import RenderVerdict.Channel

/-! The options of the command line. -/
namespace RenderVerdict

inductive CountFault where
  | empty
  | invalidDigit
  | tooLarge
deriving DecidableEq, Repr

namespace CountFault

def message : CountFault → String
  | .empty => "cannot parse integer from empty string"
  | .invalidDigit => "invalid digit found in string"
  | .tooLarge => "number too large to fit in target type"

end CountFault

/-- The number of digits read after the first ones, which have a value; the first character that is
no digit or makes it too large ends the reading. -/
def countFrom (value : Nat) : List Char → Except CountFault Nat
  | [] => .ok value
  | c :: rest =>
    if !c.isDigit then .error .invalidDigit
    else
      let value := value * 10 + (c.toNat - '0'.toNat)
      if value < Nat.pow 2 64 then countFrom value rest else .error .tooLarge

def readCount (text : String) : Except CountFault Nat :=
  match text.toList with
  | [] => .error .empty
  | ['+'] => .error .invalidDigit
  | '+' :: digits => countFrom 0 digits
  | digits => countFrom 0 digits

structure Options where
  positional : List String := []
  frames : Option Nat := none
  channel : Option Channel := none
  config : Option String := none
  report : Option String := none
deriving DecidableEq, Repr

inductive OptionFault where
  | valueMissing (flag : String)
  | frames (cause : CountFault)
  | unknownChannel (name : String)
  | unknownOption (flag : String)
deriving DecidableEq, Repr

namespace OptionFault

def message : OptionFault → String
  | .valueMissing flag => flag ++ " needs a value"
  | .frames cause => "--frames: " ++ cause.message
  | .unknownChannel name => "unknown channel '" ++ name ++ "'"
  | .unknownOption flag => "unknown option " ++ flag

end OptionFault

inductive Flag where
  | frames
  | channel
  | config
  | report
deriving DecidableEq, Repr

namespace Flag

def name : Flag → String
  | .frames => "--frames"
  | .channel => "--channel"
  | .config => "--config"
  | .report => "--report"

def all : List Flag := [.frames, .channel, .config, .report]

def ofArgument? (argument : String) : Option Flag := all.find? (·.name = argument)

end Flag

namespace Options

def set (options : Options) (flag : Flag) (value : String) : Except OptionFault Options :=
  match flag with
  | .frames =>
    match readCount value with
    | .ok count => .ok { options with frames := some count }
    | .error cause => .error (.frames cause)
  | .channel =>
    match Channel.ofName? value with
    | some channel => .ok { options with channel := some channel }
    | none => .error (.unknownChannel value)
  | .config => .ok { options with config := some value }
  | .report => .ok { options with report := some value }

def extend (options : Options) : List String → Except OptionFault Options
  | [] => .ok options
  | argument :: rest =>
    match Flag.ofArgument? argument with
    | some flag =>
      match rest with
      | [] => .error (.valueMissing flag.name)
      | value :: rest => do (← options.set flag value).extend rest
    | none =>
      if argument.startsWith "--" then .error (.unknownOption argument)
      else { options with positional := options.positional ++ [argument] }.extend rest

def parse (arguments : List String) : Except OptionFault Options := extend {} arguments

end Options

end RenderVerdict
