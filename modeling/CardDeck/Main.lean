import CardDeck.Command

/-! # The program

Runs a command on the files of the system. -/

namespace CardDeck.Main

open Command

/-- The number of a system error, which comes with either sign. -/
def errorNumber (code : UInt32) : Nat :=
  if code.toNat < UInt32.size / 2 then code.toNat else UInt32.size - code.toNat

/-- The fault that a system error stands for. -/
def faultOf : IO.Error → FileFault
  | .noFileOrDirectory .. | .noSuchThing .. => .missing
  | .permissionDenied .. => .denied
  | .inappropriateType _ code _ =>
    if errorNumber code = FileFault.notDirectory.cause.1 then .notDirectory else .isDirectory
  | .invalidArgument _ code reason =>
    if errorNumber code = FileFault.nameTooLong.cause.1 then .nameTooLong
    else .other (errorNumber code) reason
  | .resourceBusy code reason | .otherError code reason => .other (errorNumber code) reason
  | e => .other 5 (toString e)

/-- What an action gives, or the fault in the way. -/
def attempt {α : Type} (action : IO α) : IO (Except FileFault α) := do
  try
    return .ok (← action)
  catch e => return .error (faultOf e)

/-- The files of the system. -/
def files : Files IO where
  read p := attempt do return (← IO.FS.readBinFile p.text).toList
  write p bytes := attempt (IO.FS.writeBinFile p.text ⟨bytes.toArray⟩)

/-- Print a response and end with its status. -/
def respond (r : Response) : IO UInt32 := do
  (← IO.getStdout).putStr r.stdout
  (← IO.getStderr).putStr r.stderr
  return r.exit.toUInt32

/-- The line that explains how the program is called. -/
def usage : String :=
  "usage: dbd_parser [-h] [--output FILE] [--format \x7bjson,text,tokens\x7d] [--raw-lexer] " ++
    "[--verbose] source\n"

/-- Read a command line and do what it asks for. -/
def run (line : List String) : IO UInt32 := do
  match ← perform {} files line with
  | .help =>
    (← IO.getStdout).putStr usage
    return 0
  | .misuse =>
    (← IO.getStderr).putStr usage
    return 2
  | .responded response () => respond response
  | .unwritten fault => throw (IO.userError fault.cause.2)
  | .misnamed .absent => throw (IO.userError "the file has no name")
  | .misnamed .unusable => throw (IO.userError "no file can have this name")

end CardDeck.Main

def main (line : List String) : IO UInt32 := CardDeck.Main.run line
