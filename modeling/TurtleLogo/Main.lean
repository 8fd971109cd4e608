import TurtleLogo.CommandLine

/-!
# The program `logo2svg`

Reads the input file, writes the document and prints what `CommandLine` decides.
-/

namespace TurtleLogo
namespace CommandLine

/-- The reason of a failed file access, with its number. -/
def fileReason : IO.Error → String
  | .noFileOrDirectory _ code details | .permissionDenied _ code details | .inappropriateType _ code details
  | .invalidArgument _ code details | .resourceExhausted _ code details | .alreadyExists _ code details
  | .noSuchThing _ code details | .interrupted _ code details | .otherError code details
  | .resourceBusy code details | .hardwareFault code details | .unsupportedOperation code details =>
      details ++ " (os error " ++ toString code ++ ")"
  | error => toString error

/-- The content of a file. -/
def readBytes (path : String) : IO ByteArray :=
  IO.FS.withFile path .read fun file => file.readBinToEnd

/-- Prints why a run failed. -/
def failWith (reason : String) : IO UInt32 := do
  (← IO.getStderr).putStr (errorLine reason)
  return UInt32.ofNat failedStatus

/-- Runs a source text and writes its document. -/
def runSource (invocation : Invocation) (source : String) : IO UInt32 := do
  match invocation.report Machine.ampleFuel source with
  | none => failWith ("failed to run " ++ invocation.input ++ ": out of fuel")
  | some report =>
      (← IO.getStdout).putStr report.printed
      match report.document with
      | .error reason => failWith reason
      | .ok document =>
          match ← (IO.FS.writeFile invocation.output document).toBaseIO with
          | .error error => failWith (invocation.writeFailure (fileReason error))
          | .ok () => return 0

/-- Does what a request asks for. -/
def Request.answer : Request → IO UInt32
  | .help => do
      (← IO.getStdout).putStr helpText
      return 0
  | .refused => do
      (← IO.getStderr).putStr usage
      return UInt32.ofNat refusedStatus
  | .run invocation => do
      match ← (readBytes invocation.input).toBaseIO with
      | .error error => failWith (invocation.readFailure (fileReason error))
      | .ok bytes =>
          match String.fromUTF8? bytes with
          | none => failWith (invocation.readFailure notText)
          | some source => runSource invocation source

end CommandLine
end TurtleLogo

def main (arguments : List String) : IO UInt32 :=
  (TurtleLogo.CommandLine.Request.ofArguments arguments).answer
