import TurtleLogo.Execution.Machine
import TurtleLogo.Page.Svg
import TurtleLogo.Program.Compile
import TurtleLogo.Program.Text

/-!
# The command line

`logo2svg input output [--dump-ast]` runs the program in one file and writes its drawing to another. This module holds
all its decisions: what the arguments mean, which texts are printed and what is written. Only reading and writing of files
are left to the program that calls it.
-/

namespace TurtleLogo
namespace CommandLine

/-! ## Arguments -/

/-- One use of the tool. -/
structure Invocation where
  input : String
  output : String
  /-- Whether to print the program before it runs. -/
  dump : Bool
  deriving DecidableEq, Repr

inductive Request where
  | run (invocation : Invocation)
  | help
  /-- The arguments make no sense. -/
  | refused
  deriving DecidableEq, Repr

/-- Reads arguments from left to right. `paths` are those read so far; after `--` everything is a path. One-letter
options may share an argument and are read in order, so one that starts with `-h` asks for help whatever follows. -/
def readArguments (paths : List String) (dump plain : Bool) : List String → Request
  | [] =>
      match paths with
      | [input, output] => .run { input, output, dump }
      | _ => .refused
  | argument :: rest =>
      if !plain && argument = "--" then readArguments paths dump true rest
      else if !plain && argument = "--dump-ast" then
        if dump then .refused else readArguments paths true plain rest
      else if !plain && (argument = "--help" || argument.startsWith "-h") then .help
      else if !plain && argument.startsWith "-" && argument ≠ "-" then .refused
      else if argument = "" || 2 ≤ paths.length then .refused
      else readArguments (paths ++ [argument]) dump plain rest

/-- The request that a list of arguments makes. -/
def Request.ofArguments (arguments : List String) : Request :=
  readArguments [] false false arguments

/-- How the tool is used. -/
def usage : String :=
  "Usage: logo2svg [OPTIONS] <INPUT> <OUTPUT>\n"

/-- What the tool is for, and what its arguments mean. -/
def helpText : String :=
  "Runs a Logo program and writes its drawing as SVG\n\n" ++ usage ++
  "\nArguments:\n" ++
  "  <INPUT>   Logo source file\n" ++
  "  <OUTPUT>  Where to write the SVG document\n" ++
  "\nOptions:\n" ++
  "      --dump-ast  Print the parsed program in canonical form before running it\n" ++
  "  -h, --help      Print help\n"

/-! ## Reports -/

/-- What a run prints, and the document it makes or the reason why it makes none. -/
structure Report where
  printed : String
  document : Except String String

/-- The text of all build errors under their count. -/
def buildErrorsText (errors : List BuildError) : String :=
  toString errors.length ++ " build error(s):\n" ++ "\n".intercalate (errors.map BuildError.text)

namespace Invocation

def readFailure (i : Invocation) (reason : String) : String :=
  "failed to read " ++ i.input ++ ": " ++ reason

def writeFailure (i : Invocation) (reason : String) : String :=
  "failed to write " ++ i.output ++ ": " ++ reason

def compileFailure (i : Invocation) (errors : List BuildError) : String :=
  "failed to compile " ++ i.input ++ ": " ++ buildErrorsText errors

def runFailure (i : Invocation) (error : RuntimeError) : String :=
  "failed to run " ++ i.input ++ ": " ++ error.text

/-- Runs a source text. The program is printed before it runs, its transcript only after a run without error. The result
is `none` if the fuel did not suffice. -/
def report (i : Invocation) (fuel : Nat) (source : String) : Option Report :=
  match Program.compile source with
  | .error errors => some ⟨"", .error (i.compileFailure errors)⟩
  | .ok program =>
      let dumped := if i.dump then Program.text program ++ "\n" else ""
      match Machine.run fuel program Machine.initial with
      | none => none
      | some (.error error, _) => some ⟨dumped, .error (i.runFailure error)⟩
      | some (.ok (), m) =>
          let shown := String.join (m.context.transcript.toList.map (· ++ "\n"))
          some ⟨dumped ++ shown, .ok (Canvas.svg m.context.drawing.canvas.toList)⟩

end Invocation

/-- The line that reports why a run failed. -/
def errorLine (reason : String) : String :=
  "Error: " ++ reason ++ "\n"

/-- The reason why a file that is not UTF-8 text cannot be read. -/
def notText : String := "stream did not contain valid UTF-8"

/-- The exit status for arguments that make no sense. -/
def refusedStatus : Nat := 2

/-- The exit status of a run that failed. -/
def failedStatus : Nat := 1

end CommandLine
end TurtleLogo
