import TurtleLogo.CommandLine
import TurtleLogo.Drawing.Colour
import TurtleLogo.Drawing.Figure
import TurtleLogo.Drawing.Palette
import TurtleLogo.Drawing.Point
import TurtleLogo.Execution.Context
import TurtleLogo.Execution.Evaluation
import TurtleLogo.Execution.Fault
import TurtleLogo.Execution.Fuel
import TurtleLogo.Execution.Machine
import TurtleLogo.Execution.Scopes
import TurtleLogo.Execution.Step
import TurtleLogo.Language.BuildError
import TurtleLogo.Language.Builtin
import TurtleLogo.Language.Grammar
import TurtleLogo.Language.Operator
import TurtleLogo.Language.Position
import TurtleLogo.Language.Segment
import TurtleLogo.Language.Surface
import TurtleLogo.Language.Token
import TurtleLogo.Main
import TurtleLogo.Number.Arithmetic
import TurtleLogo.Number.Decimal
import TurtleLogo.Number.Elementary
import TurtleLogo.Number.Exact
import TurtleLogo.Page.Layout
import TurtleLogo.Page.Svg
import TurtleLogo.Program.Basic
import TurtleLogo.Program.Build
import TurtleLogo.Program.Compile
import TurtleLogo.Program.Text
import TurtleLogo.Text.CodeRanges
import TurtleLogo.Text.Combining
import TurtleLogo.Text.Invisible
import TurtleLogo.Text.Quoted
import TurtleLogo.Text.Unassigned
import TurtleLogo.Proofs.Derivation
import TurtleLogo.Proofs.StepSpec
import TurtleLogo.Proofs.Scoping
import TurtleLogo.Proofs.Noninterference
import TurtleLogo.Proofs.Nesting
import TurtleLogo.Proofs.Yield
import TurtleLogo.Proofs.Reading
import TurtleLogo.Proofs.Scanning
import TurtleLogo.Proofs.Shape
import TurtleLogo.Proofs.Building
import TurtleLogo.Proofs.Typing
import TurtleLogo.Proofs.Linking
import TurtleLogo.Proofs.Descent
import TurtleLogo.Proofs.Depth
import TurtleLogo.Proofs.Rules
import TurtleLogo.Proofs.Rendering
import TurtleLogo.Proofs.Compiling
import TurtleLogo.Proofs.Parentheses
import TurtleLogo.Proofs.Numerals
import TurtleLogo.Proofs.CanonicalText
import TurtleLogo.Proofs.Exiting
import TurtleLogo.Proofs.Stopping
import TurtleLogo.Proofs.Tracing
import TurtleLogo.Proofs.LetterCase
import TurtleLogo.Proofs.CaseBlindness
import TurtleLogo.Proofs.Legibility
import TurtleLogo.Proofs.ExpressionText
import TurtleLogo.Proofs.UniqueText
import TurtleLogo.Proofs.Growth
import TurtleLogo.Proofs.Naming
import TurtleLogo.Proofs.Termination
import TurtleLogo.Proofs.Placement
import TurtleLogo.Proofs.Partition
import TurtleLogo.Proofs.Relocation
import TurtleLogo.Proofs.Joining
import TurtleLogo.Proofs.ErrorOrder
import TurtleLogo.Proofs.Moments
import TurtleLogo.Proofs.Rounding
import TurtleLogo.Proofs.Invariants
import TurtleLogo.Proofs.Angles
import TurtleLogo.Proofs.Heading
import TurtleLogo.Proofs.Polyline
import TurtleLogo.Proofs.Unrolling
import TurtleLogo.Proofs.Failing
import TurtleLogo.Proofs.NumberOrder
import TurtleLogo.Proofs.Enclosure
import TurtleLogo.Proofs.FirstFault
import TurtleLogo.Proofs.Literals
import TurtleLogo.Proofs.Places
import TurtleLogo.Proofs.Framing
import TurtleLogo.Proofs.Slots
import TurtleLogo.Proofs.Documents
import TurtleLogo.Proofs.Codes
import TurtleLogo.Proofs.Progress
import TurtleLogo.Proofs.Quotients
import TurtleLogo.Proofs.Outlines
