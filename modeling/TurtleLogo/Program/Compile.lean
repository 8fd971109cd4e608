import TurtleLogo.Language.Grammar
import TurtleLogo.Language.Segment
import TurtleLogo.Program.Build

/-!
# Reading source texts

The way from a source text to a program leads through tokens and surface trees. Each step reports all the errors it
finds, and the next step is taken only if there are none.
-/

namespace TurtleLogo

/-- The surface tree of a source text. -/
def Surface.parse (source : String) : Checked (List Surface.Statement) := do
  let tokens ← Tokens.scan source
  Grammar.parse tokens

/-- The program of a source text. -/
def Program.compile (source : String) : Checked Program := do
  let tree ← Surface.parse source
  Command.listOfSurface tree

/-- The expression that a source text consists of. -/
def Expression.compile (source : String) : Checked Expression := do
  let tokens ← Tokens.scan source
  let tree ← Grammar.parseExpression tokens
  Expression.ofSurface tree

end TurtleLogo
