import GrammarMachine.Regex.Engine
import GrammarMachine.Regex.Reader

/-!
# Regular expressions

`Regex.compile` reads a source for an engine and keeps it with its meaning; `Regex.find` gives the
first match in a text together with its groups.
-/

namespace GrammarMachine

/-- A compiled regular expression. -/
structure Regex where
  engine : Regex.Engine
  source : Text
  node : Regex.Node

namespace Regex

/-- Reads a source under the given flags. What it means must not be too large. -/
def compile (engine : Engine) (source : Text) (flags : Flags) : Except Error Regex := do
  let ast ← Ast.read engine.maxDepth source
  let (node, _) ← ast.node engine.alphabet flags
  if engine.fits node then return ⟨engine, source, node⟩ else .error .tooLarge

/-- The first match in the text, and of those with this start the preferred one. -/
def find (r : Regex) (t : Text) : Option Found := r.engine.find r.node t

/-- A character with a backslash in front if it has a meaning of its own. -/
def escapeChar (c : Char) : Text := if Reader.isMeta c then ['\\', c] else [c]

/-- The source that matches exactly the given text. -/
def escape (t : Text) : Text := t.flatMap escapeChar

end Regex

end GrammarMachine
