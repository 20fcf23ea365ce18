import GrammarMachine.Grammar.Real
import GrammarMachine.OperatorTable
import GrammarMachine.Parse

/-!
# The calculator

Sums and differences, products and quotients, both from left to right; then unary minus; then
powers, from right to left. An operand is an unsigned decimal literal or an expression in
parentheses. White space may stand anywhere between tokens.
-/

namespace GrammarMachine

namespace CommandLine

namespace Calculator

open Regex (Node)

/-- The source of the expression for white space. -/
def spaceSource : Text := "\\A(?:\\s+)".toList

/-- One or more characters of white space. -/
def spaceRegex : Regex :=
  ⟨.standard, spaceSource, .seq (.look .textStart) (.loop (.char .space) 1 none true)⟩

theorem compile_spaceSource : Regex.compile .standard spaceSource {} = .ok spaceRegex := rfl

/-- White space is ignorable. -/
def lexicon : Lexicon Float := { ignore := some (.regex spaceRegex) }

/-- A literal, or the whole expression in parentheses. -/
def operand (levels : List Nat) : Program Float :=
  (lexicon.grammar.choice
    [(lexicon.grammar.real false id).pattern,
     (((lexicon.grammar.token (.literal ['('])).token (.forward (levels.headD 0))).token
       (.literal [')'])).pattern]).program

def sums : List (Binary Float) := [⟨['+'], (· + ·)⟩, ⟨['-'], (· - ·)⟩]

def products : List (Binary Float) := [⟨['*'], (· * ·)⟩, ⟨['/'], (· / ·)⟩]

def negation : Unary Float := ⟨['-'], (- ·)⟩

def power : Binary Float := ⟨['^'], Float.pow⟩

/-- The levels of the calculator. -/
def table : OperatorTable Float :=
  [.left sums, .left products, .prefixed [negation], .right [power],
   .primary fun levels => return operand levels]

/-- The grammar of expressions, with the cells of its levels. -/
def build : Except BuildError (Program Float × Forwards Float) :=
  (OperatorTable.build lexicon table).run .empty

/-- The value of an expression; absent if the text is none. -/
def evaluate (text : Text) : Option Float :=
  match build with
  | .error _ => none
  | .ok (p, forwards) =>
    match p.parse { forwards := forwards } text none .empty with
    | .ok r _ => r.bind (·.attr)
    | .error _ _ => none

end Calculator

end CommandLine

end GrammarMachine
