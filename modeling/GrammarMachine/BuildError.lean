import GrammarMachine.Regex.Ast

/-!
# Errors of construction

What can go wrong while patterns and grammars are put together. A text that does not match is never
an error.
-/

namespace GrammarMachine

/-- Why a grammar cannot be built. -/
inductive BuildError where
  | invalidRegex (cause : Regex.Error)
  | invalidBounds (min : Nat) (max : Option Nat)
  | forwardAlreadyDefined
  | forwardUndefined (index : Nat)
  | emptyOperatorTable
  | missingOperand (level : Nat)
deriving Repr, DecidableEq

namespace BuildError

/-- The wording of the error. -/
def message : BuildError → String
  | invalidRegex _ => "invalid regular expression"
  | invalidBounds min max =>
    "invalid repetition bounds: min " ++ toString min ++ ", max " ++
      (match max with
        | some m => toString m
        | none => "unbounded")
  | forwardAlreadyDefined => "forward reference is already defined"
  | forwardUndefined index => "forward reference " ++ toString index ++ " was never defined"
  | emptyOperatorTable => "operator grammar needs at least one level"
  | missingOperand level =>
    "operator level " ++ toString level ++ " has no operand level below it"

end BuildError

/-- Bounds are accepted unless both are zero or the upper one is below the lower one. -/
def checkBounds (min : Nat) (max : Option Nat) : Except BuildError Unit :=
  match max with
  | some m => if m = 0 ∨ m < min then .error (.invalidBounds min max) else .ok ()
  | none => .ok ()

end GrammarMachine
