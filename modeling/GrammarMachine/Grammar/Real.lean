import GrammarMachine.Grammar.Basic

/-!
# Decimal literals

A literal is digits with an optional fraction, or a bare fraction, then an optional exponent; a
signed literal may have a sign in front. A point or an exponent mark without digits after it is left
alone.

The regular expression is given by its source and by its meaning. `Real.compile_source` says that
the one is the meaning of the other.
-/

namespace GrammarMachine

namespace Real

open Regex (Node)

/-- The source of the expression, anchored where it is tested. -/
def source (signed : Bool) : Text :=
  (if signed then "\\A[+-]?" else "\\A").toList ++
    "(?:[0-9]+(?:\\.[0-9]+)?|\\.[0-9]+)(?:[eE][+-]?[0-9]+)?".toList

/-- One or more digits. -/
def digits : Node := .loop (.char (.range '0' '9')) 1 none true

/-- A node or nothing, the node preferred. -/
def optional (n : Node) : Node := .loop n 0 (some 1) true

/-- One of two characters. -/
def either (c d : Char) : Node :=
  .char (.union (.range c c) (.union (.range d d) .empty))

/-- A point and digits. -/
def fraction : Node := .seq (.char (.range '.' '.')) digits

/-- An exponent mark, a sign if there is one, and digits. -/
def exponent : Node := .seq (either 'e' 'E') (.seq (optional (either '+' '-')) digits)

/-- The digits of a literal: whole ones with an optional fraction, or a bare fraction. -/
def magnitude : Node := .alt (.seq digits (optional fraction)) fraction

/-- A literal, with a sign allowed or not. -/
def literal (signed : Bool) : Node :=
  let number := Node.seq magnitude (optional exponent)
  .seq (.look .textStart) (if signed then .seq (optional (either '+' '-')) number else number)

/-- The regular expression of decimal literals. -/
def regex (signed : Bool) : Regex := ⟨.standard, source signed, literal signed⟩

theorem compile_source (signed : Bool) :
    Regex.compile .standard (source signed) {} = .ok (regex signed) := by
  cases signed <;> rfl

end Real

variable {α : Type}

/-- Consumes a decimal literal, which is read as a float. -/
def Grammar.real (g : Grammar α) (signed : Bool) (ofFloat : Float → α) : Grammar α :=
  g.tokenFloat (.regex (Real.regex signed)) ofFloat

end GrammarMachine
