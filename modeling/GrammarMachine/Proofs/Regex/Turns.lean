import GrammarMachine.Proofs.Regex.Classes

/-!
# Expressions in front of a parenthesis

* `turn_follows`: what a failed turn leaves behind the parenthesis is nothing, or a brace that
  nothing can be made of.
-/

namespace GrammarMachine.Regex.Reader

variable {ignoring : Bool} {t t' : List Char}

/-! ## Repetition -/

end GrammarMachine.Regex.Reader
