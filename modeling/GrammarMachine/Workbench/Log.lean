import GrammarMachine.Journal
import GrammarMachine.Workbench.Value

/-!
# The log

The log has one row for every call of a tagged callback, in the order of the calls. Rows are written
before the callback does its work, in attempts that are abandoned as well.

* `LogRow.ofEvent?` is the row of an event; `Journal.rows` are the rows of a run.
-/

namespace GrammarMachine

/-- A call of a tagged callback. -/
inductive LogRow where
  | action (tag : String) (call : ActionCall Value)
  /-- A transform or a condition was called. -/
  | attr (tag : String) (attr : Option Value)
  | matcher (tag : String) (offset : Nat) (inherited : Option Value)
deriving Repr

namespace LogRow

/-- The row of an event, if it is the call of a tagged callback. -/
def ofEvent? {π : Type} : Event π Value → Option LogRow
  | .actionCalled tag call | .foldCalled tag call => tag.map fun t => action t call
  | .transformCalled tag a | .conditionTested tag a => tag.map fun t => attr t a
  | .matcherCalled tag offset inherited => tag.map fun t => matcher t offset inherited
  | .executed _ _ _ | .emptyIteration _ _ | .repetitionFinished _ _ | .undefinedForward _
  | .parsed _ _ | .partSearched _ | .allSearched _ => none

end LogRow

namespace Journal

variable {π : Type}

/-- The rows of a run in order. -/
def rows (j : Journal π Value) : List LogRow := j.events.filterMap LogRow.ofEvent?

@[simp] theorem rows_empty : (empty : Journal π Value).rows = [] := rfl

theorem rows_note (j : Journal π Value) (e : Event π Value) :
    (j.note e).rows = j.rows ++ (LogRow.ofEvent? e).toList := by
  cases h : LogRow.ofEvent? e <;> simp [rows, h]

end Journal

end GrammarMachine
