import GrammarMachine.Forward
import GrammarMachine.Grammar.Basic

/-!
# Operator tables

An operator table lists levels of precedence, the loosest first. A level of operators takes its
operands from the level below; a level may also be a grammar of its own, and the last one must be.

* A left-associative level is an operand and zero or more steps of an operator and an operand.
* A right-associative level is an operand and at most one step, whose operand is of the same level.
* A prefix level is an operator and an operand of the same level, or an operand of the next.
* A postfix level is an operand and zero or more operators.

The symbols of all levels share one keyword set, so that the longest path decides which operator
stands at a place.
-/

namespace GrammarMachine

/-- An operator with two operands. -/
structure Binary (α : Type) where
  symbol : Text
  apply : α → α → α

/-- An operator with one operand. -/
structure Unary (α : Type) where
  symbol : Text
  apply : α → α

/-- A level of precedence. -/
inductive Level (α : Type) where
  | left (ops : List (Binary α))
  | right (ops : List (Binary α))
  | prefixed (ops : List (Unary α))
  | postfixed (ops : List (Unary α))
  /-- A grammar that may refer to all levels, the whole expression first. -/
  | primary (body : List Nat → Build α (Program α))

namespace Level

variable {α : Type}

/-- The symbols of the level's operators. -/
def symbols : Level α → List Text
  | left ops | right ops => ops.map (·.symbol)
  | prefixed ops | postfixed ops => ops.map (·.symbol)
  | primary _ => []

def isPrimary : Level α → Bool
  | primary _ => true
  | _ => false

end Level

/-- The levels of an operator grammar, the loosest first. -/
abbrev OperatorTable (α : Type) := List (Level α)

namespace OperatorTable

variable {α : Type}

/-- The symbols of all levels. -/
def symbols (t : OperatorTable α) : Keywords := .ofList (t.flatMap Level.symbols)

/-- An operator and its right operand; the left one is inherited. -/
def binaryStep (lexicon : Lexicon α) (symbols : Keywords) (operand : Pattern α) (op : Binary α) :
    Grammar α :=
  (lexicon.grammar.keywordIn op.symbol symbols).tokenWith operand
    ⟨fun c => c.inherited.bind fun l => c.synthesized.map fun r => op.apply l r, none⟩

/-- An operator and the operand after it. -/
def prefixStep (lexicon : Lexicon α) (symbols : Keywords) (operand : Pattern α) (op : Unary α) :
    Grammar α :=
  (lexicon.grammar.keywordIn op.symbol symbols).tokenWith operand
    ⟨fun c => c.synthesized.map op.apply, none⟩

/-- An operator after its operand, which is inherited. -/
def postfixStep (lexicon : Lexicon α) (symbols : Keywords) (op : Unary α) : Grammar α :=
  (lexicon.grammar.keywordIn op.symbol symbols).transform ⟨fun v => v.map op.apply, none⟩

/-- The program of a level. `cells` are those of all levels; `this` and `next` stand for the level
itself and the one below it. -/
def levelProgram (lexicon : Lexicon α) (symbols : Keywords) (cells : List Nat)
    (this next : Pattern α) : Level α → Build α (Program α)
  | .left ops =>
    let step := lexicon.grammar.choice
      (ops.map fun op => (binaryStep lexicon symbols next op).pattern)
    return ((lexicon.grammar.token next).tokenZeroOrMore step.pattern).program
  | .right ops =>
    let step := lexicon.grammar.choice
      (ops.map fun op => (binaryStep lexicon symbols this op).pattern)
    return ((lexicon.grammar.token next).tokenMaybe step.pattern).program
  | .prefixed ops =>
    return (lexicon.grammar.choice
      (ops.map (fun op => (prefixStep lexicon symbols this op).pattern) ++ [next])).program
  | .postfixed ops =>
    let step := lexicon.grammar.choice
      (ops.map fun op => (postfixStep lexicon symbols op).pattern)
    return ((lexicon.grammar.token next).tokenZeroOrMore step.pattern).program
  | .primary body => body cells

/-- Builds levels in order and defines the cell of each. `cells` are those of all levels. -/
def buildLevels (lexicon : Lexicon α) (symbols : Keywords) (cells : List Nat) :
    List (Level α) → List Nat → Build α (List (Program α))
  | level :: levels, this :: below => do
    let p ← levelProgram lexicon symbols cells (.forward this) (.forward (below.headD this)) level
    Forward.define this p
    return p :: (← buildLevels lexicon symbols cells levels below)
  | _, _ => return []

/-- Builds the grammar of expressions. Every grammar in it starts from the lexicon, so that
ignorable text may stand between all tokens. -/
def build (lexicon : Lexicon α) (t : OperatorTable α) : Build α (Program α) := do
  match t.getLast? with
  | none => throw .emptyOperatorTable
  | some last =>
    if !last.isPrimary then throw (.missingOperand (t.length - 1))
    let cells ← Forward.news t.length
    match ← buildLevels lexicon t.symbols cells t cells with
    | p :: _ => return p
    | [] => throw .emptyOperatorTable

end OperatorTable

end GrammarMachine
