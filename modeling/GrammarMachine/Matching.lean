import GrammarMachine.Forward
import GrammarMachine.Machine

/-!
# Testing patterns

`Pattern.find` tests a pattern at an offset. A pattern that holds a program runs the machine, and
the machine tests patterns, with less fuel at every such step.
-/

namespace GrammarMachine

variable {α : Type}

/-- The number of bytes of the line break at the front of a text. -/
def lineBreakLength? : Text → Option Nat
  | '\r' :: '\n' :: _ => some 2
  | '\r' :: _ => some 1
  | '\n' :: _ => some 1
  | _ => none

/-- Tests a regular expression on what follows an offset. -/
def Regex.findAt (r : Regex) (text : Text) (index : Nat) : Option (Match α) := do
  let rest ← text.from? index
  let found ← r.find rest
  return ⟨(rest.slice? found.start found.stop).getD [], index + found.stop, none, found.groups⟩

/-- Where a literal ends that stands at an offset. -/
def literalEnd? (literal text : Text) (index : Nat) : Option Nat := do
  let rest ← text.from? index
  if literal.isPrefixOf rest then some (index + literal.byteLength) else none

/-- Where a line break ends that stands at an offset. -/
def lineBreakEnd? (text : Text) (index : Nat) : Option Nat := do
  let rest ← text.from? index
  let n ← lineBreakLength? rest
  return index + n

/-- A match of what lies between two offsets. That it can be sliced out of the text is not checked
before. -/
def Trial.span {π : Type} (text : Text) (start stop : Nat) : Trial π α (Match α) :=
  match Match.span? text start stop with
  | some m => pure m
  | none => Trial.invalidSlice

namespace Pattern

/-- Tests a pattern at an offset of a text. -/
def find (forwards : Forwards α) (text : Text) : Nat → Probe (Pattern α) α
  | 0, _, _, _ => Trial.outOfFuel
  | fuel + 1, pattern, index, inherited => do
    match pattern with
    | literal t => Trial.span text index (← Trial.ofOption (literalEnd? t text index))
    | regex r => Trial.ofOption (r.findAt text index)
    | program code => code.run (find forwards text fuel) fuel text index inherited
    | forward cell =>
      match forwards.get? cell with
      | some code => code.run (find forwards text fuel) fuel text index inherited
      | none =>
        Trial.note (.undefinedForward index)
        Trial.mismatch
    | custom f =>
      Trial.note (.matcherCalled f.tag index inherited)
      Trial.ofOption (f.apply text index inherited)
    | lineBreak => Trial.span text index (← Trial.ofOption (lineBreakEnd? text index))
    | endOfInput =>
      if text.byteLength ≤ index then Trial.span text text.byteLength text.byteLength
      else Trial.mismatch
    | wordEnd ignore words =>
      if text.byteLength ≤ index || (ignore.isNone && words.isNone) then
        return ← Trial.span text index index
      let ignored ← match ignore with
        | some p => Option.isSome <$> Trial.attempt (find forwards text fuel p index inherited)
        | none => pure false
      if ignored || startsKeyword words index then Trial.span text index index
      else Trial.mismatch
where
  /-- Whether the keyword set finds at least one character. -/
  startsKeyword (words : Option Keywords) (index : Nat) : Bool :=
    words.any fun w => (w.search text index).any (index < ·.lastIndex)

end Pattern

/-- What a run needs besides a program and a text: the cells of forward references and the fuel. -/
structure Env (α : Type) where
  forwards : Forwards α := .empty
  fuel : Nat := Nat.pow 2 62

/-- Runs a program from an offset. -/
def Program.match? (env : Env α) (p : Program α) (text : Text) (index : Nat)
    (inherited : Option α) : Trial (Pattern α) α (Match α) :=
  p.run (Pattern.find env.forwards text env.fuel) env.fuel text index inherited

end GrammarMachine
