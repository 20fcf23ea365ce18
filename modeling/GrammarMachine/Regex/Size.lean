import GrammarMachine.Regex.Node
import GrammarMachine.Unicode.Utf8

/-!
# Sizes of regular expressions

The standard engine refuses a regular expression if one of two automata would take too much memory:
the one that reads the bytes of a text forward and notes where groups begin and end, and the one
that reads them backward. `Node.automatonSize` estimates that memory, with the repetitions written
out.

A state takes `stateSize` bytes. A state that reads one of several byte intervals takes
`intervalSize` more for each of them, and a state that branches takes `branchSize` more for each
branch.

* `CharSet.automatonSize`: one character of a set. Forward, states with equal continuations are
  shared; backward, those with equal beginnings.
* `Node.automatonSize`: a whole expression.
-/

namespace GrammarMachine

open Regex (Direction)

/-- The bytes of a state. -/
def stateSize : Nat := 32

/-- The bytes of each byte interval, where a state reads one of several. -/
def intervalSize : Nat := 8

/-- The bytes of each branch of a state. -/
def branchSize : Nat := 4

/-! ## Sets -/

namespace CharSet

/-- The byte sequences of all characters of the set. -/
def sequences (s : CharSet) : List (List Interval) :=
  s.intervals.flatMap Unicode.Utf8.sequences

/-- What follows each first interval of ascending sequences. -/
def continuations : List (List Interval) → List (Interval × List (List Interval))
  | [] => []
  | [] :: ts => continuations ts
  | (i :: t) :: ts =>
    match continuations ts with
    | (j, us) :: rest => if i = j then (i, t :: us) :: rest else (i, [t]) :: (j, us) :: rest
    | [] => [(i, [t])]

/-- The sequences that remain at each state, from the given ones on, for sequences of at most `n`
intervals. Nothing remains at the last state, which is not listed. -/
def remainders : Nat → List (List Interval) → List (List (List Interval))
  | 0, _ => []
  | n + 1, ts =>
    match continuations ts with
    | [] => []
    | cs => ts :: cs.flatMap fun p => remainders n p.2

/-- The memory of states at which these sequences remain. -/
def statesSize : List (List (List Interval)) → Nat
  | [] => 0
  | ts :: rest => stateSize + intervalSize * (continuations ts).length + statesSize rest

/-- The number of intervals that a list of them begins with alike. -/
def agreement : List Interval → List Interval → Nat
  | i :: is, j :: js => if i = j then agreement is js + 1 else 0
  | _, _ => 0

/-- The number of different beginnings of ascending sequences, after the sequence `last`. -/
def beginnings (last : List Interval) : List (List Interval) → Nat
  | [] => 0
  | t :: ts => (t.length - agreement last t) + beginnings t ts

/-- The memory for reading one character of the set. -/
def automatonSize (direction : Direction) (s : CharSet) : Nat :=
  if s.isAscii then 2 * stateSize + intervalSize * s.intervals.length
  else
    let ts := s.sequences
    match direction with
    | .forward => stateSize + statesSize (remainders 4 ts).eraseDups
    | .backward => stateSize * (2 + beginnings [] ts) + branchSize * ts.length

end CharSet

namespace Regex

/-! ## Choices between words -/

/-- The bytes of a word in the order in which they are read. -/
def bytes (direction : Direction) (word : List Char) : List UInt8 :=
  let bs := word.flatMap String.utf8EncodeChar
  match direction with
  | .forward => bs
  | .backward => bs.reverse

/-- The words between those that end here, which are preferred to all words after them. -/
def runs : List (List UInt8) → List (List (List UInt8))
  | [] => [[]]
  | [] :: ws => [] :: runs ws
  | w :: ws =>
    match runs ws with
    | r :: rs => (w :: r) :: rs
    | [] => [[w]]

/-- The memory for a tree of words of less than `n` bytes, the end apart. Words that begin with the
same byte share a branch unless a word that ends comes between them. -/
def treeSize : Nat → List (List UInt8) → Nat
  | 0, _ => 0
  | n + 1, words =>
    let words := match words with
      | [] :: ws => [] :: ws.dropWhile List.isEmpty
      | ws => ws
    let parts := runs words
    let inner := (parts.filter (!·.isEmpty)).map fun r =>
      let firsts := (r.filterMap List.head?).eraseDups
      stateSize + (if firsts.length = 1 then 0 else intervalSize * firsts.length) +
        (firsts.map fun b =>
          treeSize n ((r.filter (·.head? = some b)).map List.tail)).sum
    let branches := inner.length + (parts.length - 1)
    inner.sum + if branches < 2 then 0 else stateSize + branchSize * branches

namespace Node

/-- The word that is all a node matches; absent if it matches none or other things. -/
def word? (n : Node) : Option (List Char) :=
  match n.parts with
  | [] => none
  | ps => ps.mapM fun
    | .char s => match s.intervals with
      | [i] => if i.lo = i.hi then some (Char.ofNat i.lo) else none
      | _ => none
    | _ => none

/-! ## Expressions -/

/-- The least number of characters in a match; absent if there is an empty set in the way. -/
def minLength : Node → Option Nat
  | empty | look _ => some 0
  | char s | asciiChar s => if s.isEmpty then none else some 1
  | seq a b => do return (← a.minLength) + (← b.minLength)
  | alt a b => do return Nat.min (← a.minLength) (← b.minLength)
  | loop body min _ _ => do return min * (← body.minLength)
  | group _ body => body.minLength

/-- The memory for a repetition of a body that takes `size`. -/
def loopSize (size : Nat) (consumes : Bool) (min : Nat) : Option Nat → Nat
  | none =>
    let choice := stateSize + 2 * branchSize
    if min = 0 then (if consumes then size + choice else size + 2 * choice + stateSize)
    else min * size + choice
  | some max =>
    let optional := size + stateSize + 2 * branchSize
    if min = 0 ∧ max = 1 then optional + stateSize
    else
      (if min = 0 then stateSize else min * size) +
        (if min = max then 0 else (max - min) * optional + stateSize)

/-- The memory for a node; for a choice without what joins its branches if it is a part of a
choice. -/
def size (direction : Direction) (inner : Bool) : Node → Nat
  | empty | look _ => stateSize
  | char s =>
    if s.isSingle then stateSize * s.sequences.flatten.length else s.automatonSize direction
  | asciiChar s => s.automatonSize direction
  | seq a b => a.size direction false + b.size direction false
  | alt a b =>
    let branches := a.branches ++ b.branches
    if inner then a.size direction true + b.size direction true
    else
      match branches.mapM word? with
      | some words =>
        let ws := words.map (bytes direction)
        stateSize + treeSize ((ws.map List.length).sum + 1) ws
      | none =>
        a.size direction true + b.size direction true + 2 * stateSize +
          branchSize * branches.length
  | loop body min max _ =>
    loopSize (body.size direction false) (body.minLength.any (0 < ·)) min max
  | group _ body =>
    body.size direction false + match direction with
      | .forward => 2 * stateSize
      | .backward => 0

/-- The memory for a whole expression. Unless a match begins at the edge of the text, a loop in front
of it passes over what comes before. -/
def automatonSize (direction : Direction) (n : Node) : Nat :=
  let edge : Look := match direction with
    | .forward => .textStart
    | .backward => .textEnd
  let start := if n.begins direction edge then stateSize
    else 3 * stateSize + intervalSize + 2 * branchSize
  let whole := match direction with
    | .forward => 2 * stateSize
    | .backward => 0
  start + whole + n.size direction false + stateSize

/-- The most memory that is allowed. -/
def maxSize : Nat := 10 * Nat.pow 2 20

/-- Whether neither automaton is too large. -/
def isSmall (n : Node) : Bool :=
  n.automatonSize .forward ≤ maxSize && n.automatonSize .backward ≤ maxSize

end Node

end Regex

end GrammarMachine
