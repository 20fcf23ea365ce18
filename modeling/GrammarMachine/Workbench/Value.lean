import GrammarMachine.OperatorTable

/-!
# Values

`Value` is an attribute type for grammars that are put together at run time: texts, 64-bit integers,
floats, and lists of values. This module also names the functions on values that such grammars use:
actions, conditions, transforms, operators and matching functions.
-/

namespace GrammarMachine

/-- An attribute. -/
inductive Value where
  /-- An absent value, inside a list. -/
  | null
  | text (s : String)
  | int (n : Int64)
  | float (x : Float)
  | list (vs : List Value)
deriving Repr, Inhabited

namespace Value

mutual

/-- Values are equal if they have the same form and equal parts; floats are compared as numbers. -/
def equals : Value → Value → Bool
  | null, null => true
  | text s, text t => s == t
  | int m, int n => m == n
  | float x, float y => x == y
  | list us, list vs => equalLists us vs
  | _, _ => false

/-- Lists are equal if they have equal values at all places. -/
def equalLists : List Value → List Value → Bool
  | [], [] => true
  | u :: us, v :: vs => equals u v && equalLists us vs
  | _, _ => false

end

instance : BEq Value := ⟨equals⟩

def ofText (t : Text) : Value := text (String.ofList t)

/-- An attribute that may be absent, as a value. -/
def ofOption : Option Value → Value
  | some v => v
  | none => null

/-- The value as a float; zero if it is no number. -/
def toFloat : Value → Float
  | int n => n.toFloat
  | float x => x
  | _ => 0.0

end Value

/-! ## Actions -/

/-- The actions that can be named. -/
inductive ActionName where
  | matched | synthesized | inherited | pass
  /-- The list of all that an action is called with. -/
  | record
  /-- The inherited text followed by the matched one. -/
  | append
  /-- The synthesized text followed by the inherited one. -/
  | prepend
  /-- The inherited text followed by the synthesized one. -/
  | concat
  /-- The inherited list with the synthesized value, or else the matched text, at its end. -/
  | push
  | sum | sub | mul
  /-- One more than the inherited integer; one if nothing is inherited. -/
  | count
  | group (n : Nat)
  | const (v : Value)
deriving Repr

namespace ActionName

/-- Combines the inherited and the synthesized integer. -/
def onInts (f : Int64 → Int64 → Int64) (c : ActionCall Value) : Option Value :=
  match c.inherited, c.synthesized with
  | some (.int i), some (.int s) => some (.int (f i s))
  | _, _ => none

/-- Combines the inherited and the synthesized text. -/
def onTexts (f : String → String → String) (c : ActionCall Value) : Option Value :=
  match c.inherited, c.synthesized with
  | some (.text i), some (.text s) => some (.text (f i s))
  | _, _ => none

/-- The function that the name stands for. -/
def apply : ActionName → ActionCall Value → Option Value
  | matched, c => (Action.matched Value.ofText).apply c
  | synthesized, c => Action.synthesized.apply c
  | inherited, c => Action.inherited.apply c
  | pass, c => Action.pass.apply c
  | record, c =>
    some (.list [.ofText c.matched, .ofOption c.synthesized, .ofOption c.inherited,
      .list (c.extra.map fun g => .ofOption (g.map .ofText))])
  | append, c =>
    match c.inherited with
    | some (.text i) => some (.text (i ++ String.ofList c.matched))
    | _ => none
  | prepend, c => onTexts (fun i s => s ++ i) c
  | concat, c => onTexts (fun i s => i ++ s) c
  | push, c =>
    let before := match c.inherited with
      | some (.list vs) => vs
      | some v => [v]
      | none => []
    some (.list (before ++ [c.synthesized.getD (.ofText c.matched)]))
  | sum, c => onInts (· + ·) c
  | sub, c => onInts (· - ·) c
  | mul, c => onInts (· * ·) c
  | count, c =>
    match c.inherited with
    | none => some (.int 1)
    | some (.int n) => some (.int (n + 1))
    | _ => none
  | group n, c => (c.extra[n]?.join).map .ofText
  | const v, _ => some v

end ActionName

/-! ## Transforms and conditions -/

/-- The transforms that can be named. -/
inductive TransformName where
  | none | same
  | const (v : Option Value)
  /-- The list of the attribute alone. -/
  | wrap
  | inc
  /-- The text with an `x` in front. -/
  | x
deriving Repr

/-- The function that the name stands for. -/
def TransformName.apply : TransformName → Option Value → Option Value
  | .none, _ => .none
  | .same, a => a
  | .const v, _ => v
  | .wrap, a => some (.list [.ofOption a])
  | .inc, some (.int n) => some (.int (n + 1))
  | .x, some (.text s) => some (.text ("x" ++ s))
  | .inc, _ | .x, _ => .none

/-- The conditions that can be named. -/
inductive ConditionName where
  | isSome | isNone
  | equals (v : Option Value)
  /-- The attribute is an integer below the given one. -/
  | below (v : Option Value)
deriving Repr

/-- The function that the name stands for. -/
def ConditionName.apply : ConditionName → Option Value → Bool
  | isSome, a => a.isSome
  | isNone, a => a.isNone
  | equals v, a => a == v
  | below (some (.int n)), some (.int k) => k < n
  | below _, _ => false

/-! ## Operators -/

/-- The operators with two operands that can be named. -/
inductive BinaryName where
  /-- The list of the symbol and the operands. -/
  | tree
  | add | sub | mul | div | pow
  | floatAdd | floatSub | floatMul | floatDiv
deriving Repr

namespace BinaryName

/-- An operation on two integers; other operands are put into a list. -/
def onInts (f : Int64 → Int64 → Int64) : Value → Value → Value
  | .int m, .int n => .int (f m n)
  | l, r => .list [l, r]

/-- An operation on two floats. -/
def onFloats (f : Float → Float → Float) (l r : Value) : Value := .float (f l.toFloat r.toFloat)

/-- The power with an exponent that is limited to the numbers from 0 to 63. -/
def power (m n : Int64) : Int64 :=
  let e := if n < 0 then 0 else if 63 < n then 63 else n.toInt.toNat
  (List.range e).foldl (fun p _ => p * m) 1

/-- The function that the name stands for. -/
def apply (symbol : Text) : BinaryName → Value → Value → Value
  | tree, l, r => .list [.ofText symbol, l, r]
  | add, l, r => onInts (· + ·) l r
  | sub, l, r => onInts (· - ·) l r
  | mul, l, r => onInts (· * ·) l r
  | div, l, r => onInts (· / ·) l r
  | pow, l, r => onInts power l r
  | floatAdd, l, r => onFloats (· + ·) l r
  | floatSub, l, r => onFloats (· - ·) l r
  | floatMul, l, r => onFloats (· * ·) l r
  | floatDiv, l, r => onFloats (· / ·) l r

end BinaryName

/-- The operators with one operand that can be named. -/
inductive UnaryName where
  /-- The list of the symbol and the operand. -/
  | tree
  | neg
  | factorial
deriving Repr

/-- The function that the name stands for. -/
def UnaryName.apply (symbol : Text) : UnaryName → Value → Value
  | tree, v => .list [.ofText symbol, v]
  | neg, .int n => .int (-n)
  | neg, .float x => .float (-x)
  | neg, v => v
  | factorial, .int n =>
    let top := if n < 1 then 0 else if 25 < n then 25 else n.toInt.toNat
    .int ((List.range top).foldl (fun p k => p * Int64.ofNat (k + 1)) 1)
  | factorial, v => v

/-! ## Matching functions -/

/-- The matching functions that can be named. Except for the first and the last two, none matches at
an offset that is not a boundary of the text. -/
inductive MatcherName where
  | fail
  | empty
  | digits
  /-- Everything up to the end of the text. -/
  | rest
  /-- One character, which is also the attribute and the only group. -/
  | char
  /-- Nothing; the attribute is the inherited text in upper case. -/
  | upper
  /-- The inherited text once more. -/
  | again
  /-- Always matches, and goes a number of bytes forward, whatever the text is. -/
  | jump (n : Nat)
  /-- Always matches, and goes a number of bytes back. -/
  | back (n : Nat)
deriving Repr

namespace MatcherName

/-- The prefix of what follows an offset, of a known length. -/
def stretch (index : Nat) (t : Text) : Match Value := ⟨t, index + t.byteLength, none, []⟩

/-- The function that the name stands for. -/
def apply (f : MatcherName) (text : Text) (index : Nat) (inherited : Option Value) :
    Option (Match Value) :=
  match f with
  | fail => none
  | jump n => some ⟨"<jump>".toList, index + n, none, []⟩
  | back n => some ⟨"<back>".toList, index - n, none, []⟩
  | empty => (text.from? index).map fun _ => stretch index []
  | digits => do
    let ds := (← text.from? index).takeWhile Char.isDigit
    if ds.isEmpty then none else some (stretch index ds)
  | rest => (text.from? index).map (stretch index)
  | char =>
    match text.from? index with
    | some (c :: _) =>
      some { stretch index [c] with attr := some (.ofText [c]), extra := [none, some [c]] }
    | _ => none
  | upper => do
    let _ ← text.from? index
    let attr := match inherited with
      | some (.text s) => some (Value.ofText (s.toList.map Char.toUpper))
      | _ => none
    return { stretch index [] with attr := attr }
  | again => do
    let following ← text.from? index
    match inherited with
    | some (.text s) =>
      if s.toList.isPrefixOf following then some (stretch index s.toList) else none
    | _ => none

end MatcherName

end GrammarMachine
