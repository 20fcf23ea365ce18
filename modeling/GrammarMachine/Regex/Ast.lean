import GrammarMachine.Regex.CharSet.Named

/-!
# The syntax of regular expressions

`Regex.Ast` is a regular expression as it is written: groups, flags and classes in the places where
they stand, and properties by the names that they are given. `Regex.Error` lists what makes a source
invalid. `Ast.depth` is how deeply an expression is nested.
-/

namespace GrammarMachine

namespace Regex

/-- What makes the source of a regular expression invalid. -/
inductive Error where
  | unclosedGroup
  | unopenedGroup
  | unclosedClass
  | lookAround
  | groupName
  | duplicateGroupName
  | unknownFlag
  | duplicateFlag
  | danglingNegation
  | nothingToRepeat
  | repetitionCount
  | danglingEscape
  | unknownEscape
  | backReference
  | hexEscape
  | wordBoundary
  | classRange
  | classItem
  | unknownProperty
  | unicodeNotAllowed
  | invalidUtf8
  | nestedTooDeep
  | tooLarge
deriving Repr, DecidableEq

/-- The flags that may be set or unset inside an expression. -/
inductive Flag where
  | caseInsensitive | multiLine | dotAll | swapGreed | unicode | crlf | ignoreWhitespace
deriving Repr, DecidableEq

/-- The flags a group or a flag directive names, each with whether it is set. -/
abbrev FlagChanges := List (Flag × Bool)

/-- Positions that consume nothing. -/
inductive Assertion where
  | lineStart | lineEnd | textStart | textEnd
  | wordBoundary | notWordBoundary
  | wordStart | wordEnd | wordStartHalf | wordEndHalf
deriving Repr, DecidableEq

/-- The classes with a letter of their own: `\d`, `\s`, `\w`. -/
inductive ShortClass where
  | digit | space | word
deriving Repr, DecidableEq

/-- The ways to name a property of characters. -/
inductive PropertyName where
  /-- By a single letter, as in `\pL`. -/
  | letter (c : Char)
  /-- By a name, as in `\p{Greek}`. -/
  | name (name : List Char)
  /-- By a value of it, as in `\p{Script=Greek}`. -/
  | value (property value : List Char)
deriving Repr, DecidableEq

/-- The set operations inside brackets. -/
inductive ClassOp where
  | inter | diff | symmDiff
deriving Repr, DecidableEq

/-- What brackets hold. -/
inductive ClassAst where
  | empty
  /-- A character; `isByte` if written by two hexadecimal digits. -/
  | char (c : Char) (isByte : Bool)
  | range (lo hi : Char) (loByte hiByte : Bool)
  | posix (set : CharSet) (negated : Bool)
  | short (k : ShortClass) (negated : Bool)
  | property (name : PropertyName) (negated : Bool)
  | bracket (negated : Bool) (body : ClassAst)
  | union (items : List ClassAst)
  | op (kind : ClassOp) (lhs rhs : ClassAst)
deriving Repr

/-- How a group takes part in the result. -/
inductive GroupKind where
  | capture (index : Nat)
  | plain (changes : FlagChanges)
deriving Repr, DecidableEq

/-- A regular expression as written. -/
inductive Ast where
  | empty
  | flags (changes : FlagChanges)
  | char (c : Char) (isByte : Bool)
  | dot
  | assertion (a : Assertion)
  | short (k : ShortClass) (negated : Bool)
  | property (name : PropertyName) (negated : Bool)
  | bracket (negated : Bool) (body : ClassAst)
  | repeated (min : Nat) (max : Option Nat) (greedy : Bool) (body : Ast)
  | group (kind : GroupKind) (body : Ast)
  | concat (parts : List Ast)
  | alternation (branches : List Ast)
deriving Repr

mutual

/-- How deeply brackets, unions and operations are nested. -/
def ClassAst.depth : ClassAst → Nat
  | .bracket _ body => body.depth + 1
  | .union items => ClassAst.depthList items + 1
  | .op _ lhs rhs => max lhs.depth rhs.depth + 1
  | _ => 0

/-- The deepest of the items. -/
def ClassAst.depthList : List ClassAst → Nat
  | [] => 0
  | a :: as => max a.depth (ClassAst.depthList as)

end

mutual

/-- How deeply groups, repetitions, sequences, choices and brackets are nested. -/
def Ast.depth : Ast → Nat
  | .bracket _ body => body.depth + 1
  | .repeated _ _ _ body => body.depth + 1
  | .group _ body => body.depth + 1
  | .concat parts => Ast.depthList parts + 1
  | .alternation branches => Ast.depthList branches + 1
  | _ => 0

/-- The deepest of the parts. -/
def Ast.depthList : List Ast → Nat
  | [] => 0
  | a :: as => max a.depth (Ast.depthList as)

end

/-- The sequence of parts: nothing, the only part, or all of them in order. -/
def Ast.ofParts : List Ast → Ast
  | [] => .empty
  | [a] => a
  | as => .concat as

/-- The choice between branches: the only branch, or all of them in order. -/
def Ast.ofBranches : List Ast → Ast
  | [] => .empty
  | [a] => a
  | as => .alternation as

/-- The union of items: nothing, the only item, or all of them. -/
def ClassAst.ofItems : List ClassAst → ClassAst
  | [] => .empty
  | [a] => a
  | as => .union as

end Regex

end GrammarMachine
