import GrammarMachine.Regex.CharSet.Named

/-!
# Meaning of regular expressions

A `Regex.Node` is a regular expression with its flags resolved: sets of characters, positions,
sequence, choice, repetition and numbered groups.

Nodes are built in a simplified form, by `ofSet`, `concat`, `choice` and `repeated`. A choice
between sets is a set, and what all its branches begin with is taken out in front of it. This
prefers a match by what is in front first, and only then by the branches: `a*?b|a*?ab` begins as
`a*?(?:b|ab)`.

* `Look.holds` decides a position from the characters on its two sides.
-/

namespace GrammarMachine

namespace Regex

/-- Positions in a text, told by the characters before and after. -/
inductive Look where
  | textStart | textEnd
  | lineStart | lineEnd
  | lineStartCrlf | lineEndCrlf
  | boundary (unicode : Bool)
  | notBoundary (unicode : Bool)
  | wordStart (unicode : Bool)
  | wordEnd (unicode : Bool)
  | wordStartHalf (unicode : Bool)
  | wordEndHalf (unicode : Bool)
deriving Repr, DecidableEq

namespace Look

/-- Whether there is a character on this side and it belongs to words. -/
def isWordAt (unicode : Bool) : Option Char → Bool
  | none => false
  | some c => if unicode then CharSet.word.contains c else CharSet.asciiWord.contains c

/-- Whether the position with these neighbours is of the kind. -/
def holds (look : Look) (before after : Option Char) : Bool :=
  match look with
  | textStart => before.isNone
  | textEnd => after.isNone
  | lineStart => before.isNone || before == some '\n'
  | lineEnd => after.isNone || after == some '\n'
  | lineStartCrlf =>
    before.isNone || before == some '\n' || (before == some '\r' && after != some '\n')
  | lineEndCrlf =>
    after.isNone || after == some '\r' || (after == some '\n' && before != some '\r')
  | boundary u => isWordAt u before != isWordAt u after
  | notBoundary u => isWordAt u before == isWordAt u after
  | wordStart u => !isWordAt u before && isWordAt u after
  | wordEnd u => isWordAt u before && !isWordAt u after
  | wordStartHalf u => !isWordAt u before
  | wordEndHalf u => !isWordAt u after

end Look

/-- A regular expression with its flags resolved. -/
inductive Node where
  | empty
  /-- A character of the set. -/
  | char (s : CharSet)
  /-- As `char`, for a set with other than one character, all ASCII, that was written outside the
  Unicode mode. -/
  | asciiChar (s : CharSet)
  | look (l : Look)
  | seq (a b : Node)
  | alt (a b : Node)
  | loop (body : Node) (min : Nat) (max : Option Nat) (greedy : Bool)
  | group (index : Nat) (body : Node)
deriving Repr, DecidableEq

/-- The ways to go through a text. -/
inductive Direction where
  | forward | backward
deriving Repr, DecidableEq

namespace Node

/-- Whether the node consumes no character in any match. -/
def isZeroWidth : Node → Bool
  | empty | look _ => true
  | char _ | asciiChar _ => false
  | seq a b | alt a b => a.isZeroWidth && b.isZeroWidth
  | loop body _ max _ => body.isZeroWidth || max == some 0
  | group _ body => body.isZeroWidth

/-- The highest index of a group in the node. -/
def groupCount : Node → Nat
  | empty | char _ | asciiChar _ | look _ => 0
  | seq a b | alt a b => Nat.max a.groupCount b.groupCount
  | loop body _ _ _ => body.groupCount
  | group i body => Nat.max i body.groupCount

/-- Whether every match passes a position of the given kind before it consumes anything, seen in the
given direction. -/
def begins (direction : Direction) (l : Look) : Node → Bool
  | look k => k == l
  | seq a b =>
    match direction with
    | .forward => a.begins direction l || (a.isZeroWidth && b.begins direction l)
    | .backward => b.begins direction l || (b.isZeroWidth && a.begins direction l)
  | alt a b => a.begins direction l && b.begins direction l
  | loop body min _ _ => min != 0 && body.begins direction l
  | group _ body => body.begins direction l
  | _ => false

/-- Whether every match of the node starts at the start of the text. -/
def isAnchored (n : Node) : Bool := n.begins .forward .textStart

/-! ## Sets -/

/-- A character of a set, written in the Unicode mode or outside of it. -/
def ofSet (s : CharSet) (unicode : Bool) : Node :=
  if s.isEmpty then asciiChar s else if unicode || s.isSingle then char s else asciiChar s

/-- Whether the node is one certain character. -/
def isLiteral : Node → Bool
  | char s => s.isSingle
  | _ => false

/-- The set of a node that is one. -/
def set? : Node → Option CharSet
  | char s | asciiChar s => some s
  | _ => none

/-! ## Sequences -/

/-- The parts of a sequence. -/
def parts : Node → List Node
  | empty => []
  | seq a b => a.parts ++ b.parts
  | n => [n]

/-- The sequence of parts. -/
def ofParts : List Node → Node
  | [] => empty
  | [a] => a
  | a :: as => seq a (ofParts as)

/-- The sequence of nodes. -/
def concat (ns : List Node) : Node := ofParts (ns.flatMap parts)

/-- The parts of a sequence, neighbouring characters taken together as one text. -/
def chunks (n : Node) : List (List Node) :=
  n.parts.splitBy fun a b => a.isLiteral && b.isLiteral

/-! ## Choices -/

/-- The branches of a choice. -/
def branches : Node → List Node
  | alt a b => a.branches ++ b.branches
  | n => [n]

/-- The choice between branches, the first one preferred. -/
def ofBranches : List Node → Node
  | [] => asciiChar .empty
  | [a] => a
  | a :: as => alt a (ofBranches as)

/-- The union of branches that are all characters, or all other sets. -/
def setOfBranches? (bs : List Node) : Option CharSet :=
  if bs.all isLiteral || bs.all (!·.isLiteral) then
    (bs.mapM set?).map fun ss => ss.foldr .union .empty
  else none

/-- The choice between nodes, as a set if it is one. -/
def anyOf (ns : List Node) : Node :=
  match ns.flatMap branches with
  | [n] => n
  | bs =>
    match setOfBranches? bs with
    | some s => ofSet s true
    | none => ofBranches bs

/-- What two lists begin with alike. -/
def commonPrefix : List (List Node) → List (List Node) → List (List Node)
  | a :: as, b :: bs => if a = b then a :: commonPrefix as bs else []
  | _, _ => []

/-- The chunks that all branches begin with; none unless every branch has several chunks. -/
def sharedPrefix (bs : List Node) : List (List Node) :=
  match bs.map chunks with
  | [] | [_] => []
  | cs :: css => if (cs :: css).all (1 < ·.length) then css.foldl commonPrefix cs else []

/-- The choice between nodes, the first one preferred, after what all of them begin with. -/
def choice (ns : List Node) : Node :=
  let bs := ns.flatMap branches
  let shared := sharedPrefix bs
  if shared.isEmpty then anyOf bs
  else
    let rest (b : Node) : Node := concat (b.chunks.drop shared.length).flatten
    concat (shared.flatten ++ [anyOf (bs.map rest)])

/-! ## Repetitions -/

/-- Repetition within bounds. A body that consumes nothing is repeated at most once; nothing is left
of a body that is repeated no times. -/
def repeated (body : Node) (min : Nat) (max : Option Nat) (greedy : Bool) : Node :=
  let (min, max) :=
    if body.isZeroWidth then (Nat.min min 1, some (Nat.min (max.getD 1) 1)) else (min, max)
  if max = some 0 then empty
  else if min = 1 ∧ max = some 1 then body
  else loop body min max greedy

end Node

end Regex

end GrammarMachine
