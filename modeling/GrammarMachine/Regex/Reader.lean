import GrammarMachine.Regex.Ast

/-!
# Reading regular expressions

`Ast.read` turns a source into its syntax. Two loops with an explicit stack do the work, one for
groups and one for bracketed classes; each turn of a loop consumes at least one character, so the
length of the source bounds the number of turns. Everything else reads one element and returns what
follows it.

In the mode that ignores white space, blanks and comments may stand between any two elements, and
also inside numbers and names of elements; `skip` passes over them.
-/

namespace GrammarMachine

namespace Regex

namespace Reader

/-- Drops white space and, from a number sign to the end of the line, comments. -/
def dropBlank : Bool → List Char → List Char
  | _, [] => []
  | true, c :: cs => dropBlank (c != '\n') cs
  | false, c :: cs =>
    if Unicode.isWhitespace c then dropBlank false cs
    else if c = '#' then dropBlank true cs
    else c :: cs

/-- What follows the blanks and comments, in the mode that ignores them. -/
def skip (ignoring : Bool) (cs : List Char) : List Char :=
  if ignoring then dropBlank false cs else cs

/-- The character with that code point. -/
def charOfNat? (n : Nat) : Option Char := if n.isValidChar then some (Char.ofNat n) else none

def isHexDigit (c : Char) : Bool :=
  c.isDigit || ('a' ≤ c && c ≤ 'f') || ('A' ≤ c && c ≤ 'F')

/-- Characters with a meaning of their own; a backslash takes it away. -/
def isMeta (c : Char) : Bool := "\\.+*?()|[]\x7b\x7d^$#&-~".toList.contains c

/-- Characters that a backslash may precede without need. -/
def isEscapable (c : Char) : Bool :=
  isMeta c || (c.toNat < 128 && !c.isAlphanum && c != '<' && c != '>')

/-! ## Escapes -/

/-- A fixed number of hexadecimal digits. -/
def hexDigits (ignoring : Bool) : Nat → List Char → List Char → Except Error (List Char × List Char)
  | 0, ds, cs => .ok (ds.reverse, cs)
  | n + 1, ds, c :: cs =>
    if isHexDigit c then hexDigits ignoring n (c :: ds) (skip ignoring cs) else .error .hexEscape
  | _ + 1, _, [] => .error .danglingEscape

/-- Hexadecimal digits up to a closing brace; `n` bounds their number. -/
def hexBraced (ignoring : Bool) : Nat → List Char → List Char → Except Error (List Char × List Char)
  | n + 1, ds, c :: cs =>
    if c = '\x7d' then .ok (ds.reverse, skip ignoring cs)
    else if isHexDigit c then hexBraced ignoring n (c :: ds) (skip ignoring cs)
    else .error .hexEscape
  | _, _, _ => .error .danglingEscape

/-- The digits of a code point after its letter: `width` of them, or any number in braces. The flag
is set if there are exactly two without braces. -/
def hexNumber (ignoring : Bool) (width : Nat) (cs : List Char) :
    Except Error ((List Char × Bool) × List Char) :=
  match skip ignoring cs with
  | [] => .error .danglingEscape
  | '\x7b' :: cs => do
    let (ds, cs) ← hexBraced ignoring (cs.length + 1) [] (skip ignoring cs)
    return ((ds, false), cs)
  | cs => do
    let (ds, cs) ← hexDigits ignoring width [] cs
    return ((ds, width == 2), cs)

/-- A code point in hexadecimal after its letter. -/
def hexEscape (ignoring : Bool) (width : Nat) (cs : List Char) :
    Except Error (Ast × List Char) := do
  let ((digits, isByte), cs) ← hexNumber ignoring width cs
  if digits.isEmpty then .error .hexEscape
  match charOfNat? (Unicode.hexNat digits) with
  | some c => .ok (.char c isByte, cs)
  | none => .error .hexEscape

/-- Characters up to a closing brace; `n` bounds their number. -/
def braced (ignoring : Bool) : Nat → List Char → List Char → Except Error (List Char × List Char)
  | n + 1, name, c :: cs =>
    if c = '\x7d' then .ok (name.reverse, cs)
    else braced ignoring n (c :: name) (skip ignoring cs)
  | _, _, _ => .error .danglingEscape

/-- Splits at the first separator: `!=`, else a colon, else an equals sign. The flag is set for the
first of these. -/
def splitProperty (name : List Char) : Option (List Char × List Char × Bool) :=
  match cutAt ['!', '='] name with
  | some (p, v) => some (p, v, true)
  | none => ((cutAt [':'] name).or (cutAt ['='] name)).map fun (p, v) => (p, v, false)
where
  /-- What stands before and after the first occurrence of a separator. -/
  cutAt (sep : List Char) : List Char → Option (List Char × List Char)
    | [] => none
    | c :: cs =>
      if sep.isPrefixOf (c :: cs) then some ([], (c :: cs).drop sep.length)
      else (cutAt sep cs).map fun (p, v) => (c :: p, v)

/-- The property that is named in braces, and whether its complement is meant. -/
def propertyName (name : List Char) : PropertyName × Bool :=
  match splitProperty name with
  | some (p, v, unequal) => (.value p v, unequal)
  | none => (.name name, false)

/-- A property after its letter: a name in braces, or a single letter. -/
def propertyEscape (ignoring negated : Bool) (cs : List Char) : Except Error (Ast × List Char) :=
  match skip ignoring cs with
  | [] => .error .danglingEscape
  | '\x7b' :: cs => do
    let (name, cs) ← braced ignoring (cs.length + 1) [] (skip ignoring cs)
    let (p, unequal) := propertyName name
    return (.property p (negated != unequal), cs)
  | '\\' :: _ => .error .unknownProperty
  | c :: cs => .ok (.property (.letter c) negated, skip ignoring cs)

/-- The kind of word boundary named in braces, if braces with a name follow. -/
def wordBoundary (ignoring : Bool) (cs : List Char) : Except Error (Assertion × List Char) :=
  match cs with
  | '\x7b' :: inner =>
    match skip ignoring inner with
    | [] => .error .wordBoundary
    | c :: inner =>
      if isNameChar c then do
        let (name, rest) ← boundaryName (inner.length + 1) [] (c :: inner)
        match String.ofList name with
        | "start" => .ok (.wordStart, rest)
        | "end" => .ok (.wordEnd, rest)
        | "start-half" => .ok (.wordStartHalf, rest)
        | "end-half" => .ok (.wordEndHalf, rest)
        | _ => .error .wordBoundary
      else .ok (.wordBoundary, cs)
  | _ => .ok (.wordBoundary, cs)
where
  isNameChar (c : Char) : Bool := c.isAlpha || c == '-'
  /-- The name up to the closing brace; `n` bounds its length. -/
  boundaryName : Nat → List Char → List Char → Except Error (List Char × List Char)
    | n + 1, name, c :: cs =>
      if c = '\x7d' then .ok (name.reverse, cs)
      else if isNameChar c then boundaryName n (c :: name) (skip ignoring cs)
      else .error .wordBoundary
    | _, _, _ => .error .wordBoundary

/-- What stands after a backslash. -/
def escape (ignoring : Bool) : List Char → Except Error (Ast × List Char)
  | [] => .error .danglingEscape
  | c :: cs =>
    match c with
    | 'x' => hexEscape ignoring 2 cs
    | 'u' => hexEscape ignoring 4 cs
    | 'U' => hexEscape ignoring 8 cs
    | 'p' => propertyEscape ignoring false cs
    | 'P' => propertyEscape ignoring true cs
    | 'd' => .ok (.short .digit false, cs)
    | 's' => .ok (.short .space false, cs)
    | 'w' => .ok (.short .word false, cs)
    | 'D' => .ok (.short .digit true, cs)
    | 'S' => .ok (.short .space true, cs)
    | 'W' => .ok (.short .word true, cs)
    | 'a' => .ok (.char '\x07' false, cs)
    | 'f' => .ok (.char '\x0c' false, cs)
    | 't' => .ok (.char '\t' false, cs)
    | 'n' => .ok (.char '\n' false, cs)
    | 'r' => .ok (.char '\r' false, cs)
    | 'v' => .ok (.char '\x0b' false, cs)
    | 'A' => .ok (.assertion .textStart, cs)
    | 'z' => .ok (.assertion .textEnd, cs)
    | 'B' => .ok (.assertion .notWordBoundary, cs)
    | '<' => .ok (.assertion .wordStart, cs)
    | '>' => .ok (.assertion .wordEnd, cs)
    | 'b' => (wordBoundary ignoring cs).map fun (a, cs) => (.assertion a, cs)
    | _ =>
      if c.isDigit then .error .backReference
      else if isEscapable c then .ok (.char c false, cs)
      else .error .unknownEscape

/-! ## Classes -/

/-- An unfinished part of a bracketed class: an open bracket with the items before it, or the left
side of a set operation. -/
inductive ClassFrame where
  | opened (outer : List ClassAst) (negated : Bool)
  | pending (kind : ClassOp) (lhs : ClassAst)

/-- Completes the set operation that waits for its right side, if there is one. -/
def closeOp (rhs : ClassAst) : List ClassFrame → ClassAst × List ClassFrame
  | .pending kind lhs :: stack => (.op kind lhs rhs, stack)
  | stack => (rhs, stack)

/-- The start of a class after its bracket: a caret negates; then hyphens, or else one closing
bracket, stand for themselves. -/
def classStart (ignoring : Bool) (cs : List Char) :
    Except Error ((Bool × List ClassAst) × List Char) :=
  match skip ignoring cs with
  | [] => .error .unclosedClass
  | '^' :: cs =>
    match skip ignoring cs with
    | [] => .error .unclosedClass
    | cs => (literals cs.length [] cs).map fun (items, cs) => ((true, items), cs)
  | cs => (literals cs.length [] cs).map fun (items, cs) => ((false, items), cs)
where
  /-- Hyphens, or one closing bracket; `n` bounds their number. -/
  literals : Nat → List ClassAst → List Char → Except Error (List ClassAst × List Char)
    | n + 1, items, '-' :: cs => literals n (.char '-' false :: items) (skip ignoring cs)
    | _, [], ']' :: cs =>
      match skip ignoring cs with
      | [] => .error .unclosedClass
      | cs => .ok ([.char ']' false], cs)
    | _, _, [] => .error .unclosedClass
    | _, items, cs => .ok (items, cs)

/-- A named set between `[:` and `:]`, after its bracket; absent if there is none. -/
def posixClass? : List Char → Option (ClassAst × List Char)
  | ':' :: '^' :: cs => named true cs
  | ':' :: cs => named false cs
  | _ => none
where
  named (negated : Bool) (cs : List Char) : Option (ClassAst × List Char) :=
    match cs.dropWhile (· != ':') with
    | ':' :: ']' :: rest =>
      (CharSet.posixNamed? (cs.takeWhile (· != ':'))).map fun s => (.posix s negated, rest)
    | _ => none

/-- One element of a class: an escape or a character. -/
def classAtom (ignoring : Bool) : List Char → Except Error (Ast × List Char)
  | '\\' :: cs => escape ignoring cs
  | c :: cs => .ok (.char c false, cs)
  | [] => .error .unclosedClass

/-- The element as an item of a class. -/
def classItem : Ast → Except Error ClassAst
  | .char c isByte => .ok (.char c isByte)
  | .short k negated => .ok (.short k negated)
  | .property p negated => .ok (.property p negated)
  | _ => .error .classItem

/-- The character after the first one that is neither blank nor a number sign, in the mode that
ignores these. -/
def peek? (ignoring : Bool) (cs : List Char) : Option Char :=
  if ignoring then
    let rest := (cs.drop 1).dropWhile Unicode.isWhitespace
    match rest with
    | '#' :: rest => ((rest.dropWhile Unicode.isWhitespace).head?).or (cs.drop 1).head?
    | c :: _ => some c
    | [] => (cs.drop 1).head?
  else (cs.drop 1).head?

/-- The range from an element to the one behind the hyphen. -/
def rangeFrom (ignoring : Bool) (first : Ast) (cs : List Char) :
    Except Error (ClassAst × List Char) :=
  match skip ignoring cs with
  | [] => .error .unclosedClass
  | cs => do
    let (last, cs) ← classAtom ignoring cs
    match first, last with
    | .char lo loByte, .char hi hiByte =>
      if lo ≤ hi then return (.range lo hi loByte hiByte, cs) else .error .classRange
    | _, _ => .error .classRange

/-- An item of a class, or a range of characters. -/
def classRange (ignoring : Bool) (cs : List Char) : Except Error (ClassAst × List Char) := do
  let (first, cs) ← classAtom ignoring cs
  let cs := skip ignoring cs
  match cs with
  | [] => .error .unclosedClass
  | '-' :: rest =>
    if peek? ignoring cs = some ']' || peek? ignoring cs = some '-' then
      return (← classItem first, cs)
    else rangeFrom ignoring first rest
  | _ => return (← classItem first, cs)

/-- The set operation at the front, which is a character written twice, and what follows it. -/
def operator? : List Char → Option (ClassOp × List Char)
  | c :: d :: cs => if c = d then (named? c).map (·, cs) else none
  | _ => none
where
  named? : Char → Option ClassOp
    | '&' => some .inter
    | '-' => some .diff
    | '~' => some .symmDiff
    | _ => none

/-- The rest of a bracketed class. `items` are the items of the innermost bracket so far, latest
first; every turn consumes a character, so the fuel `n` can be the number of characters. -/
def classLoop (ignoring : Bool) :
    Nat → List ClassFrame → List ClassAst → List Char → Except Error (ClassAst × List Char)
  | 0, _, _, _ => .error .unclosedClass
  | n + 1, stack, items, cs =>
    match skip ignoring cs with
    | [] => .error .unclosedClass
    | '[' :: cs =>
      match posixClass? cs with
      | some (item, cs) => classLoop ignoring n stack (item :: items) cs
      | none => do
        let ((negated, inner), cs) ← classStart ignoring cs
        classLoop ignoring n (.opened items negated :: stack) inner cs
    | ']' :: cs =>
      match closeOp (.ofItems items.reverse) stack with
      | (body, .opened _ negated :: []) => .ok (.bracket negated body, cs)
      | (body, .opened outer negated :: stack) =>
        classLoop ignoring n stack (.bracket negated body :: outer) cs
      | _ => .error .unclosedClass
    | cs =>
      match operator? cs with
      | some (kind, cs) =>
        let (lhs, stack) := closeOp (.ofItems items.reverse) stack
        classLoop ignoring n (.pending kind lhs :: stack) [] cs
      | none => do
        let (item, cs) ← classRange ignoring cs
        classLoop ignoring n stack (item :: items) cs

/-- A bracketed class after its opening bracket. -/
def bracketed (ignoring : Bool) (cs : List Char) : Except Error (Ast × List Char) := do
  let ((negated, items), rest) ← classStart ignoring cs
  match ← classLoop ignoring (cs.length + 1) [.opened [] negated] items rest with
  | (.bracket negated body, rest) => return (.bracket negated body, rest)
  | _ => .error .unclosedClass

/-! ## Repetition -/

/-- A decimal number with white space around it. -/
def decimal (ignoring : Bool) (cs : List Char) : Except Error (Nat × List Char) :=
  let cs := cs.dropWhile Unicode.isWhitespace
  let (ds, cs) := digits cs.length [] cs
  if ds.isEmpty then .error .repetitionCount
  else
    let n := ds.foldl (fun n d => n * 10 + (d.toNat - '0'.toNat)) 0
    if n < Nat.pow 2 32 then .ok (n, skip ignoring (cs.dropWhile Unicode.isWhitespace))
    else .error .repetitionCount
where
  /-- The digits at the front; `n` bounds their number. -/
  digits : Nat → List Char → List Char → List Char × List Char
    | n + 1, ds, c :: cs =>
      if c.isDigit then digits n (c :: ds) (skip ignoring cs) else (ds.reverse, c :: cs)
    | _, ds, cs => (ds.reverse, cs)

/-- The upper bound of a counted repetition with the given lower bound: the same one unless a comma
follows, then the number behind the comma if there is one. -/
def upperBound (ignoring : Bool) (min : Nat) : List Char → Except Error (Option Nat × List Char)
  | ',' :: cs =>
    match skip ignoring cs with
    | '\x7d' :: cs => .ok (none, '\x7d' :: cs)
    | cs => (decimal ignoring cs).map fun (max, cs) => (some max, cs)
  | cs => .ok (some min, cs)

/-- The bounds of a counted repetition after the opening brace. -/
def bounds (ignoring : Bool) (cs : List Char) : Except Error ((Nat × Option Nat) × List Char) := do
  let (min, cs) ← decimal ignoring (skip ignoring cs)
  let (max, cs) ← upperBound ignoring min cs
  match cs with
  | '\x7d' :: cs =>
    if max.any (· < min) then .error .repetitionCount else .ok ((min, max), cs)
  | _ => .error .repetitionCount

/-- A question mark, which makes the repetition before it prefer fewer turns. -/
def greed : List Char → Bool × List Char
  | '?' :: cs => (false, cs)
  | cs => (true, cs)

/-! ## Groups -/

/-- The flag with that letter. -/
def flag? : Char → Option Flag
  | 'i' => some .caseInsensitive
  | 'm' => some .multiLine
  | 's' => some .dotAll
  | 'U' => some .swapGreed
  | 'u' => some .unicode
  | 'R' => some .crlf
  | 'x' => some .ignoreWhitespace
  | _ => none

/-- Flags up to a colon or a closing parenthesis, which is returned with them. The flags after a
hyphen are unset; `dangling` says that the hyphen was the last character read. -/
def flags (negated dangling : Bool) :
    FlagChanges → List Char → Except Error ((FlagChanges × Char) × List Char)
  | _, [] => .error .unclosedGroup
  | changes, c :: cs =>
    if c = ':' || c = ')' then
      if dangling then .error .danglingNegation else .ok ((changes.reverse, c), cs)
    else if c = '-' then
      if negated then .error .duplicateFlag else flags true true changes cs
    else match flag? c with
      | none => .error .unknownFlag
      | some f =>
        if changes.any (·.1 = f) then .error .duplicateFlag
        else flags negated false ((f, !negated) :: changes) cs

/-- The name of a group up to the closing angle bracket. -/
def groupName : List Char → List Char → Except Error (List Char × List Char)
  | _, [] => .error .groupName
  | name, c :: cs =>
    if c = '>' then if name.isEmpty then .error .groupName else .ok (name.reverse, cs)
    else if c = '_' || Unicode.isAlphabetic c ||
        (!name.isEmpty && (c = '.' || c = '[' || c = ']' || Unicode.isAlphanumeric c)) then
      groupName (c :: name) cs
    else .error .groupName

/-- What opens at a parenthesis. -/
inductive Opening where
  | directive (changes : FlagChanges)
  | unnamed
  | named (name : List Char)
  | plain (changes : FlagChanges)

/-- The name of a group, which captures. -/
def namedGroup (cs : List Char) : Except Error (Opening × List Char) :=
  (groupName [] cs).map fun (name, cs) => (.named name, cs)

/-- Flags, for what follows in the group or for a group of their own. -/
def flagged (cs : List Char) : Except Error (Opening × List Char) := do
  let ((changes, stop), cs) ← flags false false [] cs
  if stop = ':' then return (.plain changes, cs)
  if changes.isEmpty then .error .nothingToRepeat
  return (.directive changes, cs)

/-- What follows an opening parenthesis. -/
def opening : List Char → Except Error (Opening × List Char)
  | '?' :: cs => extension cs
  | cs => .ok (.unnamed, cs)
where
  /-- What follows the question mark. -/
  extension : List Char → Except Error (Opening × List Char)
    | '=' :: _ | '!' :: _ => .error .lookAround
    | '<' :: cs => angle cs
    | 'P' :: '<' :: cs => namedGroup cs
    | cs => flagged cs
  /-- What follows the angle bracket. -/
  angle : List Char → Except Error (Opening × List Char)
    | '=' :: _ | '!' :: _ => .error .lookAround
    | cs => namedGroup cs

/-! ## Whole expressions -/

/-- A group that is still open: what precedes it in the enclosing group, and the mode there. -/
structure Frame where
  parts : List Ast
  branches : List Ast
  kind : GroupKind
  ignoring : Bool

/-- The state between two elements. Parts and branches are those of the innermost group, latest
first. -/
structure State where
  stack : List Frame
  parts : List Ast
  branches : List Ast
  ignoring : Bool
  captures : Nat
  names : List (List Char)

namespace State

def start : State := ⟨[], [], [], false, 0, []⟩

/-- The content of the innermost group. -/
def content (s : State) : Ast :=
  .ofBranches ((.ofParts s.parts.reverse :: s.branches).reverse)

def push (s : State) (a : Ast) : State := { s with parts := a :: s.parts }

/-- Enters a group. -/
def enter (s : State) (kind : GroupKind) (ignoring : Bool) : State :=
  { s with
    stack := ⟨s.parts, s.branches, kind, s.ignoring⟩ :: s.stack
    parts := []
    branches := []
    ignoring := ignoring }

/-- Repeats the last element. -/
def repeatLast (s : State) (min : Nat) (max : Option Nat) (greedy : Bool) : Except Error State :=
  match s.parts with
  | [] | .flags _ :: _ => .error .nothingToRepeat
  | a :: parts => .ok { s with parts := .repeated min max greedy a :: parts }

/-- Continues after an opening parenthesis and what belongs to it. -/
def «open» (s : State) : Opening → Except Error State
  | .directive changes =>
    .ok { s.push (.flags changes) with
      ignoring := (changes.lookup .ignoreWhitespace).getD s.ignoring }
  | .unnamed =>
    .ok ({ s with captures := s.captures + 1 }.enter (.capture (s.captures + 1)) s.ignoring)
  | .named name =>
    if s.names.contains name then .error .duplicateGroupName
    else .ok ({ s with captures := s.captures + 1, names := name :: s.names }.enter
      (.capture (s.captures + 1)) s.ignoring)
  | .plain changes =>
    .ok (s.enter (.plain changes) ((changes.lookup .ignoreWhitespace).getD s.ignoring))

/-- Leaves the innermost group. -/
def close (s : State) : Except Error State :=
  match s.stack with
  | [] => .error .unopenedGroup
  | f :: stack =>
    .ok { s with
      stack := stack
      parts := .group f.kind s.content :: f.parts
      branches := f.branches
      ignoring := f.ignoring }

end State

/-- Reads the element that begins with the character `c`, and what belongs to it. -/
def turn (s : State) (c : Char) (cs : List Char) : Except Error (State × List Char) :=
  match c with
  | '(' => do
    let (o, cs) ← opening (skip s.ignoring cs)
    return (← s.open o, cs)
  | ')' => do return (← s.close, cs)
  | '|' => .ok ({ s with parts := [], branches := .ofParts s.parts.reverse :: s.branches }, cs)
  | '[' => do
    let (a, cs) ← bracketed s.ignoring cs
    return (s.push a, cs)
  | '?' => do
    let (greedy, cs) := greed cs
    return (← s.repeatLast 0 (some 1) greedy, cs)
  | '*' => do
    let (greedy, cs) := greed cs
    return (← s.repeatLast 0 none greedy, cs)
  | '+' => do
    let (greedy, cs) := greed cs
    return (← s.repeatLast 1 none greedy, cs)
  | '\x7b' => do
    let _ ← s.repeatLast 0 none true
    let ((min, max), cs) ← bounds s.ignoring cs
    let (greedy, cs) := greed (skip s.ignoring cs)
    return (← s.repeatLast min max greedy, cs)
  | '\\' => do
    let (a, cs) ← escape s.ignoring cs
    return (s.push a, cs)
  | '.' => .ok (s.push .dot, cs)
  | '^' => .ok (s.push (.assertion .lineStart), cs)
  | '$' => .ok (s.push (.assertion .lineEnd), cs)
  | c => .ok (s.push (.char c false), cs)

/-- Reads elements until the source ends. Every turn consumes a character, so the fuel `n` can be
the number of characters. -/
def loop : Nat → State → List Char → Except Error Ast
  | 0, s, _ => finish s
  | n + 1, s, cs =>
    match skip s.ignoring cs with
    | [] => finish s
    | c :: cs => do
      let (s, cs) ← turn s c cs
      loop n s cs
where
  /-- The expression read, unless a group is still open. -/
  finish (s : State) : Except Error Ast :=
    if s.stack.isEmpty then .ok s.content else .error .unclosedGroup

end Reader

/-- Reads the source of a regular expression, which may be nested so deeply. -/
def Ast.read (maxDepth : Nat) (source : List Char) : Except Error Ast := do
  let a ← Reader.loop (source.length + 1) .start source
  if a.depth ≤ maxDepth then return a else .error .nestedTooDeep

end Regex

end GrammarMachine
