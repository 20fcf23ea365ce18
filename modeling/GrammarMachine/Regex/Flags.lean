import GrammarMachine.Regex.Ast
import GrammarMachine.Regex.Node

/-!
# Resolution of flags

`Ast.node` gives the node of an expression as written, under the flags in force where it stands. It
refuses expressions that could match a part of a character: outside the Unicode mode all sets hold
ASCII only, so a complement would hold single bytes of other characters. An `Alphabet` gives what
the names of sets stand for in the Unicode mode.
-/

namespace GrammarMachine

namespace Regex

/-- The flags in force at a place of an expression. -/
structure Flags where
  caseInsensitive : Bool := false
  multiLine : Bool := false
  dotAll : Bool := false
  swapGreed : Bool := false
  unicode : Bool := true
  crlf : Bool := false
deriving Repr, DecidableEq

/-- What the names of sets stand for in the Unicode mode, and which characters differ in case
alone. -/
structure Alphabet where
  digit : CharSet
  space : CharSet
  word : CharSet
  /-- The characters with a property; absent if there is none of that name. -/
  property? : PropertyName → Option CharSet
  /-- The characters that are in the set up to case. -/
  foldCase : CharSet → CharSet

namespace Flags

def set (f : Flags) : Flag × Bool → Flags
  | (.caseInsensitive, b) => { f with caseInsensitive := b }
  | (.multiLine, b) => { f with multiLine := b }
  | (.dotAll, b) => { f with dotAll := b }
  | (.swapGreed, b) => { f with swapGreed := b }
  | (.unicode, b) => { f with unicode := b }
  | (.crlf, b) => { f with crlf := b }
  | (.ignoreWhitespace, _) => f

def apply (f : Flags) (changes : FlagChanges) : Flags := changes.foldl set f

/-- The position that an assertion means under the flags. -/
def look (f : Flags) : Assertion → Look
  | .textStart => .textStart
  | .textEnd => .textEnd
  | .lineStart =>
    if f.multiLine then (if f.crlf then .lineStartCrlf else .lineStart) else .textStart
  | .lineEnd =>
    if f.multiLine then (if f.crlf then .lineEndCrlf else .lineEnd) else .textEnd
  | .wordBoundary => .boundary f.unicode
  | .notWordBoundary => .notBoundary f.unicode
  | .wordStart => .wordStart f.unicode
  | .wordEnd => .wordEnd f.unicode
  | .wordStartHalf => .wordStartHalf f.unicode
  | .wordEndHalf => .wordEndHalf f.unicode

/-- Closes a set under change of case where the flags ask for it. -/
def fold (f : Flags) (al : Alphabet) (s : CharSet) : CharSet :=
  if f.caseInsensitive then (if f.unicode then al.foldCase s else s.foldAsciiCase) else s

/-- The complement of a set that is negated; there is none outside the Unicode mode. -/
def negate (f : Flags) (negated : Bool) (s : CharSet) : Except Error CharSet :=
  if !negated then .ok s else if f.unicode then .ok s.compl else .error .invalidUtf8

/-- The set of a class letter; outside the Unicode mode it holds ASCII only. -/
def shortSet (f : Flags) (al : Alphabet) : ShortClass → CharSet
  | .digit => if f.unicode then al.digit else .asciiDigit
  | .space => if f.unicode then al.space else .asciiSpace
  | .word => if f.unicode then al.word else .asciiWord

/-- The set of a property, which can be named in the Unicode mode only. -/
def propertySet (f : Flags) (al : Alphabet) (p : PropertyName) (negated : Bool) :
    Except Error CharSet :=
  if f.unicode then
    match al.property? p with
    | some s => f.negate negated (f.fold al s)
    | none => .error .unknownProperty
  else .error .unicodeNotAllowed

/-- A character of a class, which outside the Unicode mode is ASCII. -/
def classChar (f : Flags) (c : Char) (isByte : Bool) : Except Error Char :=
  if f.unicode || c.toNat < 128 then .ok c
  else .error (if isByte then .invalidUtf8 else .unicodeNotAllowed)

/-- A character outside classes. -/
def literal (f : Flags) (al : Alphabet) (c : Char) (isByte : Bool) : Except Error Node :=
  if f.unicode || c.toNat < 128 then .ok (.ofSet (f.fold al (.single c)) f.unicode)
  else if isByte then .error .invalidUtf8
  else .ok (.char (.single c))

/-- The characters that a dot stands for. -/
def dot (f : Flags) : Except Error CharSet :=
  f.negate true (if f.dotAll then .empty else .ofList (if f.crlf then ['\r', '\n'] else ['\n']))

end Flags

mutual

/-- The set that the content of brackets denotes. -/
def ClassAst.set (al : Alphabet) (f : Flags) : ClassAst → Except Error CharSet
  | .empty => .ok .empty
  | .char c isByte => (f.classChar c isByte).map .single
  | .range lo hi loByte hiByte => do
    return .range (← f.classChar lo loByte) (← f.classChar hi hiByte)
  | .posix s negated => f.negate negated (f.fold al s)
  | .short k negated => f.negate negated (f.shortSet al k)
  | .property p negated => f.propertySet al p negated
  | .bracket negated body => do f.negate negated (f.fold al (← body.set al f))
  | .union items => ClassAst.setList al f items
  | .op kind lhs rhs => do
    let l := f.fold al (← lhs.set al f)
    let r := f.fold al (← rhs.set al f)
    return match kind with
      | .inter => l.inter r
      | .diff => l.diff r
      | .symmDiff => l.symmDiff r

/-- The union of the sets of the items. -/
def ClassAst.setList (al : Alphabet) (f : Flags) : List ClassAst → Except Error CharSet
  | [] => .ok .empty
  | a :: as => do return .union (← a.set al f) (← ClassAst.setList al f as)

end

mutual

/-- The node of an expression, and the flags in force after it. -/
def Ast.node (al : Alphabet) (f : Flags) : Ast → Except Error (Node × Flags)
  | .empty => .ok (.empty, f)
  | .flags changes => .ok (.empty, f.apply changes)
  | .char c isByte => (f.literal al c isByte).map (·, f)
  | .dot => do return (.ofSet (← f.dot) f.unicode, f)
  | .assertion a => .ok (.look (f.look a), f)
  | .short k negated => do return (.ofSet (← f.negate negated (f.shortSet al k)) f.unicode, f)
  | .property p negated => do return (.ofSet (← f.propertySet al p negated) f.unicode, f)
  | .bracket negated body => do
    return (.ofSet (← f.negate negated (f.fold al (← body.set al f))) f.unicode, f)
  | .repeated min max greedy body => do
    let (n, f') ← body.node al f
    return (n.repeated min max (greedy != f.swapGreed), f')
  | .group (.capture i) body => do
    let (n, _) ← body.node al f
    return (.group i n, f)
  | .group (.plain changes) body => do
    let (n, _) ← body.node al (f.apply changes)
    return (n, f)
  | .concat parts => do
    let (ns, f') ← Ast.nodes al f parts
    return (.concat ns, f')
  | .alternation branches => do
    let (ns, f') ← Ast.nodes al f branches
    return (.choice ns, f')

/-- The nodes of expressions in order, each under the flags left by the one before. -/
def Ast.nodes (al : Alphabet) (f : Flags) : List Ast → Except Error (List Node × Flags)
  | [] => .ok ([], f)
  | a :: as => do
    let (n, f) ← a.node al f
    let (ns, f) ← Ast.nodes al f as
    return (n :: ns, f)

end

end Regex

end GrammarMachine
