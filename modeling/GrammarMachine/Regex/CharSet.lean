import GrammarMachine.Interval
import GrammarMachine.Unicode.CaseFolding

/-!
# Character sets

The sets of characters that classes of a regular expression describe. A set is the ascending list of
its intervals of code points, so that equal sets are equal lists and a set has a size. Complements
and differences step over the code points that are no characters.
-/

namespace GrammarMachine

/-- A set of characters, as ascending intervals that neither overlap nor touch. -/
structure CharSet where
  intervals : List Interval
deriving Repr, DecidableEq

namespace CharSet

def ofIntervals (is : List Interval) : CharSet := ⟨Interval.normalize is⟩

def empty : CharSet := ⟨[]⟩

/-- Every character. -/
def any : CharSet := ⟨[⟨0, 0x10FFFF⟩]⟩

/-- The characters from one to another. -/
def range (lo hi : Char) : CharSet := ⟨[⟨lo.toNat, hi.toNat⟩]⟩

def single (c : Char) : CharSet := range c c

/-- The characters of a text. -/
def ofList (cs : List Char) : CharSet :=
  ofIntervals (cs.map fun c => Interval.single c.toNat)

/-- The union of ranges. -/
def ofRanges (rs : List (Char × Char)) : CharSet :=
  ofIntervals (rs.map fun r => ⟨r.1.toNat, r.2.toNat⟩)

/-- The characters of some tables. -/
def ofTables (ts : List Unicode.RangeTable) : CharSet :=
  ofIntervals (ts.flatMap Unicode.RangeTable.intervals)

/-- Whether the character is in the set. -/
def contains (s : CharSet) (c : Char) : Bool := s.intervals.any (·.contains c.toNat)

def isEmpty (s : CharSet) : Bool := s.intervals.isEmpty

/-- Whether the set has just one character. -/
def isSingle (s : CharSet) : Bool :=
  match s.intervals with
  | [i] => i.lo == i.hi
  | _ => false

/-- Whether no code point from 128 on is in the set. -/
def isAscii (s : CharSet) : Bool := s.intervals.all (·.hi < 128)

/-! ## Operations -/

/-- The code point after one, surrogates left out. -/
def next (n : Nat) : Nat := if n = 0xD7FF then 0xE000 else n + 1

/-- The code point before one, surrogates left out. -/
def previous (n : Nat) : Nat := if n = 0xE000 then 0xD7FF else n - 1

def union (s t : CharSet) : CharSet := ⟨s.intervals.foldr Interval.insert t.intervals⟩

def inter (s t : CharSet) : CharSet := ⟨Interval.inter s.intervals t.intervals⟩

/-- The intervals that follow `i`, the one before them, up to the last code point. Between two
intervals with surrogates only between them lie the two characters at their ends. -/
def gapsAfter (i : Interval) : List Interval → List Interval
  | [] => if i.hi < 0x10FFFF then [⟨next i.hi, 0x10FFFF⟩] else []
  | j :: js =>
    let lo := next i.hi
    let hi := previous j.lo
    ⟨Nat.min lo hi, Nat.max lo hi⟩ :: gapsAfter j js

/-- The characters that are not in the set. -/
def compl (s : CharSet) : CharSet :=
  match s.intervals with
  | [] => any
  | i :: is => ⟨(if 0 < i.lo then [⟨0, previous i.lo⟩] else []) ++ gapsAfter i is⟩

/-- What is left of the first interval without the second. -/
def minus (i j : Interval) : List Interval :=
  if (i.inter? j).isNone then [i]
  else
    (if i.lo < j.lo then [⟨i.lo, previous j.lo⟩] else []) ++
      (if j.hi < i.hi then [⟨next j.hi, i.hi⟩] else [])

/-- The characters of the first set that are not in the second. -/
def diff (s t : CharSet) : CharSet :=
  ⟨t.intervals.foldl (fun is j => is.flatMap (minus · j)) s.intervals⟩

/-- The characters that are in exactly one of two sets. -/
def symmDiff (s t : CharSet) : CharSet := diff (union s t) (inter s t)

/-- All characters that are in the set up to case. -/
def foldCase (s : CharSet) : CharSet :=
  union (ofIntervals (Unicode.caseVariants s.intervals)) s

/-- As `foldCase`, for the case of ASCII letters only. -/
def foldAsciiCase (s : CharSet) : CharSet :=
  let upper := (s.inter (range 'A' 'Z')).intervals.map fun i => ⟨i.lo + 32, i.hi + 32⟩
  let lower := (s.inter (range 'a' 'z')).intervals.map fun i => ⟨i.lo - 32, i.hi - 32⟩
  union ⟨upper⟩ (union ⟨lower⟩ s)

end CharSet

end GrammarMachine
