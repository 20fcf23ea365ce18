import GrammarMachine.Interval

/-!
# Tables of character ranges

Properties of characters are tables of code point ranges. A table is written as text, ranges in
hexadecimal separated by blanks or line breaks: `41-5A` is a run, `100-12E/2` every second code
point of one, and `AA` a single code point.
-/

namespace GrammarMachine

namespace Unicode

/-- The number that hexadecimal digits write; other characters count as zero. -/
def hexNat (ds : List Char) : Nat :=
  ds.foldl (fun n d => n * 16 + hexDigit d) 0
where
  /-- The value of one hexadecimal digit. -/
  hexDigit (d : Char) : Nat :=
    if d.isDigit then d.toNat - '0'.toNat
    else if 'A' ≤ d ∧ d ≤ 'F' then d.toNat - 'A'.toNat + 10
    else if 'a' ≤ d ∧ d ≤ 'f' then d.toNat - 'a'.toNat + 10
    else 0

/-- The pieces of a text between the characters that separate them. -/
def pieces (separates : Char → Bool) : List Char → List (List Char)
  | [] => [[]]
  | c :: cs =>
    if separates c then [] :: pieces separates cs
    else match pieces separates cs with
      | p :: ps => (c :: p) :: ps
      | [] => [[c]]

/-- The fields of a table, which blanks and line breaks separate. -/
def fields (s : String) : List (List Char) :=
  (pieces Char.isWhitespace s.toList).filter fun field => !field.isEmpty

/-- The code points `first`, `first + stride`, … up to `last`. -/
structure CharRange where
  first : Nat
  last : Nat
  stride : Nat
deriving Repr, DecidableEq

namespace CharRange

def contains (r : CharRange) (c : Char) : Bool :=
  r.first ≤ c.toNat && c.toNat ≤ r.last && (c.toNat - r.first) % r.stride == 0

/-- The intervals of the range: one, or every code point on its own. -/
def intervals (r : CharRange) : List Interval :=
  if r.stride = 1 then [⟨r.first, r.last⟩]
  else (List.range ((r.last - r.first) / r.stride + 1)).map fun k =>
    Interval.single (r.first + k * r.stride)

/-- The range that one field of a table writes. -/
def ofField? (field : List Char) : Option CharRange :=
  match pieces (· == '/') field with
  | [run] => ofRun? run 1
  | [run, stride] => ofRun? run (hexNat stride)
  | _ => none
where
  /-- A single code point, or two joined by a hyphen. -/
  ofRun? (run : List Char) (stride : Nat) : Option CharRange :=
    match pieces (· == '-') run with
    | [a] => some ⟨hexNat a, hexNat a, stride⟩
    | [a, b] => some ⟨hexNat a, hexNat b, stride⟩
    | _ => none

end CharRange

/-- A set of characters as a list of ranges. -/
structure RangeTable where
  ranges : List CharRange

namespace RangeTable

/-- The table that a text writes. -/
def ofText (s : String) : RangeTable := ⟨(fields s).filterMap CharRange.ofField?⟩

def contains (t : RangeTable) (c : Char) : Bool := t.ranges.any (·.contains c)

/-- The intervals of all ranges. -/
def intervals (t : RangeTable) : List Interval := t.ranges.flatMap CharRange.intervals

end RangeTable

end Unicode

end GrammarMachine
