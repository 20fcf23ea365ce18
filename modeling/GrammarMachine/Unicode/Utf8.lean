import GrammarMachine.Interval

/-!
# Byte sequences of UTF-8

The encodings of the characters from one code point to another are described by sequences of byte
intervals. Any choice of one byte from each interval of a sequence encodes a character, and every
character is encoded by one sequence. `Utf8.sequences` gives the sequences in ascending order.
-/

namespace GrammarMachine

namespace Unicode

namespace Utf8

/-- Code points that take the same number of bytes. `trail` bytes follow the first one, which is
`lead` plus the high bits. -/
structure Block where
  range : Interval
  trail : Nat
  lead : Nat

/-- All code points of characters; there are none between the third and the fourth block. -/
def blocks : List Block :=
  [⟨⟨0, 0x7F⟩, 0, 0⟩, ⟨⟨0x80, 0x7FF⟩, 1, 0xC0⟩, ⟨⟨0x800, 0xD7FF⟩, 2, 0xE0⟩,
   ⟨⟨0xE000, 0xFFFF⟩, 2, 0xE0⟩, ⟨⟨0x10000, 0x10FFFF⟩, 3, 0xF0⟩]

/-- The sequences for an interval of numbers with `k` bytes after the first. A byte after the first
holds six bits. The numbers under the first and the last leading digit are split further unless
they are all there; the leading digits between them share one sequence. -/
def split (lead : Nat) : Nat → Interval → List (List Interval)
  | 0, i => [[⟨lead + i.lo, lead + i.hi⟩]]
  | k + 1, i =>
    let m := Nat.pow 64 (k + 1)
    let first := i.lo / m
    let last := i.hi / m
    let under (digit : Nat) (j : Interval) : List (List Interval) :=
      (split 0x80 k j).map (Interval.single (lead + digit) :: ·)
    if first = last then under first ⟨i.lo % m, i.hi % m⟩
    else
      let fromStart := i.lo % m = 0
      let toEnd := i.hi % m = m - 1
      let whole : Interval := ⟨if fromStart then first else first + 1,
        if toEnd then last else last - 1⟩
      (if fromStart then [] else under first ⟨i.lo % m, m - 1⟩) ++
        (if whole.lo ≤ whole.hi then
          [⟨lead + whole.lo, lead + whole.hi⟩ :: List.replicate (k + 1) ⟨0x80, 0xBF⟩]
        else []) ++
        (if toEnd then [] else under last ⟨0, i.hi % m⟩)

/-- The sequences for an interval of code points. -/
def sequences (i : Interval) : List (List Interval) :=
  blocks.flatMap fun b =>
    match i.inter? b.range with
    | some j => split b.lead b.trail j
    | none => []

end Utf8

end Unicode

end GrammarMachine
