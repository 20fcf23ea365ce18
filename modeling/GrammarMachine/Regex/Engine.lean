import GrammarMachine.Regex.Flags
import GrammarMachine.Regex.Search
import GrammarMachine.Regex.Size

/-!
# Engines for regular expressions

The syntax of regular expressions and what flags do to it are documented, and so the same for all
engines. An engine adds what is not: the sets that names stand for, which follow the Unicode data,
the limits on nesting and on size, and the search. Of the search an engine promises that a match
lies in the text between characters, and that an expression which begins with the start of the text
finds nothing behind it.

`Engine.standard` is the engine that programs run with. It knows the general categories, the scripts
Greek, Latin, Cyrillic and Han, and the properties `Any`, `ASCII`, `Alphabetic` and `White_Space`,
and refuses all other properties. The size of an expression is estimated.
-/

namespace GrammarMachine

namespace Regex

/-- What a regular expression found: the span, and the text of every group that took part, the whole
match first. -/
structure Found where
  start : Nat
  stop : Nat
  groups : List (Option Text)
deriving Repr, DecidableEq

/-- The match lies between characters of the text, and the first group is all of it. -/
def Found.LiesIn (m : Found) (t : Text) : Prop :=
  ∃ l u v, t = l ++ (u ++ v) ∧ m.start = Text.byteLength l ∧
    m.stop = m.start + Text.byteLength u ∧ m.groups.head? = some (some u)

/-- What an engine adds to the syntax of regular expressions. -/
structure Engine where
  alphabet : Alphabet
  /-- The deepest nesting that is accepted. -/
  maxDepth : Nat
  /-- Whether the expression is small enough. -/
  fits : Node → Bool
  /-- The first match in a text. -/
  find : Node → Text → Option Found
  liesIn_of_find : ∀ {n t m}, find n t = some m → m.LiesIn t
  start_of_isAnchored : ∀ {n t m}, n.isAnchored → find n t = some m → m.start = 0

/-- The text between two slots. -/
def slotText (t : Text) : Slots → List (Option Text)
  | some a :: some b :: slots => t.slice? a b :: slotText t slots
  | _ :: _ :: slots => none :: slotText t slots
  | _ => []

/-- What a span of the text is as a match. -/
def Span.found (t : Text) (s : Span) : Found :=
  ⟨s.start, s.stop, t.slice? s.start s.stop :: slotText t s.slots⟩

theorem Span.liesIn_found {n : Node} {t : Text} {s : Span} (h : search n t = some s) :
    (s.found t).LiesIn t := by
  obtain ⟨l, u, v, rfl, hstart, hstop⟩ := search_eq_some h
  refine ⟨l, u, v, rfl, hstart, hstop, ?_⟩
  rw [found, List.head?_cons, hstop, hstart, Text.slice?_append]

/-- The sets of the Unicode data at hand. -/
def Alphabet.standard : Alphabet where
  digit := .digit
  space := .space
  word := .word
  property?
    | .letter c => CharSet.propertyLetter? c
    | .name name => CharSet.propertyNamed? name
    | .value property value => CharSet.propertyValue? property value
  foldCase := CharSet.foldCase

namespace Engine

/-- The engine that programs run with. -/
def standard : Engine where
  alphabet := .standard
  maxDepth := 250
  fits := Node.isSmall
  find n t := (search n t).map (·.found t)
  liesIn_of_find := by
    intro n t m h
    obtain ⟨s, hs, rfl⟩ := Option.map_eq_some_iff.1 h
    exact Span.liesIn_found hs
  start_of_isAnchored := by
    intro n t m hn h
    obtain ⟨s, hs, rfl⟩ := Option.map_eq_some_iff.1 h
    exact start_eq_zero_of_isAnchored hn hs

theorem standard_find (n : Node) (t : Text) :
    standard.find n t = (search n t).map (·.found t) := rfl

end Engine

end Regex

end GrammarMachine
