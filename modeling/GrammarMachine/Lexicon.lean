import GrammarMachine.Program

/-!
# Lexicons

A lexicon says what may be skipped between tokens and which words are keywords. A grammar copies the
lexicon it is started from.
-/

namespace GrammarMachine

/-- Ignorable text and keywords. -/
structure Lexicon (α : Type) where
  ignore : Option (Pattern α) := none
  keywords : Option Keywords := none

namespace Lexicon

variable {α : Type}

/-- Nothing is ignorable and there is no keyword set. -/
def empty : Lexicon α := {}

def withIgnore (l : Lexicon α) (p : Option (Pattern α)) : Lexicon α := { l with ignore := p }

def withKeywords (l : Lexicon α) (words : List Text) : Lexicon α :=
  { l with keywords := some (.ofList words) }

/-- The keyword set; without one, the empty set. -/
def keywordSet (l : Lexicon α) : Keywords := l.keywords.getD .empty

end Lexicon

end GrammarMachine
