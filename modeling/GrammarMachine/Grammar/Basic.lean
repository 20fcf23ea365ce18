import GrammarMachine.BuildError
import GrammarMachine.Decimal.Reading
import GrammarMachine.Lexicon

/-!
# Building grammars

A `Grammar` is a chain of steps, each of which appends instructions to its program. A `Repetition`
ends the chain: after it only line breaks and the end of the input may follow, and a fold may be
attached. Both are turned into a `Program` when they are used.

A repetition is kept in its parts, and `Repetition.program` lays them out. Of the two jumps of a
repetition, one goes from the attempt of an iteration past the whole loop, and the other from its
end back to the attempt.
-/

namespace GrammarMachine

/-- A chain of steps. -/
structure Grammar (α : Type) where
  lexicon : Lexicon α
  instrs : List (Instr (Pattern α) α)

/-- A chain of steps that ends in a repetition. -/
structure Repetition (α : Type) where
  ignore : Option (Pattern α)
  /-- What precedes the repetition. -/
  lead : List (Instr (Pattern α) α)
  /-- What stands between the start of the repetition and the first attempt. -/
  opening : List (Instr (Pattern α) α)
  min : Nat
  max : Option Nat
  /-- The action that folds the iterations, and what it starts from. -/
  fold : Option (Action α)
  init : Option α
  /-- One iteration. -/
  body : List (Instr (Pattern α) α)
  /-- What follows the repetition. -/
  trail : List (Instr (Pattern α) α)

variable {α : Type}

/-- The capture of the only repetition of a program. -/
def loopCapture : Nat := 0

/-- Consumes a pattern and the ignorable text after it. -/
def Instr.token (p : Pattern α) : Instr (Pattern α) α := .consume p none none true

namespace Repetition

/-- The program of a repetition. -/
def program (r : Repetition α) : Program α where
  instrs := r.lead ++ .loopStart loopCapture :: r.opening ++
    .loopTry loopCapture r.min (r.body.length + 2) r.fold r.init :: r.body ++
    .loopBack (r.body.length + 1) r.max :: r.trail
  ignore := r.ignore
  captures := 1

/-- Folds the iterations into the attribute once the repetition is over. The accumulator starts from
`init`, or else from the attribute before the repetition. -/
def withFold (r : Repetition α) (a : Action α) (init : Option α) : Repetition α :=
  { r with fold := some a, init := init }

def lineBreak (r : Repetition α) : Repetition α :=
  { r with trail := r.trail ++ [.token .lineBreak] }

def endOfInput (r : Repetition α) : Repetition α :=
  { r with trail := r.trail ++ [.token .endOfInput] }

end Repetition

/-- The chain without steps. Ignorable text before the first token is skipped. -/
def Lexicon.grammar (l : Lexicon α) : Grammar α := ⟨l, if l.ignore.isSome then [.skip] else []⟩

namespace Grammar

/-- The chain without steps, ignorable text or keywords. -/
def empty : Grammar α := Lexicon.empty.grammar

def program (g : Grammar α) : Program α := ⟨g.instrs, g.lexicon.ignore, 0⟩

def append (g : Grammar α) (is : List (Instr (Pattern α) α)) : Grammar α :=
  { g with instrs := g.instrs ++ is }

/-! ## Tokens -/

/-- Consumes a pattern; the attribute it synthesizes replaces the current one. -/
def token (g : Grammar α) (p : Pattern α) : Grammar α := g.append [.token p]

/-- Consumes a pattern and computes the attribute by an action. -/
def tokenWith (g : Grammar α) (p : Pattern α) (a : Action α) : Grammar α :=
  g.append [.consume p (some a) none true]

/-- Consumes a pattern and keeps the inherited attribute. -/
def tokenPass (g : Grammar α) (p : Pattern α) : Grammar α := g.tokenWith p .pass

/-- Consumes a pattern whose text is read as an integer. -/
def tokenInt (g : Grammar α) (p : Pattern α) (ofInt : Int64 → α) : Grammar α :=
  g.tokenWith p (.read fun t => (Decimal.readInt64? t).map ofInt)

/-- Consumes a pattern whose text is read as a float. -/
def tokenFloat (g : Grammar α) (p : Pattern α) (ofFloat : Float → α) : Grammar α :=
  g.tokenWith p (.read fun t => (Decimal.readFloat? t).map ofFloat)

def lineBreak (g : Grammar α) : Grammar α := g.token .lineBreak

def endOfInput (g : Grammar α) : Grammar α := g.token .endOfInput

/-- Consumes a word that is not the beginning of a longer one: the end of the input, ignorable text
or a keyword follows. Anything may follow if there is neither ignorable text nor a keyword set. -/
def word (g : Grammar α) (id : Text) : Grammar α :=
  g.append [.consume (.literal id) none none false,
    .ahead (.wordEnd g.lexicon.ignore g.lexicon.keywords) true, .skip]

/-! ## Choices and assertions -/

/-- Consumes the first of the patterns that matches. -/
def choice (g : Grammar α) (ps : List (Pattern α)) : Grammar α := g.append [.choice ps]

def ahead (g : Grammar α) (p : Pattern α) : Grammar α := g.append [.ahead p true]

def notAhead (g : Grammar α) (p : Pattern α) : Grammar α := g.append [.ahead p false]

/-- Goes on only if the condition accepts the attribute. -/
def guard (g : Grammar α) (c : Condition α) : Grammar α := g.append [.guard c]

/-! ## Attributes -/

/-- Drops all attributes from here to the end of the grammar. -/
def dropAttributes (g : Grammar α) : Grammar α := g.append [.dropAttributes]

/-- Overwrites the attribute. -/
def assign (g : Grammar α) (v : α) : Grammar α := g.append [.assign v]

/-- Changes the attribute; an absent result keeps it. -/
def transform (g : Grammar α) (t : Transform α) : Grammar α := g.append [.transform t]

/-! ## Keywords -/

/-- Consumes a word that is exactly what the keyword set finds. -/
def keywordIn (g : Grammar α) (word : Text) (words : Keywords) : Grammar α :=
  g.append [.keyword words word]

def keyword (g : Grammar α) (word : Text) : Grammar α := g.keywordIn word g.lexicon.keywordSet

/-- Succeeds only where no keyword starts. -/
def noKeyword (g : Grammar α) : Grammar α := g.keyword []

def noKeywordIn (g : Grammar α) (words : Keywords) : Grammar α := g.keywordIn [] words

/-! ## Repetition of a pattern -/

/-- Repeats a pattern within bounds that have been checked. -/
def repeated (g : Grammar α) (min : Nat) (max : Option Nat) (p : Pattern α) : Repetition α where
  ignore := g.lexicon.ignore
  lead := g.instrs
  opening := []
  min := min
  max := max
  fold := none
  init := none
  body := [.consume p none (some loopCapture) true]
  trail := []

/-- Repeats a pattern from `min` to `max` times. -/
def tokenTimes (g : Grammar α) (min : Nat) (max : Option Nat) (p : Pattern α) :
    Except BuildError (Repetition α) := do
  checkBounds min max
  return g.repeated min max p

def tokenAtLeast (g : Grammar α) (min : Nat) (p : Pattern α) : Repetition α :=
  g.repeated min none p

def tokenAtMost (g : Grammar α) (max : Nat) (p : Pattern α) : Except BuildError (Repetition α) :=
  g.tokenTimes 0 (some max) p

def tokenMaybe (g : Grammar α) (p : Pattern α) : Repetition α := g.repeated 0 (some 1) p

def tokenZeroOrMore (g : Grammar α) (p : Pattern α) : Repetition α := g.tokenAtLeast 0 p

def tokenOneOrMore (g : Grammar α) (p : Pattern α) : Repetition α := g.tokenAtLeast 1 p

/-- Consumes a pattern one or more times with a delimiter between. A delimiter without an element
after it is left alone. -/
def tokenDelimited (g : Grammar α) (element delimiter : Pattern α) : Repetition α where
  ignore := g.lexicon.ignore
  lead := g.instrs
  opening := [.consume element none (some loopCapture) true]
  min := 0
  max := none
  fold := none
  init := none
  body := [.token delimiter, .consume element none (some loopCapture) true]
  trail := []

/-! ## Repetition of the whole grammar -/

/-- The chain so far as a pattern. -/
def pattern (g : Grammar α) : Pattern α := .program g.program

def times (g : Grammar α) (min : Nat) (max : Option Nat) : Except BuildError (Repetition α) :=
  g.lexicon.grammar.tokenTimes min max g.pattern

def atLeast (g : Grammar α) (min : Nat) : Repetition α :=
  g.lexicon.grammar.tokenAtLeast min g.pattern

def atMost (g : Grammar α) (max : Nat) : Except BuildError (Repetition α) :=
  g.times 0 (some max)

def maybe (g : Grammar α) : Repetition α := g.lexicon.grammar.tokenMaybe g.pattern

def zeroOrMore (g : Grammar α) : Repetition α := g.atLeast 0

def oneOrMore (g : Grammar α) : Repetition α := g.atLeast 1

/-- Consumes the chain so far one or more times with a delimiter between. -/
def delimited (g : Grammar α) (delimiter : Pattern α) : Repetition α :=
  g.lexicon.grammar.tokenDelimited g.pattern delimiter

end Grammar

/-- A repetition as a pattern. -/
def Repetition.pattern (r : Repetition α) : Pattern α := .program r.program

end GrammarMachine
