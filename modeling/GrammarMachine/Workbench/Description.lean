import GrammarMachine.Grammar.Real
import GrammarMachine.Workbench.Value

/-!
# Descriptions of patterns and grammars

A description is a pattern or a grammar as data. It refers to lexicons, keyword sets, parsers and
forward references by name. Building a description gives the pattern or program it describes, or the
first error, from left to right and from the inside out.

The form of a `GrammarSpec` makes sure that nothing but line breaks, ends of input and folds follows
a repetition.
-/

namespace GrammarMachine

/-- What the names in descriptions stand for. -/
structure Names where
  lexicons : List (String × Lexicon Value) := []
  keywordSets : List (String × Keywords) := []
  parsers : List (String × Program Value) := []
  forwards : List (String × Nat) := []

namespace Names

/-- The lexicon of a name; the empty one without a name. -/
def lexicon (ns : Names) (name : Option String) : Lexicon Value :=
  (name.bind fun n => ns.lexicons.lookup n).getD .empty

def keywordSet (ns : Names) (name : String) : Keywords := (ns.keywordSets.lookup name).getD .empty

/-- The program of a name; a name of nothing stands for a program that never matches. -/
def parser (ns : Names) (name : String) : Program Value :=
  (ns.parsers.lookup name).getD ⟨[.choice []], none, 0⟩

/-- The forward reference of a name; a name of nothing stands for a pattern that never matches. -/
def forward (ns : Names) (name : String) : Pattern Value :=
  match ns.forwards.lookup name with
  | some cell => .forward cell
  | none => .custom ⟨fun _ _ _ => none, none⟩

/-- Gives names to forward references, in front of all others. -/
def withForwards (ns : Names) (names : List String) (cells : List Nat) : Names :=
  { ns with forwards := names.zip cells ++ ns.forwards }

end Names

/-- A named function and the tag under which its calls are logged. -/
structure Tagged (ν : Type) where
  name : ν
  tag : Option String := none
deriving Repr

def Tagged.action (a : Tagged ActionName) : Action Value := ⟨a.name.apply, a.tag⟩

def Tagged.condition (c : Tagged ConditionName) : Condition Value := ⟨c.name.apply, c.tag⟩

def Tagged.transform (t : Tagged TransformName) : Transform Value := ⟨t.name.apply, t.tag⟩

def Tagged.matcher (f : Tagged MatcherName) : Matcher Value := ⟨f.name.apply, f.tag⟩

mutual

/-- A pattern as data. -/
inductive PatternSpec where
  | literal (text : Text)
  | regex (source : Text) (flags : Regex.Flags)
  | grammar (g : GrammarSpec)
  | parser (name : String)
  | forward (name : String)
  | function (f : Tagged MatcherName)

/-- A step of a chain as data. -/
inductive StepSpec where
  | token (p : PatternSpec)
  | tokenWith (p : PatternSpec) (a : Tagged ActionName)
  | tokenPass (p : PatternSpec)
  | tokenInt (p : PatternSpec)
  | tokenFloat (p : PatternSpec)
  | real (signed : Bool)
  | lineBreak
  | endOfInput
  | word (id : Text)
  | choice (ps : List PatternSpec)
  | ahead (p : PatternSpec)
  | notAhead (p : PatternSpec)
  | guard (c : Tagged ConditionName)
  | dropAttributes
  | assign (v : Value)
  | transform (t : Tagged TransformName)
  | keyword (word : Text)
  | noKeyword
  | keywordIn (word : Text) (keywordSet : String)
  | noKeywordIn (keywordSet : String)

/-- A repetition at the end of a chain as data: of the chain itself, or of a pattern after it. -/
inductive LoopSpec where
  | times (min : Nat) (max : Option Nat)
  | atLeast (min : Nat)
  | atMost (max : Nat)
  | maybe
  | zeroOrMore
  | oneOrMore
  | delimited (delimiter : PatternSpec)
  | tokenTimes (min : Nat) (max : Option Nat) (p : PatternSpec)
  | tokenAtLeast (min : Nat) (p : PatternSpec)
  | tokenAtMost (max : Nat) (p : PatternSpec)
  | tokenMaybe (p : PatternSpec)
  | tokenZeroOrMore (p : PatternSpec)
  | tokenOneOrMore (p : PatternSpec)
  | tokenDelimited (p delimiter : PatternSpec)

/-- What may follow a repetition, as data. -/
inductive TailSpec where
  | lineBreak
  | endOfInput
  | fold (a : Tagged ActionName) (init : Option Value)

/-- A grammar as data: a lexicon, steps, and a repetition with what follows it. -/
inductive GrammarSpec where
  | chain (lexicon : Option String) (steps : List StepSpec)
  | loop (lexicon : Option String) (steps : List StepSpec) (loop : LoopSpec)
    (tail : List TailSpec)

end

/-- Continues a repetition. -/
def TailSpec.apply (r : Repetition Value) : TailSpec → Repetition Value
  | .lineBreak => r.lineBreak
  | .endOfInput => r.endOfInput
  | .fold a init => r.withFold a.action init

mutual

/-- The pattern that is described. -/
def PatternSpec.build (ns : Names) : PatternSpec → Except BuildError (Pattern Value)
  | .literal t => .ok (.literal t)
  | .regex source flags => (Pattern.anchored .standard source flags).mapError .invalidRegex
  | .grammar g => (g.build ns).map .program
  | .parser name => .ok (.program (ns.parser name))
  | .forward name => .ok (ns.forward name)
  | .function f => .ok (.custom f.matcher)

/-- The patterns that are described, in order. -/
def PatternSpec.buildList (ns : Names) : List PatternSpec → Except BuildError (List (Pattern Value))
  | [] => .ok []
  | p :: ps => do
    let q ← p.build ns
    return q :: (← PatternSpec.buildList ns ps)

/-- Continues a chain by the step that is described. -/
def StepSpec.apply (ns : Names) (g : Grammar Value) : StepSpec → Except BuildError (Grammar Value)
  | .token p => return g.token (← p.build ns)
  | .tokenWith p a => return g.tokenWith (← p.build ns) a.action
  | .tokenPass p => return g.tokenPass (← p.build ns)
  | .tokenInt p => return g.tokenInt (← p.build ns) .int
  | .tokenFloat p => return g.tokenFloat (← p.build ns) .float
  | .real signed => return g.real signed .float
  | .lineBreak => return g.lineBreak
  | .endOfInput => return g.endOfInput
  | .word id => return g.word id
  | .choice ps => return g.choice (← PatternSpec.buildList ns ps)
  | .ahead p => return g.ahead (← p.build ns)
  | .notAhead p => return g.notAhead (← p.build ns)
  | .guard c => return g.guard c.condition
  | .dropAttributes => return g.dropAttributes
  | .assign v => return g.assign v
  | .transform t => return g.transform t.transform
  | .keyword word => return g.keyword word
  | .noKeyword => return g.noKeyword
  | .keywordIn word set => return g.keywordIn word (ns.keywordSet set)
  | .noKeywordIn set => return g.noKeywordIn (ns.keywordSet set)

/-- Continues a chain by all steps in order. -/
def StepSpec.applyList (ns : Names) (g : Grammar Value) :
    List StepSpec → Except BuildError (Grammar Value)
  | [] => .ok g
  | s :: ss => do StepSpec.applyList ns (← s.apply ns g) ss

/-- Ends a chain by the repetition that is described. -/
def LoopSpec.apply (ns : Names) (g : Grammar Value) :
    LoopSpec → Except BuildError (Repetition Value)
  | .times min max => g.times min max
  | .atLeast min => return g.atLeast min
  | .atMost max => g.atMost max
  | .maybe => return g.maybe
  | .zeroOrMore => return g.zeroOrMore
  | .oneOrMore => return g.oneOrMore
  | .delimited d => return g.delimited (← d.build ns)
  | .tokenTimes min max p => do g.tokenTimes min max (← p.build ns)
  | .tokenAtLeast min p => return g.tokenAtLeast min (← p.build ns)
  | .tokenAtMost max p => do g.tokenAtMost max (← p.build ns)
  | .tokenMaybe p => return g.tokenMaybe (← p.build ns)
  | .tokenZeroOrMore p => return g.tokenZeroOrMore (← p.build ns)
  | .tokenOneOrMore p => return g.tokenOneOrMore (← p.build ns)
  | .tokenDelimited p d => do
    let p ← p.build ns
    return g.tokenDelimited p (← d.build ns)

/-- The program that is described. -/
def GrammarSpec.build (ns : Names) : GrammarSpec → Except BuildError (Program Value)
  | .chain lexicon steps => do
    let g ← StepSpec.applyList ns (ns.lexicon lexicon).grammar steps
    return g.program
  | .loop lexicon steps loop tail => do
    let g ← StepSpec.applyList ns (ns.lexicon lexicon).grammar steps
    let r ← loop.apply ns g
    return (tail.foldl TailSpec.apply r).program

end

/-- A level of an operator table as data. -/
inductive LevelSpec where
  | left (ops : List (Text × BinaryName))
  | right (ops : List (Text × BinaryName))
  | prefixed (ops : List (Text × UnaryName))
  | postfixed (ops : List (Text × UnaryName))
  | primary (g : GrammarSpec)

namespace LevelSpec

def binary (op : Text × BinaryName) : Binary Value := ⟨op.1, op.2.apply op.1⟩

def unary (op : Text × UnaryName) : Unary Value := ⟨op.1, op.2.apply op.1⟩

/-- The names of the levels inside a primary grammar: `level.0`, `level.1`, … -/
def levelNames (count : Nat) : List String :=
  (List.range count).map fun i => "level." ++ toString i

/-- The level that is described. -/
def build (ns : Names) : LevelSpec → Level Value
  | left ops => .left (ops.map binary)
  | right ops => .right (ops.map binary)
  | prefixed ops => .prefixed (ops.map unary)
  | postfixed ops => .postfixed (ops.map unary)
  | primary g => .primary fun cells =>
    liftM (g.build (ns.withForwards (levelNames cells.length) cells))

end LevelSpec

end GrammarMachine
