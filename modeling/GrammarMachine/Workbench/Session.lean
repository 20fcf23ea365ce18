import GrammarMachine.CommandLine.Report
import GrammarMachine.Workbench.Description
import GrammarMachine.Workbench.Log

/-!
# Sessions

A session keeps what has been built under names, and the log of the calls of tagged callbacks.
`Session.perform` carries out one command and answers it. A command that fails to build something
leaves the session as it was.
-/

namespace GrammarMachine

/-- What a session keeps. -/
structure Session where
  names : Names := {}
  /-- The cells of all forward references. -/
  forwards : Forwards Value := .empty
  /-- Groups of cells that wait to be finished together. -/
  nonterminals : List (String × List Nat) := []
  log : List LogRow := []

/-- Where a program is tried in a text. -/
inductive Scan where
  /-- At an offset, whatever follows the match. -/
  | start (index : Nat) (inherited : Option Value)
  /-- On the whole text. -/
  | whole (inherited : Option Value)
  /-- At all offsets, up to the first match. -/
  | part (inherited : Option Value)
  /-- All matches that do not overlap. -/
  | all
  /-- The same, each match put in front of those before it. -/
  | allReversed
deriving Repr

/-- What a session can be asked to do. -/
inductive Command where
  /-- Keeps a lexicon, which starts as a copy of another one or empty. -/
  | newLexicon (id : String) (copied : Option String) (ignore : Option PatternSpec)
    (words : Option (List Text))
  | setIgnore (id : String) (ignore : Option PatternSpec)
  | setKeywords (id : String) (words : List Text)
  | searchLexicon (id : String) (text : Text) (index : Nat)
  | newKeywords (id : String) (words : List Text)
  | searchKeywords (id : String) (text : Text) (index : Nat)
  | newParser (id : String) (g : GrammarSpec)
  | showProgram (id : String)
  | newForward (id : String)
  /-- Defines a forward reference by a grammar. -/
  | define (id : String) (g : GrammarSpec)
  /-- Defines a forward reference by a parser. -/
  | defineAs (id parser : String)
  | isDefined (id : String)
  /-- Builds a grammar that may refer to itself. If `first` is there, the reference stands for it.
  -/
  | fix (id self : String) (first : Option GrammarSpec) (g : GrammarSpec)
  /-- Builds grammars that may refer to each other. -/
  | letrec (bindings : List (String × GrammarSpec))
  | newNonterminals (id : String) (count : Nat)
  | finish (id : String)
  | operators (id : String) (lexicon : Option String) (levels : List LevelSpec)
  | scan (id : String) (text : Text) (how : Scan)
  /-- Scans and answers the trace as well. -/
  | trace (id : String) (text : Text) (how : Scan)
  /-- Tests a pattern at offsets of texts. -/
  | test (p : PatternSpec) (calls : List (Text × Nat × Option Value))
  | callAction (a : Tagged ActionName) (call : ActionCall Value)
  | merge (old new : Option Value)
  | commandLine (args : List String) (stdin : String)
  /-- Answers the log and empties it. -/
  | takeLog

/-- The answer to a command. -/
inductive Reply where
  /-- Whether a lexicon has ignorable text, and whether its keyword set, if any, has keywords. -/
  | lexicon (hasIgnore : Bool) (hasWords : Option Bool)
  | found (r : Option Keywords.Found)
  | emptiness (isEmpty : Bool)
  | truth (b : Bool)
  | count (n : Nat)
  | listing (text : String)
  | listings (texts : List String)
  | program (labels : List String) (summary : String)
  | parsed (r : Option (Parsed Value))
  | allParsed (rs : List (Parsed Value))
  /-- Matches by their starts, ends and attributes only. -/
  | spans (rs : List (Parsed Value))
  | traced (r : Reply) (lines : List String)
  | tested (label : String) (rs : List (Option (Match Value)))
  | attr (v : Option Value)
  | report (r : CommandLine.Report)
  | log (rows : List LogRow)
  | failed (e : BuildError)
  /-- There is nothing of this name. -/
  | unknown (name : String)
  /-- A run did not come to an end. -/
  | unfinished

namespace Session

/-- The names of the members of a group: `id.0`, `id.1`, … -/
def memberNames (id : String) (count : Nat) : List String :=
  (List.range count).map fun i => id ++ "." ++ toString i

/-! ## Keeping things -/

def keepLexicon (s : Session) (id : String) (l : Lexicon Value) : Session :=
  { s with names := { s.names with lexicons := (id, l) :: s.names.lexicons } }

def keepKeywords (s : Session) (id : String) (k : Keywords) : Session :=
  { s with names := { s.names with keywordSets := (id, k) :: s.names.keywordSets } }

def keepParsers (s : Session) (ids : List String) (ps : List (Program Value)) : Session :=
  { s with names := { s.names with parsers := ids.zip ps ++ s.names.parsers } }

def keepForwards (s : Session) (ids : List String) (cells : List Nat) : Session :=
  { s with names := s.names.withForwards ids cells }

/-! ## Building and running -/

/-- Builds something and goes on with it, or answers the error. -/
def building {β : Type} (s : Session) (b : Build Value β)
    (goOn : Session → β → Session × Reply) : Session × Reply :=
  match b.outcome s.forwards with
  | (.ok x, forwards) => goOn { s with forwards := forwards } x
  | (.error e, forwards) => ({ s with forwards := forwards }, .failed e)

/-- Builds a program, keeps it as a parser and answers its listing. -/
def buildingParser (s : Session) (id : String) (b : Build Value (Program Value)) :
    Session × Reply :=
  s.building b fun s p => (s.keepParsers [id] [p], .listing p.listing)

/-- Builds programs, keeps them as parsers and answers their listings. -/
def buildingParsers (s : Session) (ids : List String) (b : Build Value (List (Program Value))) :
    Session × Reply :=
  s.building b fun s ps => (s.keepParsers ids ps, .listings (ps.map Program.listing))

/-- Looks a name up and goes on with what it stands for, or answers that it is unknown. -/
def finding {β : Type} (s : Session) (known : List (String × β)) (id : String)
    (goOn : β → Session × Reply) : Session × Reply :=
  match known.lookup id with
  | some x => goOn x
  | none => (s, .unknown id)

/-- Runs something, adds the rows of the run to the log and answers the result. -/
def running {β : Type} (s : Session) (run : Trial (Pattern Value) Value β)
    (answer : β → Journal (Pattern Value) Value → Reply) : Session × Reply :=
  match run .empty with
  | .ok x j => ({ s with log := s.log ++ j.rows }, answer x j)
  | .error _ j => ({ s with log := s.log ++ j.rows }, .unfinished)

/-- The environment in which programs run. -/
def env (s : Session) : Env Value := { forwards := s.forwards }

/-- Tries a program in a text. -/
def scanning (s : Session) (p : Program Value) (text : Text) :
    Scan → Trial (Pattern Value) Value Reply
  | .start index inherited => .parsed <$> p.parseStart s.env text index inherited
  | .whole inherited => .parsed <$> p.parse s.env text inherited
  | .part inherited => .parsed <$> p.parsePart s.env text inherited
  | .all => .allParsed <$> p.parseAll s.env text
  | .allReversed => .spans <$> p.foldMatches s.env text [] fun acc r => r :: acc

/-- Tests a pattern at offsets of texts, in order. -/
def testing (s : Session) (p : Pattern Value) :
    List (Text × Nat × Option Value) → Trial (Pattern Value) Value (List (Option (Match Value)))
  | [] => return []
  | (text, index, inherited) :: calls => do
    let m ← Trial.attempt (p.find s.forwards text s.env.fuel index inherited)
    return m :: (← s.testing p calls)

/-! ## Commands -/

/-- What is answered about a lexicon. -/
def describe (l : Lexicon Value) : Reply :=
  .lexicon l.ignore.isSome (l.keywords.map fun k => !k.isEmpty)

/-- Changes the ignorable text of a lexicon, keeps the result and describes it. -/
def changeLexicon (s : Session) (id : String) (ignore : Option PatternSpec)
    (change : Option (Pattern Value) → Lexicon Value) : Session × Reply :=
  s.building (liftM (ignore.mapM fun p => p.build s.names)) fun s p =>
    (s.keepLexicon id (change p), describe (change p))

/-- Builds a grammar that refers to itself by a name. If `first` is there, the name stands for it.
-/
def selfReferring (ns : Names) (self : String) (first : Option GrammarSpec) (g : GrammarSpec) :
    Build Value (Program Value) :=
  GrammarMachine.fix fun cell => do
    let ns := ns.withForwards [self] [cell]
    if let some g := first then Forward.define cell (← g.build ns)
    g.build ns

/-- Builds grammars that refer to each other by their names. -/
def mutuallyReferring (ns : Names) (bindings : List (String × GrammarSpec)) :
    Build Value (List (Program Value)) :=
  GrammarMachine.letrec bindings.length fun cells => do
    let ns := ns.withForwards (bindings.map (·.1)) cells
    bindings.mapM fun b => liftM (b.2.build ns)

/-- Carries out a command. -/
def perform (s : Session) : Command → Session × Reply
  | .newLexicon id copied ignore words =>
    let base := s.names.lexicon copied
    s.changeLexicon id ignore fun p =>
      let l := if ignore.isSome then base.withIgnore p else base
      match words with
      | some ws => l.withKeywords ws
      | none => l
  | .setIgnore id ignore =>
    s.finding s.names.lexicons id fun l => s.changeLexicon id ignore l.withIgnore
  | .setKeywords id words =>
    s.finding s.names.lexicons id fun l =>
      (s.keepLexicon id (l.withKeywords words), describe (l.withKeywords words))
  | .searchLexicon id text index =>
    s.finding s.names.lexicons id fun l =>
      (s, .found (l.keywords.bind fun k => k.search text index))
  | .newKeywords id words =>
    (s.keepKeywords id (.ofList words), .emptiness (Keywords.ofList words).isEmpty)
  | .searchKeywords id text index =>
    s.finding s.names.keywordSets id fun k => (s, .found (k.search text index))
  | .newParser id g => s.buildingParser id (liftM (g.build s.names))
  | .showProgram id =>
    s.finding s.names.parsers id fun p => (s, .program p.labels p.summary)
  | .newForward id =>
    s.building Forward.new fun s cell => (s.keepForwards [id] [cell], .truth false)
  | .define id g =>
    s.finding s.names.forwards id fun cell =>
      s.building (do Forward.define cell (← g.build s.names)) fun s _ => (s, .truth true)
  | .defineAs id parser =>
    s.finding s.names.forwards id fun cell =>
      s.finding s.names.parsers parser fun p =>
        s.building (Forward.define cell p) fun s _ => (s, .truth true)
  | .isDefined id =>
    s.finding s.names.forwards id fun cell =>
      s.building (Forward.isDefined cell) fun s b => (s, .truth b)
  | .fix id self first g => s.buildingParser id (selfReferring s.names self first g)
  | .letrec bindings =>
    s.buildingParsers (bindings.map (·.1)) (mutuallyReferring s.names bindings)
  | .newNonterminals id count =>
    s.building (Forward.news count) fun s cells =>
      let s := s.keepForwards (memberNames id count) cells
      ({ s with nonterminals := (id, cells) :: s.nonterminals }, .count count)
  | .finish id =>
    s.finding s.nonterminals id fun cells =>
      s.buildingParsers (memberNames id cells.length) (Forward.finish cells)
  | .operators id lexicon levels =>
    s.buildingParser id
      (OperatorTable.build (s.names.lexicon lexicon) (levels.map fun l => l.build s.names))
  | .scan id text how =>
    s.finding s.names.parsers id fun p => s.running (s.scanning p text how) fun r _ => r
  | .trace id text how =>
    s.finding s.names.parsers id fun p =>
      s.running (s.scanning p text how) fun r j =>
        .traced r (j.events.filterMap (·.trace? Pattern.label))
  | .test p calls =>
    s.building (liftM (p.build s.names)) fun s p =>
      s.running (s.testing p calls) fun rs _ => .tested p.label rs
  | .callAction a call =>
    s.running (GrammarMachine.callAction a.action call) fun v _ => .attr v
  | .merge old new => (s, .attr (GrammarMachine.merge old new))
  | .commandLine args stdin => (s, .report (CommandLine.run args stdin))
  | .takeLog => ({ s with log := [] }, .log s.log)

/-- Carries out commands in order. -/
def performAll (s : Session) : List Command → List Reply
  | [] => []
  | c :: cs =>
    let (s, r) := s.perform c
    r :: s.performAll cs

end Session

end GrammarMachine
