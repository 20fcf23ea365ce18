import GrammarMachine.CommandLine.Calculator
import GrammarMachine.CommandLine.Options
import GrammarMachine.Decimal.Shortest

/-!
# What the program prints

`run` answers the arguments and the standard input by a `Report`: the exit code, what is printed,
and the error message, if there is one. Lines printed before an error stay.
-/

namespace GrammarMachine

namespace CommandLine

/-- How a run of the program ends. -/
structure Report where
  code : Nat
  stdout : String
  error : Option String
deriving Repr, DecidableEq

namespace Report

def success (stdout : String) : Report := ⟨0, stdout, none⟩

def failure (stdout message : String) : Report := ⟨1, stdout, some message⟩

end Report

/-- The sources of the patterns that have names, in the order of the names. -/
def builtinPatterns : List (String × String) :=
  [("ident", "[A-Za-z_][A-Za-z0-9_]*"),
   ("int", "[+-]?[0-9]+"),
   ("real", "[+-]?(?:[0-9]+(?:\\.[0-9]+)?|\\.[0-9]+)(?:[eE][+-]?[0-9]+)?"),
   ("space", "\\s+"),
   ("word", "\\w+")]

/-- The pattern that the options describe, or an error message. -/
def scanPattern (o : ScanOptions) : Except String (Pattern String) := do
  let anchored (source : String) : Except String (Pattern String) :=
    let flags : Regex.Flags := { caseInsensitive := o.ignoreCase }
    (Pattern.anchored .standard source.toList flags).mapError fun _ =>
      "Invalid pattern " ++ Text.quoted source.toList
  if o.builtin then
    match builtinPatterns.lookup o.pattern with
    | some source => anchored source
    | none =>
      .error ("Unknown built-in pattern " ++ Text.quoted o.pattern.toList ++ " (expected one of " ++
        ", ".intercalate (builtinPatterns.map (·.1)) ++ ")")
  else if o.regex then anchored o.pattern
  else if o.ignoreCase then anchored (String.ofList (Regex.escape o.pattern.toList))
  else return .literal o.pattern.toList

/-- The line that shows a match. -/
def matchLine (r : Parsed String) : String :=
  toString (r.startIndex.getD 0) ++ ".." ++ toString r.lastIndex ++ "\t" ++
    String.ofList r.matched ++ "\n"

/-- The lines for the first match of a pattern in a text, or for all of them. -/
def scanText (p : Pattern String) (text : Text) (first : Bool) : String :=
  let program := (Grammar.empty.token p).program
  let run : Trial (Pattern String) String (List (Parsed String)) :=
    if first then Option.toList <$> program.parsePart {} text none
    else program.parseAll {} text
  match run .empty with
  | .ok rs _ => String.join (rs.map matchLine)
  | .error _ _ => ""

/-- The lines of a text. A carriage return before the line feed belongs to the line end. -/
def lines (t : Text) : List Text := go [] t
where
  /-- The lines of what follows the reversed beginning of a line. -/
  go : Text → Text → List Text
    | [], [] => []
    | line, [] => [line.reverse]
    | line, '\n' :: t => (match line with
      | '\r' :: line => line
      | line => line).reverse :: go [] t
    | line, c :: t => go (c :: line) t

/-- Evaluates expressions in order, up to the first that has no value. -/
def calcLines (printed : String) : List Text → Report
  | [] => .success printed
  | line :: rest =>
    match Calculator.evaluate line with
    | some x => calcLines (printed ++ Decimal.positional x ++ "\n") rest
    | none => .failure printed ("Cannot evaluate " ++ Text.quoted line)

/-- Answers a request. -/
def answer (stdin : String) : Request → Report
  | .scan o =>
    match scanPattern o with
    | .ok p => .success (scanText p (o.text.getD stdin).toList o.first)
    | .error message => .failure "" message
  | .calc (some expression) => calcLines "" [expression.toList]
  | .calc none =>
    calcLines "" ((lines stdin.toList).filter fun line => !line.all Unicode.isWhitespace)
  | .version => .success "skein 0.1.0\n"
  | .help => .success ""
  | .misuse => ⟨2, "", none⟩

/-- Answers the arguments, given all of the standard input. -/
def run (args : List String) (stdin : String) : Report := answer stdin (Request.ofArguments args)

/-- Whether the standard input is read. -/
def Request.readsInput : Request → Bool
  | .scan o => o.text.isNone
  | .calc expression => expression.isNone
  | _ => false

end CommandLine

end GrammarMachine
