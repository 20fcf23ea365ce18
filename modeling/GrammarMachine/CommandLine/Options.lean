/-!
# Command-line arguments

Arguments are read from left to right. Flags have a long name and a letter; letters may be joined
after one hyphen. After `--` everything is a value. The first value names the subcommand, and the
arguments after it belong to the subcommand; the flag for verbosity may stand on both sides.

A request for the version or for help is answered as soon as it is met. What can only be said about
all arguments together, missing values and flags that exclude each other, is checked at the end.
-/

namespace GrammarMachine

namespace CommandLine

/-- What `scan` is asked to do. -/
structure ScanOptions where
  pattern : String
  /-- The text to scan; the standard input if absent. -/
  text : Option String
  /-- Whether the pattern is a regular expression. -/
  regex : Bool
  /-- Whether the pattern is the name of a built-in one. -/
  builtin : Bool
  ignoreCase : Bool
  /-- Whether to stop after the first match. -/
  first : Bool
deriving Repr, DecidableEq

/-- What the program is asked to do. -/
inductive Request where
  | scan (o : ScanOptions)
  /-- Evaluates an expression; if it is absent, one per line of the standard input. -/
  | calc (expression : Option String)
  | version
  | help
  /-- The arguments make no sense. -/
  | misuse
deriving Repr, DecidableEq

/-- The flags of `scan`. -/
inductive ScanFlag where
  | regex | builtin | ignoreCase | first
deriving Repr, DecidableEq

/-- The flag with that letter. -/
def ScanFlag.ofLetter? : Char → Option ScanFlag
  | 'r' => some regex
  | 'b' => some builtin
  | 'i' => some ignoreCase
  | '1' => some first
  | _ => none

/-- The flag with that long name. -/
def ScanFlag.ofName? : String → Option ScanFlag
  | "regex" => some regex
  | "builtin" => some builtin
  | "ignore-case" => some ignoreCase
  | "first" => some first
  | _ => none

/-- One argument, told by its form. -/
inductive Argument where
  | value (s : String)
  | long (name : String)
  | letters (cs : List Char)
  /-- The mark after which everything is a value. -/
  | endOfFlags
deriving Repr, DecidableEq

/-- The form of an argument. A single hyphen is a value. -/
def Argument.ofString (s : String) : Argument :=
  match s.toList with
  | ['-', '-'] => .endOfFlags
  | '-' :: '-' :: name => .long (String.ofList name)
  | '-' :: c :: cs => .letters (c :: cs)
  | _ => .value s

/-- The flags and values met so far, in order. -/
structure Collected where
  flags : List ScanFlag
  values : List String

/-- Adds a flag; a flag that was given before is an error. -/
def Collected.addFlag (c : Collected) (f : ScanFlag) : Except Request Collected :=
  if c.flags.contains f then .error .misuse else .ok { c with flags := c.flags ++ [f] }

/-- Reads joined letters. `known` gives the flags of the subcommand. -/
def readLetters (known : Char → Option ScanFlag) (c : Collected) :
    List Char → Except Request Collected
  | [] => .ok c
  | 'v' :: cs => readLetters known c cs
  | 'h' :: _ => .error .help
  | l :: cs =>
    match known l with
    | some f => do readLetters known (← c.addFlag f) cs
    | none => .error .misuse

/-- Reads the arguments of a subcommand that takes at most `limit` values. -/
def readArguments (letters : Char → Option ScanFlag) (names : String → Option ScanFlag)
    (limit : Nat) (c : Collected) : List String → Except Request Collected
  | [] => .ok c
  | s :: rest => do
    match Argument.ofString s with
    | .value v =>
      if limit ≤ c.values.length then .error .misuse
      else readArguments letters names limit { c with values := c.values ++ [v] } rest
    | .long "verbose" => readArguments letters names limit c rest
    | .long "help" => .error .help
    | .long name =>
      match names name with
      | some f => readArguments letters names limit (← c.addFlag f) rest
      | none => .error .misuse
    | .letters ls => readArguments letters names limit (← readLetters letters c ls) rest
    | .endOfFlags =>
      if limit < c.values.length + rest.length then .error .misuse
      else .ok { c with values := c.values ++ rest }

/-- The request for `scan` with the arguments after its name. -/
def readScan (args : List String) : Except Request Request := do
  let c ← readArguments ScanFlag.ofLetter? ScanFlag.ofName? 2 ⟨[], []⟩ args
  let has (f : ScanFlag) : Bool := c.flags.contains f
  match c.values with
  | [] => .error .misuse
  | pattern :: values =>
    if has .regex && has .builtin then .error .misuse
    else return .scan ⟨pattern, values.head?, has .regex, has .builtin, has .ignoreCase, has .first⟩

/-- The request for `calc` with the arguments after its name. -/
def readCalc (args : List String) : Except Request Request := do
  let c ← readArguments (fun _ => none) (fun _ => none) 1 ⟨[], []⟩ args
  return .calc c.values.head?

/-- Reads joined letters before a subcommand; the request that they answer, if any. -/
def mainLetters : List Char → Option Request
  | [] => none
  | 'v' :: cs => mainLetters cs
  | 'V' :: _ => some .version
  | 'h' :: _ => some .help
  | _ => some .misuse

/-- Reads the arguments up to the subcommand. -/
def readMain : List String → Except Request Request
  | [] => .error .misuse
  | s :: rest =>
    match Argument.ofString s with
    | .value "scan" => readScan rest
    | .value "calc" => readCalc rest
    | .value "help" => .error .help
    | .value _ | .endOfFlags => .error .misuse
    | .long "verbose" => readMain rest
    | .long "version" => .error .version
    | .long "help" => .error .help
    | .long _ => .error .misuse
    | .letters cs =>
      match mainLetters cs with
      | some r => .error r
      | none => readMain rest

/-- What the arguments ask for. -/
def Request.ofArguments (args : List String) : Request :=
  match readMain args with
  | .ok r => r
  | .error r => r

end CommandLine

end GrammarMachine
