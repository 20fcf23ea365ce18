import GrammarMachine.Callback
import GrammarMachine.Keywords
import GrammarMachine.Regex.Basic
import GrammarMachine.Text.Quoted

/-!
# Patterns and programs

A program is a list of instructions for a machine that moves through a text. Instructions test
patterns, and a pattern may itself be a program, so `Instr` and `Code` leave the type of their
patterns open and `Pattern` closes the circle.

A repetition is three instructions: `loopStart` opens the list of its iterations, `loopTry` attempts
one more, and `loopBack` after the body returns to `loopTry`. Both jumps are relative.

`label` gives the text by which patterns and instructions are shown; `Program.listing` is one line
per instruction.
-/

namespace GrammarMachine

/-- An instruction that tests patterns of type `π` and computes attributes of type `α`. -/
inductive Instr (π α : Type) where
  /-- Consumes a pattern and changes the attribute. With a capture the match is one iteration of
  that repetition. Ignorable text after it is skipped if `skips`. -/
  | consume (pattern : π) (action : Option (Action α)) (capture : Option Nat) (skips : Bool)
  /-- Opens the list of iterations. -/
  | loopStart (capture : Nat)
  /-- Attempts one more iteration; if it fails after `min` of them, goes `exit` forward. At the end
  the iterations are folded into the attribute, if there is a fold. -/
  | loopTry (capture min exit : Nat) (fold : Option (Action α)) (init : Option α)
  /-- Ends an iteration: goes `back` unless there are `max` iterations or it consumed nothing. -/
  | loopBack (back : Nat) (max : Option Nat)
  /-- Consumes the first of the patterns that matches. -/
  | choice (branches : List π)
  /-- Succeeds without consuming if the pattern matches, or if it does not. -/
  | ahead (pattern : π) (positive : Bool)
  /-- Succeeds if the condition accepts the attribute. -/
  | guard (condition : Condition α)
  /-- Overwrites the attribute. -/
  | assign (value : α)
  /-- Changes the attribute; an absent result keeps it. -/
  | transform (f : Transform α)
  /-- From here on all attributes are dropped. -/
  | dropAttributes
  /-- Skips ignorable text. -/
  | skip
  /-- Consumes a word if it is exactly what the keyword set finds. -/
  | keyword (words : Keywords) (word : Text)

/-- Instructions with what they share. -/
structure Code (π α : Type) where
  instrs : List (Instr π α)
  /-- What is skipped between tokens. -/
  ignore : Option π
  /-- How many repetitions collect iterations. -/
  captures : Nat

/-- What can be tested at an offset of a text. -/
inductive Pattern (α : Type) where
  | literal (text : Text)
  | regex (r : Regex)
  /-- A program, run from the offset. -/
  | program (code : Code (Pattern α) α)
  /-- The program that a cell holds when the pattern is tested. -/
  | forward (cell : Nat)
  | custom (f : Matcher α)
  /-- One line break: `\r\n`, `\r` or `\n`. -/
  | lineBreak
  /-- The end of the text. -/
  | endOfInput
  /-- The end of the text, or the start of ignorable text or of a keyword. -/
  | wordEnd (ignore : Option (Pattern α)) (words : Option Keywords)

/-- A compiled grammar. -/
abbrev Program (α : Type) := Code (Pattern α) α

namespace Pattern

variable {α : Type}

/-- A regular expression that matches only at the offset where it is tested. -/
def anchored (engine : Regex.Engine) (source : Text) (flags : Regex.Flags) :
    Except Regex.Error (Pattern α) :=
  (Regex.compile engine ("\\A(?:".toList ++ source ++ [')']) flags).map .regex

/-- The text by which the pattern is shown. -/
def label : Pattern α → String
  | literal t => t.quoted
  | regex r => "/" ++ String.ofList r.source ++ "/"
  | program code => "<grammar: " ++ toString code.instrs.length ++ " instructions>"
  | forward _ | custom _ => "<fn>"
  | lineBreak => "<br>"
  | endOfInput => "<end>"
  | wordEnd _ _ => "<id boundary>"

end Pattern

/-- The text by which an instruction is shown. -/
def Instr.label {π α : Type} (patternLabel : π → String) : Instr π α → String
  | .consume p action capture skips =>
    "MATCH " ++ patternLabel p ++ (if action.isSome then " +action" else "") ++
      (match capture with
        | some id => " capture#" ++ toString id
        | none => "") ++
      (if skips then "" else " noskip")
  | .loopStart capture => "LOOP capture#" ++ toString capture
  | .loopTry _ min exit fold _ =>
    "REPEAT min=" ++ toString min ++ " exit=+" ++ toString exit ++
      (if fold.isSome then " +fold" else "")
  | .loopBack back max =>
    "JUMP -" ++ toString back ++
      (match max with
        | some m => " max=" ++ toString m
        | none => "")
  | .choice branches => "ALT [" ++ ", ".intercalate (branches.map patternLabel) ++ "]"
  | .ahead p positive => (if positive then "AHEAD " else "AHEAD-NOT ") ++ patternLabel p
  | .guard _ => "COND"
  | .assign _ => "ATTR"
  | .transform _ => "ACTION"
  | .dropAttributes => "PASSALL"
  | .skip => "IGNORE"
  | .keyword _ word => "KEY " ++ word.quoted

namespace Program

variable {α : Type}

/-- The labels of the instructions in order. -/
def labels (p : Program α) : List String := p.instrs.map (·.label Pattern.label)

/-- A number, padded with blanks on the left to four places. -/
def padded (n : Nat) : String :=
  let s := toString n
  String.ofList (List.replicate (4 - s.length) ' ') ++ s

/-- One instruction per line, each after its address. -/
def listing (p : Program α) : String :=
  "\n".intercalate (p.labels.mapIdx fun pc label => padded pc ++ "  " ++ label)

/-- The program with all it holds, on one line. -/
def summary (p : Program α) : String :=
  "Program \x7b instructions: [" ++ ", ".intercalate p.labels ++ "], ignore: " ++
    (match p.ignore with
      | some q => "Some(" ++ q.label ++ ")"
      | none => "None") ++
    ", captures: " ++ toString p.captures ++ " \x7d"

end Program

end GrammarMachine
