import GrammarMachine.Program

/-!
# What a run notes down

A run of the machine notes every instruction, every call of a callback and every finished repetition
in the order in which they happen, in attempts that are abandoned as well.

* `Event.trace?` is the line by which an event is traced; calls of callbacks have none.
-/

namespace GrammarMachine

/-- One thing that happened in a run. -/
inductive Event (π α : Type) where
  | executed (pc offset : Nat) (instr : Instr π α)
  /-- An iteration that consumed nothing ended its repetition. -/
  | emptyIteration (pc offset : Nat)
  | repetitionFinished (iterations : Nat) (folded : Bool)
  | undefinedForward (offset : Nat)
  | actionCalled (tag : Option String) (call : ActionCall α)
  /-- The action of a fold was called for one iteration. -/
  | foldCalled (tag : Option String) (call : ActionCall α)
  | transformCalled (tag : Option String) (attr : Option α)
  | conditionTested (tag : Option String) (attr : Option α)
  | matcherCalled (tag : Option String) (offset : Nat) (inherited : Option α)
  /-- A whole text was parsed, or not. -/
  | parsed (matched : Bool) (length : Nat)
  /-- The first match in a text was looked for. -/
  | partSearched (start : Option Nat)
  /-- All matches in a text were looked for. -/
  | allSearched (count : Nat)

namespace Event

variable {π α : Type}

/-- The trace line of an event, its level first. -/
def trace? (patternLabel : π → String) : Event π α → Option String
  | executed pc offset instr =>
    some ("TRACE exec pc=" ++ toString pc ++ " offset=" ++ toString offset ++ " instr=" ++
      instr.label patternLabel)
  | emptyIteration pc offset =>
    some ("TRACE iteration consumed nothing pc=" ++ toString pc ++ " offset=" ++ toString offset)
  | repetitionFinished iterations folded =>
    some ("DEBUG repetition finished iterations=" ++ toString iterations ++ " folded=" ++
      toString folded)
  | undefinedForward offset =>
    some ("WARN forward reference matched before it was defined offset=" ++ toString offset)
  | parsed matched length =>
    some ("DEBUG parse matched=" ++ toString matched ++ " len=" ++ toString length)
  | partSearched start =>
    some ("DEBUG parse_part" ++
      (match start with
        | some s => " start=" ++ toString s
        | none => ""))
  | allSearched count => some ("DEBUG parse_part_global matches=" ++ toString count)
  | actionCalled _ _ | foldCalled _ _ | transformCalled _ _ | conditionTested _ _
  | matcherCalled _ _ _ => none

end Event

/-- The events of a run. -/
structure Journal (π α : Type) where
  /-- The events, the latest first. -/
  latestFirst : List (Event π α)

namespace Journal

variable {π α : Type}

/-- The journal before anything happened. -/
def empty : Journal π α := ⟨[]⟩

def note (j : Journal π α) (e : Event π α) : Journal π α := ⟨e :: j.latestFirst⟩

/-- The events in the order in which they happened. -/
def events (j : Journal π α) : List (Event π α) := j.latestFirst.reverse

@[simp] theorem events_empty : (empty : Journal π α).events = [] := rfl

@[simp] theorem events_note (j : Journal π α) (e : Event π α) :
    (j.note e).events = j.events ++ [e] := by
  simp [events, note]

end Journal

end GrammarMachine
