import GrammarMachine.Matching

/-!
# Parsing texts

* `Program.parseStart` matches at an offset, whatever follows.
* `Program.parse` matches the whole text.
* `Program.parsePart` looks for the first offset where the program matches.
* `Program.foldMatches` and `Program.parseAll` go through all matches that do not overlap, from the
  left. After a match the scan goes on at its end (`Parsed.resume?`), after an empty match one
  character further.
-/

namespace GrammarMachine

/-- A successful parse. -/
structure Parsed (α : Type) where
  matched : Text
  /-- The byte offset after the match. -/
  lastIndex : Nat
  attr : Option α
  /-- Where the match begins, if it was searched for. -/
  startIndex : Option Nat
deriving Repr, BEq

/-- Where a scan goes on after what was found at an offset. Stepping over a character slices the
text, which is not possible where no character begins. -/
def Parsed.resume? {α : Type} (text : Text) (index : Nat) : Option (Parsed α) → Option Nat
  | some r => if index < r.lastIndex then some r.lastIndex else text.nextBoundary? index
  | none => text.nextBoundary? index

theorem Parsed.lt_of_resume? {α : Type} {text : Text} {index next : Nat} {found : Option (Parsed α)}
    (h : resume? text index found = some next) : index < next := by
  cases found with
  | none => exact Text.lt_of_nextBoundary? h
  | some r =>
    rw [resume?] at h
    split at h
    · rename_i hlt
      rwa [← Option.some.inj h]
    · exact Text.lt_of_nextBoundary? h

namespace Program

variable {α β : Type}

/-- Matches at an offset. -/
def parseStart (env : Env α) (p : Program α) (text : Text) (index : Nat) (inherited : Option α) :
    Trial (Pattern α) α (Option (Parsed α)) := do
  let m ← Trial.attempt (p.match? env text index inherited)
  return m.map fun m => ⟨m.matched, m.lastIndex, m.attr, none⟩

/-- Matches the whole text. -/
def parse (env : Env α) (p : Program α) (text : Text) (inherited : Option α) :
    Trial (Pattern α) α (Option (Parsed α)) := do
  let r ← p.parseStart env text 0 inherited
  let whole := r.filter fun r => r.lastIndex = text.byteLength
  Trial.note (.parsed whole.isSome text.byteLength)
  return whole

/-- The match at the first of the offsets where there is one. -/
def firstOf (env : Env α) (p : Program α) (text : Text) (inherited : Option α) :
    List Nat → Trial (Pattern α) α (Option (Parsed α))
  | [] => return none
  | i :: is => do
    match ← p.parseStart env text i inherited with
    | some r => return some { r with startIndex := some i }
    | none => firstOf env p text inherited is

/-- Looks for the first match. The end of the text is tried last. -/
def parsePart (env : Env α) (p : Program α) (text : Text) (inherited : Option α) :
    Trial (Pattern α) α (Option (Parsed α)) := do
  let r ← p.firstOf env text inherited text.boundaries
  Trial.note (.partSearched (r.bind (·.startIndex)))
  return r

/-- The accumulator after what was found at an offset. -/
def foldFound (f : β → Parsed α → β) (acc : β) (index : Nat) : Option (Parsed α) → β
  | some r => f acc { r with startIndex := some index }
  | none => acc

/-- Folds the matches from an offset on. -/
def foldMatchesFrom (env : Env α) (p : Program α) (text : Text) (f : β → Parsed α → β) (acc : β)
    (index : Nat) : Trial (Pattern α) α β := do
  if _h : index ≤ text.byteLength then
    let found ← p.parseStart env text index none
    match _hn : Parsed.resume? text index found with
    | none => Trial.invalidSlice
    | some next => foldMatchesFrom env p text f (foldFound f acc index found) next
  else return acc
termination_by text.byteLength + 1 - index
decreasing_by
  have := Parsed.lt_of_resume? _hn
  omega

/-- Folds all matches that do not overlap, from the left. -/
def foldMatches (env : Env α) (p : Program α) (text : Text) (init : β) (f : β → Parsed α → β) :
    Trial (Pattern α) α β :=
  p.foldMatchesFrom env text f init 0

/-- All matches that do not overlap, from the left. -/
def parseAll (env : Env α) (p : Program α) (text : Text) :
    Trial (Pattern α) α (List (Parsed α)) := do
  let found ← p.foldMatches env text [] fun acc r => r :: acc
  Trial.note (.allSearched found.length)
  return found.reverse

end Program

end GrammarMachine
