import GrammarMachine.Journal

/-!
# The machine

`exec` runs the instructions of a program from an address and an offset. It does not know what a
pattern is: a probe tests patterns for it. A run accepts, fails to match, runs out of fuel, or has a
fault, and these are kept apart; the journal is kept in every case. A fault is what only a program
that was not laid out properly could do: slice the text where no character begins, begin a repetition
that has no place for its iterations, or jump to before the first instruction.

An iteration of a repetition, together with all that follows the repetition, is one nested call.
When it fails, the iterations recorded in it are gone with it, and the repetition goes on to its
exit from the state before the attempt. So the text after a repetition is tried after the most
iterations first, then after fewer and fewer.

* `Frame` is the state of one call; `Frame.enterIteration` starts a nested one.
* `settle` computes the attribute of a repetition once it is over, from the recorded iterations.
-/

namespace GrammarMachine

/-- Why a run has no result. -/
inductive Stop where
  | mismatch
  | outOfFuel
  | invalidSlice
  | invalidCapture
  | invalidJump
deriving Repr, DecidableEq

/-- A computation that may stop without a result, and writes to the journal either way. -/
abbrev Trial (π α β : Type) := EStateM Stop (Journal π α) β

namespace Trial

variable {π α β : Type}

def note (e : Event π α) : Trial π α Unit := modify (·.note e)

def mismatch : Trial π α β := throw .mismatch

def outOfFuel : Trial π α β := throw .outOfFuel

def invalidSlice : Trial π α β := throw .invalidSlice

def invalidCapture : Trial π α β := throw .invalidCapture

def invalidJump : Trial π α β := throw .invalidJump

/-- Turns a failure to match into an absent result. -/
def attempt (t : Trial π α β) : Trial π α (Option β) := fun j =>
  match t j with
  | .ok b j => .ok (some b) j
  | .error .mismatch j => .ok none j
  | .error e j => .error e j

/-- The value of an option; absence is a failure to match. -/
def ofOption : Option β → Trial π α β
  | some b => pure b
  | none => mismatch

end Trial

/-- Tests a pattern at an offset under an inherited attribute. -/
abbrev Probe (π α : Type) := π → Nat → Option α → Trial π α (Match α)

/-- The recorded iterations of every repetition that has begun. -/
abbrev Captures (α : Type) := List (Option (List (Match α)))

namespace Captures

variable {α : Type}

/-- No repetition has begun. -/
def closed (n : Nat) : Captures α := List.replicate n none

/-- Begins a repetition, unless it has begun already. -/
def start (cs : Captures α) (id : Nat) : Captures α := cs.modify id fun l => some (l.getD [])

/-- Records an iteration of a repetition that has begun. -/
def record (cs : Captures α) (id : Nat) (m : Match α) : Captures α :=
  cs.modify id fun l => l.map (· ++ [m])

/-- The recorded iterations in order. -/
def recorded (cs : Captures α) (id : Nat) : List (Match α) := (cs[id]?.join).getD []

@[simp] theorem recorded_closed (n id : Nat) : (closed n : Captures α).recorded id = [] := by
  rw [recorded, closed, List.getElem?_replicate]
  split <;> rfl

/-- Beginning a repetition records nothing. -/
@[simp] theorem recorded_start (cs : Captures α) (id other : Nat) :
    (cs.start id).recorded other = cs.recorded other := by
  rw [recorded, start, List.getElem?_modify, recorded]
  cases cs[other]? with
  | none => rfl
  | some l => by_cases h : id = other <;> cases l <;> simp [h]

/-- A match is recorded for a repetition that has begun, after those recorded before. -/
theorem recorded_record_self {cs : Captures α} {id : Nat} {l : List (Match α)}
    (h : cs[id]? = some (some l)) (m : Match α) :
    (cs.record id m).recorded id = cs.recorded id ++ [m] := by
  simp [recorded, record, h]

theorem recorded_record_ne {cs : Captures α} {id other : Nat} (h : id ≠ other) (m : Match α) :
    (cs.record id m).recorded other = cs.recorded other := by
  simp [recorded, record, h]

end Captures

/-- The state of one call. -/
structure Frame (α : Type) where
  /-- The offset at which the call began. -/
  start : Nat
  /-- The address of the next instruction. -/
  pc : Nat
  /-- The current offset. -/
  index : Nat
  attr : Option α
  /-- How many iterations the enclosing calls have entered. -/
  count : Nat
  /-- Whether attributes are dropped. -/
  dropping : Bool
  /-- The attribute before the repetition. -/
  seed : Option α
  captures : Captures α

/-- What a call ends with. -/
structure Final (α : Type) where
  index : Nat
  attr : Option α
  captures : Captures α

namespace Frame

variable {α : Type}

/-- The frame at the start of a program. -/
def initial (captures : Nat) (start : Nat) (inherited : Option α) : Frame α :=
  ⟨start, 0, start, inherited, 0, false, none, .closed captures⟩

/-- The frame of one more iteration. -/
def enterIteration (f : Frame α) : Frame α :=
  { f with start := f.index, pc := f.pc + 1, count := f.count + 1, seed := none }

/-- The next instruction, with what the last one computed. -/
def next (f : Frame α) (index : Nat) (attr : Option α) : Frame α :=
  { f with pc := f.pc + 1, index := index, attr := attr }

/-- The attribute, or none while attributes are dropped. -/
def keep (f : Frame α) (attr : Option α) : Option α := if f.dropping then none else attr

end Frame

section Machine

variable {π α : Type}

/-- Calls the action of an instruction. -/
def callAction (a : Action α) (call : ActionCall α) : Trial π α (Option α) := do
  Trial.note (.actionCalled a.tag call)
  return a.apply call

/-- Calls the action of a fold. -/
def callFold (a : Action α) (call : ActionCall α) : Trial π α (Option α) := do
  Trial.note (.foldCalled a.tag call)
  return a.apply call

/-- The attribute after a match. The action is called even while attributes are dropped. -/
def attrAfter (f : Frame α) (action : Option (Action α)) (m : Match α) :
    Trial π α (Option α) := do
  match action with
  | some a =>
    let result ← callAction a ⟨m.matched, m.attr, f.attr, m.extra⟩
    return f.keep (merge f.attr result)
  | none => return f.keep (merge f.attr m.attr)

/-- Folds recorded iterations into an accumulator, in order. -/
def foldIterations (dropping : Bool) (a : Action α) :
    Option α → List (Match α) → Trial π α (Option α)
  | acc, [] => pure acc
  | acc, m :: ms => do
    let result ← callFold a ⟨m.matched, m.attr, acc, m.extra⟩
    foldIterations dropping a (if dropping then none else merge acc result) ms

/-- The attribute of a repetition that is over. A fold starts from `init`, or else from the
attribute before the repetition; without a fold, the attribute threaded through the iterations
stands. -/
def settle (f : Frame α) (attr : Option α) (iterations : List (Match α))
    (fold : Option (Action α)) (init : Option α) : Trial π α (Option α) := do
  Trial.note (.repetitionFinished iterations.length fold.isSome)
  match fold with
  | some a => foldIterations f.dropping a (f.keep (merge f.seed init)) iterations
  | none => return f.keep attr

/-- The first of the patterns that matches. -/
def firstMatch (probe : Probe π α) (index : Nat) (inherited : Option α) :
    List π → Trial π α (Match α)
  | [] => Trial.mismatch
  | p :: ps => do
    match ← Trial.attempt (probe p index inherited) with
    | some m => return m
    | none => firstMatch probe index inherited ps

/-- The offset after ignorable text. -/
def skipIgnored (probe : Probe π α) (ignore : Option π) (index : Nat) (inherited : Option α) :
    Trial π α Nat := do
  match ignore with
  | none => return index
  | some p =>
    match ← Trial.attempt (probe p index inherited) with
    | some m => return m.lastIndex
    | none => return index

/-- Runs a program from the state of a frame. -/
def exec (probe : Probe π α) (code : Code π α) (text : Text) :
    Nat → Frame α → Trial π α (Final α)
  | 0, _ => Trial.outOfFuel
  | fuel + 1, f => do
    match code.instrs[f.pc]? with
    | none => return ⟨f.index, f.attr, f.captures⟩
    | some instr =>
      Trial.note (.executed f.pc f.index instr)
      match instr with
      | .consume pattern action capture skips =>
        let m ← probe pattern f.index f.attr
        let attr ← attrAfter f action m
        let captures := match capture with
          | some id => f.captures.record id m
          | none => f.captures
        let index ←
          if skips then skipIgnored probe code.ignore m.lastIndex attr else pure m.lastIndex
        exec probe code text fuel { f.next index attr with captures := captures }
      | .loopStart capture =>
        if capture < f.captures.length then
          exec probe code text fuel
            { f.next f.index f.attr with seed := f.attr, captures := f.captures.start capture }
        else Trial.invalidCapture
      | .loopTry capture min exit fold init =>
        match ← Trial.attempt (exec probe code text fuel f.enterIteration) with
        | some r =>
          let attr := f.keep (merge f.attr r.attr)
          if f.count = 0 then
            let attr ← settle f attr (r.captures.recorded capture) fold init
            return ⟨r.index, attr, r.captures⟩
          else return ⟨r.index, attr, r.captures⟩
        | none =>
          if f.count < min then Trial.mismatch
          else if f.count = 0 then
            let attr ← settle f f.attr (f.captures.recorded capture) fold init
            exec probe code text fuel { f with pc := f.pc + exit, attr := attr }
          else exec probe code text fuel { f with pc := f.pc + exit }
      | .loopBack back max =>
        if max.any (· ≤ f.count) then exec probe code text fuel (f.next f.index f.attr)
        else if f.index = f.start then
          Trial.note (.emptyIteration f.pc f.index)
          exec probe code text fuel (f.next f.index f.attr)
        else if back ≤ f.pc then exec probe code text fuel { f with pc := f.pc - back }
        else Trial.invalidJump
      | .choice branches =>
        let m ← firstMatch probe f.index f.attr branches
        let attr := f.keep (merge f.attr m.attr)
        let index ← skipIgnored probe code.ignore m.lastIndex attr
        exec probe code text fuel (f.next index attr)
      | .ahead pattern positive =>
        let m ← Trial.attempt (probe pattern f.index f.attr)
        if m.isSome = positive then exec probe code text fuel (f.next f.index f.attr)
        else Trial.mismatch
      | .guard condition =>
        Trial.note (.conditionTested condition.tag f.attr)
        if condition.apply f.attr then exec probe code text fuel (f.next f.index f.attr)
        else Trial.mismatch
      | .assign value => exec probe code text fuel (f.next f.index (f.keep (some value)))
      | .transform t =>
        Trial.note (.transformCalled t.tag f.attr)
        exec probe code text fuel (f.next f.index (f.keep (merge f.attr (t.apply f.attr))))
      | .dropAttributes =>
        exec probe code text fuel { f.next f.index f.attr with dropping := true }
      | .skip =>
        let index ← skipIgnored probe code.ignore f.index f.attr
        exec probe code text fuel (f.next index f.attr)
      | .keyword words word =>
        let found ← Trial.ofOption (words.search text f.index)
        if found.matched = word then
          let index ← skipIgnored probe code.ignore found.lastIndex f.attr
          exec probe code text fuel (f.next index f.attr)
        else Trial.mismatch

/-- Runs a program from an offset. What it matched is the text from there to where it ended. -/
def Code.run (probe : Probe π α) (fuel : Nat) (code : Code π α) (text : Text) (start : Nat)
    (inherited : Option α) : Trial π α (Match α) := do
  let r ← exec probe code text fuel (.initial code.captures start inherited)
  let matched ← Trial.ofOption (text.slice? start r.index)
  return ⟨matched, r.index, r.attr, []⟩

end Machine

end GrammarMachine
