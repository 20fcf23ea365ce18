import GrammarMachine.BuildError
import GrammarMachine.Program

/-!
# Forward references

A forward reference is a cell that can be used as a pattern before the program it stands for exists.
The cell is looked up when the pattern is tested, so the program only has to be there by then. A
cell is written at most once.

* `Forward.define` refuses to define a cell twice; `Forward.bind` leaves a defined cell alone.
* `fix` and `letrec` build programs that refer to themselves and to each other.
* `Forward.finish` checks that every one of a list of cells is defined.
-/

namespace GrammarMachine

/-- The cells created so far, each with its program once it is defined. -/
structure Forwards (α : Type) where
  cells : Array (Option (Program α))

namespace Forwards

variable {α : Type}

def empty : Forwards α := ⟨#[]⟩

/-- The program that a cell holds. -/
def get? (fs : Forwards α) (cell : Nat) : Option (Program α) := fs.cells[cell]?.join

/-- Adds an undefined cell. -/
def push (fs : Forwards α) : Forwards α := ⟨fs.cells.push none⟩

/-- Writes a cell. -/
def set (fs : Forwards α) (cell : Nat) (p : Program α) : Forwards α :=
  ⟨fs.cells.setIfInBounds cell (some p)⟩

@[simp] theorem get?_empty (cell : Nat) : (empty : Forwards α).get? cell = none := by
  simp [empty, get?]

/-- Adding a cell defines none. -/
@[simp] theorem get?_push (fs : Forwards α) (cell : Nat) : fs.push.get? cell = fs.get? cell := by
  simp only [push, get?, Array.getElem?_push]
  split
  · simp_all
  · rfl

theorem get?_set_self {fs : Forwards α} {cell : Nat} (p : Program α) (h : cell < fs.cells.size) :
    (fs.set cell p).get? cell = some p := by
  simp [set, get?, h]

theorem get?_set_ne {fs : Forwards α} {cell other : Nat} (p : Program α) (h : cell ≠ other) :
    (fs.set cell p).get? other = fs.get? other := by
  simp [set, get?, h]

end Forwards

/-- A construction that may create and define cells, or fail. What it did before it failed stays
done. -/
abbrev Build (α β : Type) := ExceptT BuildError (StateM (Forwards α)) β

namespace Build

variable {α β : Type}

/-- What comes of a construction, and the cells after it. -/
def outcome (x : Build α β) (fs : Forwards α) : Except BuildError β × Forwards α :=
  StateT.run (ExceptT.run x) fs

/-- What comes of a construction that succeeds, with the cells after it; or else the error. -/
def run (x : Build α β) (fs : Forwards α) : Except BuildError (β × Forwards α) :=
  (x.outcome fs).1.map fun b => (b, (x.outcome fs).2)

end Build

namespace Forward

variable {α : Type}

/-- Creates a cell. -/
def new : Build α Nat := do
  let fs ← get
  set fs.push
  return fs.cells.size

/-- Creates a number of cells. -/
def news : Nat → Build α (List Nat)
  | 0 => return []
  | n + 1 => do
    let cell ← new
    return cell :: (← news n)

def isDefined (cell : Nat) : Build α Bool := do
  return ((← get).get? cell).isSome

/-- Defines a cell; a defined cell is an error. -/
def define (cell : Nat) (p : Program α) : Build α Unit := do
  match (← get).get? cell with
  | some _ => throw .forwardAlreadyDefined
  | none => modify (·.set cell p)

/-- Defines a cell unless it is defined. -/
def bind (cell : Nat) (p : Program α) : Build α Unit := do
  match (← get).get? cell with
  | some _ => return
  | none => modify (·.set cell p)

/-- Defines cells in order, leaving those that are defined. -/
def bindAll : List Nat → List (Program α) → Build α Unit
  | cell :: cells, p :: ps => do
    bind cell p
    bindAll cells ps
  | _, _ => return

/-- The programs of all cells; the first undefined one is an error, told by its place. -/
def finish (cells : List Nat) : Build α (List (Program α)) := go 0 cells
where
  go (index : Nat) : List Nat → Build α (List (Program α))
    | [] => return []
    | cell :: cells => do
      match (← get).get? cell with
      | some p => return p :: (← go (index + 1) cells)
      | none => throw (.forwardUndefined index)

end Forward

variable {α : Type}

/-- Builds a program that may refer to itself. -/
def fix (body : Nat → Build α (Program α)) : Build α (Program α) := do
  let cell ← Forward.new
  let p ← body cell
  Forward.bind cell p
  return p

/-- Builds programs that may refer to each other. -/
def letrec (count : Nat) (bodies : List Nat → Build α (List (Program α))) :
    Build α (List (Program α)) := do
  let cells ← Forward.news count
  let ps ← bodies cells
  Forward.bindAll cells ps
  return ps

end GrammarMachine
