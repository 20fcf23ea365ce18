import GrammarMachine.Text.Basic

/-!
# Matches, attributes and callbacks

A match covers a stretch of text and may synthesize an attribute of a type that the user chooses.
The user's functions, such as actions on attributes, are callbacks: plain functions with an optional
tag by which their calls can be told apart.

* `merge`: a present attribute replaces the current one, an absent one leaves it.
* `Action`: computes an attribute from a match.
-/

namespace GrammarMachine

/-- One successful match of a pattern. -/
structure Match (α : Type) where
  /-- The text covered. -/
  matched : Text
  /-- The byte offset after the match. -/
  lastIndex : Nat
  /-- The attribute synthesized by the pattern, if any. -/
  attr : Option α := none
  /-- The groups of a regular expression, the whole match first; empty for other patterns. -/
  extra : List (Option Text) := []
deriving Repr, BEq

/-- A match of what lies between two offsets; absent unless that can be sliced out of the text. -/
def Match.span? {α : Type} (text : Text) (start stop : Nat) : Option (Match α) :=
  (text.slice? start stop).map fun t => ⟨t, stop, none, []⟩

/-- A new attribute replaces the old one if it is present. -/
def merge {α : Type} (old new : Option α) : Option α := new.or old

@[simp] theorem merge_none {α : Type} (old : Option α) : merge old none = old := rfl

@[simp] theorem merge_some {α : Type} (old : Option α) (a : α) : merge old (some a) = some a := rfl

theorem merge_self {α : Type} (a : Option α) : merge a a = a := Option.or_self

/-- A function supplied by the user. -/
structure Callback (σ : Type) where
  /-- The function. -/
  apply : σ
  /-- The name under which calls are logged; calls without one are not logged. -/
  tag : Option String := none

/-- What an action is called with. In a fold, `synthesized` belongs to the iteration and `inherited`
is the accumulator. -/
structure ActionCall (α : Type) where
  matched : Text
  synthesized : Option α
  inherited : Option α
  extra : List (Option Text)
deriving Repr, BEq

/-- A semantic action. -/
abbrev Action (α : Type) := Callback (ActionCall α → Option α)

/-- A gate on the current attribute. -/
abbrev Condition (α : Type) := Callback (Option α → Bool)

/-- A change of the current attribute. -/
abbrev Transform (α : Type) := Callback (Option α → Option α)

/-- A matching function: text, offset and inherited attribute to a match. -/
abbrev Matcher (α : Type) := Callback (Text → Nat → Option α → Option (Match α))

namespace Action

variable {α : Type}

/-- The matched text becomes the attribute. -/
def matched (ofText : Text → α) : Action α := ⟨fun c => some (ofText c.matched), none⟩

/-- The attribute that the pattern synthesized. -/
def synthesized : Action α := ⟨fun c => c.synthesized, none⟩

/-- The inherited attribute. -/
def inherited : Action α := ⟨fun c => c.inherited, none⟩

/-- No attribute, so that the inherited one stays. -/
def pass : Action α := ⟨fun _ => none, none⟩

/-- The matched text, read as a value; absent if it cannot be read. -/
def read (ofText? : Text → Option α) : Action α := ⟨fun c => ofText? c.matched, none⟩

end Action

end GrammarMachine
