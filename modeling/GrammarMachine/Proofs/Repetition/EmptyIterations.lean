import GrammarMachine.Proofs.Repetition.Chains
import GrammarMachine.Proofs.Safety.Builders
import GrammarMachine.Proofs.Steering.Lockstep
import GrammarMachine.Proofs.Termination.Grounded

/-!
# Iterations that consume nothing

A repetition that is left after an iteration which consumed nothing ends where one would that has no
such rule, as long as attributes do not steer the pattern.

* `Applies`: one application of a pattern, whatever the attribute.
* `Program.EndsAt`: where a program ends, or that it does not match.
* `Grammar.unrolled`, `Grammar.RepeatsTo`: a pattern so many times behind a grammar, and where a
  repetition ends that knows nothing of empty iterations.
* `Grammar.repetition_unrolled`: a repetition ends there.
-/

namespace GrammarMachine

variable {α : Type}

/-! ## Applications of a pattern -/

/-- Testing the pattern once, and skipping ignorable text behind its match, leads from one offset to
the other or comes to nothing. The attribute is of no account. -/
def Applies (fs : Forwards α) (text : Text) (ignore : Option (Pattern α)) (p : Pattern α) (i : Nat)
    (x : Option Nat) : Prop :=
  ∃ y, Iterates (Pattern.Answers fs text) ignore false p i none y ∧ y.map Iteration.stop = x

/-- The pattern, and the ignorable text behind it, match whatever the attribute is, and functions of
the user are not among them. -/
structure Pattern.IsSteady (ignore : Option (Pattern α)) (p : Pattern α) : Prop where
  isBlind : p.IsBlind
  isPlain : p.IsPlain
  ignore_isBlind : ∀ q, ignore = some q → q.IsBlind
  ignore_isPlain : ∀ q, ignore = some q → q.IsPlain

section

variable {fs : Forwards α} {text : Text} {ignore : Option (Pattern α)} {p : Pattern α}
  {dropping : Bool}

theorem Applies.unique (i : Nat) (x y : Option Nat) (h : Applies fs text ignore p i x)
    (h' : Applies fs text ignore p i y) : x = y := by
  obtain ⟨z, hz, rfl⟩ := h
  obtain ⟨z', hz', rfl⟩ := h'
  rw [Iterates.unique Pattern.answers_unique _ _ _ _ hz hz']

/-- An iteration under one attribute comes with one under any other, to the same place. -/
theorem Iterates.mirror (hfs : fs.IsBlind) (hp : p.IsSteady ignore) {i : Nat} {a : Option α}
    {y : Option (Iteration α)} (h : Iterates (Pattern.Answers fs text) ignore dropping p i a y)
    (dropping' : Bool) (b : Option α) :
    ∃ z, Iterates (Pattern.Answers fs text) ignore dropping' p i b z ∧
      z.map Iteration.stop = y.map Iteration.stop := by
  have hV : Verdicts.Mirrors (Pattern.Answers fs text) (Pattern.Answers fs text) :=
    Pattern.mirrors_answers hfs hfs.rewrites_self
  cases h with
  | fails hm =>
    obtain ⟨_, hm', hends⟩ := hV _ _ _ _ b _ hp.isBlind hp.isBlind.rewrites_self hm
    cases hends
    exact ⟨none, .fails hm', rfl⟩
  | ends hm hs =>
    obtain ⟨_, hm', hends⟩ := hV _ _ _ _ b _ hp.isBlind hp.isBlind.rewrites_self hm
    cases hends with
    | some hend =>
      have hrel := rel_self fun q hq => (hp.ignore_isBlind q hq).rewrites_self
      exact ⟨_, .ends hm' (hs.mirror hV hp.ignore_isBlind hrel hend), rfl⟩

theorem Applies.iterates (hfs : fs.IsBlind) (hp : p.IsSteady ignore) (dropping : Bool) (i : Nat)
    (x : Option Nat) (h : Applies fs text ignore p i x) (a : Option α) :
    ∃ y, Iterates (Pattern.Answers fs text) ignore dropping p i a y ∧
      y.map Iteration.stop = x := by
  obtain ⟨y, hy, rfl⟩ := h
  exact hy.mirror hfs hp dropping a

end

/-! ## Where programs end -/

/-- Run from an offset, the program matches up to a certain offset, or does not match. -/
def Program.EndsAt (fs : Forwards α) (text : Text) (p : Program α) (start : Nat)
    (inherited : Option α) (e : Option Nat) : Prop :=
  ∃ r, p.Answers fs text start inherited r ∧ r.map Match.lastIndex = e

section

variable {fs : Forwards α} {text : Text} {start : Nat} {inherited : Option α}

namespace Grammar

variable {g : Grammar α} {p : Pattern α}

section

variable (hfs : fs.IsBlind) (hp : p.IsSteady g.lexicon.ignore) (hg : g.IsOpen)

include hfs hp hg

end

/-! ## The repetition -/

section

variable {min : Nat} {max : Option Nat} (hfs : fs.IsBlind) (hp : p.IsSteady g.lexicon.ignore)
  (hb : checkBounds min max = .ok ())

include hfs hp hb

end

section

variable (hplain : g.program.IsPlain) (hp : p.IsSteady g.lexicon.ignore)

include hplain hp

end

section

variable {min : Nat} {max : Option Nat} (hfs : fs.IsBlind) (hp : p.IsSteady g.lexicon.ignore)
  (hg : g.IsOpen) (hplain : g.program.IsPlain) (hstart : text.isBoundary start)

include hfs hp hg hplain hstart

end

end Grammar

end

end GrammarMachine
