import GrammarMachine.Proofs.Calculator.Grammar
import GrammarMachine.Proofs.Operators.Reading

/-!
# What the patterns of the calculator consume

What a pattern does is said of the text that follows the offset, which is the same in every text:
from the text `r` to the text `r'` behind what is consumed.

* `Consumes fs p r r' F`, `Misses fs p r`: the pattern matches up to where `r'` follows, and changes
  the attribute by `F`; or it does not match.
* `Consumes.unique`, `Misses.not_consumes`: only one of these is the case.
* `Goes fs g r r' F`, `Sticks fs g r`: the same for a chain of steps.
* `Chain fs p max n r v r' v'`: iterations of a pattern lead from `r` and the value `v` to `r'` and
  `v'`.
* `Goes.repeated`: a repetition goes along a chain.
-/

namespace GrammarMachine.CommandLine.Calculator

/-- Where `r` follows, the pattern consumes what stands before `r'`. -/
def Consumes (fs : Forwards Float) (p : Pattern Float) (r r' : Text)
    (F : Option Float → Option Float) : Prop :=
  ∀ text i a, text.from? i = some r → ∃ m : Match Float, p.Answers fs text i a (some m) ∧
    r = m.matched ++ r' ∧ m.lastIndex = i + Text.byteLength m.matched ∧ m.attr = F a

/-- Where `r` follows, the pattern does not match. -/
def Misses (fs : Forwards Float) (p : Pattern Float) (r : Text) : Prop :=
  ∀ text i a, text.from? i = some r → p.Answers fs text i a none

/-- The steps lead from where `r` follows to where `r'` follows. -/
def Goes (fs : Forwards Float) (g : Grammar Float) (r r' : Text)
    (F : Option Float → Option Float) : Prop :=
  ∀ text i a, text.from? i = some r → ∃ j, g.Reaches fs text i a j (F a) ∧ i ≤ j ∧
    text.from? j = some r'

/-- Where `r` follows, the steps do not match. -/
def Sticks (fs : Forwards Float) (g : Grammar Float) (r : Text) : Prop :=
  ∀ text i a, text.from? i = some r → g.Fails fs text i a

/-- White space is skipped. -/
theorem skips_trimmed (fs : Forwards Float) {text r : Text} {i : Nat}
    (h : text.from? i = some r) : ∃ j, i ≤ j ∧ text.from? j = some (trimmed r) ∧
      ∀ a, Skips (Pattern.Answers fs text) lexicon.ignore i a j := by
  have hsplit : r = r.takeWhile Unicode.isWhitespace ++ trimmed r :=
    List.takeWhile_append_dropWhile.symm
  refine ⟨i + Text.byteLength (r.takeWhile Unicode.isWhitespace), Nat.le_add_right _ _,
    Text.from?_add (by rw [← hsplit]; exact h), fun a => ?_⟩
  have hskips : Skips (Pattern.Answers fs text) lexicon.ignore i a _ :=
    Pattern.skips_run spaceSource .space (Nat.le_refl 1) i a
  rw [h] at hskips
  exact hskips

/-- What is skipped does not depend on the attribute. -/
theorem skipsAlike (fs : Forwards Float) (text : Text) :
    SkipsAlike (Pattern.Answers fs text) lexicon.ignore :=
  skipsAlike_of_skips Pattern.answers_unique
    (Pattern.skips_run spaceSource .space (Nat.le_refl 1))

variable {fs : Forwards Float} {p : Pattern Float} {g : Grammar Float} {r r₁ r₂ : Text}
  {F G H : Option Float → Option Float}

/-- Behind what a pattern consumes white space is skipped. -/
theorem Consumes.skips (hp : Consumes fs p r r₁ G) {text : Text} {i : Nat}
    (hi : text.from? i = some r) (a : Option Float) :
    ∃ m k, p.Answers fs text i a (some m) ∧ r = m.matched ++ r₁ ∧ m.attr = G a ∧
      (∀ b, Skips (Pattern.Answers fs text) lexicon.ignore m.lastIndex b k) ∧ i ≤ k ∧
      text.from? k = some (trimmed r₁) := by
  obtain ⟨m, hm, hr, hlast, hattr⟩ := hp text i a hi
  have hend : text.from? m.lastIndex = some r₁ := by
    rw [hlast]
    exact Text.from?_add (hr ▸ hi)
  obtain ⟨k, hle, hk, hskips⟩ := skips_trimmed fs hend
  exact ⟨m, k, hm, hr, hattr, hskips, by omega, hk⟩

/-- In one place a pattern consumes one text only, and changes the attribute in one way. -/
theorem Consumes.unique (h : Consumes fs p r r₁ F) (h' : Consumes fs p r r₂ G) :
    r₁ = r₂ ∧ ∀ a, F a = G a := by
  have hboth (a : Option Float) : r₁ = r₂ ∧ F a = G a := by
    obtain ⟨m, hm, hr₁, -, hattr⟩ := h r 0 a (Text.from?_zero r)
    obtain ⟨m', hm', hr₂, -, hattr'⟩ := h' r 0 a (Text.from?_zero r)
    obtain rfl := Option.some.inj (hm.unique hm')
    exact ⟨List.append_cancel_left (hr₁.symm.trans hr₂), hattr.symm.trans hattr'⟩
  exact ⟨(hboth none).1, fun a => (hboth a).2⟩

theorem Misses.not_consumes (h : Misses fs p r) : ¬ Consumes fs p r r₁ F := by
  intro h'
  obtain ⟨m, hm, -⟩ := h' r 0 none (Text.from?_zero r)
  cases hm.unique (h r 0 none (Text.from?_zero r))

/-! ## Steps -/

theorem Goes.lexicon (fs : Forwards Float) (r : Text) :
    Goes fs lexicon.grammar r (trimmed r) id := by
  intro text i a hi
  obtain ⟨j, hij, hj, hskips⟩ := skips_trimmed fs hi
  exact ⟨j, Grammar.reaches_lexicon _ (hskips a), hij, hj⟩

theorem Goes.tokenWith (hg : g.Retains) (hl : g.lexicon = Calculator.lexicon)
    (h : Goes fs g r r₁ F) (hp : Consumes fs p r₁ r₂ G) {action : Action Float}
    (haction : ∀ m : Match Float, r₁ = m.matched ++ r₂ → ∀ a, m.attr = G a →
      merge a (action.apply ⟨m.matched, m.attr, a, m.extra⟩) = H a) :
    Goes fs (g.tokenWith p action) r (trimmed r₂) (H ∘ F) := by
  intro text i a hi
  obtain ⟨j, hreach, hij, hj⟩ := h text i a hi
  obtain ⟨m, k, hm, hr₁, hattr, hskips, hjk, hk⟩ := hp.skips hj (F a)
  refine ⟨k, ?_, Nat.le_trans hij hjk, hk⟩
  rw [Function.comp, ← haction m hr₁ (F a) hattr]
  exact hreach.tokenWith hg hm (hl ▸ hskips)

theorem Goes.token (hg : g.Retains) (hl : g.lexicon = Calculator.lexicon)
    (h : Goes fs g r r₁ F) (hp : Consumes fs p r₁ r₂ G) :
    Goes fs (g.token p) r (trimmed r₂) fun a => merge (F a) (G (F a)) := by
  intro text i a hi
  obtain ⟨j, hreach, hij, hj⟩ := h text i a hi
  obtain ⟨m, k, hm, -, hattr, hskips, hjk, hk⟩ := hp.skips hj (F a)
  refine ⟨k, ?_, Nat.le_trans hij hjk, hk⟩
  have htoken := hreach.token hg hm (hl ▸ hskips)
  rwa [hattr] at htoken

theorem Goes.token_sticks (hg : g.Retains) (h : Goes fs g r r₁ F) (hp : Misses fs p r₁) :
    Sticks fs (g.token p) r := by
  intro text i a hi
  obtain ⟨j, hreach, -, hj⟩ := h text i a hi
  exact hreach.token_fails hg.isOpen (hp text j _ hj)

theorem Goes.tokenWith_sticks (hg : g.Retains) (h : Goes fs g r r₁ F) (hp : Misses fs p r₁)
    (action : Action Float) : Sticks fs (g.tokenWith p action) r := by
  intro text i a hi
  obtain ⟨j, hreach, -, hj⟩ := h text i a hi
  exact hreach.tokenWith_fails hg.isOpen (hp text j _ hj)

theorem Sticks.append (hg : g.Retains) (h : Sticks fs g r)
    (is : List (Instr (Pattern Float) Float)) : Sticks fs (g.append is) r :=
  fun text i a hi => (h text i a hi).append hg.isOpen is

/-- Steps that come to their end are a pattern that matches. -/
theorem Goes.consumes (h : Goes fs g r r₁ F) : Consumes fs g.pattern r r₁ F := by
  intro text i a hi
  obtain ⟨j, hreach, hij, hj⟩ := h text i a hi
  obtain ⟨t, ht, hr, hlast⟩ := Text.exists_slice?_of_from? hi hj hij
  exact ⟨_, Pattern.answers_program_iff.2 (hreach.answers ht), hr, hlast, rfl⟩

theorem Sticks.misses (h : Sticks fs g r) : Misses fs g.pattern r :=
  fun text i a hi => Pattern.answers_program_iff.2 (h text i a hi).answers

/-! ## Choices -/

/-- A choice consumes what one of the patterns does if those before it do not match. -/
theorem Goes.choice (hg : g.Retains) (hl : g.lexicon = Calculator.lexicon) (h : Goes fs g r r₁ F)
    {ps : List (Pattern Float)} (hps : ∀ q ∈ ps, Misses fs q r₁) (hp : Consumes fs p r₁ r₂ G)
    (hG : ∀ a, merge a (G a) = G a) (qs : List (Pattern Float)) :
    Goes fs (g.choice (ps ++ p :: qs)) r (trimmed r₂) (G ∘ F) := by
  intro text i a hi
  obtain ⟨j, hreach, hij, hj⟩ := h text i a hi
  obtain ⟨m, k, hm, -, hattr, hskips, hjk, hk⟩ := hp.skips hj (F a)
  refine ⟨k, ?_, Nat.le_trans hij hjk, hk⟩
  have hfirst : FirstMatch (Pattern.Answers fs text) j (F a) (ps ++ p :: qs) (some m) :=
    FirstMatch.append_of_none (fun q hq => hps q hq text j _ hj) (.here hm)
  have hchoice := hreach.choice hg hfirst (hl ▸ hskips)
  rwa [hattr, hG] at hchoice

theorem Goes.choice_sticks (hg : g.Retains) (h : Goes fs g r r₁ F) {ps : List (Pattern Float)}
    (hps : ∀ q ∈ ps, Misses fs q r₁) : Sticks fs (g.choice ps) r := by
  intro text i a hi
  obtain ⟨j, hreach, -, hj⟩ := h text i a hi
  have hfirst : FirstMatch (Pattern.Answers fs text) j (F a) (ps ++ []) none :=
    FirstMatch.append_of_none (fun q hq => hps q hq text j _ hj) .nil
  rw [List.append_nil] at hfirst
  exact hreach.choice_fails hg.isOpen hfirst

/-! ## Repetitions -/

/-- Iterations of the pattern, up to `max` of them, of which `n` were made before. Each changes the
value and leads further on. -/
inductive Chain (fs : Forwards Float) (p : Pattern Float) (max : Option Nat) :
    Nat → Text → Float → Text → Float → Prop
  | stops {n r v} : Misses fs p r → Chain fs p max n r v r v
  | last {n r v r₁ f} : Consumes fs p r r₁ (Option.map f) → trimmed r₁ = r₁ → max = some (n + 1) →
      Chain fs p max n r v r₁ (f v)
  | more {n r v r₁ f r' v'} : Consumes fs p r r₁ (Option.map f) → trimmed r₁ = r₁ → r₁ ≠ r →
      max ≠ some (n + 1) → Chain fs p max (n + 1) r₁ (f v) r' v' → Chain fs p max n r v r' v'

/-- A repetition of the pattern unrolls to the iterations of a chain. -/
theorem Chain.exists_unrolls {max : Option Nat} {n : Nat} {v v' : Float} {r' : Text}
    (h : Chain fs p max n r v r' v') {text : Text} {o : Nat} (ho : text.from? o = some r) :
    ∃ its, Unrolls (Iterates (Pattern.Answers fs text) lexicon.ignore false p) max n o (some v)
        its ∧
      text.from? (offsetAfter o its its.length) = some r' ∧ o ≤ offsetAfter o its its.length ∧
      threadedAttr (some v) its its.length = some v' := by
  -- One iteration, and no white space behind it.
  have hiterates {r r₁ : Text} {v : Float} {f : Float → Float} {o : Nat}
      (ho : text.from? o = some r) (hp : Consumes fs p r r₁ (Option.map f))
      (hr₁ : trimmed r₁ = r₁) :
      ∃ it, Iterates (Pattern.Answers fs text) lexicon.ignore false p o (some v) (some it) ∧
        text.from? it.stop = some r₁ ∧ o ≤ it.stop ∧ it.attr = some (f v) := by
    obtain ⟨m, k, hm, -, hattr, hskips, hle, hk⟩ := hp.skips ho (some v)
    refine ⟨⟨m, k, merge (some v) m.attr⟩, .ends hm (hskips _), hr₁ ▸ hk, hle, ?_⟩
    show merge (some v) m.attr = some (f v)
    rw [hattr]
    rfl
  induction h generalizing o with
  | stops hmiss => exact ⟨[], .fails (.fails (hmiss text o _ ho)), ho, Nat.le_refl o, rfl⟩
  | last hp hr₁ hmax =>
    obtain ⟨it, hit, hstop, hle, hattr⟩ := hiterates ho hp hr₁
    exact ⟨[it], .last hit (.inl hmax), hstop, hle, hattr⟩
  | @more n r v r₁ f r' v' hp hr₁ hne hmax _ ih =>
    obtain ⟨it, hit, hstop, hle, hattr⟩ := hiterates ho hp hr₁
    obtain ⟨its, hits, hend, hle', hattr'⟩ := ih hstop
    have hmove : it.stop ≠ o := by
      rintro heq
      rw [heq, ho] at hstop
      exact hne (Option.some.inj hstop).symm
    exact ⟨it :: its, .more hit hmax hmove (hattr ▸ hits), hend, Nat.le_trans hle hle',
      by rw [List.length_cons, threadedAttr_succ, hattr, hattr']⟩

/-- Behind steps a repetition goes along a chain of iterations. -/
theorem Goes.repeated (hg : g.Retains) (hl : g.lexicon = Calculator.lexicon) {max : Option Nat}
    (hb : checkBounds 0 max = .ok ()) {v v' : Float} {r' : Text}
    (h : Goes fs g r r₁ fun _ => some v) (hchain : Chain fs p max 0 r₁ v r' v') :
    Consumes fs (.program (g.repeated 0 max p).program) r r' fun _ => some v' := by
  intro text i a hi
  obtain ⟨j, hreach, hij, hj⟩ := h text i a hi
  obtain ⟨its, hits, hend, hle, hattr⟩ := hchain.exists_unrolls hj
  obtain ⟨t, ht, hr, hlast⟩ := Text.exists_slice?_of_from? hi hend (Nat.le_trans hij hle)
  exact ⟨_, Pattern.answers_program_iff.2
    (hreach.repeated hg hb (hl ▸ skipsAlike fs text) (hl ▸ hits) ht), hr, hlast, hattr⟩

theorem Sticks.repeated (hg : g.Retains) (h : Sticks fs g r) (min : Nat) (max : Option Nat)
    (p : Pattern Float) : Misses fs (.program (g.repeated min max p).program) r :=
  fun text i a hi => Pattern.answers_program_iff.2 ((h text i a hi).repeated hg.isOpen min max p)

/-! ## References -/

theorem Consumes.forward {cell : Nat} {q : Program Float} (hc : fs.get? cell = some q)
    (h : Consumes fs (.program q) r r₁ F) : Consumes fs (.forward cell) r r₁ F := by
  intro text i a hi
  obtain ⟨m, hm, hrest⟩ := h text i a hi
  exact ⟨m, (Pattern.answers_forward_iff hc).2 (Pattern.answers_program_iff.1 hm), hrest⟩

theorem Misses.forward {cell : Nat} {q : Program Float} (hc : fs.get? cell = some q)
    (h : Misses fs (.program q) r) : Misses fs (.forward cell) r :=
  fun text i a hi =>
    (Pattern.answers_forward_iff hc).2 (Pattern.answers_program_iff.1 (h text i a hi))

end GrammarMachine.CommandLine.Calculator
