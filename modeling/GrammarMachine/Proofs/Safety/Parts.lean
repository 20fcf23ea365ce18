import GrammarMachine.Proofs.Safety.Builders
import GrammarMachine.Proofs.Semantics.Paths
import GrammarMachine.Proofs.Termination.Grounded

/-!
# What built programs are made of

A program that is built tests patterns that were built before, and a few that are not to be had
otherwise, each where one builder places it. So all programs that a run comes by are built if the
first one is.

* `Pattern.IsPlaced`: what a step may test.
* `Piece.Built.isComposed`: steps, and the parts of a repetition.
* `Program.Path.isBuilt`: the programs on paths, without forward references.
-/

namespace GrammarMachine

variable {α : Type}

/-- The pattern was built, or is one that only a builder places. -/
inductive Pattern.IsPlaced : Pattern α → Prop
  | built {p} : Piece.Built (.pattern p) → IsPlaced p
  | lineBreak : IsPlaced .lineBreak
  | endOfInput : IsPlaced .endOfInput
  | wordEnd {ignore words} : (∀ p, ignore = some p → Piece.Built (.pattern p)) →
      IsPlaced (.wordEnd ignore words)

/-- The steps of the chain test what a step may test. -/
structure Grammar.IsComposed (g : Grammar α) : Prop where
  ignore : ∀ p, g.lexicon.ignore = some p → Piece.Built (.pattern p)
  tests : ∀ x ∈ g.instrs, ∀ p ∈ x.patterns, p.IsPlaced

/-- Around its parts, which consume patterns that were built, the repetition tests what a step may
test. -/
structure Repetition.IsComposed (r : Repetition α) : Prop where
  ignore : ∀ p, r.ignore = some p → Piece.Built (.pattern p)
  lead : ∀ x ∈ r.lead, ∀ p ∈ x.patterns, p.IsPlaced
  parts : ∀ x ∈ r.opening ++ r.body,
    ∃ p c, x = .consume p none c true ∧ Piece.Built (.pattern p)
  trail : ∀ x ∈ r.trail, ∀ p ∈ x.patterns, p.IsPlaced

/-- What every call preserves. -/
def Piece.IsComposed : Piece α → Prop
  | lexicon l => ∀ p, l.ignore = some p → Built (.pattern p)
  | grammar g => g.IsComposed
  | repetition r => r.IsComposed
  | pattern _ | program _ => True

namespace Grammar.IsComposed

variable {g : Grammar α} {p d : Pattern α}

/-- More steps that test what steps may test. -/
theorem append (h : g.IsComposed) {is : List (Instr (Pattern α) α)}
    (his : ∀ x ∈ is, ∀ p ∈ x.patterns, p.IsPlaced) : (g.append is).IsComposed where
  ignore := h.ignore
  tests x hx := (List.mem_append.1 hx).elim (h.tests x) (his x)

theorem step (h : g.IsComposed) {x : Instr (Pattern α) α} (hx : ∀ p ∈ x.patterns, p.IsPlaced) :
    (g.append [x]).IsComposed :=
  h.append fun _ hy => List.mem_singleton.1 hy ▸ hx

/-- One more step that tests one pattern. -/
theorem step_one (h : g.IsComposed) {x : Instr (Pattern α) α} (hx : x.patterns = [p])
    (hp : p.IsPlaced) : (g.append [x]).IsComposed :=
  h.step fun _ hq => List.mem_singleton.1 (hx ▸ hq) ▸ hp

theorem of_lexicon {l : Lexicon α} (h : ∀ p, l.ignore = some p → Piece.Built (.pattern p)) :
    l.grammar.IsComposed := by
  refine ⟨h, fun x hx => ?_⟩
  simp only [Lexicon.grammar] at hx
  split at hx
  · obtain rfl := List.mem_singleton.1 hx
    exact List.forall_mem_nil _
  · cases hx

theorem repeated (h : g.IsComposed) (hp : Piece.Built (.pattern p)) (min : Nat)
    (max : Option Nat) : (g.repeated min max p).IsComposed where
  ignore := h.ignore
  lead := h.tests
  parts _ hx := ⟨p, some loopCapture, List.mem_singleton.1 hx, hp⟩
  trail _ hx := nomatch hx

theorem tokenDelimited (h : g.IsComposed) (hp : Piece.Built (.pattern p))
    (hd : Piece.Built (.pattern d)) : (g.tokenDelimited p d).IsComposed where
  ignore := h.ignore
  lead := h.tests
  parts x hx := by
    simp only [Grammar.tokenDelimited, List.singleton_append, List.mem_cons, List.not_mem_nil,
      or_false] at hx
    rcases hx with rfl | rfl | rfl
    · exact ⟨p, _, rfl, hp⟩
    · exact ⟨d, _, rfl, hd⟩
    · exact ⟨p, _, rfl, hp⟩
  trail _ hx := nomatch hx

end Grammar.IsComposed

namespace Repetition.IsComposed

variable {r : Repetition α}

/-- A terminal behind the repetition. -/
theorem trailing (h : r.IsComposed) {p : Pattern α} (hp : p.IsPlaced) :
    ({ r with trail := r.trail ++ [.token p] } : Repetition α).IsComposed :=
  { h with
    trail := fun x hx => (List.mem_append.1 hx).elim (h.trail x) fun hx q hq => by
      obtain rfl := List.mem_singleton.1 hx
      exact List.mem_singleton.1 hq ▸ hp }

theorem tests (h : r.IsComposed) : ∀ x ∈ r.program.instrs, ∀ p ∈ x.patterns, p.IsPlaced := by
  have hpart {x : Instr (Pattern α) α} (hx : x ∈ r.opening ++ r.body) (p : Pattern α)
      (hp : p ∈ x.patterns) : p.IsPlaced := by
    obtain ⟨q, c, rfl, hq⟩ := h.parts x hx
    exact List.mem_singleton.1 hp ▸ .built hq
  intro x hx
  rcases IsSingle.mem_cases hx with hx | hx | hx | hx | rfl | rfl | rfl
  · exact h.lead x hx
  · exact hpart (List.mem_append_left _ hx)
  · exact hpart (List.mem_append_right _ hx)
  · exact h.trail x hx
  all_goals exact fun p hp => nomatch hp

end Repetition.IsComposed

namespace Piece

/-- What is built is composed of what was built before. -/
theorem Built.isComposed {x : Piece α} (h : Built x) : x.IsComposed := by
  induction h with
  | noLexicon | withoutIgnore => exact fun p hp => nomatch hp
  | withIgnore _ hp =>
    rintro p ⟨⟩
    exact hp
  | withKeywords _ _ ih => exact ih
  | literal | regex | forward | custom | ofProgram | buildGrammar | buildRepetition => trivial
  | grammar _ ih => exact .of_lexicon ih
  | token _ hp ih | tokenWith _ _ hp ih | tokenPass _ hp ih | tokenInt _ _ hp ih
  | tokenFloat _ _ hp ih | ahead _ hp ih | notAhead _ hp ih => exact ih.step_one rfl (.built hp)
  | real _ _ _ ih => exact ih.step_one rfl (.built (.regex _))
  | lineBreak _ ih => exact ih.step_one rfl .lineBreak
  | endOfInput _ ih => exact ih.step_one rfl .endOfInput
  | word id _ ih =>
    refine ih.append fun x hx p hp => ?_
    simp only [List.mem_cons, List.not_mem_nil, or_false] at hx
    rcases hx with rfl | rfl | rfl
    · exact List.mem_singleton.1 hp ▸ .built (.literal id)
    · exact List.mem_singleton.1 hp ▸ .wordEnd ih.ignore
    · cases hp
  | choice _ hps ih => exact ih.step fun p hp => .built (hps p hp)
  | guard _ _ ih | dropAttributes _ ih | assign _ _ ih | transform _ _ ih | keywordIn _ _ _ ih
  | keyword _ _ ih | noKeyword _ ih | noKeywordIn _ _ ih => exact ih.step fun p hp => nomatch hp
  | tokenTimes _ _ _ hp hr ih | tokenAtMost _ _ hp hr ih =>
    obtain ⟨-, rfl⟩ := Grammar.tokenTimes_eq_ok hr
    exact ih.repeated hp _ _
  | tokenAtLeast _ _ hp ih | tokenMaybe _ hp ih | tokenZeroOrMore _ hp ih
  | tokenOneOrMore _ hp ih => exact ih.repeated hp _ _
  | tokenDelimited _ hp hd ih => exact ih.tokenDelimited hp hd
  | times _ _ hg hr ih | atMost _ hg hr ih =>
    obtain ⟨-, rfl⟩ := Grammar.tokenTimes_eq_ok hr
    exact (Grammar.IsComposed.of_lexicon ih.ignore).repeated (.ofProgram (.buildGrammar hg)) _ _
  | atLeast _ hg ih | maybe hg ih | zeroOrMore hg ih | oneOrMore hg ih =>
    exact (Grammar.IsComposed.of_lexicon ih.ignore).repeated (.ofProgram (.buildGrammar hg)) _ _
  | delimited hg hd ih =>
    exact (Grammar.IsComposed.of_lexicon ih.ignore).tokenDelimited (.ofProgram (.buildGrammar hg))
      hd
  | withFold _ _ _ ih => exact { ih with }
  | lineBreakAfter _ ih => exact ih.trailing .lineBreak
  | endOfInputAfter _ ih => exact ih.trailing .endOfInput

end Piece

/-! ## Programs on paths -/

section

variable {fs : Forwards α} {text : Text} {p q : Program α} {t : Pattern α} {f g : Frame α}
  {is : List Nat}

/-- What a built program tests was built, or is placed. -/
theorem Code.Tests.isPlaced {V : Verdicts (Pattern α) α} {js : List Nat} {i : Nat} {a : Option α}
    (h : p.Tests V text f js t i a) (hp : Piece.Built (.program p)) : t.IsPlaced := by
  cases hp with
  | buildGrammar hg =>
    have hc : Grammar.IsComposed _ := hg.isComposed
    exact h.mem.elim (fun ⟨x, hx, ht⟩ => hc.tests x hx t ht) fun ht => .built (hc.ignore t ht)
  | buildRepetition hr =>
    have hc : Repetition.IsComposed _ := hr.isComposed
    exact h.mem.elim (fun ⟨x, hx, ht⟩ => hc.tests x hx t ht) fun ht => .built (hc.ignore t ht)

theorem Pattern.Holds.isBuilt (h : t.Holds fs p) (ht : t.IsPlaced) (hg : t.IsGrounded) :
    Piece.Built (.program p) ∧ p.IsGrounded := by
  induction h with
  | program code =>
    cases hg with
    | program hpatterns hignore =>
      cases ht with
      | built hb =>
        cases hb with
        | ofProgram hb => exact ⟨hb, hpatterns, hignore⟩
  | forward => cases hg
  | wordEnd _ ih =>
    cases hg with
    | wordEnd hignore =>
      cases ht with
      | built hb => cases hb
      | wordEnd hb => exact ih (.built (hb _ rfl)) (hignore _ rfl)

/-- Without forward references and functions, the programs that a run comes by are built, and are
without these as well. -/
theorem Program.Path.isBuilt (h : p.Path fs text f is q g) (hp : Piece.Built (.program p))
    (hg : p.IsGrounded) : Piece.Built (.program q) ∧ q.IsGrounded := by
  induction h with
  | here => exact ⟨hp, hg⟩
  | step _ _ ih | iterate _ _ ih | leave _ _ ih => exact ih
  | enter _ htests hc ih =>
    obtain ⟨hq, hqg⟩ := ih
    refine hc.isBuilt (htests.isPlaced hq) ?_
    exact htests.mem.elim (fun ⟨x, hx, ht⟩ => hqg.patterns x hx _ ht) (hqg.ignore _)

end

end GrammarMachine
