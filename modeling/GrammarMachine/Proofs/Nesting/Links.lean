import GrammarMachine.Proofs.Repetition.Program

/-!
# Grammars as lists of steps

A grammar is built from its lexicon by one step after the other, and may end in a repetition.

* `Link`, `Lexicon.chain`: the steps of an open grammar, and the grammar that has them.
* `Ending`, `Ending.close`: what may be made of an open grammar: itself, or a repetition with a fold
  and terminals.
* `Ending.close_chain`: the instructions of such a grammar are those of its steps, in order, and then
  those of its end. The steps do not look at what precedes them.
* `Instr.IsPlain`, `Instr.IsToken`: no function of the user is consumed; a pattern and ignorable text
  after it are.
-/

namespace GrammarMachine

variable {α : Type}

/-- One step of an open grammar. -/
inductive Link (α : Type) where
  | token (p : Pattern α) (action : Option (Action α))
  | word (id : Text)
  | choice (ps : List (Pattern α))
  | ahead (p : Pattern α) (positive : Bool)
  | guard (c : Condition α)
  | assign (v : α)
  | transform (t : Transform α)
  | keyword (word : Text) (words : Keywords)
  | dropAttributes

/-- The grammar with one more step. -/
def Link.add (g : Grammar α) : Link α → Grammar α
  | token p none => g.token p
  | token p (some a) => g.tokenWith p a
  | word id => g.word id
  | choice ps => g.choice ps
  | ahead p true => g.ahead p
  | ahead p false => g.notAhead p
  | guard c => g.guard c
  | assign v => g.assign v
  | transform t => g.transform t
  | keyword w words => g.keywordIn w words
  | dropAttributes => g.dropAttributes

/-- The open grammar with these steps. -/
def Lexicon.chain (l : Lexicon α) (ss : List (Link α)) : Grammar α := ss.foldl Link.add l.grammar

/-- The repetitions that a grammar may end in. -/
inductive Seal (α : Type) where
  | times (min : Nat) (max : Option Nat) (p : Pattern α)
  | delimited (element delimiter : Pattern α)

def Seal.repetition (g : Grammar α) : Seal α → Repetition α
  | times min max p => g.repeated min max p
  | delimited element delimiter => g.tokenDelimited element delimiter

/-- How a grammar ends: it stays open, or ends in a repetition, with a fold and terminals. -/
inductive Ending (α : Type) where
  | chain
  | sealed (s : Seal α) (fold : Option (Action α × Option α)) (ts : List Terminal)

/-- The program of an open grammar with this end. -/
def Ending.close (g : Grammar α) : Ending α → Program α
  | chain => g.program
  | sealed s fold ts => (((s.repetition g).folding fold).followedBy ts).program

/-! ## Instructions -/

/-- Whether no function of the user is consumed. -/
def Pattern.IsPlain : Pattern α → Prop
  | custom _ => False
  | _ => True

/-- Whether the instruction consumes no function of the user. -/
def Instr.IsPlain : Instr (Pattern α) α → Prop
  | .consume p _ _ _ => p.IsPlain
  | .choice ps => ∀ p ∈ ps, p.IsPlain
  | _ => True

/-- Whether the instruction just consumes a plain pattern and then ignorable text. -/
def Instr.IsToken (i : Instr (Pattern α) α) : Prop :=
  ∃ p capture, p.IsPlain ∧ i = .consume p none capture true

namespace Link

/-- Whether the step consumes no function of the user. -/
def IsPlain : Link α → Prop
  | token p _ => p.IsPlain
  | choice ps => ∀ p ∈ ps, p.IsPlain
  | _ => True

/-- The instructions of the step. -/
def instrs (l : Lexicon α) : Link α → List (Instr (Pattern α) α)
  | token p a => [.consume p a none true]
  | word id => [.consume (.literal id) none none false,
      .ahead (.wordEnd l.ignore l.keywords) true, .skip]
  | choice ps => [.choice ps]
  | ahead p positive => [.ahead p positive]
  | guard c => [.guard c]
  | assign v => [.assign v]
  | transform t => [.transform t]
  | keyword w words => [.keyword words w]
  | dropAttributes => [.dropAttributes]

theorem add_eq (g : Grammar α) (s : Link α) : s.add g = g.append (s.instrs g.lexicon) := by
  cases s with
  | token p a => cases a <;> rfl
  | ahead p positive => cases positive <;> rfl
  | _ => rfl

theorem isStraight (l : Lexicon α) (s : Link α) : ∀ i ∈ s.instrs l, i.IsStraight := by
  cases s <;> simp [instrs, Instr.IsStraight]

theorem isPlain_instrs {l : Lexicon α} {s : Link α} (h : s.IsPlain) :
    ∀ i ∈ s.instrs l, i.IsPlain := by
  cases s <;> simp_all [instrs, Instr.IsPlain, Pattern.IsPlain, IsPlain]

theorem drops_instrs {l : Lexicon α} {s : Link α} (h : s ≠ .dropAttributes) :
    ∀ i ∈ s.instrs l, i.drops = false := by
  cases s <;> simp_all [instrs, Instr.drops]

end Link

/-- The instructions of steps. -/
def Link.instrsOf (l : Lexicon α) (ss : List (Link α)) : List (Instr (Pattern α) α) :=
  ss.flatMap (·.instrs l)

theorem Lexicon.chain_eq (l : Lexicon α) (ss : List (Link α)) :
    l.chain ss = l.grammar.append (Link.instrsOf l ss) := by
  suffices h : ∀ g : Grammar α, g.lexicon = l →
      ss.foldl Link.add g = g.append (Link.instrsOf l ss) from h _ rfl
  intro g hg
  induction ss generalizing g with
  | nil => simp [Grammar.append, Link.instrsOf]
  | cons s ss ih =>
    rw [List.foldl_cons, Link.add_eq, hg, ih (g.append (s.instrs l)) hg]
    simp [Grammar.append, Link.instrsOf]

section

variable {l : Lexicon α} {ss : List (Link α)}

theorem Lexicon.chain_instrs :
    (l.chain ss).instrs = l.grammar.instrs ++ Link.instrsOf l ss := by
  rw [chain_eq]
  rfl

theorem Lexicon.chain_lexicon : (l.chain ss).lexicon = l := by
  rw [chain_eq]
  rfl

theorem Link.isStraight_instrsOf : ∀ i ∈ instrsOf l ss, i.IsStraight := by
  intro i hi
  obtain ⟨s, -, hi⟩ := List.mem_flatMap.1 hi
  exact s.isStraight l i hi

theorem Link.drops_instrsOf (h : .dropAttributes ∉ ss) : ∀ i ∈ instrsOf l ss, i.drops = false := by
  intro i hi
  obtain ⟨s, hs, hi⟩ := List.mem_flatMap.1 hi
  exact drops_instrs (fun he => h (he ▸ hs)) i hi

theorem Link.isPlain_instrsOf (h : ∀ s ∈ ss, s.IsPlain) : ∀ i ∈ instrsOf l ss, i.IsPlain := by
  intro i hi
  obtain ⟨s, hs, hi⟩ := List.mem_flatMap.1 hi
  exact isPlain_instrs (h s hs) i hi

theorem Lexicon.isOpen_chain : (l.chain ss).IsOpen := by
  rw [chain_eq]
  exact (Grammar.isOpen_of_lexicon l).append Link.isStraight_instrsOf

/-- Steps that drop no attributes give a grammar that keeps them. -/
theorem Lexicon.retains_chain (h : .dropAttributes ∉ ss) : (l.chain ss).Retains where
  isOpen := isOpen_chain
  drops := by
    have hl := (Grammar.retains_lexicon l).drops
    simp only [Grammar.drops] at hl
    rw [Grammar.drops, chain_instrs, List.any_append, hl, Bool.false_or, List.any_eq_false]
    exact fun i hi => Bool.eq_false_iff.1 (Link.drops_instrsOf h i hi)

end

/-! ## The loop of a repetition -/

namespace Repetition

/-- The instructions of a repetition behind what precedes it. -/
def loopInstrs (r : Repetition α) : List (Instr (Pattern α) α) :=
  .loopStart loopCapture :: r.opening ++
    .loopTry loopCapture r.min (r.body.length + 2) r.fold r.init :: r.body ++
    .loopBack (r.body.length + 1) r.max :: r.trail

theorem program_eq (r : Repetition α) : r.program = ⟨r.lead ++ r.loopInstrs, r.ignore, 1⟩ := by
  simp [program, loopInstrs]

/-- A repetition whose parts just consume plain patterns. -/
structure OfTokens (r : Repetition α) : Prop where
  opening : ∀ i ∈ r.opening, i.IsToken
  body : ∀ i ∈ r.body, i.IsToken
  trail : ∀ i ∈ r.trail, i.IsToken

/-- What holds of tokens and of the three instructions of a loop holds of a repetition. -/
theorem OfTokens.forall_loopInstrs {r : Repetition α} (hr : r.OfTokens)
    {P : Instr (Pattern α) α → Prop} (htoken : ∀ i, i.IsToken → P i)
    (hstart : P (.loopStart loopCapture))
    (htry : P (.loopTry loopCapture r.min (r.body.length + 2) r.fold r.init))
    (hback : P (.loopBack (r.body.length + 1) r.max)) : ∀ i ∈ r.loopInstrs, P i := by
  intro i hi
  simp only [loopInstrs, List.mem_append, List.mem_cons] at hi
  rcases hi with ((rfl | hi) | rfl | hi) | rfl | hi
  · exact hstart
  · exact htoken i (hr.opening i hi)
  · exact htry
  · exact htoken i (hr.body i hi)
  · exact hback
  · exact htoken i (hr.trail i hi)

end Repetition

namespace Ending

/-- Whether the end consumes no function of the user. -/
def IsPlain : Ending α → Prop
  | chain => True
  | sealed (.times _ _ p) _ _ => p.IsPlain
  | sealed (.delimited element delimiter) _ _ => element.IsPlain ∧ delimiter.IsPlain

/-- The instructions behind the steps. -/
def instrs : Ending α → List (Instr (Pattern α) α)
  | chain => []
  | sealed s fold ts =>
    (((s.repetition Grammar.empty).folding fold).followedBy ts).loopInstrs

/-- How many repetitions the end has. -/
def captures : Ending α → Nat
  | chain => 0
  | sealed _ _ _ => 1

theorem close_eq (g : Grammar α) (e : Ending α) :
    e.close g = ⟨g.instrs ++ e.instrs, g.lexicon.ignore, e.captures⟩ := by
  cases e with
  | chain => simp [close, instrs, captures, Grammar.program]
  | sealed s fold ts =>
    rw [close, Repetition.program_eq]
    cases s <;> cases fold <;>
      simp [instrs, captures, Seal.repetition, Repetition.folding, Repetition.followedBy_eq,
        Repetition.loopInstrs, Grammar.repeated, Grammar.tokenDelimited, Repetition.withFold]

theorem close_chain {l : Lexicon α} (ss : List (Link α)) (e : Ending α) :
    e.close (l.chain ss) =
      ⟨l.grammar.instrs ++ (Link.instrsOf l ss ++ e.instrs), l.ignore, e.captures⟩ := by
  rw [close_eq, Lexicon.chain_instrs, Lexicon.chain_lexicon, List.append_assoc]

/-- The parts of a repetition that ends a grammar consume patterns one after the other. -/
theorem ofTokens {s : Seal α} {fold : Option (Action α × Option α)} {ts : List Terminal}
    (h : (sealed s fold ts).IsPlain) (g : Grammar α) :
    (((s.repetition g).folding fold).followedBy ts).OfTokens := by
  have htrail : ∀ i ∈ ts.map fun t => (Instr.token t.pattern : Instr (Pattern α) α), i.IsToken := by
    intro i hi
    obtain ⟨t, -, rfl⟩ := List.mem_map.1 hi
    exact ⟨t.pattern, none, by cases t <;> trivial, rfl⟩
  have hone {p : Pattern α} (hp : p.IsPlain) (c : Option Nat) :
      (Instr.consume p none c true : Instr (Pattern α) α).IsToken := ⟨p, c, hp, rfl⟩
  cases s with
  | times min max p =>
    cases fold <;>
      exact ⟨by simp [Seal.repetition, Repetition.folding, Repetition.followedBy_eq,
          Grammar.repeated, Repetition.withFold],
        by simpa [Seal.repetition, Repetition.folding, Repetition.followedBy_eq,
          Grammar.repeated, Repetition.withFold] using hone h _,
        by simpa [Seal.repetition, Repetition.folding, Repetition.followedBy_eq,
          Grammar.repeated, Repetition.withFold] using htrail⟩
  | delimited element delimiter =>
    cases fold <;>
      exact ⟨by simpa [Seal.repetition, Repetition.folding, Repetition.followedBy_eq,
          Grammar.tokenDelimited, Repetition.withFold] using hone h.1 _,
        by simpa [Seal.repetition, Repetition.folding, Repetition.followedBy_eq,
          Grammar.tokenDelimited, Repetition.withFold] using ⟨hone h.2 _, hone h.1 _⟩,
        by simpa [Seal.repetition, Repetition.folding, Repetition.followedBy_eq,
          Grammar.tokenDelimited, Repetition.withFold] using htrail⟩

/-- What holds of tokens and of the instructions of a loop holds of the end of a grammar. -/
theorem forall_instrs {e : Ending α} (he : e.IsPlain) {P : Instr (Pattern α) α → Prop}
    (htoken : ∀ i, i.IsToken → P i) (hstart : ∀ c, P (.loopStart c))
    (htry : ∀ c min exit fold init, P (.loopTry c min exit fold init))
    (hback : ∀ n max, P (.loopBack n max)) : ∀ i ∈ e.instrs, P i := by
  cases e with
  | chain => exact fun _ hi => nomatch hi
  | sealed s fold ts =>
    exact (ofTokens he Grammar.empty).forall_loopInstrs htoken (hstart _) (htry _ _ _ _ _)
      (hback _ _)

end Ending

end GrammarMachine
