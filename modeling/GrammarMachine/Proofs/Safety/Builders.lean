import GrammarMachine.Grammar.Real
import GrammarMachine.Proofs.Forwards.WriteOnce
import GrammarMachine.Proofs.Safety.Faults

/-!
# What builders build is safe

`Piece.Built` is what any chain of calls builds: lexicons, patterns, grammars, repetitions and
programs, each from pieces built before. Custom matching functions are patterns like any other, and
may match whatever they like.

* `Piece.IsSound`: what every call preserves.
* `Piece.Built.isSound`: so every piece that is built is sound.
* `Piece.Built.safe`: a program that is built is well formed, runs without a fault, and stays in its
  code.
-/

namespace GrammarMachine

variable {α : Type}

/-- What is built by chains of calls. -/
inductive Piece (α : Type) where
  | lexicon (l : Lexicon α)
  | pattern (p : Pattern α)
  | grammar (g : Grammar α)
  | repetition (r : Repetition α)
  | program (p : Program α)

namespace Piece

/-- What calls build from pieces that were built before, none of them with an error. -/
inductive Built : Piece α → Prop
  | noLexicon : Built (.lexicon .empty)
  | withIgnore {l p} : Built (.lexicon l) → Built (.pattern p) →
      Built (.lexicon (l.withIgnore (some p)))
  | withoutIgnore {l} : Built (.lexicon l) → Built (.lexicon (l.withIgnore none))
  | withKeywords {l} (words : List Text) : Built (.lexicon l) →
      Built (.lexicon (l.withKeywords words))
  | literal (t : Text) : Built (.pattern (.literal t))
  | regex (r : Regex) : Built (.pattern (.regex r))
  | forward (cell : Nat) : Built (.pattern (.forward cell))
  | custom (f : Matcher α) : Built (.pattern (.custom f))
  | ofProgram {p} : Built (.program p) → Built (.pattern (.program p))
  | buildGrammar {g} : Built (.grammar g) → Built (.program g.program)
  | buildRepetition {r} : Built (.repetition r) → Built (.program r.program)
  | grammar {l} : Built (.lexicon l) → Built (.grammar l.grammar)
  | token {g p} : Built (.grammar g) → Built (.pattern p) → Built (.grammar (g.token p))
  | tokenWith {g p} (a : Action α) : Built (.grammar g) → Built (.pattern p) →
      Built (.grammar (g.tokenWith p a))
  | tokenPass {g p} : Built (.grammar g) → Built (.pattern p) → Built (.grammar (g.tokenPass p))
  | tokenInt {g p} (ofInt : Int64 → α) : Built (.grammar g) → Built (.pattern p) →
      Built (.grammar (g.tokenInt p ofInt))
  | tokenFloat {g p} (ofFloat : Float → α) : Built (.grammar g) → Built (.pattern p) →
      Built (.grammar (g.tokenFloat p ofFloat))
  | real {g} (signed : Bool) (ofFloat : Float → α) : Built (.grammar g) →
      Built (.grammar (g.real signed ofFloat))
  | lineBreak {g} : Built (.grammar g) → Built (.grammar g.lineBreak)
  | endOfInput {g} : Built (.grammar g) → Built (.grammar g.endOfInput)
  | word {g} (id : Text) : Built (.grammar g) → Built (.grammar (g.word id))
  | choice {g ps} : Built (.grammar g) → (∀ p ∈ ps, Built (.pattern p)) →
      Built (.grammar (g.choice ps))
  | ahead {g p} : Built (.grammar g) → Built (.pattern p) → Built (.grammar (g.ahead p))
  | notAhead {g p} : Built (.grammar g) → Built (.pattern p) → Built (.grammar (g.notAhead p))
  | guard {g} (c : Condition α) : Built (.grammar g) → Built (.grammar (g.guard c))
  | dropAttributes {g} : Built (.grammar g) → Built (.grammar g.dropAttributes)
  | assign {g} (v : α) : Built (.grammar g) → Built (.grammar (g.assign v))
  | transform {g} (t : Transform α) : Built (.grammar g) → Built (.grammar (g.transform t))
  | keywordIn {g} (word : Text) (words : Keywords) : Built (.grammar g) →
      Built (.grammar (g.keywordIn word words))
  | keyword {g} (word : Text) : Built (.grammar g) → Built (.grammar (g.keyword word))
  | noKeyword {g} : Built (.grammar g) → Built (.grammar g.noKeyword)
  | noKeywordIn {g} (words : Keywords) : Built (.grammar g) → Built (.grammar (g.noKeywordIn words))
  | tokenTimes {g p r} (min : Nat) (max : Option Nat) : Built (.grammar g) → Built (.pattern p) →
      g.tokenTimes min max p = .ok r → Built (.repetition r)
  | tokenAtLeast {g p} (min : Nat) : Built (.grammar g) → Built (.pattern p) →
      Built (.repetition (g.tokenAtLeast min p))
  | tokenAtMost {g p r} (max : Nat) : Built (.grammar g) → Built (.pattern p) →
      g.tokenAtMost max p = .ok r → Built (.repetition r)
  | tokenMaybe {g p} : Built (.grammar g) → Built (.pattern p) →
      Built (.repetition (g.tokenMaybe p))
  | tokenZeroOrMore {g p} : Built (.grammar g) → Built (.pattern p) →
      Built (.repetition (g.tokenZeroOrMore p))
  | tokenOneOrMore {g p} : Built (.grammar g) → Built (.pattern p) →
      Built (.repetition (g.tokenOneOrMore p))
  | tokenDelimited {g p d} : Built (.grammar g) → Built (.pattern p) → Built (.pattern d) →
      Built (.repetition (g.tokenDelimited p d))
  | times {g r} (min : Nat) (max : Option Nat) : Built (.grammar g) → g.times min max = .ok r →
      Built (.repetition r)
  | atLeast {g} (min : Nat) : Built (.grammar g) → Built (.repetition (g.atLeast min))
  | atMost {g r} (max : Nat) : Built (.grammar g) → g.atMost max = .ok r → Built (.repetition r)
  | maybe {g} : Built (.grammar g) → Built (.repetition g.maybe)
  | zeroOrMore {g} : Built (.grammar g) → Built (.repetition g.zeroOrMore)
  | oneOrMore {g} : Built (.grammar g) → Built (.repetition g.oneOrMore)
  | delimited {g d} : Built (.grammar g) → Built (.pattern d) → Built (.repetition (g.delimited d))
  | withFold {r} (a : Action α) (init : Option α) : Built (.repetition r) →
      Built (.repetition (r.withFold a init))
  | lineBreakAfter {r} : Built (.repetition r) → Built (.repetition r.lineBreak)
  | endOfInputAfter {r} : Built (.repetition r) → Built (.repetition r.endOfInput)

end Piece

/-! ## Instructions in a row -/

theorem Pattern.IsSound.not_isWordEnd {p : Pattern α} (h : p.IsSound) : ¬ p.IsWordEnd := by
  cases h <;> exact id

/-- The patterns that instructions in a row test are sound, or ends of words in their place. -/
structure Instr.TestSound (is : List (Instr (Pattern α) α)) : Prop where
  behindWord : PlacesWordEnds is
  sound : ∀ x ∈ is, ∀ p ∈ x.patterns, ¬ p.IsWordEnd → p.IsSound
  ignore : ∀ x ∈ is, ∀ ignore words, .wordEnd ignore words ∈ x.patterns →
    ∀ p, ignore = some p → p.IsSound

namespace Instr

theorem testSound_of_forall {is : List (Instr (Pattern α) α)}
    (h : ∀ x ∈ is, ∀ p ∈ x.patterns, p.IsSound) : TestSound is where
  behindWord _ x p hx hp hend :=
    absurd hend (h x (List.mem_of_getElem? hx) p hp).not_isWordEnd
  sound x hx p hp _ := h x hx p hp
  ignore x hx _ _ hp := absurd trivial (h x hx _ hp).not_isWordEnd

theorem TestSound.append {is js : List (Instr (Pattern α) α)} (h : TestSound is)
    (h' : TestSound js) : TestSound (is ++ js) where
  behindWord k x p hx hp hend := by
    rcases Nat.lt_or_ge k is.length with hlt | hge
    · rw [List.getElem?_append_left hlt] at hx
      obtain ⟨hahead, j, y, rfl, hy, hword⟩ := h.behindWord k x p hx hp hend
      refine ⟨hahead, j, y, rfl, ?_, hword⟩
      rw [List.getElem?_append_left (by omega), hy]
    · rw [List.getElem?_append_right hge] at hx
      obtain ⟨hahead, j, y, hk, hy, hword⟩ := h'.behindWord _ x p hx hp hend
      refine ⟨hahead, is.length + j, y, by omega, ?_, hword⟩
      rw [List.getElem?_append_right (by omega), Nat.add_sub_cancel_left, hy]
  sound x hx := (List.mem_append.1 hx).elim (h.sound x) (h'.sound x)
  ignore x hx := (List.mem_append.1 hx).elim (h.ignore x) (h'.ignore x)

/-- A word and the test that it ends there. -/
theorem testSound_word (id : Text) {ignore : Option (Pattern α)} (words : Option Keywords)
    (h : ∀ p, ignore = some p → p.IsSound) :
    TestSound [.consume (.literal id) none none false, .ahead (.wordEnd ignore words) true,
      .skip] where
  behindWord k x p hx hp hend := by
    match k, hx with
    | 0, hx =>
      cases hx
      obtain rfl := List.mem_singleton.1 hp
      exact hend.elim
    | 1, hx =>
      cases hx
      obtain rfl := List.mem_singleton.1 hp
      exact ⟨⟨true, rfl⟩, 0, _, rfl, rfl, trivial⟩
    | 2, hx =>
      cases hx
      cases hp
  sound x hx p hp hend := by
    simp only [List.mem_cons, List.not_mem_nil, or_false] at hx
    rcases hx with rfl | rfl | rfl
    · obtain rfl := List.mem_singleton.1 hp
      exact .literal id
    · obtain rfl := List.mem_singleton.1 hp
      exact absurd trivial hend
    · cases hp
  ignore x hx ig ws hp := by
    simp only [List.mem_cons, List.not_mem_nil, or_false] at hx
    rcases hx with rfl | rfl | rfl
    · cases List.mem_singleton.1 hp
    · cases List.mem_singleton.1 hp
      exact h
    · cases hp

/-- A part of a repetition: a pattern and the ignorable text after it. -/
def IsPart (x : Instr (Pattern α) α) : Prop :=
  ∃ p c, x = .consume p none c true ∧ p.IsSound ∧ ∀ id, c = some id → id = loopCapture

theorem IsPart.isInLine {x : Instr (Pattern α) α} (h : x.IsPart) : x.IsInLine := by
  obtain ⟨p, c, rfl, -, -⟩ := h
  trivial

theorem IsPart.sound {x : Instr (Pattern α) α} (h : x.IsPart) : ∀ p ∈ x.patterns, p.IsSound := by
  obtain ⟨p, c, rfl, hp, -⟩ := h
  intro q hq
  exact List.mem_singleton.1 hq ▸ hp

theorem IsStraight.capture?_eq_none {x : Instr (Pattern α) α} (h : x.IsStraight) :
    x.capture? = none := by
  cases x with
  | consume p action capture skips =>
    cases capture with
    | none => rfl
    | some id => exact h.elim
  | loopStart | loopTry => exact h.elim
  | _ => rfl

end Instr

/-! ## Pieces -/

/-- The steps of the chain are sound and none of them loops. -/
structure Grammar.IsSound (g : Grammar α) : Prop where
  ignore : ∀ p, g.lexicon.ignore = some p → p.IsSound
  straight : ∀ x ∈ g.instrs, x.IsStraight
  tests : Instr.TestSound g.instrs

/-- The parts of the repetition are sound. -/
structure Repetition.IsSound (r : Repetition α) : Prop where
  ignore : ∀ p, r.ignore = some p → p.IsSound
  straight : ∀ x ∈ r.lead, x.IsStraight
  tests : Instr.TestSound r.lead
  opening : ∀ x ∈ r.opening, x.IsPart
  body : ∀ x ∈ r.body, x.IsPart
  trail : ∀ x ∈ r.trail, x.IsPart

/-- What every call preserves. -/
def Piece.IsSound : Piece α → Prop
  | lexicon l => ∀ p, l.ignore = some p → p.IsSound
  | pattern p => p.IsSound
  | grammar g => g.IsSound
  | repetition r => r.IsSound
  | program p => Pattern.IsSound (.program p)

namespace Grammar.IsSound

variable {g : Grammar α}

theorem append (h : g.IsSound) {is : List (Instr (Pattern α) α)}
    (hstraight : ∀ x ∈ is, x.IsStraight) (htests : Instr.TestSound is) : (g.append is).IsSound where
  ignore := h.ignore
  straight x hx := (List.mem_append.1 hx).elim (h.straight x) (hstraight x)
  tests := h.tests.append htests

/-- One more step that tests sound patterns. -/
theorem step (h : g.IsSound) {x : Instr (Pattern α) α} (hstraight : x.IsStraight)
    (hx : ∀ p ∈ x.patterns, p.IsSound) : (g.append [x]).IsSound :=
  h.append (fun _ hy => List.mem_singleton.1 hy ▸ hstraight)
    (Instr.testSound_of_forall fun _ hy => List.mem_singleton.1 hy ▸ hx)

/-- One more step that tests one sound pattern. -/
theorem step_one (h : g.IsSound) {x : Instr (Pattern α) α} {p : Pattern α}
    (hstraight : x.IsStraight) (hx : x.patterns = [p]) (hp : p.IsSound) : (g.append [x]).IsSound :=
  h.step hstraight fun _ hq => List.mem_singleton.1 (hx ▸ hq) ▸ hp

theorem program (h : g.IsSound) : Pattern.IsSound (.program g.program) := by
  refine .program ⟨?_, h.tests.behindWord⟩ h.tests.sound h.tests.ignore h.ignore
  refine Code.wellFormed_of_isInLine (fun x hx => (h.straight x hx).isInLine) fun x hx c hc => ?_
  rw [(h.straight x hx).capture?_eq_none] at hc
  cases hc

/-- A repetition of a sound pattern. -/
theorem repeated (h : g.IsSound) (min : Nat) (max : Option Nat) {p : Pattern α} (hp : p.IsSound) :
    (g.repeated min max p).IsSound where
  ignore := h.ignore
  straight := h.straight
  tests := h.tests
  opening _ hx := nomatch hx
  body _ hx :=
    ⟨p, some loopCapture, List.mem_singleton.1 hx, hp, fun _ h => (Option.some.inj h).symm⟩
  trail _ hx := nomatch hx

theorem tokenDelimited (h : g.IsSound) {p d : Pattern α} (hp : p.IsSound) (hd : d.IsSound) :
    (g.tokenDelimited p d).IsSound := by
  have hpart : (Instr.consume p none (some loopCapture) true : Instr (Pattern α) α).IsPart :=
    ⟨p, some loopCapture, rfl, hp, fun _ h => (Option.some.inj h).symm⟩
  refine ⟨h.ignore, h.straight, h.tests, fun x hx => List.mem_singleton.1 hx ▸ hpart,
    fun x hx => ?_, fun _ hx => nomatch hx⟩
  simp only [Grammar.tokenDelimited, List.mem_cons, List.not_mem_nil, or_false] at hx
  rcases hx with rfl | rfl
  · exact ⟨d, none, rfl, hd, by simp⟩
  · exact hpart

end Grammar.IsSound

theorem Lexicon.grammar_isSound {l : Lexicon α} (h : ∀ p, l.ignore = some p → p.IsSound) :
    l.grammar.IsSound := by
  refine ⟨h, Grammar.isOpen_of_lexicon l, Instr.testSound_of_forall fun x hx => ?_⟩
  simp only [Lexicon.grammar] at hx
  split at hx
  · obtain rfl := List.mem_singleton.1 hx
    intro p hp
    cases hp
  · cases hx

namespace Repetition.IsSound

variable {r : Repetition α}

/-- A terminal behind the repetition. -/
theorem trailing (h : r.IsSound) {p : Pattern α} (hp : p.IsSound) :
    ({ r with trail := r.trail ++ [.token p] } : Repetition α).IsSound :=
  { h with
    trail := fun x hx => (List.mem_append.1 hx).elim (h.trail x) fun hx =>
      ⟨p, none, List.mem_singleton.1 hx, hp, nofun⟩ }

theorem isSingle (h : r.IsSound) : r.IsSingle where
  opening x hx := (h.opening x hx).isInLine
  body x hx := (h.body x hx).isInLine
  trail x hx := (h.trail x hx).isInLine

theorem program (h : r.IsSound) : Pattern.IsSound (.program r.program) := by
  have hloop : Instr.TestSound r.loopInstrs := Instr.testSound_of_forall fun x hx => by
    simp only [loopInstrs, List.mem_append, List.mem_cons] at hx
    rcases hx with ((rfl | hx) | rfl | hx) | rfl | hx
    · intro p hp
      cases hp
    · exact (h.opening x hx).sound
    · intro p hp
      cases hp
    · exact (h.body x hx).sound
    · intro p hp
      cases hp
    · exact (h.trail x hx).sound
  have htests := h.tests.append hloop
  have hpart {x : Instr (Pattern α) α} (hx : x.IsPart) (c : Nat) (hc : x.capture? = some c) :
      c < 1 := by
    obtain ⟨p, c', rfl, -, hid⟩ := hx
    rw [hid c hc]
    exact Nat.one_pos
  have hwell : r.program.WellFormed :=
    wellFormed h.isSingle (fun x hx => (h.straight x hx).isInLine) fun x hx c hc => by
      rcases IsSingle.mem_cases hx with hx | hx | hx | hx | rfl | rfl | rfl
      · rw [(h.straight x hx).capture?_eq_none] at hc
        cases hc
      · exact hpart (h.opening x hx) c hc
      · exact hpart (h.body x hx) c hc
      · exact hpart (h.trail x hx) c hc
      · cases hc
        exact Nat.one_pos
      · cases hc
        exact Nat.one_pos
      · cases hc
  rw [program_eq] at hwell ⊢
  exact .program ⟨hwell, htests.behindWord⟩ htests.sound htests.ignore h.ignore

end Repetition.IsSound

namespace Piece

/-- Every call builds sound pieces from sound ones. -/
theorem Built.isSound {x : Piece α} (h : Built x) : x.IsSound := by
  induction h with
  | noLexicon => exact fun p hp => nomatch hp
  | withIgnore _ _ _ ihp =>
    rintro p ⟨⟩
    exact ihp
  | withoutIgnore => exact fun p hp => nomatch hp
  | withKeywords _ _ ih => exact ih
  | literal t => exact .literal t
  | regex r => exact .regex r
  | forward cell => exact .forward cell
  | custom f => exact .custom f
  | ofProgram _ ih => exact ih
  | buildGrammar _ ih => exact ih.program
  | buildRepetition _ ih => exact ih.program
  | grammar _ ih => exact Lexicon.grammar_isSound ih
  | token _ _ ih ihp | tokenWith _ _ _ ih ihp | tokenPass _ _ ih ihp | tokenInt _ _ _ ih ihp
  | tokenFloat _ _ _ ih ihp | ahead _ _ ih ihp | notAhead _ _ ih ihp =>
    exact ih.step_one trivial rfl ihp
  | real signed ofFloat _ ih => exact ih.step_one trivial rfl (.regex _)
  | lineBreak _ ih => exact ih.step_one trivial rfl .lineBreak
  | endOfInput _ ih => exact ih.step_one trivial rfl .endOfInput
  | word id _ ih =>
    refine ih.append (fun x hx => ?_) (Instr.testSound_word id _ ih.ignore)
    simp only [List.mem_cons, List.not_mem_nil, or_false] at hx
    rcases hx with rfl | rfl | rfl <;> trivial
  | choice _ _ ih ihps => exact ih.step trivial ihps
  | guard _ _ ih | dropAttributes _ ih | assign _ _ ih | transform _ _ ih | keywordIn _ _ _ ih
  | keyword _ _ ih | noKeyword _ ih | noKeywordIn _ _ ih =>
    exact ih.step trivial fun p hp => nomatch hp
  | tokenTimes _ _ _ _ hr ih ihp | tokenAtMost _ _ _ hr ih ihp =>
    obtain ⟨-, rfl⟩ := Grammar.tokenTimes_eq_ok hr
    exact ih.repeated _ _ ihp
  | tokenAtLeast _ _ _ ih ihp | tokenMaybe _ _ ih ihp | tokenZeroOrMore _ _ ih ihp
  | tokenOneOrMore _ _ ih ihp => exact ih.repeated _ _ ihp
  | tokenDelimited _ _ _ ih ihp ihd => exact ih.tokenDelimited ihp ihd
  | times _ _ _ hr ih | atMost _ _ hr ih =>
    obtain ⟨-, rfl⟩ := Grammar.tokenTimes_eq_ok hr
    exact (Lexicon.grammar_isSound ih.ignore).repeated _ _ ih.program
  | atLeast _ _ ih | maybe _ ih | zeroOrMore _ ih | oneOrMore _ ih =>
    exact (Lexicon.grammar_isSound ih.ignore).repeated _ _ ih.program
  | delimited _ _ ih ihd => exact (Lexicon.grammar_isSound ih.ignore).tokenDelimited ih.program ihd
  | withFold _ _ _ ih => exact { ih with }
  | lineBreakAfter _ ih => exact ih.trailing .lineBreak
  | endOfInputAfter _ ih => exact ih.trailing .endOfInput

/-- The programs in all cells are built. -/
def AllBuilt (fs : Forwards α) : Prop := ∀ cell q, fs.get? cell = some q → Built (.program q)

/-- Cells hold programs that are built if no others are asked for. -/
theorem AllBuilt.requests {β : Type} {fs : Forwards α} {x : Build α β}
    {bs : List (Nat × Program α)} (hfs : AllBuilt fs) (h : x.Requests fs bs)
    (hbs : ∀ b ∈ bs, Built (.program b.2)) : AllBuilt (x.outcome fs).2 := by
  intro cell q hq
  rw [h.get? cell] at hq
  rcases Option.or_eq_some_iff.1 hq with hq | ⟨-, hq⟩
  · exact hfs cell q hq
  · obtain ⟨l₁, l₂, rfl, -⟩ := List.lookup_eq_some_iff.1 hq
    exact hbs (cell, q) (List.mem_append_right l₁ List.mem_cons_self)

/-- The program of a level of operators is built. -/
theorem Built.exists_levelProgram {l : Lexicon α} (hl : Built (.lexicon l)) (symbols : Keywords)
    (cells : List Nat) (this next : Nat) {level : Level α} (h : level.isPrimary = false) :
    ∃ p, OperatorTable.levelProgram l symbols cells (.forward this) (.forward next) level =
      pure p ∧ Built (.program p) := by
  have hbinary (operand : Nat) (ops : List (Binary α)) :
      Built (.pattern (l.grammar.choice (ops.map fun op =>
        (OperatorTable.binaryStep l symbols (.forward operand) op).pattern)).pattern) := by
    refine .ofProgram (.buildGrammar (.choice (.grammar hl) fun p hp => ?_))
    obtain ⟨op, -, rfl⟩ := List.mem_map.1 hp
    exact .ofProgram
      (.buildGrammar (.tokenWith _ (.keywordIn _ _ (.grammar hl)) (.forward operand)))
  cases level with
  | primary body => cases h
  | left ops =>
    exact ⟨_, rfl, .buildRepetition (.tokenZeroOrMore (.token (.grammar hl) (.forward next))
      (hbinary next ops))⟩
  | right ops =>
    exact ⟨_, rfl, .buildRepetition (.tokenMaybe (.token (.grammar hl) (.forward next))
      (hbinary this ops))⟩
  | prefixed ops =>
    refine ⟨_, rfl, .buildGrammar (.choice (.grammar hl) fun p hp => ?_)⟩
    rcases List.mem_append.1 hp with hp | hp
    · obtain ⟨op, -, rfl⟩ := List.mem_map.1 hp
      exact .ofProgram (.buildGrammar (.tokenWith _ (.keywordIn _ _ (.grammar hl)) (.forward this)))
    · exact List.mem_singleton.1 hp ▸ .forward next
  | postfixed ops =>
    refine ⟨_, rfl, .buildRepetition (.tokenZeroOrMore (.token (.grammar hl) (.forward next))
      (.ofProgram (.buildGrammar (.choice (.grammar hl) fun p hp => ?_))))⟩
    obtain ⟨op, -, rfl⟩ := List.mem_map.1 hp
    exact .ofProgram (.buildGrammar (.transform _ (.keywordIn _ _ (.grammar hl))))

/-- A program that is built is well formed: it has at most one repetition, whose jumps lead to each
other, and room for its captures. It runs without a fault on every text, from every offset and with
every attribute, if forward references stand for programs that are built. Whatever patterns come to,
a call stays in the code, and it ends an iteration only where that call began with it. -/
theorem Built.safe {p : Program α} (h : Built (.program p)) :
    p.WellFormed ∧
    (∀ fs : Forwards α, AllBuilt fs → ∀ (text : Text) (start : Nat) (inherited : Option α)
      (fuel : Nat), (p.match? ⟨fs, fuel⟩ text start inherited).Faultless) ∧
    ∀ (V : Verdicts (Pattern α) α) (text : Text) (start : Nat) (inherited : Option α)
      (f : Frame α), p.Visits V text (.initial p.captures start inherited) f →
      f.pc ≤ p.instrs.length ∧ f.captures.length = p.captures ∧
      ∀ back max, p.instrs[f.pc]? = some (.loopBack back max) → back ≤ f.pc ∧ 1 ≤ f.count ∧
        ∃ (e : Frame α) (c min exit : Nat) (fold : Option (Action α)) (init : Option α),
          p.Visits V text (.initial p.captures start inherited) e ∧
          p.instrs[e.pc]? = some (.loopTry c min exit fold init) ∧
          p.Walks V text e.enterIteration f ∧ f.start = e.index ∧ f.count = e.count + 1 := by
  have hp := h.isSound
  cases hp with
  | program hc _ _ _ =>
    refine ⟨hc.wellFormed, fun fs hfs text start inherited fuel => ?_,
      fun V text start inherited f hf => ⟨?_, ?_, fun back max hback => ?_⟩⟩
    · have hfind : (Pattern.find fs text (fuel + 1) (.program p) start inherited).Faultless :=
        ((Pattern.find_ensures (fun cell q hq => (hfs cell q hq).isSound) (fuel + 1)).1 _ h.isSound
          start inherited).faultless
      rwa [Pattern.find] at hfind
    · exact hf.pc_le hc.wellFormed (Nat.zero_le _)
    · exact hf.captures_length.trans List.length_replicate
    · obtain ⟨hle, hinside⟩ := hc.wellFormed.inside_back hback
      obtain ⟨e, x, he, hx, hattempts, hwalk, hstart, hcount⟩ :=
        hf.exists_attempt hc.wellFormed Code.not_inside_zero hinside
      cases x with
      | loopTry c min exit fold init =>
        exact ⟨hle, hcount ▸ Nat.le_add_left 1 _, e, c, min, exit, fold, init, he, hx, hwalk,
          hstart, hcount⟩
      | _ => exact hattempts.elim

/-- A word, and then what a matching function consumes that runs past the end of the text. -/
theorem Built.safe_custom :
    let p : Program Nat := (((Lexicon.empty.withKeywords [['i', 'n']]).grammar.word ['a'])
      |>.tokenDelimited (.custom ⟨fun _ i _ => some ⟨[], i + 7, none, []⟩, none⟩)
        (.literal [','])).program
    Built (.program p) ∧ p.WellFormed ∧
      (p.match? ⟨.empty, 100⟩ ['a', 'é'] 2 none).Faultless := by
  intro p
  have hp : Built (.program p) := .buildRepetition <| .tokenDelimited
    (.word _ (.grammar (.withKeywords _ .noLexicon))) (.custom _) (.literal _)
  obtain ⟨hwell, hrun, -⟩ := hp.safe
  exact ⟨hp, hwell, hrun .empty (fun _ _ h => by simp at h) _ _ _ _⟩

end Piece

end GrammarMachine
