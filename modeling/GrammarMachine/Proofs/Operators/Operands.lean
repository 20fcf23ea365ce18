import GrammarMachine.Proofs.Inheritance.Coupling
import GrammarMachine.Proofs.Inheritance.Keeping
import GrammarMachine.Proofs.Operators.Building
import GrammarMachine.Proofs.Regex.Runs
import GrammarMachine.Proofs.Semantics.Parsing
import GrammarMachine.Proofs.Semantics.Reach

/-!
# Operands and what they inherit

The operand of an operator is run under the attribute that the step of the operator inherits, which
for a binary operator is its left operand. So the left operand stands in for the attribute of an
operand that synthesizes none.

* `OperatorTable.Supplied`: all that the user supplies with a table respects a relation.
* `Level.Yields.respects`, `Level.Yields.keeps`: the programs of operators do, and keep attributes.
* `OperatorTable.operand_attribute`: what an operator is handed, and when it is what the operand
  synthesizes where nothing is inherited.
-/

namespace GrammarMachine

variable {α : Type} {ρ : AttrRel α}

/-! ## Grammars that respect a relation -/

section

variable {g : Grammar α} {lexicon : Lexicon α}

theorem Program.Respects.append (h : Program.Respects ρ g.program)
    (instr : Instr (Pattern α) α) (hi : instr.Respects ρ)
    (hp : ∀ p ∈ instr.patterns, p.Respects ρ) : Program.Respects ρ (g.append [instr]).program where
  instrs i hmem := by
    rcases List.mem_append.1 hmem with hmem | hmem
    · exact h.instrs i hmem
    · obtain rfl := List.mem_singleton.1 hmem
      exact hi
  patterns i hmem := by
    rcases List.mem_append.1 hmem with hmem | hmem
    · exact h.patterns i hmem
    · obtain rfl := List.mem_singleton.1 hmem
      exact hp
  ignore := h.ignore

theorem respects_lexicon (h : ∀ q, lexicon.ignore = some q → q.Respects ρ) :
    Program.Respects ρ lexicon.grammar.program := by
  have hskip : ∀ i ∈ lexicon.grammar.program.instrs, i = .skip := by
    intro i hi
    simp only [Grammar.program, Lexicon.grammar] at hi
    split at hi
    · exact List.mem_singleton.1 hi
    · cases hi
  refine ⟨fun i hi => ?_, fun i hi p hp => ?_, h⟩
  · rw [hskip i hi]
    trivial
  · rw [hskip i hi] at hp
    cases hp

theorem Program.Respects.repeated (h : Program.Respects ρ g.program) {p : Pattern α}
    (hp : p.Respects ρ) (min : Nat) (max : Option Nat) :
    Program.Respects ρ (g.repeated min max p).program := by
  have hmem : ∀ i ∈ (g.repeated min max p).program.instrs, i ∈ g.instrs ∨
      i = .loopStart loopCapture ∨ i = .loopTry loopCapture min 3 none none ∨
      i = .consume p none (some loopCapture) true ∨ i = .loopBack 2 max := by
    simp [Repetition.program, Grammar.repeated]
  refine ⟨fun i hi => ?_, fun i hi q hq => ?_, h.ignore⟩
  · rcases hmem i hi with hi | rfl | rfl | rfl | rfl
    · exact h.instrs i hi
    all_goals trivial
  · rcases hmem i hi with hi | rfl | rfl | rfl | rfl
    · exact h.patterns i hi q hq
    · cases hq
    · cases hq
    · exact List.mem_singleton.1 hq ▸ hp
    · cases hq

end

/-! ## Levels of operators -/

/-- What a binary operator makes of its operands; the left one is inherited. -/
def Binary.action (op : Binary α) : Action α :=
  ⟨fun c => c.inherited.bind fun l => c.synthesized.map fun r => op.apply l r, none⟩

/-- What a prefix operator makes of its operand. -/
def Unary.action (op : Unary α) : Action α := ⟨fun c => c.synthesized.map op.apply, none⟩

section

variable {lexicon : Lexicon α} {symbols : Keywords} {cells : List Nat} {this next : Nat}
  {level : Level α} {q : Program α}

theorem binaryStep_respects (hρ : ρ.Lifts) (h : ∀ q, lexicon.ignore = some q → q.Respects ρ)
    (cell : Nat) (op : Binary α) :
    (OperatorTable.binaryStep lexicon symbols (.forward cell) op).pattern.Respects ρ := by
  refine Pattern.respects_program_iff.2 (((respects_lexicon h).append (.keyword symbols
    op.symbol) trivial fun _ h => nomatch h).append _ ?_ fun p hp => ?_)
  · exact fun _ _ _ _ _ _ hs _ hab => hρ.map₂ op.apply hab hs
  · exact List.mem_singleton.1 hp ▸ .forward cell

theorem prefixStep_respects (hρ : ρ.Lifts) (h : ∀ q, lexicon.ignore = some q → q.Respects ρ)
    (cell : Nat) (op : Unary α) :
    (OperatorTable.prefixStep lexicon symbols (.forward cell) op).pattern.Respects ρ := by
  refine Pattern.respects_program_iff.2 (((respects_lexicon h).append (.keyword symbols
    op.symbol) trivial fun _ h => nomatch h).append _ ?_ fun p hp => ?_)
  · exact fun _ _ _ _ _ _ hs _ _ => hρ.map op.apply hs
  · exact List.mem_singleton.1 hp ▸ .forward cell

theorem postfixStep_respects (hρ : ρ.Lifts) (h : ∀ q, lexicon.ignore = some q → q.Respects ρ)
    (op : Unary α) : (OperatorTable.postfixStep lexicon symbols op).pattern.Respects ρ := by
  refine Pattern.respects_program_iff.2 (((respects_lexicon h).append (.keyword symbols
    op.symbol) trivial fun _ h => nomatch h).append _ ?_ fun _ h => nomatch h)
  exact fun _ _ hab => hρ.map op.apply hab

theorem choice_respects (h : ∀ q, lexicon.ignore = some q → q.Respects ρ) {ps : List (Pattern α)}
    (hps : ∀ p ∈ ps, p.Respects ρ) : (lexicon.grammar.choice ps).pattern.Respects ρ :=
  Pattern.respects_program_iff.2 ((respects_lexicon h).append (.choice ps) trivial hps)

/-- A repetition of steps behind an operand. -/
theorem steps_respect (h : ∀ q, lexicon.ignore = some q → q.Respects ρ) {ps : List (Pattern α)}
    (hps : ∀ p ∈ ps, p.Respects ρ) (cell min : Nat) (max : Option Nat) :
    Program.Respects ρ ((lexicon.grammar.token (.forward cell)).repeated min max
      (lexicon.grammar.choice ps).pattern).program := by
  refine ((respects_lexicon h).append (.token _) trivial fun p hp => ?_).repeated
    (choice_respects h hps) min max
  exact List.mem_singleton.1 hp ▸ .forward cell

/-- The program of a level of operators respects the relation. -/
theorem Level.Yields.respects (hρ : ρ.Lifts) (h : ∀ q, lexicon.ignore = some q → q.Respects ρ)
    (hl : level.isPrimary = false) (hq : level.Yields lexicon symbols cells this next q) :
    Program.Respects ρ q := by
  cases level with
  | primary body => cases hl
  | left ops =>
    obtain rfl := Build.pure_inj hq
    refine steps_respect h (fun p hp => ?_) _ _ _
    obtain ⟨op, -, rfl⟩ := List.mem_map.1 hp
    exact binaryStep_respects hρ h _ op
  | right ops =>
    obtain rfl := Build.pure_inj hq
    refine steps_respect h (fun p hp => ?_) _ _ _
    obtain ⟨op, -, rfl⟩ := List.mem_map.1 hp
    exact binaryStep_respects hρ h _ op
  | prefixed ops =>
    obtain rfl := Build.pure_inj hq
    refine Pattern.respects_program_iff.1 (choice_respects h fun p hp => ?_)
    rcases List.mem_append.1 hp with hp | hp
    · obtain ⟨op, -, rfl⟩ := List.mem_map.1 hp
      exact prefixStep_respects hρ h _ op
    · exact List.mem_singleton.1 hp ▸ .forward _
  | postfixed ops =>
    obtain rfl := Build.pure_inj hq
    refine steps_respect h (fun p hp => ?_) _ _ _
    obtain ⟨op, -, rfl⟩ := List.mem_map.1 hp
    exact postfixStep_respects hρ h op

/-- The program of a level of operators keeps attributes. -/
theorem Level.Yields.keeps (hl : level.isPrimary = false)
    (hq : level.Yields lexicon symbols cells this next q) : q.Keeps := by
  have hlexicon := Grammar.retains_lexicon lexicon
  cases level with
  | primary body => cases hl
  | left ops | right ops | postfixed ops =>
    obtain rfl := Build.pure_inj hq
    exact (hlexicon.token _).keeps_repeated _ _ _
  | prefixed ops =>
    obtain rfl := Build.pure_inj hq
    exact (hlexicon.choice _).keeps

end

/-! ## An operator and its operand -/

section

variable {fs : Forwards α} {text : Text} {lexicon : Lexicon α} {symbols : Keywords} {symbol : Text}
  {operand : Pattern α} {o i : Nat} {a b : Option α} {found : Match α}

/-- A keyword step leaves the attribute alone. -/
theorem Grammar.Reaches.attr_eq
    (h : (lexicon.grammar.keywordIn symbol symbols).Reaches fs text o a i b) : b = a := by
  have hinstrs : ∀ i ∈ (lexicon.grammar.keywordIn symbol symbols).instrs,
      i = .skip ∨ i = .keyword symbols symbol := by
    intro i hi
    rcases List.mem_append.1 hi with hi | hi
    · simp only [Lexicon.grammar] at hi
      split at hi
      · exact .inl (List.mem_singleton.1 hi)
      · cases hi
    · exact .inr (List.mem_singleton.1 hi)
  have hexec {f : Frame α} {r : Option (Final α)} (h : Exec (Pattern.Answers fs text)
      (lexicon.grammar.keywordIn symbol symbols).program text f r) :
      ∀ x, r = some x → x.attr = f.attr := by
    induction h with
    | halt _ => rintro x ⟨⟩; rfl
    | fail _ | tooFew _ _ _ => rintro x ⟨⟩
    | step hs _ ih =>
      intro x hx
      rw [ih x hx]
      cases hs with
      | skip _ _ | keyword _ _ _ _ => rfl
      | consume hi | loopStart hi | loopEnds hi | loopAgain hi | choice hi | ahead hi | guard hi
      | assign hi | transform hi | dropAttributes hi =>
        rcases hinstrs _ (List.mem_of_getElem? hi) with hi | hi <;> cases hi
    | kept hi | left hi =>
      rcases hinstrs _ (List.mem_of_getElem? hi) with hi | hi <;> cases hi
  exact hexec h _ rfl

end

namespace OperatorTable

/-- An operator of the table that takes the operand behind it: its symbol, the cell of the operand,
what it makes of the operand, and its step. -/
inductive TakesOperand (lexicon : Lexicon α) (t : OperatorTable α) (base : Nat) :
    Text → Nat → Action α → Grammar α → Prop
  | left {k : Nat} {ops : List (Binary α)} {op : Binary α} : t[k]? = some (.left ops) → op ∈ ops →
      TakesOperand lexicon t base op.symbol (base + (k + 1)) op.action
        (binaryStep lexicon t.symbols (.forward (base + (k + 1))) op)
  | right {k : Nat} {ops : List (Binary α)} {op : Binary α} : t[k]? = some (.right ops) → op ∈ ops →
      TakesOperand lexicon t base op.symbol (base + k) op.action
        (binaryStep lexicon t.symbols (.forward (base + k)) op)
  | prefixed {k : Nat} {ops : List (Unary α)} {op : Unary α} : t[k]? = some (.prefixed ops) →
      op ∈ ops → TakesOperand lexicon t base op.symbol (base + k) op.action
        (prefixStep lexicon t.symbols (.forward (base + k)) op)

theorem TakesOperand.eq {lexicon : Lexicon α} {t : OperatorTable α} {base : Nat} {symbol : Text}
    {cell : Nat} {action : Action α} {g : Grammar α}
    (h : TakesOperand lexicon t base symbol cell action g) :
    g = (lexicon.grammar.keywordIn symbol t.symbols).tokenWith (.forward cell) action := by
  cases h <;> rfl

/-- The cells other than those of levels of operators hold programs of the kind. -/
def OthersHold (P : Program α → Prop) (t : OperatorTable α) (base : Nat) (fs : Forwards α) : Prop :=
  ∀ cell q, fs.get? cell = some q → (∀ (k : Nat) (level : Level α), t[k]? = some level →
    level.isPrimary = false → cell ≠ base + k) → P q

/-- What is supplied with a table respects a relation: ignorable text and the programs in cells other
than those of levels of operators. -/
structure Supplied (ρ : AttrRel α) (lexicon : Lexicon α) (t : OperatorTable α) (base : Nat)
    (fs : Forwards α) : Prop where
  ignore : ∀ q, lexicon.ignore = some q → q.Respects ρ
  others : t.OthersHold (Program.Respects ρ) base fs

section

variable {lexicon : Lexicon α} {t : OperatorTable α} {fs fs' : Forwards α} {p : Program α}

/-- What holds of the programs of operators and of all other programs holds of all cells. -/
theorem holds_of_others (hbuild : (build lexicon t).run fs = .ok (p, fs'))
    (hgrows : ∀ body, .primary body ∈ t → (body (t.cells fs.cells.size)).Grows)
    {P : Program α → Prop}
    (hP : ∀ (level : Level α) (this next : Nat) (q : Program α), level.isPrimary = false →
      level.Yields lexicon t.symbols (t.cells fs.cells.size) this next q → P q)
    (h : t.OthersHold P fs.cells.size fs') {cell : Nat} {q : Program α}
    (hcell : fs'.get? cell = some q) : P q := by
  by_cases hother : ∀ (k : Nat) (level : Level α), t[k]? = some level → level.isPrimary = false →
      cell ≠ fs.cells.size + k
  · exact h cell q hcell hother
  · simp only [not_forall, not_not] at hother
    obtain ⟨k, level, hk, hl, rfl⟩ := hother
    obtain ⟨q', hq'⟩ := exists_yields hl lexicon t.symbols (t.cells fs.cells.size)
      (fs.cells.size + k) (fs.cells.size + (k + 1))
    have hget := get?_of_build_ok hbuild hgrows hk hl hq'
    obtain rfl := Option.some.inj (hcell.symm.trans hget)
    exact hP level _ _ _ hl hq'

theorem Supplied.respects (hρ : ρ.Lifts) (hbuild : (build lexicon t).run fs = .ok (p, fs'))
    (hgrows : ∀ body, .primary body ∈ t → (body (t.cells fs.cells.size)).Grows)
    (h : t.Supplied ρ lexicon fs.cells.size fs') : fs'.Respects ρ := fun _ _ hcell =>
  holds_of_others hbuild hgrows (fun _ _ _ _ hl hq => hq.respects hρ h.ignore hl) h.others hcell

/-- Suppose that no condition is asked and no matching function looks at the attribute. An operator
in a step that inherits `a` is handed what its operand, `found`, synthesizes under `a`; `own` is the
same operand where nothing is inherited, and covers the same text. What is handed on is the attribute
of `own`, if `own` has one and the functions supplied make of an absent attribute nothing that they
do not make of every present one. If `own` has none, nothing is handed on if and only if nothing is
inherited, unless the operand drops attributes. -/
theorem operand_attribute (hbuild : (build lexicon t).run fs = .ok (p, fs'))
    (hgrows : ∀ body, .primary body ∈ t → (body (t.cells fs.cells.size)).Grows)
    (hblind : t.Supplied .any lexicon fs.cells.size fs') {symbol : Text} {cell : Nat}
    {action : Action α} {g : Grammar α}
    (hop : TakesOperand lexicon t fs.cells.size symbol cell action g) {text : Text} {o i : Nat}
    {a b : Option α} {found : Match α}
    (hoperator : (lexicon.grammar.keywordIn symbol t.symbols).Reaches fs' text o a i b)
    (hoperand : (Pattern.forward cell).Answers fs' text i b (some found)) :
    b = a ∧
    (∀ m, g.program.Answers fs' text o a (some m) →
      m.attr = merge a (action.apply ⟨found.matched, found.attr, a, found.extra⟩)) ∧
    ∃ own, (Pattern.forward cell).Answers fs' text i none (some own) ∧
      own.matched = found.matched ∧ own.lastIndex = found.lastIndex ∧
      (t.Supplied .refines lexicon fs.cells.size fs' → own.attr.isSome → found.attr = own.attr) ∧
      (t.OthersHold (fun q => fs'.get? cell = some q → q.Keeps) fs.cells.size fs' →
        own.attr = none → (found.attr = none ↔ a = none)) := by
  obtain rfl := hoperator.attr_eq
  rw [hop.eq]
  refine ⟨rfl, fun m hm => hoperator.tokenWith_attr
    ((Grammar.retains_lexicon lexicon).keywordIn symbol t.symbols) hoperand hm, ?_⟩
  obtain ⟨r, hown, halike, -⟩ := Pattern.couples_answers AttrRel.merges_any
    (hblind.respects AttrRel.lifts_any hbuild hgrows) text _ i b none _ (.forward cell) trivial
    hoperand
  cases halike with
  | @some _ own hm =>
    refine ⟨own, hown, hm.matched.symm, hm.lastIndex.symm, fun hstrict hsome => ?_,
      fun hkeeps hnone => ⟨fun hfound => ?_, ?_⟩⟩
    · obtain ⟨v, hv⟩ := Option.isSome_iff_exists.1 hsome
      obtain ⟨r, hr, halike, -⟩ := Pattern.couples_answers AttrRel.merges_refines
        (hstrict.respects AttrRel.lifts_refines hbuild hgrows) text _ i none b _ (.forward cell)
        (AttrRel.refines_none b) hown
      cases halike with
      | some hm' =>
        obtain rfl := Option.some.inj (hr.unique hoperand)
        rw [hv]
        exact hm'.attr v hv
    · cases b with
      | none => rfl
      | some l =>
        obtain ⟨q, hq⟩ := hoperand.exists_get?
        have hkeep : q.Keeps :=
          holds_of_others (P := fun q => fs'.get? cell = some q → q.Keeps) hbuild hgrows
            (fun _ _ _ _ hl hy _ => hy.keeps hl) hkeeps hq hq
        have hsome := ((Pattern.answers_forward_iff hq).1 hoperand).isSome hkeep rfl
        rw [hfound] at hsome
        cases hsome
    · rintro rfl
      obtain rfl := Option.some.inj (hown.unique hoperand)
      exact hnone

end

def plus : Binary Int := ⟨['+'], (· + ·)⟩

/-- Sums of integers. -/
def sums : OperatorTable Int :=
  [.left [plus],
    .primary fun _ => return (Lexicon.empty.grammar.tokenInt .digits Int64.toInt).program]

/-- A sum with an integer that does not fit into 64 bits. -/
def wideSum : Text := "1+99999999999999999999".toList

/-- The level of sums. -/
def sumsProgram : Program Int :=
  ((Grammar.empty.token (.forward 1)).repeated 0 none (Grammar.empty.choice
    [(binaryStep .empty sums.symbols (.forward 1) plus).pattern]).pattern).program

/-- The level of integers. -/
def integersProgram : Program Int := (Grammar.empty.tokenInt .digits Int64.toInt).program

/-- The cells of the two levels. -/
def sumsForwards : Forwards Int := ⟨#[some sumsProgram, some integersProgram]⟩

theorem build_sums : (build .empty sums).run .empty = .ok (sumsProgram, sumsForwards) := rfl

theorem wide_under_one : (Pattern.forward 1).Answers sumsForwards wideSum 2 (some 1)
    (some ⟨wideSum.drop 2, 22, some 1, []⟩) :=
  Pattern.answers_of_outcome? 8 (by decide +kernel)

theorem wide_alone : (Pattern.forward 1).Answers sumsForwards wideSum 2 none
    (some ⟨wideSum.drop 2, 22, none, []⟩) :=
  Pattern.answers_of_outcome? 8 (by decide +kernel)

/-- The integer synthesizes no attribute of its own, and yet the operator is applied: to the left
operand and once more to the left operand. -/
theorem operand_leaks :
    ∃ p fs', (build .empty sums).run .empty = .ok (p, fs') ∧
      (Pattern.forward 1).Answers fs' wideSum 2 none (some ⟨wideSum.drop 2, 22, none, []⟩) ∧
      Trial.Settles (fun fuel => p.parse ⟨fs', fuel⟩ wideSum none)
        (some (some ⟨wideSum, 22, some 2, none⟩)) := by
  have hsum : sumsProgram.Answers sumsForwards wideSum 0 none (some ⟨wideSum, 22, some 2, []⟩) :=
    Pattern.answers_program_iff.1 (Pattern.answers_of_outcome? 24 (by decide +kernel))
  have hparse := Program.parse_settles hsum
  rw [Option.map_some, Option.filter_some, if_pos (by decide)] at hparse
  exact ⟨sumsProgram, sumsForwards, build_sums, wide_alone, hparse⟩

theorem supplied_sums {ρ : AttrRel Int} (hρ : ∀ a, ρ a a) :
    sums.Supplied ρ .empty 0 sumsForwards where
  ignore _ h := nomatch h
  others cell q hcell hother := by
    match cell, hcell with
    | 0, _ => exact absurd rfl (hother 0 _ rfl rfl)
    | 1, hcell =>
      obtain rfl : integersProgram = q := Option.some.inj hcell
      have hlexicon : Program.Respects ρ (Lexicon.empty : Lexicon Int).grammar.program :=
        respects_lexicon fun _ h => nomatch h
      refine hlexicon.append (.consume .digits _ none true) ?_
        fun p hp => List.mem_singleton.1 hp ▸ .regex _
      exact fun t _ _ _ _ _ _ _ _ => hρ ((Decimal.readInt64? t).map Int64.toInt)
    | cell + 2, hcell => simp [sumsForwards, Forwards.get?] at hcell

/-- Behind a one, something is handed on for the integer that has no attribute of its own. -/
theorem operand_attribute_sums :
    ∃ found own, (Pattern.forward 1).Answers sumsForwards wideSum 2 (some 1) (some found) ∧
      (Pattern.forward 1).Answers sumsForwards wideSum 2 none (some own) ∧
      own.lastIndex = found.lastIndex ∧ own.attr = none ∧ found.attr ≠ none := by
  have hgrows : ∀ body, .primary body ∈ sums → (body (sums.cells 0)).Grows := by
    intro body hbody
    rcases List.mem_cons.1 hbody with h | h
    · cases h
    · cases List.mem_singleton.1 h
      exact Build.grows_pure _
  have hop : TakesOperand .empty sums 0 plus.symbol 1 plus.action
      (binaryStep .empty sums.symbols (.forward 1) plus) := .left (k := 0) rfl (.head _)
  have hfound : sums.symbols.search wideSum 1 = some ⟨plus.symbol, 2⟩ := by decide
  have hoperator : (Lexicon.empty.grammar.keywordIn plus.symbol sums.symbols).Reaches sumsForwards
      wideSum 1 (some 1) 2 (some 1) :=
    (Grammar.reaches_lexicon _ .nothing).keywordIn (Grammar.isOpen_of_lexicon _) hfound
      fun _ => .nothing
  have hkeeps : sums.OthersHold (fun q => sumsForwards.get? 1 = some q → q.Keeps) 0 sumsForwards := by
    intro _ q _ _ hq
    obtain rfl : integersProgram = q := Option.some.inj hq
    exact ((Grammar.retains_lexicon _).tokenWith _ _).keeps
  obtain ⟨-, -, own, hown, -, hindex, -, hleak⟩ := operand_attribute build_sums hgrows
    (supplied_sums fun _ => trivial) hop hoperator wide_under_one
  have hnone : own.attr = none := by rw [Option.some.inj (hown.unique wide_alone)]
  refine ⟨_, own, wide_under_one, hown, hindex, hnone, fun hfound => ?_⟩
  cases (hleak hkeeps hnone).1 hfound

end OperatorTable

end GrammarMachine
