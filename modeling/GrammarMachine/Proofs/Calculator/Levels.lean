import GrammarMachine.Proofs.Calculator.Consuming
import GrammarMachine.Proofs.Decimal.Literals

/-!
# The levels of the calculator

What the parser of each level consumes, by what those that it refers to consume.

* `forwards`, `build_eq`: the cells of the calculator once it is built.
* `consumes_stepOf`, `misses_stepOf`: an operator and its right operand.
* `consumes_left`, `consumes_negative`, `consumes_positive`, `consumes_power`, `consumes_real`,
  `consumes_group`, and `misses_left` and its like: one rule for each way to match and to fail.
-/

namespace GrammarMachine.CommandLine.Calculator

/-- An operator and its right operand, for any of the operators. -/
def stepOf (operand : Pattern Float) (ops : List (Binary Float)) : Pattern Float :=
  (lexicon.grammar.choice (ops.map fun op =>
    (OperatorTable.binaryStep lexicon table.symbols operand op).pattern)).pattern

/-- Operands of the level in the cell with operators between them, from left to right. -/
def leftLevel (next : Nat) (ops : List (Binary Float)) : Program Float :=
  ((lexicon.grammar.token (.forward next)).repeated 0 none (stepOf (.forward next) ops)).program

def unaryLevel : Program Float :=
  (lexicon.grammar.choice [(OperatorTable.prefixStep lexicon table.symbols (.forward 2)
    negation).pattern, .forward 3]).program

def powerLevel : Program Float :=
  ((lexicon.grammar.token (.forward 4)).repeated 0 (some 1) (stepOf (.forward 3) [power])).program

/-- The cells of the calculator. -/
def forwards : Forwards Float :=
  ⟨#[some (leftLevel 1 sums), some (leftLevel 2 products), some unaryLevel, some powerLevel,
    some (operand [0, 1, 2, 3, 4])]⟩

theorem build_eq : build = .ok (leftLevel 1 sums, forwards) := rfl

variable {fs : Forwards Float} {q r r' : Text} {c : Char} {v w : Float}

/-! ## Operators -/

theorem length_operator {s : Text} (hs : s ∈ operators) : s.length = 1 := by
  have hall : ∀ s ∈ operators, s.length = 1 := by decide
  exact hall s hs

theorem mem_symbols_table_iff {s : Text} : s ∈ table.flatMap Level.symbols ↔ s ∈ operators := by
  have hsymbols : table.flatMap Level.symbols = [['+'], ['-'], ['*'], ['/'], ['-'], ['^']] := rfl
  rw [hsymbols, operators]
  simp only [List.mem_cons, List.not_mem_nil, or_false]
  tauto

/-- No symbol begins with another one, so what stands at a place decides. -/
theorem walk_operator {s : Text} (hs : s ∈ operators) :
    table.symbols.walk r = s ↔ ∃ q, r = s ++ q := by
  constructor
  · rintro rfl
    obtain ⟨q, hq⟩ := Keywords.walk_prefix r table.symbols
    exact ⟨q, hq.symm⟩
  · rintro ⟨q, rfl⟩
    have hpath : Keywords.HasPath s table.symbols :=
      Keywords.hasPath_ofList.2 (.inl ⟨s, mem_symbols_table_iff.2 hs, List.prefix_rfl⟩)
    have hshort : (table.symbols.walk (s ++ q)).length ≤ s.length := by
      rw [length_operator hs]
      rcases Keywords.hasPath_ofList.1 (Keywords.hasPath_walk (s ++ q) table.symbols) with
        ⟨w, hw, hprefix⟩ | hnil
      · exact Nat.le_trans hprefix.length_le
          (Nat.le_of_eq (length_operator (mem_symbols_table_iff.1 hw)))
      · rw [hnil]
        exact Nat.zero_le _
    exact ((hpath.prefix_walk (List.prefix_append s q)).eq_of_length_le hshort).symm

theorem goes_operator {s : Text} (hs : s ∈ operators) (h : trimmed r = s ++ q) :
    Goes fs (lexicon.grammar.keywordIn s table.symbols) r (trimmed q) id := by
  intro text i a hi
  obtain ⟨j, hreach, hij, hj⟩ := Goes.lexicon _ r text i a hi
  rw [h] at hj
  have hsearch : table.symbols.search text j = some ⟨s, j + Text.byteLength s⟩ := by
    rw [Keywords.search_eq, hj, Option.map_some]
    simp only [(walk_operator hs).2 ⟨q, rfl⟩]
  obtain ⟨k, hjk, hk, hskips⟩ := skips_trimmed fs (Text.from?_add hj)
  exact ⟨k, hreach.keywordIn (Grammar.isOpen_of_lexicon _) hsearch hskips, by omega, hk⟩

theorem sticks_operator {s : Text} (hs : s ∈ operators) (h : ∀ q, trimmed r ≠ s ++ q) :
    Sticks fs (lexicon.grammar.keywordIn s table.symbols) r := by
  intro text i a hi
  obtain ⟨j, hreach, hij, hj⟩ := Goes.lexicon _ r text i a hi
  refine hreach.keywordIn_fails (Grammar.isOpen_of_lexicon _) fun found hfound hmatched => ?_
  rw [Keywords.search_eq, hj, Option.map_some] at hfound
  obtain rfl := Option.some.inj hfound
  obtain ⟨q, hq⟩ := (walk_operator hs).1 hmatched
  exact h q hq

theorem retains_operator (s : Text) :
    (lexicon.grammar.keywordIn s table.symbols).Retains :=
  (Grammar.retains_lexicon _).keywordIn _ _

/-! ## Steps -/

section

variable {operand : Pattern Float} {op : Binary Float} {ops : List (Binary Float)}

/-- An operator and the operand behind it. -/
theorem consumes_operation {s : Text} (hs : s ∈ operators) (h : trimmed r = s ++ q)
    {G H : Option Float → Option Float} (hp : Consumes fs operand (trimmed q) r' G)
    {action : Action Float} (haction : ∀ m : Match Float, ∀ a, m.attr = G a →
      merge a (action.apply ⟨m.matched, m.attr, a, m.extra⟩) = H a) :
    Consumes fs ((lexicon.grammar.keywordIn s table.symbols).tokenWith operand action).pattern r
      (trimmed r') H :=
  ((goes_operator hs h).tokenWith (retains_operator s) rfl hp fun m _ => haction m).consumes

theorem misses_operation {s : Text} (hs : s ∈ operators)
    (h : ∀ q, trimmed r = s ++ q → Misses fs operand (trimmed q)) (action : Action Float) :
    Misses fs ((lexicon.grammar.keywordIn s table.symbols).tokenWith operand action).pattern r := by
  refine Sticks.misses ?_
  by_cases hstands : ∃ q, trimmed r = s ++ q
  · obtain ⟨q, hq⟩ := hstands
    exact (goes_operator hs hq).tokenWith_sticks (retains_operator s) (h q hq) action
  · exact (sticks_operator hs fun q hq => hstands ⟨q, hq⟩).append (retains_operator s) _

theorem consumes_binaryStep (hs : op.symbol ∈ operators) (h : trimmed r = op.symbol ++ q)
    (hp : Consumes fs operand (trimmed q) r' fun _ => some w) :
    Consumes fs (OperatorTable.binaryStep lexicon table.symbols operand op).pattern r (trimmed r')
      (Option.map (op.apply · w)) := by
  refine consumes_operation hs h hp fun m a hattr => ?_
  rw [hattr]
  cases a <;> rfl

theorem consumes_stepOf (hsymbols : ∀ op ∈ ops, op.symbol ∈ operators)
    (hnodup : (ops.map (·.symbol)).Nodup) (hop : op ∈ ops) (h : trimmed r = op.symbol ++ q)
    (hp : Consumes fs operand (trimmed q) r' fun _ => some w) (hr' : trimmed r' = r') :
    Consumes fs (stepOf operand ops) r r' (Option.map (op.apply · w)) := by
  obtain ⟨ps, qs, rfl⟩ := List.append_of_mem hop
  have hstep : Consumes fs (OperatorTable.binaryStep lexicon table.symbols operand op).pattern
      (trimmed r) r' (Option.map (op.apply · w)) :=
    hr' ▸ consumes_binaryStep (hsymbols op hop) ((trimmed_trimmed r).trans h) hp
  have hpast : ∀ p ∈ ps.map fun op =>
      (OperatorTable.binaryStep lexicon table.symbols operand op).pattern,
      Misses fs p (trimmed r) := by
    intro p hp
    obtain ⟨op', hop', rfl⟩ := List.mem_map.1 hp
    have hop'' : op' ∈ ps ++ op :: qs := List.mem_append_left _ hop'
    refine misses_operation (hsymbols op' hop'') (fun q' hq' => ?_) _
    have hsame : op'.symbol = op.symbol :=
      ((walk_operator (hsymbols op' hop'')).2 ⟨q', (trimmed_trimmed r).symm.trans hq'⟩).symm.trans
        ((walk_operator (hsymbols op hop)).2 ⟨q, h⟩)
    rw [List.map_append, List.nodup_append] at hnodup
    exact absurd hsame (hnodup.2.2 _ (List.mem_map_of_mem hop') _ List.mem_cons_self)
  rw [stepOf, List.map_append, List.map_cons]
  exact hr' ▸ ((Goes.lexicon _ r).choice (Grammar.retains_lexicon _) rfl hpast hstep
    (fun a => merge_map_self a _) _).consumes

theorem misses_stepOf (hsymbols : ∀ op ∈ ops, op.symbol ∈ operators)
    (h : ∀ op ∈ ops, ∀ q, trimmed r = op.symbol ++ q → Misses fs operand (trimmed q)) :
    Misses fs (stepOf operand ops) r := by
  refine ((Goes.lexicon _ r).choice_sticks (Grammar.retains_lexicon _) fun p hp => ?_).misses
  obtain ⟨op, hop, rfl⟩ := List.mem_map.1 hp
  exact misses_operation (hsymbols op hop)
    (fun q hq => h op hop q ((trimmed_trimmed r).symm.trans hq)) _

end

/-! ## Levels with operands on both sides -/

section

variable {cell next : Nat} {ops : List (Binary Float)}

theorem consumes_left (hcell : forwards.get? cell = some (leftLevel next ops))
    (h : Consumes forwards (.forward next) (trimmed r) q fun _ => some v) (hq : trimmed q = q)
    (hchain : Chain forwards (stepOf (.forward next) ops) none 0 q v r' w) :
    Consumes forwards (.forward cell) r r' fun _ => some w := by
  have hlead := (Goes.lexicon _ r).token (Grammar.retains_lexicon _) rfl h
  rw [hq] at hlead
  exact (hlead.repeated ((Grammar.retains_lexicon _).token _) rfl rfl hchain).forward hcell

theorem misses_left (hcell : forwards.get? cell = some (leftLevel next ops))
    (h : Misses forwards (.forward next) (trimmed r)) : Misses forwards (.forward cell) r :=
  (((Goes.lexicon _ r).token_sticks (Grammar.retains_lexicon _) h).repeated
    ((Grammar.retains_lexicon _).token _) _ _ _).forward hcell

theorem consumes_power (h : Consumes forwards (.forward 4) (trimmed r) q fun _ => some v)
    (hq : trimmed q = q)
    (hchain : Chain forwards (stepOf (.forward 3) [power]) (some 1) 0 q v r' w) :
    Consumes forwards (.forward 3) r r' fun _ => some w := by
  have hlead := (Goes.lexicon _ r).token (Grammar.retains_lexicon _) rfl h
  rw [hq] at hlead
  exact (hlead.repeated ((Grammar.retains_lexicon _).token _) rfl rfl hchain).forward rfl

theorem misses_power (h : Misses forwards (.forward 4) (trimmed r)) :
    Misses forwards (.forward 3) r :=
  (((Goes.lexicon _ r).token_sticks (Grammar.retains_lexicon _) h).repeated
    ((Grammar.retains_lexicon _).token _) _ _ _).forward rfl

end

/-! ## Signs -/

theorem misses_sign
    (hno : ∀ q, trimmed r = negation.symbol ++ q → Misses fs (.forward 2) (trimmed q)) :
    Misses fs (OperatorTable.prefixStep lexicon table.symbols (.forward 2) negation).pattern
      (trimmed r) :=
  misses_operation (by decide) (fun q hq => hno q ((trimmed_trimmed r).symm.trans hq)) _

theorem consumes_negative (h : trimmed r = negation.symbol ++ q)
    (hp : Consumes forwards (.forward 2) (trimmed q) r' fun _ => some w) (hr' : trimmed r' = r') :
    Consumes forwards (.forward 2) r r' fun _ => some (negation.apply w) := by
  have hstep : Consumes forwards (OperatorTable.prefixStep lexicon table.symbols (.forward 2)
      negation).pattern (trimmed r) (trimmed r') fun _ => some (negation.apply w) := by
    refine consumes_operation (by decide) ((trimmed_trimmed r).trans h) hp fun m a hattr => ?_
    rw [hattr]
    rfl
  have hgoes := (Goes.lexicon _ r).choice (Grammar.retains_lexicon _) rfl
    (List.forall_mem_nil (Misses _ · _)) hstep (fun _ => rfl) [.forward 3]
  rw [trimmed_trimmed, hr'] at hgoes
  exact hgoes.consumes.forward rfl

theorem consumes_positive
    (hno : ∀ q, trimmed r = negation.symbol ++ q → Misses forwards (.forward 2) (trimmed q))
    (h : Consumes forwards (.forward 3) (trimmed r) r' fun _ => some v) (hr' : trimmed r' = r') :
    Consumes forwards (.forward 2) r r' fun _ => some v := by
  have hgoes := (Goes.lexicon _ r).choice (Grammar.retains_lexicon _) rfl
    (List.forall_mem_singleton.2 (misses_sign hno)) h (fun _ => rfl) []
  rw [hr'] at hgoes
  exact hgoes.consumes.forward rfl

theorem misses_unary
    (hno : ∀ q, trimmed r = negation.symbol ++ q → Misses forwards (.forward 2) (trimmed q))
    (h : Misses forwards (.forward 3) (trimmed r)) : Misses forwards (.forward 2) r := by
  have hstuck := (Goes.lexicon _ r).choice_sticks (Grammar.retains_lexicon _)
    (List.forall_mem_cons.2 ⟨misses_sign hno, List.forall_mem_singleton.2 h⟩)
  exact hstuck.misses.forward rfl

/-! ## Numerals and brackets -/

theorem literalAt_false (t : Text) : Real.literalAt false t = Real.numberAt t := by
  cases t <;> rfl

/-- A numeral is consumed where it is the longest one. -/
theorem consumes_literal {n : Numeral} (h : Real.numberAt (n.text ++ q) = n.text) :
    Consumes fs (.regex (Real.regex false)) (n.text ++ q) q fun _ => none := by
  intro text i a hi
  refine ⟨⟨n.text, i + Text.byteLength n.text, none, [some n.text]⟩,
    (Real.answers_regex_iff hi).2 ?_, rfl, rfl, rfl⟩
  rw [literalAt_false, h, if_neg n.text_ne_nil]

theorem misses_literal (h : Real.numberAt r = []) : Misses fs (.regex (Real.regex false)) r := by
  intro text i a hi
  rw [Real.answers_regex_iff hi, literalAt_false, h, if_pos rfl]

theorem consumes_char (c : Char) (r : Text) :
    Consumes fs (.literal [c]) (c :: r) r fun _ => none := by
  intro text i a hi
  refine ⟨⟨[c], i + Text.byteLength [c], none, []⟩, Pattern.answers_iff.2 ?_, rfl, rfl, rfl⟩
  simp [Pattern.Verdict, literalAt, literalEnd?, hi]

theorem misses_char (h : r.head? ≠ some c) : Misses fs (.literal [c]) r := by
  intro text i a hi
  refine Pattern.answers_iff.2 ?_
  have hnot : ¬ [c] <+: r := by
    rintro ⟨q, rfl⟩
    exact h rfl
  simp [Pattern.Verdict, literalAt, literalEnd?, hi, hnot]

/-- An expression in brackets. -/
def bracketed : Grammar Float :=
  ((lexicon.grammar.token (.literal ['('])).token (.forward 0)).token (.literal [')'])

theorem misses_real (h : Real.numberAt (trimmed r) = []) :
    Misses fs (lexicon.grammar.real false id).pattern r :=
  ((Goes.lexicon _ r).tokenWith_sticks (Grammar.retains_lexicon _) (misses_literal h) _).misses

theorem consumes_real {n : Numeral} (h : trimmed r = n.text ++ q)
    (hn : Real.numberAt (n.text ++ q) = n.text) :
    Consumes forwards (.forward 4) r (trimmed q) fun _ => some n.value := by
  have hliteral : Consumes forwards (lexicon.grammar.real false id).pattern (trimmed r) (trimmed q)
      fun _ => some n.value := by
    have hlead := Goes.lexicon forwards (trimmed r)
    rw [trimmed_trimmed, h] at hlead
    rw [h]
    refine (hlead.tokenWith (H := fun _ => some n.value) (Grammar.retains_lexicon _) rfl
      (consumes_literal hn) fun m hm a _ => ?_).consumes
    have hmatched : m.matched = n.text := (List.append_cancel_right hm).symm
    show merge a ((Decimal.readFloat? m.matched).map id) = _
    rw [hmatched, n.readFloat?_text]
    rfl
  have hgoes := (Goes.lexicon _ r).choice (Grammar.retains_lexicon _) rfl
    (List.forall_mem_nil (Misses _ · _)) hliteral (fun _ => rfl) [bracketed.pattern]
  rw [trimmed_trimmed] at hgoes
  exact hgoes.consumes.forward rfl

/-- Behind the opening bracket the expression follows. -/
theorem goes_opening (h : trimmed r = '(' :: q) :
    Goes forwards (lexicon.grammar.token (.literal ['('])) r (trimmed q) id := by
  have hlead := Goes.lexicon forwards r
  rw [h] at hlead
  exact hlead.token (Grammar.retains_lexicon _) rfl (consumes_char '(' q)

theorem consumes_group (h : trimmed r = '(' :: q)
    (hp : Consumes forwards (.forward 0) (trimmed q) (')' :: r') fun _ => some v) :
    Consumes forwards (.forward 4) r (trimmed r') fun _ => some v := by
  have hreal : Misses forwards (lexicon.grammar.real false id).pattern (trimmed r) := by
    refine misses_real ?_
    rw [trimmed_trimmed, h]
    rfl
  have hopening := (Grammar.retains_lexicon lexicon).token (.literal ['('])
  have hbracketed : Consumes forwards bracketed.pattern (trimmed r) (trimmed r')
      fun _ => some v := by
    have hexpr := (goes_opening ((trimmed_trimmed r).trans h)).token hopening rfl hp
    rw [trimmed_plain (by decide)] at hexpr
    exact (hexpr.token (hopening.token _) rfl (consumes_char ')' r')).consumes
  have hgoes := (Goes.lexicon _ r).choice (Grammar.retains_lexicon _) rfl
    (List.forall_mem_singleton.2 hreal) hbracketed (fun _ => rfl) []
  rw [trimmed_trimmed] at hgoes
  exact hgoes.consumes.forward rfl

theorem misses_atom (hreal : Real.numberAt (trimmed r) = [])
    (h : ∀ q, trimmed r = '(' :: q → Misses forwards (.forward 0) (trimmed q) ∨
      ∃ r' v, Consumes forwards (.forward 0) (trimmed q) r' (fun _ => some v) ∧
        trimmed r' = r' ∧ r'.head? ≠ some ')') :
    Misses forwards (.forward 4) r := by
  have hlexicon := Grammar.retains_lexicon lexicon
  have hopening := hlexicon.token (.literal ['('])
  have hbracketed : Sticks forwards bracketed (trimmed r) := by
    by_cases hstart : ∃ q, trimmed r = '(' :: q
    · obtain ⟨q, hq⟩ := hstart
      have hgoes := goes_opening ((trimmed_trimmed r).trans hq)
      rcases h q hq with hmiss | ⟨r', v, hp, hr', hclosing⟩
      · exact (hgoes.token_sticks hopening hmiss).append (hopening.token _) _
      · have hexpr := hgoes.token hopening rfl hp
        rw [hr'] at hexpr
        exact hexpr.token_sticks (hopening.token _) (misses_char hclosing)
    · have hlead := Goes.lexicon forwards (trimmed r)
      rw [trimmed_trimmed] at hlead
      have hno : (trimmed r).head? ≠ some '(' := by
        intro hhead
        obtain ⟨q, hq⟩ := List.head?_eq_some_iff.1 hhead
        exact hstart ⟨q, hq⟩
      exact ((hlead.token_sticks hlexicon (misses_char hno)).append hopening _).append
        (hopening.token _) _
  have hnumeral : Misses forwards (lexicon.grammar.real false id).pattern (trimmed r) :=
    misses_real ((congrArg Real.numberAt (trimmed_trimmed r)).trans hreal)
  exact ((Goes.lexicon _ r).choice_sticks hlexicon (List.forall_mem_cons.2
    ⟨hnumeral, List.forall_mem_singleton.2 hbracketed.misses⟩)).misses.forward rfl

end GrammarMachine.CommandLine.Calculator
