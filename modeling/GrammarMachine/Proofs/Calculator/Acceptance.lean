import GrammarMachine.Proofs.Calculator.Levels
import GrammarMachine.Proofs.Semantics.Parsing

/-!
# What the calculator accepts

The parsers of the calculator choose once and for all at each place, and take as much as they can.
They accept the expressions of the grammar all the same, and no other texts.

* `decided`: at every place the parser of a nonterminal does not match, or it consumes tokens that
  the nonterminal derives, and synthesizes their value.
* `Derives.consumes`: tokens that a nonterminal derives are consumed, if what follows does not go on
  with them.
* `derives_iff_consumes`: so the parser of `expr` consumes exactly the expressions.
* `accepts_grammar`: a line has a value if and only if it is an expression with this value;
  `accepts_grammar_mixed` is such a line.
-/

namespace GrammarMachine.CommandLine.Calculator

variable {k m : Nonterminal} {ts : List Token} {q r r' : Text} {v w : Float}
  {ops : List (Binary Float)}

/-- The cell of the nonterminal's parser. -/
def Nonterminal.cell : Nonterminal → Nat
  | expr => 0
  | term => 1
  | unary => 2
  | power => 3
  | atom => 4

/-- The operators may stand at one level: they can be told apart. -/
structure Apart (ops : List (Binary Float)) : Prop where
  symbols : ∀ op ∈ ops, op.symbol ∈ operators
  nodup : (ops.map (·.symbol)).Nodup

theorem apart_sums : Apart sums := ⟨by decide, by decide⟩

theorem apart_products : Apart products := ⟨by decide, by decide⟩

theorem apart_power : Apart [power] := ⟨by decide, by decide⟩

/-! ## Nothing else is accepted -/

/-- Where `r` follows, the parser of the nonterminal does not match, or it consumes tokens that the
nonterminal derives, and the white space behind them. -/
def Decided (k : Nonterminal) (r : Text) : Prop :=
  Misses forwards (.forward k.cell) r ∨ ∃ ts v r',
    Consumes forwards (.forward k.cell) r r' (fun _ => some v) ∧ Laid ts r r' ∧ Derives k ts v ∧
      trimmed r' = r' ∧ r'.length < r.length

theorem decided_atom (ih : ∀ t : Text, t.length < r.length → Decided .expr t) :
    Decided .atom r := by
  have hlen := length_trimmed_le r
  rcases Numeral.exists_of_numberAt (trimmed r) with hnil | ⟨n, hn⟩
  · by_cases hno : ∀ q, trimmed r = '(' :: q → Misses forwards (.forward 0) (trimmed q) ∨
        ∃ r' v, Consumes forwards (.forward 0) (trimmed q) r' (fun _ => some v) ∧
          trimmed r' = r' ∧ r'.head? ≠ some ')'
    · exact .inl (misses_atom hnil hno)
    · simp only [not_forall, not_or] at hno
      obtain ⟨q, hq, hmatch, hclosed⟩ := hno
      have hlenq := length_trimmed_le q
      rw [hq, List.length_cons] at hlen
      obtain ⟨ts, v, r₁, hp, hlaid, hv, hr₁, hlt⟩ := (ih (trimmed q) (by omega)).resolve_left hmatch
      have hhead : r₁.head? = some ')' := by
        refine Classical.byContradiction fun hne => hclosed ⟨r₁, v, hp, hr₁, hne⟩
      obtain ⟨r₂, rfl⟩ := List.head?_eq_some_iff.1 hhead
      have hlen₂ := length_trimmed_le r₂
      rw [List.length_cons] at hlt
      refine .inr ⟨_, v, trimmed r₂, consumes_group hq hp, .of_trimmed ?_, .group hv,
        trimmed_trimmed r₂, by omega⟩
      rw [hq]
      exact .token (k := .symbol ['(']) (.of_trimmed (hlaid.append
        (.token (k := .symbol [')']) (laid_trimmed r₂))))
  · obtain ⟨q, hq⟩ := Real.numberAt_isPrefix (trimmed r)
    rw [hn] at hq
    obtain ⟨c, t, htext, -⟩ := n.exists_text_eq_cons
    have hlenq := length_trimmed_le q
    rw [← hq, htext, List.length_append, List.length_cons] at hlen
    refine .inr ⟨_, _, trimmed q, consumes_real hq.symm (hq ▸ hn), .of_trimmed ?_, .real n,
      trimmed_trimmed q, by omega⟩
    rw [← hq]
    exact .token (k := .real n) (laid_trimmed q)

theorem decided_power (hatom : Decided .atom (trimmed r))
    (ih : ∀ t : Text, t.length < r.length → Decided .power t) : Decided .power r := by
  have hlen := length_trimmed_le r
  rcases hatom with hmiss | ⟨ts, v, q, hp, hlaid, hv, hq, hlt⟩
  · exact .inl (misses_power hmiss)
  by_cases hno : ∀ op ∈ [power], ∀ t, trimmed q = op.symbol ++ t →
      Misses forwards (.forward 3) (trimmed t)
  · exact .inr ⟨ts, v, q, consumes_power hp hq (.stops (misses_stepOf apart_power.symbols hno)),
      .of_trimmed hlaid, .bare hv, hq, by omega⟩
  · simp only [not_forall] at hno
    obtain ⟨op, hop, t, ht, hmatch⟩ := hno
    obtain rfl := List.mem_singleton.1 hop
    have hlent := length_trimmed_le t
    have hlenq := congrArg List.length (hq.symm.trans ht)
    rw [List.length_append, length_operator (apart_power.symbols _ hop)] at hlenq
    obtain ⟨us, w, r', hp', hlaid', hw, hr', hlt'⟩ :=
      (ih (trimmed t) (by omega)).resolve_left hmatch
    have hstep := consumes_stepOf apart_power.symbols apart_power.nodup hop ht hp' hr'
    refine .inr ⟨_, _, r', consumes_power hp hq (.last hstep hr' rfl), .of_trimmed
      (hlaid.append ?_), .raised hv hw, hr', by omega⟩
    rw [← hq, ht]
    exact .token (k := .symbol power.symbol) (.of_trimmed hlaid')

theorem decided_unary (hpower : Decided .power (trimmed r))
    (ih : ∀ t : Text, t.length < r.length → Decided .unary t) : Decided .unary r := by
  have hlen := length_trimmed_le r
  by_cases hno : ∀ q, trimmed r = negation.symbol ++ q → Misses forwards (.forward 2) (trimmed q)
  · rcases hpower with hmiss | ⟨ts, v, r', hp, hlaid, hv, hr', hlt⟩
    · exact .inl (misses_unary hno hmiss)
    · exact .inr ⟨ts, v, r', consumes_positive hno hp hr', .of_trimmed hlaid, .positive hv, hr',
        by omega⟩
  · simp only [not_forall] at hno
    obtain ⟨q, hq, hmatch⟩ := hno
    have hlenq := length_trimmed_le q
    rw [hq, List.length_append, length_operator (by decide : negation.symbol ∈ operators)] at hlen
    obtain ⟨ts, v, r', hp, hlaid, hv, hr', hlt⟩ := (ih (trimmed q) (by omega)).resolve_left hmatch
    refine .inr ⟨_, _, r', consumes_negative hq hp hr', .of_trimmed ?_, .negative hv, hr', by omega⟩
    rw [hq]
    exact .token (k := .symbol negation.symbol) (.of_trimmed hlaid)

/-- Behind an operand the steps of a level lead along operators and right operands. -/
theorem exists_chain (hops : Apart ops)
    (ih : ∀ t : Text, t.length < r.length → Decided m t) (hr : trimmed r = r) (n : Nat)
    (v : Float) :
    ∃ (ss : List Operation) (r' : Text),
      Chain forwards (stepOf (.forward m.cell) ops) none n r v r' (ss.foldl Operation.apply v) ∧
      Laid (ss.flatMap Operation.tokens) r r' ∧ trimmed r' = r' ∧ r'.length ≤ r.length ∧
      (∀ s ∈ ss, s.op ∈ ops) ∧ ∀ s ∈ ss, Derives m s.operand s.value := by
  induction hlength : r.length using Nat.strongRecOn generalizing r n v with
  | ind d ihlen =>
    subst hlength
    by_cases hno : ∀ op ∈ ops, ∀ t, trimmed r = op.symbol ++ t →
        Misses forwards (.forward m.cell) (trimmed t)
    · exact ⟨[], r, .stops (misses_stepOf hops.symbols hno), .nil, hr, Nat.le_refl _, nofun, nofun⟩
    · simp only [not_forall] at hno
      obtain ⟨op, hop, t, ht, hmatch⟩ := hno
      have hlent := length_trimmed_le t
      have hlen := congrArg List.length (hr.symm.trans ht)
      rw [List.length_append, length_operator (hops.symbols op hop)] at hlen
      obtain ⟨us, w, r₁, hp, hlaid, hw, hr₁, hlt⟩ := (ih (trimmed t) (by omega)).resolve_left hmatch
      obtain ⟨ss, r', hchain, hlaid', hr', hlen', hss, hderives⟩ := ihlen r₁.length (by omega)
        (fun u hu => ih u (by omega)) hr₁ (n + 1) (op.apply v w) rfl
      have hstep := consumes_stepOf hops.symbols hops.nodup hop ht hp hr₁
      have hne : r₁ ≠ r := by
        rintro rfl
        omega
      refine ⟨⟨op, us, w⟩ :: ss, r', .more hstep hr₁ hne nofun hchain, ?_, hr', by omega,
        List.forall_mem_cons.2 ⟨hop, hss⟩, List.forall_mem_cons.2 ⟨hw, hderives⟩⟩
      have hfirst : Laid (Operation.tokens ⟨op, us, w⟩) r r₁ := by
        rw [← hr, ht]
        exact .token (k := .symbol op.symbol) (.of_trimmed hlaid)
      exact hfirst.append hlaid'

theorem decided_left (hops : Apart ops)
    (hcell : forwards.get? k.cell = some (leftLevel m.cell ops))
    (hderives : ∀ {ts v} {ss : List Operation}, Derives m ts v → (∀ s ∈ ss, s.op ∈ ops) →
      (∀ s ∈ ss, Derives m s.operand s.value) →
      Derives k (ts ++ ss.flatMap Operation.tokens) (ss.foldl Operation.apply v))
    (hfirst : Decided m (trimmed r)) (ih : ∀ t : Text, t.length < r.length → Decided m t) :
    Decided k r := by
  have hlen := length_trimmed_le r
  rcases hfirst with hmiss | ⟨ts, v, q, hp, hlaid, hv, hq, hlt⟩
  · exact .inl (misses_left hcell hmiss)
  obtain ⟨ss, r', hchain, hlaid', hr', hlen', hss, hsteps⟩ :=
    exists_chain hops (fun t ht => ih t (by omega)) hq 0 v
  exact .inr ⟨_, _, r', consumes_left hcell hp hq hchain, .of_trimmed (hlaid.append hlaid'),
    hderives hv hss hsteps, hr', by omega⟩

/-- At every place the parser of a nonterminal does not match, or it consumes tokens that the
nonterminal derives. -/
theorem decided (k : Nonterminal) (r : Text) : Decided k r := by
  induction hlength : r.length using Nat.strongRecOn generalizing k r with
  | ind d ih =>
    -- The looser levels ask the tighter ones at the same place, and all others further on.
    have hlater (k : Nonterminal) {r : Text} (hr : r.length ≤ d) :
        ∀ t : Text, t.length < r.length → Decided k t :=
      fun t ht => ih t.length (by omega) k t rfl
    have hatom : ∀ t : Text, t.length ≤ d → Decided .atom t := fun t ht =>
      decided_atom (hlater .expr ht)
    have hpower : ∀ t : Text, t.length ≤ d → Decided .power t := fun t ht =>
      decided_power (hatom _ (Nat.le_trans (length_trimmed_le t) ht)) (hlater .power ht)
    have hunary : ∀ t : Text, t.length ≤ d → Decided .unary t := fun t ht =>
      decided_unary (hpower _ (Nat.le_trans (length_trimmed_le t) ht)) (hlater .unary ht)
    have hterm : ∀ t : Text, t.length ≤ d → Decided .term t := fun t ht =>
      decided_left apart_products rfl
        (fun hts hop => .term hts fun s hs => mem_products_iff.1 (hop s hs))
        (hunary _ (Nat.le_trans (length_trimmed_le t) ht)) (hlater .unary ht)
    have hexpr : ∀ t : Text, t.length ≤ d → Decided .expr t := fun t ht =>
      decided_left apart_sums rfl
        (fun hts hop => .expr hts fun s hs => mem_sums_iff.1 (hop s hs))
        (hterm _ (Nat.le_trans (length_trimmed_le t) ht)) (hlater .term ht)
    have hle := Nat.le_of_eq hlength
    cases k with
    | expr => exact hexpr r hle
    | term => exact hterm r hle
    | unary => exact hunary r hle
    | power => exact hpower r hle
    | atom => exact hatom r hle

/-! ## All expressions are accepted -/

/-- The tokens that may stand behind what the nonterminal derives. -/
def Nonterminal.follow : Nonterminal → List Text
  | expr => [[')']]
  | term => [[')'], ['+'], ['-']]
  | unary | power => [[')'], ['+'], ['-'], ['*'], ['/']]
  | atom => [[')'], ['+'], ['-'], ['*'], ['/'], ['^']]

/-- Nothing follows, or a token that may stand behind what the nonterminal derives. -/
def Nonterminal.Follows (k : Nonterminal) (r : Text) : Prop :=
  r = [] ∨ ∃ s ∈ k.follow, ∃ q, r = s ++ q

theorem Nonterminal.Follows.mono (h : k.Follows r) (hkm : k.follow ⊆ m.follow) : m.Follows r := by
  rcases h with rfl | ⟨s, hs, hr⟩
  · exact .inl rfl
  · exact .inr ⟨s, hkm hs, hr⟩

/-- An operator that may not follow does not follow. -/
theorem Nonterminal.Follows.ne (h : k.Follows r) {s : Text} (hs : s ∈ operators)
    (hno : s ∉ k.follow) (q : Text) : r ≠ s ++ q := by
  have hsingle : ∀ u ∈ k.follow, u.length = 1 := by cases k <;> decide
  have hlen := length_operator hs
  rintro rfl
  rcases h with hnil | ⟨u, hu, q', hq'⟩
  · rw [(List.append_eq_nil_iff.1 hnil).1] at hlen
    cases hlen
  · obtain ⟨rfl, -⟩ := List.append_inj hq' (hlen.trans (hsingle u hu).symm)
    exact hno hu

/-- Neither white space nor what may stand behind a numeral goes on with it. -/
theorem stops_of_follows (h : Nonterminal.atom.Follows (trimmed r)) : Numeral.Stops r := by
  cases r with
  | nil => exact fun _ h => nomatch h
  | cons c t =>
    rintro _ ⟨⟩
    cases hc : Unicode.isWhitespace c with
    | true =>
      have hno (hnumeral : c.isDigit ∨ c = '.' ∨ Real.isMark c) : False := by
        cases hc.symm.trans (isWhitespace_numeral hnumeral)
      exact ⟨Bool.eq_false_iff.2 fun hd => hno (.inl hd), fun hp => hno (.inr (.inl hp)),
        Bool.eq_false_iff.2 fun hm => hno (.inr (.inr hm))⟩
    | false =>
      rw [trimmed_plain hc] at h
      obtain ⟨s, hs, q, hq⟩ := h.resolve_left (List.cons_ne_nil c t)
      simp only [Nonterminal.follow, List.mem_cons, List.not_mem_nil, or_false] at hs
      rcases hs with rfl | rfl | rfl | rfl | rfl | rfl <;>
        · obtain rfl := (List.cons.inj hq).1
          exact ⟨rfl, by decide, rfl⟩

/-- Operators and right operands are a chain of steps, if what follows goes on with no step. -/
theorem chain_of_derives (hops : Apart ops) (hm : ∀ op ∈ ops, op.symbol ∈ m.follow)
    (hk : ∀ op ∈ ops, op.symbol ∉ k.follow) (hkm : k.follow ⊆ m.follow) {ss : List Operation}
    (hss : ∀ s ∈ ss, s.op ∈ ops)
    (hsteps : ∀ s ∈ ss, ∀ {t r' : Text}, Laid s.operand t r' → trimmed r' = r' → m.Follows r' →
      Consumes forwards (.forward m.cell) t r' fun _ => some s.value)
    (hplain : ∀ t ∈ ss.flatMap Operation.tokens, t.IsPlain)
    (h : Laid (ss.flatMap Operation.tokens) r r') (hr : trimmed r = r) (hr' : trimmed r' = r')
    (hfollows : k.Follows r') :
    m.Follows r ∧ ∀ n v, Chain forwards (stepOf (.forward m.cell) ops) none n r v r'
      (ss.foldl Operation.apply v) := by
  induction ss generalizing r with
  | nil =>
    obtain rfl : r = r' := hr.symm.trans (h.trimmed_eq.trans hr')
    refine ⟨hfollows.mono hkm, fun n v => .stops (misses_stepOf hops.symbols fun op hop t ht => ?_)⟩
    exact absurd (hr.symm.trans ht) (hfollows.ne (hops.symbols op hop) (hk op hop) t)
  | cons s ss ih =>
    obtain ⟨hop, hss⟩ := List.forall_mem_cons.1 hss
    obtain ⟨hstep, hsteps⟩ := List.forall_mem_cons.1 hsteps
    rw [List.flatMap_cons, List.forall_mem_append] at hplain
    obtain ⟨hfirst, hplain⟩ := hplain
    obtain ⟨hsymbol, hoperand⟩ := List.forall_mem_cons.1 hfirst
    rw [List.flatMap_cons, Operation.tokens, List.cons_append] at h
    obtain ⟨q, hq, h⟩ := h.front hsymbol
    obtain ⟨q₁, h₁, h⟩ := h.split
    obtain ⟨hfollow, hchain⟩ :=
      ih hss hsteps hplain (h.trimmed_left hplain hr') (trimmed_trimmed q₁)
    have hconsumes := hstep (h₁.trim.trimmed_left hoperand (trimmed_trimmed q₁))
      (trimmed_trimmed q₁) hfollow
    refine ⟨.inr ⟨_, hm _ hop, q, hr.symm.trans hq⟩, fun n v => ?_⟩
    refine .more (consumes_stepOf hops.symbols hops.nodup hop hq hconsumes (trimmed_trimmed q₁))
      (trimmed_trimmed q₁) ?_ nofun (hchain (n + 1) _)
    have hlen := congrArg List.length (hr.symm.trans hq)
    have hlen₁ := h₁.length_le
    have hlen₂ := length_trimmed_le q₁
    rw [List.length_append, Token.text, length_operator (hops.symbols _ hop)] at hlen
    intro heq
    rw [← heq] at hlen
    omega

/-- An operand with operators and right operands behind it is consumed by a level with operands on
both sides. -/
theorem consumes_of_operations (hops : Apart ops)
    (hcell : forwards.get? k.cell = some (leftLevel m.cell ops))
    (hm : ∀ op ∈ ops, op.symbol ∈ m.follow) (hk : ∀ op ∈ ops, op.symbol ∉ k.follow)
    (hkm : k.follow ⊆ m.follow) {ss : List Operation} (hss : ∀ s ∈ ss, s.op ∈ ops)
    (hfirst : ∀ {t r' : Text}, Laid ts t r' → trimmed r' = r' → m.Follows r' →
      Consumes forwards (.forward m.cell) t r' fun _ => some v)
    (hsteps : ∀ s ∈ ss, ∀ {t r' : Text}, Laid s.operand t r' → trimmed r' = r' → m.Follows r' →
      Consumes forwards (.forward m.cell) t r' fun _ => some s.value)
    (hplain : ∀ t ∈ ts ++ ss.flatMap Operation.tokens, t.IsPlain)
    (h : Laid (ts ++ ss.flatMap Operation.tokens) r r') (hr' : trimmed r' = r')
    (hfollows : k.Follows r') :
    Consumes forwards (.forward k.cell) r r' fun _ => some (ss.foldl Operation.apply v) := by
  obtain ⟨hts, hrest⟩ := List.forall_mem_append.1 hplain
  obtain ⟨q, hlaid, h⟩ := h.split
  obtain ⟨hfollow, hchain⟩ := chain_of_derives hops hm hk hkm hss hsteps hrest
    (h.trimmed_left hrest hr') (trimmed_trimmed q) hr' hfollows
  have hoperand :=
    hfirst (hlaid.trim.trimmed_left hts (trimmed_trimmed q)) (trimmed_trimmed q) hfollow
  exact consumes_left hcell hoperand (trimmed_trimmed q) (hchain 0 v)

/-- A sign does not stand where a power begins. -/
theorem ne_negation {t : Token} (ht : t.IsOpening) (q q' : Text) :
    t.text ++ q ≠ negation.symbol ++ q' := by
  intro h
  cases ht with
  | real n =>
    obtain ⟨c, u, hn, hc⟩ := n.exists_text_eq_cons
    rw [Token.text, hn] at h
    obtain rfl := (List.cons.inj h).1
    rcases hc with hc | hc <;> cases hc
  | bracket => cases (List.cons.inj h).1

/-- Tokens that a nonterminal derives are consumed, if what follows does not go on with them. -/
theorem Derives.consumes (h : Derives k ts v) {r r' : Text} (hlaid : Laid ts r r')
    (hr' : trimmed r' = r') (hfollows : k.Follows r') :
    Consumes forwards (.forward k.cell) r r' fun _ => some v := by
  induction h generalizing r r' with
  | expr hts hop hss ih ihs =>
    exact consumes_of_operations apart_sums rfl (by decide) (by decide) (by decide)
      (fun s hs => mem_sums_iff.2 (hop s hs)) ih ihs (Derives.expr hts hop hss).isPlain hlaid hr'
      hfollows
  | term hts hop hss ih ihs =>
    exact consumes_of_operations apart_products rfl (by decide) (by decide) (by decide)
      (fun s hs => mem_products_iff.2 (hop s hs)) ih ihs (Derives.term hts hop hss).isPlain hlaid
      hr' hfollows
  | negative hts ih =>
    obtain ⟨q, hq, hlaid⟩ := hlaid.front (isPlain_symbol (by decide))
    exact consumes_negative hq (ih (hlaid.trimmed_left hts.isPlain hr') hr' hfollows) hr'
  | positive hts ih =>
    have hpower := ih (hlaid.trimmed_left hts.isPlain hr') hr' hfollows
    obtain ⟨t, us, rfl, ht⟩ := hts.exists_isOpening (.inl rfl)
    obtain ⟨q, hq, -⟩ := hlaid.front (hts.isPlain t List.mem_cons_self)
    refine consumes_positive (fun q' hq' => ?_) hpower hr'
    exact absurd (hq.symm.trans hq') (ne_negation ht q q')
  | bare hts ih =>
    have hatom := ih (hlaid.trimmed_left hts.isPlain hr') hr' (hfollows.mono (by decide))
    refine consumes_power hatom hr'
      (.stops (misses_stepOf apart_power.symbols fun op hop t ht => ?_))
    obtain rfl := List.mem_singleton.1 hop
    exact absurd (hr'.symm.trans ht) (hfollows.ne (by decide) (by decide) t)
  | raised hts hus ih ihs =>
    obtain ⟨q, hbase, hlaid⟩ := hlaid.split
    obtain ⟨q', hq', hlaid⟩ := hlaid.front (isPlain_symbol (by decide))
    have hpower := ihs (hlaid.trimmed_left hus.isPlain hr') hr' hfollows
    have hatom := ih (hbase.trim.trimmed_left hts.isPlain (trimmed_trimmed q)) (trimmed_trimmed q)
      (.inr ⟨power.symbol, by decide, q', hq'⟩)
    have hstep := consumes_stepOf apart_power.symbols apart_power.nodup (List.mem_singleton.2 rfl)
      ((trimmed_trimmed q).trans hq') hpower hr'
    exact consumes_power hatom (trimmed_trimmed q) (.last hstep hr' rfl)
  | real n =>
    obtain ⟨q, hq, hlaid⟩ := hlaid.front (isPlain_real n)
    have hend : trimmed q = r' := hlaid.trimmed_eq.trans hr'
    rw [← hend] at hfollows ⊢
    exact consumes_real hq (Numeral.numberAt_append (stops_of_follows hfollows))
  | group hts ih =>
    obtain ⟨q, hq, hlaid⟩ := hlaid.front (isPlain_symbol (by decide))
    obtain ⟨q₁, hexpr, hlaid⟩ := hlaid.split
    obtain ⟨q₂, hq₂, hlaid⟩ := hlaid.front (isPlain_symbol (by decide))
    have hend : trimmed q₂ = r' := hlaid.trimmed_eq.trans hr'
    have hinner := ih (hexpr.trim.trimmed_left hts.isPlain (trimmed_trimmed q₁))
      (trimmed_trimmed q₁) (.inr ⟨[')'], by decide, q₂, hq₂⟩)
    rw [hq₂] at hinner
    rw [← hend]
    exact consumes_group hq hinner

/-- The parser of `expr` consumes the whole text exactly if it is an expression. -/
theorem derives_iff_consumes :
    (∃ ts, Laid ts r [] ∧ Derives .expr ts v) ↔
      Consumes forwards (.forward Nonterminal.expr.cell) r [] fun _ => some v := by
  constructor
  · rintro ⟨ts, hlaid, hv⟩
    exact hv.consumes hlaid rfl (.inl rfl)
  · intro h
    rcases decided .expr r with hmiss | ⟨ts, w, r', hp, hlaid, hw, -, -⟩
    · exact absurd h hmiss.not_consumes
    · obtain ⟨rfl, hvalue⟩ := hp.unique h
      obtain rfl := Option.some.inj (hvalue none)
      exact ⟨ts, hlaid, hw⟩

/-- Whatever the line, the parser of the calculator comes to an end. It yields an attribute if and
only if the line is tokens that `expr` derives, with white space anywhere between them; and the
attribute is the value of the derivation. -/
theorem accepts_grammar : ∃ p fs, build = .ok (p, fs) ∧ ∀ line : Text, ∃ r,
    Trial.Settles (fun fuel => p.parse ⟨fs, fuel⟩ line none) (some r) ∧
    ∀ v, r.bind (·.attr) = some v ↔ ∃ ts, Laid ts line [] ∧ Derives .expr ts v := by
  refine ⟨leftLevel 1 sums, forwards, build_eq, fun line => ?_⟩
  have hcell : forwards.get? Nonterminal.expr.cell = some (leftLevel 1 sums) := rfl
  rcases decided .expr line with hmiss | ⟨-, w, r', hp, -⟩
  · have hanswer := (Pattern.answers_forward_iff hcell).1
      (hmiss line 0 none (Text.from?_zero line))
    refine ⟨_, Program.parse_settles hanswer, fun v => ⟨nofun, fun hv => ?_⟩⟩
    exact absurd (derives_iff_consumes.1 hv) hmiss.not_consumes
  · obtain ⟨m, hm, hline, hlast, hattr⟩ := hp line 0 none (Text.from?_zero line)
    have hanswer := (Pattern.answers_forward_iff hcell).1 hm
    rw [Nat.zero_add] at hlast
    refine ⟨_, Program.parse_settles hanswer, fun v => ?_⟩
    rw [derives_iff_consumes]
    constructor
    · intro hv
      obtain ⟨s, hs, hvalue⟩ := Option.bind_eq_some_iff.1 hv
      obtain ⟨hs, hwhole⟩ := Option.filter_eq_some_iff.1 hs
      obtain rfl := Option.some.inj hs
      -- The match ends where the line does, so nothing follows it.
      have hlength := hlast.symm.trans (of_decide_eq_true hwhole)
      rw [congrArg Text.byteLength hline, Text.byteLength_append] at hlength
      obtain rfl := Text.byteLength_eq_zero.1 (by omega : Text.byteLength r' = 0)
      obtain rfl := Option.some.inj (hattr.symm.trans hvalue)
      exact hp
    · intro hv
      obtain ⟨rfl, hvalue⟩ := hp.unique hv
      have hwhole : m.lastIndex = line.byteLength := by
        rw [hlast, hline, List.append_nil]
      rw [Option.map_some, Option.filter_some, if_pos (decide_eq_true hwhole)]
      exact hattr.trans (hvalue none)

/-- The numeral of one digit. -/
def digit (d : Char) (h : d.isDigit) : Numeral :=
  ⟨[d], [], none, .inl (List.cons_ne_nil d []), List.forall_mem_singleton.2 h,
    List.forall_mem_nil _⟩

/-- Differences and quotients are taken from left to right, and a sign binds less than a power. -/
theorem accepts_grammar_mixed :
    let x (n : Nat) : Float := Decimal.nearestFloat n 0
    ∃ p fs r, build = .ok (p, fs) ∧ Trial.Settles (fun fuel => p.parse ⟨fs, fuel⟩
        ['9', ' ', '-', '8', '-', ' ', '-', '7', '^', '6', '/', '(', '5', '+', '4', ')', '*', '3']
        none) (some r) ∧
      r.bind (·.attr) = some (x 9 - x 8 - -((x 7).pow (x 6)) / (x 5 + x 4) * x 3) := by
  intro x
  obtain ⟨p, fs, hbuild, hlines⟩ := accepts_grammar
  obtain ⟨r, hsettles, hvalue⟩ := hlines
    ['9', ' ', '-', '8', '-', ' ', '-', '7', '^', '6', '/', '(', '5', '+', '4', ')', '*', '3']
  have hatom (d : Char) (hd : d.isDigit) : Derives .atom [.real (digit d hd)] (digit d hd).value :=
    .real _
  have hterm {ts : List Token} {v : Float} (h : Derives .atom ts v) : Derives .term ts v := by
    have hlone := @Derives.term _ _ [] (.positive (.bare h)) (List.forall_mem_nil _)
      (List.forall_mem_nil _)
    rwa [List.flatMap_nil, List.append_nil] at hlone
  have hsum := @Derives.expr _ _ [⟨⟨['+'], fun v w => v + w⟩, _, _⟩] (hterm (hatom '5' rfl))
    (List.forall_mem_singleton.2 .plus) (List.forall_mem_singleton.2 (hterm (hatom '4' rfl)))
  have hpower := Derives.raised (hatom '7' rfl) (.bare (hatom '6' rfl))
  have hproduct := @Derives.term _ _
    [⟨⟨['/'], fun v w => v / w⟩, _, _⟩, ⟨⟨['*'], fun v w => v * w⟩, _, _⟩]
    (.negative (.positive hpower))
    (List.forall_mem_cons.2 ⟨.over, List.forall_mem_singleton.2 .times⟩)
    (List.forall_mem_cons.2 ⟨.positive (.bare (.group hsum)),
      List.forall_mem_singleton.2 (.positive (.bare (hatom '3' rfl)))⟩)
  have hexpr := @Derives.expr _ _
    [⟨⟨['-'], fun v w => v - w⟩, _, _⟩, ⟨⟨['-'], fun v w => v - w⟩, _, _⟩]
    (hterm (hatom '9' rfl))
    (List.forall_mem_cons.2 ⟨.minus, List.forall_mem_singleton.2 .minus⟩)
    (List.forall_mem_cons.2 ⟨hterm (hatom '8' rfl), List.forall_mem_singleton.2 hproduct⟩)
  refine ⟨p, fs, r, hbuild, hsettles, (hvalue _).2 ⟨_, ?_, hexpr⟩⟩
  have hspace : Unicode.isWhitespace ' ' := by decide
  exact .token <| .white hspace <| .token <| .token <| .token <| .white hspace <| .token <|
    .token <| .token <| .token <| .token <| .token <| .token <| .token <| .token <| .token <|
    .token <| .token .nil

end GrammarMachine.CommandLine.Calculator
