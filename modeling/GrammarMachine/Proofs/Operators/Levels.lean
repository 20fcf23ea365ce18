import GrammarMachine.Proofs.Operators.Reading

/-!
# Reading by the levels of a table

What the program of each level reads, in a table of operators above integers and brackets.

* `Readable`: what is asked of the lexicon, the symbols and the integers.
* `matchesDigits_run`: expressions such as `[0-9]+` match integers.
* `Built`: the cells of the table hold the programs of its levels.
* `ReadsLevel k ts v`: the parser of level `k` reads the tokens and synthesizes `v`.
* `Built.descend`: what a level reads, the looser ones read, unless they take its first token.
-/

namespace GrammarMachine

variable {α : Type}

/-- The integers are the longest runs of digits. -/
def MatchesDigits (number : Pattern α) : Prop :=
  ∀ fs text i rest a, text.from? i = some rest →
    if rest.takeWhile Char.isDigit = [] then number.Answers fs text i a none
    else ∃ b extra, number.Answers fs text i a (some ⟨rest.takeWhile Char.isDigit,
      i + Text.byteLength (rest.takeWhile Char.isDigit), b, extra⟩)

/-- Runs of digits, such as `[0-9]+`, are integers. -/
theorem matchesDigits_run (source : Text) :
    MatchesDigits (Pattern.regex (α := α) ⟨.standard, source, .run (.range '0' '9') 1⟩) := by
  intro fs text i rest a hrest
  rw [← contains_digits]
  split
  · rename_i hnil
    refine Pattern.answers_run_none source _ (Nat.le_refl 1) (fun rest' hrest' => ?_) a
    obtain rfl := Option.some.inj (hrest.symm.trans hrest')
    rw [hnil]
    exact Nat.one_pos
  · rename_i hne
    exact ⟨_, _, Pattern.answers_run source _ (Nat.le_refl 1) hrest (List.length_pos_iff.2 hne) a⟩

/-- What is asked of a table so that expressions can be read back. -/
structure Readable (lexicon : Lexicon α) (number : Pattern α) (levels : List (Level α)) :
    Prop where
  operators : ∀ l ∈ levels, l.isPrimary = false
  symbols : RegularSymbols levels
  ignorable : SkipsSpaces lexicon.ignore
  integers : MatchesDigits number

namespace OperatorTable

/-- Levels of operators above integers and brackets. -/
def arithmetic (lexicon : Lexicon α) (number : Pattern α) (ofInt : Int64 → α)
    (levels : List (Level α)) : OperatorTable α :=
  levels ++ [.arithmetic lexicon number ofInt]

end OperatorTable

/-- The cells from `base` on hold the programs of the table. -/
def Built (lexicon : Lexicon α) (number : Pattern α) (ofInt : Int64 → α) (levels : List (Level α))
    (base : Nat) (fs : Forwards α) : Prop :=
  let t := OperatorTable.arithmetic lexicon number ofInt levels
  ∀ (i : Nat) (level : Level α) (q : Program α), t[i]? = some level →
    level.Yields lexicon t.symbols (t.cells base) (base + i)
      (OperatorTable.below base t.length i) q → fs.get? (base + i) = some q

/-- The parser of level `k` reads the tokens and synthesizes `v`. -/
def ReadsLevel (levels : List (Level α)) (fs : Forwards α) (text : Text) (base k : Nat)
    (ts : List Text) (v : α) : Prop :=
  Reads levels fs text (.forward (base + k)) k ts fun _ => some v

/-- The step of a level that repeats one behind an operand, and how often it may. -/
def Level.step? (lexicon : Lexicon α) (symbols : Keywords) (this next : Pattern α) :
    Level α → Option (Pattern α × Option Nat)
  | .left ops => some ((lexicon.grammar.choice
      (ops.map fun op => (OperatorTable.binaryStep lexicon symbols next op).pattern)).pattern, none)
  | .right ops => some ((lexicon.grammar.choice
      (ops.map fun op => (OperatorTable.binaryStep lexicon symbols this op).pattern)).pattern,
      some 1)
  | .postfixed ops => some ((lexicon.grammar.choice
      (ops.map fun op => (OperatorTable.postfixStep lexicon symbols op).pattern)).pattern, none)
  | .prefixed _ | .primary _ => none

theorem Level.step?_yields {lexicon : Lexicon α} {symbols : Keywords} {cells : List Nat}
    {this next : Nat} {l : Level α} {p : Pattern α} {max : Option Nat}
    (h : l.step? lexicon symbols (.forward this) (.forward next) = some (p, max)) :
    l.Yields lexicon symbols cells this next
        ((lexicon.grammar.token (.forward next)).repeated 0 max p).program ∧
      checkBounds 0 max = .ok () := by
  cases l with
  | left ops | right ops | postfixed ops =>
    cases h
    exact ⟨rfl, rfl⟩
  | prefixed ops | primary body => cases h

section

variable {lexicon : Lexicon α} {number : Pattern α} {ofInt : Int64 → α} {levels : List (Level α)}
  {base : Nat} {fs : Forwards α} {text : Text} {b k : Nat} {ts : List Text}

theorem Reads.forward {cell : Nat} {q : Program α} (hc : fs.get? cell = some q)
    {F : Option α → Option α} (h : Reads levels fs text (.program q) b ts F) :
    Reads levels fs text (.forward cell) b ts F := by
  intro us o a hus ho
  obtain ⟨j, t, hj, hoj, hq⟩ := h us o a hus ho
  exact ⟨j, t, hj, hoj, (Pattern.answers_forward_iff hc).2 (Pattern.answers_program_iff.1 hq)⟩

/-- The cell of a level of operators holds its program. -/
theorem Built.get? (hB : Built lexicon number ofInt levels base fs) {l : Level α}
    (hl : levels[k]? = some l) {q : Program α}
    (hq : l.Yields lexicon (OperatorTable.arithmetic lexicon number ofInt levels).symbols
      ((OperatorTable.arithmetic lexicon number ofInt levels).cells base) (base + k)
      (base + (k + 1)) q) : fs.get? (base + k) = some q := by
  have hk : k < levels.length := (List.getElem?_eq_some_iff.1 hl).1
  refine hB k l q ?_ ?_
  · rw [OperatorTable.arithmetic, List.getElem?_append_left hk]
    exact hl
  · rw [OperatorTable.below, if_pos (by simp [OperatorTable.arithmetic, hk])]
    exact hq

/-! ## Operators that do not stand at a place -/

/-- A step that begins with an operator does not match where another token stands. -/
theorem refuses_keyword (hR : Readable lexicon number levels) {s : Text} {l : Level α}
    (hl : l ∈ levels) (hs : s ∈ l.symbols)
    (hts : ∀ us u, Ends levels b us → (ts ++ us).head? = some u →
      IsPlain u ∨ ∃ l ∈ levels, u ∈ l.symbols ∧ u ≠ s) (is : List (Instr (Pattern α) α)) :
    Refuses levels fs text ((lexicon.grammar.keywordIn s
      (OperatorTable.arithmetic lexicon number ofInt levels).symbols).append is).pattern b ts := by
  intro us o a hus ho
  have hfails : (lexicon.grammar.keywordIn s (OperatorTable.arithmetic lexicon number ofInt
      levels).symbols).Fails fs text o a :=
    ho.keywordIn_fails hR.ignorable hR.symbols rfl (hR.symbols.ne_nil l hl s hs) (hts us · hus) fs a
  exact Pattern.answers_program_iff.2
    (hfails.append ((Grammar.retains_lexicon _).keywordIn _ _).isOpen is).answers

/-- No operator of a level stands where an expression of the level ends. -/
theorem other_of_ends (hR : Readable lexicon number levels) {l : Level α}
    (hl : levels[k]? = some l) {s : Text} (hs : s ∈ l.infixSymbols) {us : List Text} {u : Text}
    (hus : Ends levels k us) (hu : us.head? = some u) :
    IsPlain u ∨ ∃ l ∈ levels, u ∈ l.symbols ∧ u ≠ s := by
  rcases hus u hu with rfl | ⟨i, l', hi, hl', hul⟩
  · exact .inl ⟨')', [], rfl, .inr (.inr rfl)⟩
  · refine .inr ⟨l', List.mem_of_getElem? hl', Level.infixSymbols_subset hul, ?_⟩
    rintro rfl
    exact disjoint_of_nodup hR.symbols.infixes hl' hl hi hul hs

/-- No prefix operator of a looser level stands where an expression begins. -/
theorem other_of_isFirst (hR : Readable lexicon number levels) {i : Nat} (hik : i < k)
    {l : Level α} (hl : levels[i]? = some l) {s u : Text} (hs : s ∈ l.prefixSymbols)
    (hu : Expr.IsFirst levels k u) : IsPlain u ∨ ∃ l ∈ levels, u ∈ l.symbols ∧ u ≠ s := by
  cases hu with
  | number hne hds =>
    cases u with
    | nil => exact absurd rfl hne
    | cons c v => exact .inl ⟨c, v, rfl, .inl (hds c List.mem_cons_self)⟩
  | opening => exact .inl ⟨'(', [], rfl, .inr (.inl rfl)⟩
  | @symbol j l' _ hj hl' hul =>
    refine .inr ⟨l', List.mem_of_getElem? hl', Level.prefixSymbols_subset hul, ?_⟩
    rintro rfl
    exact disjoint_of_nodup hR.symbols.prefixes hl hl' (Nat.lt_of_lt_of_le hik hj) hs hul

theorem refuses_step (hR : Readable lexicon number levels) {l : Level α}
    (hl : levels[k]? = some l) {this next : Pattern α} {p : Pattern α} {max : Option Nat}
    (h : l.step? lexicon (OperatorTable.arithmetic lexicon number ofInt levels).symbols this next =
      some (p, max)) : Refuses levels fs text p k [] := by
  have hrefuse {s : Text} (hs : s ∈ l.infixSymbols) (is : List (Instr (Pattern α) α)) :
      Refuses levels fs text ((lexicon.grammar.keywordIn s
        (OperatorTable.arithmetic lexicon number ofInt levels).symbols).append is).pattern k [] := by
    refine refuses_keyword hR (List.mem_of_getElem? hl) (Level.infixSymbols_subset hs)
      (fun us u hus hu => ?_) is
    exact other_of_ends hR hl hs hus hu
  cases l with
  | left ops | right ops =>
    cases h
    refine Refuses.choice hR.ignorable fun q hq => ?_
    obtain ⟨op, hop, rfl⟩ := List.mem_map.1 hq
    have hs : op.symbol ∈ ops.map (·.symbol) := List.mem_map_of_mem hop
    exact hrefuse hs _
  | postfixed ops =>
    cases h
    refine Refuses.choice hR.ignorable fun q hq => ?_
    obtain ⟨op, hop, rfl⟩ := List.mem_map.1 hq
    have hs : op.symbol ∈ ops.map (·.symbol) := List.mem_map_of_mem hop
    exact hrefuse hs _
  | prefixed ops | primary body => cases h

/-! ## What a level reads -/

/-- A level that repeats a step reads an operand and steps. -/
theorem Built.repeated (hR : Readable lexicon number levels)
    (hB : Built lexicon number ofInt levels base fs) {l : Level α} (hl : levels[k]? = some l)
    {p : Pattern α} {max : Option Nat}
    (hstep : l.step? lexicon (OperatorTable.arithmetic lexicon number ofInt levels).symbols
      (.forward (base + k)) (.forward (base + (k + 1))) = some (p, max)) {v : α}
    (hnext : ReadsLevel levels fs text base (k + 1) ts v) {steps : List (List Text × (α → α))}
    (hreads : ∀ s ∈ steps, Reads levels fs text p b s.1 (Option.map s.2))
    (hstart : ∀ s ∈ steps, StartsInfix levels k s.1) (hb : k ≤ b)
    (hb' : k < b ∨ steps.length ≤ 1) (hmax : ∀ M, max = some M → steps.length ≤ M) :
    ReadsLevel levels fs text base k (ts ++ steps.flatMap (·.1))
      (steps.foldl (fun x s => s.2 x) v) := by
  obtain ⟨hyields, hbounds⟩ := Level.step?_yields hstep
  exact (Reads.repeated hR.ignorable hnext hreads hstart (refuses_step hR hl hstep) hb hb' hbounds
    hmax).forward (hB.get? hl hyields)

/-- A choice of operators reads what the one reads whose symbol stands there. `f` is what the
operators do behind their symbols. -/
theorem Reads.operators {β : Type} (hR : Readable lexicon number levels) {l : Level α}
    (hl : l ∈ levels) {ops : List β} {symbol : β → Text} (hkeys : (ops.map symbol).Nodup)
    (hsymbols : ∀ op ∈ ops, symbol op ∈ l.symbols) {f : β → List (Instr (Pattern α) α)}
    {F : Option α → Option α} (hF : ∀ a, merge a (F a) = F a) {op : β} (hop : op ∈ ops)
    (h : Reads levels fs text ((lexicon.grammar.keywordIn (symbol op)
      (OperatorTable.arithmetic lexicon number ofInt levels).symbols).append (f op)).pattern b
      (symbol op :: ts) F) (qs : List (Pattern α)) :
    Reads levels fs text (lexicon.grammar.choice (ops.map (fun op =>
      ((lexicon.grammar.keywordIn (symbol op)
        (OperatorTable.arithmetic lexicon number ofInt levels).symbols).append (f op)).pattern) ++
      qs)).pattern b (symbol op :: ts) F := by
  refine Reads.choice hR.ignorable hF fun us o a hus ho => ?_
  obtain ⟨j, t, hj, hoj, hp⟩ := h us o a hus ho
  refine ⟨j, t, hj, hoj, FirstMatch.of_key hkeys hop hp (fun op' hop' hne => ?_) qs⟩
  refine refuses_keyword hR hl (hsymbols op' hop') (fun us u _ hu => ?_) (f op') us o a hus ho
  obtain rfl := Option.some.inj hu
  exact .inr ⟨l, hl, hsymbols op hop, Ne.symm hne⟩

/-- The step of a level with two operands reads one of its operators and the operand after it. -/
theorem Reads.binaryChoice (hR : Readable lexicon number levels) {l : Level α} (hl : l ∈ levels)
    {ops : List (Binary α)} (hkeys : (ops.map (·.symbol)).Nodup)
    (hsymbols : l.symbols = ops.map (·.symbol)) {operand : Pattern α} {w : α} {op : Binary α}
    (hop : op ∈ ops) (h : Reads levels fs text operand b ts fun _ => some w) :
    Reads levels fs text (lexicon.grammar.choice (ops.map fun op => (OperatorTable.binaryStep lexicon
      (OperatorTable.arithmetic lexicon number ofInt levels).symbols operand op).pattern)).pattern b
      (op.symbol :: ts) (Option.map (op.apply · w)) := by
  have hs : ∀ op ∈ ops, op.symbol ∈ l.symbols := fun op hop =>
    hsymbols ▸ List.mem_map_of_mem hop
  have hstep : Reads levels fs text (OperatorTable.binaryStep lexicon
      (OperatorTable.arithmetic lexicon number ofInt levels).symbols operand op).pattern b
      (op.symbol :: ts) (Option.map (op.apply · w)) :=
    h.binaryStep hR.ignorable hR.symbols rfl hl (hs op hop)
  have hall := Reads.operators (f := fun op => [.consume operand (some ⟨fun c => c.inherited.bind
    fun l => c.synthesized.map fun r => op.apply l r, none⟩) none true]) hR hl hkeys hs
    (fun a => merge_map_self a _) hop hstep []
  rwa [List.append_nil] at hall

/-- The step of a level of operators behind their operand reads one of them. -/
theorem Reads.postfixChoice (hR : Readable lexicon number levels) {l : Level α} (hl : l ∈ levels)
    {ops : List (Unary α)} (hkeys : (ops.map (·.symbol)).Nodup)
    (hsymbols : l.symbols = ops.map (·.symbol)) {op : Unary α} (hop : op ∈ ops) :
    Reads levels fs text (lexicon.grammar.choice (ops.map fun op => (OperatorTable.postfixStep lexicon
      (OperatorTable.arithmetic lexicon number ofInt levels).symbols op).pattern)).pattern b
      [op.symbol] (Option.map op.apply) := by
  have hs : ∀ op ∈ ops, op.symbol ∈ l.symbols := fun op hop =>
    hsymbols ▸ List.mem_map_of_mem hop
  have hstep : Reads levels fs text (OperatorTable.postfixStep lexicon
      (OperatorTable.arithmetic lexicon number ofInt levels).symbols op).pattern b
      [op.symbol] (Option.map op.apply) :=
    .postfixStep hR.ignorable hR.symbols rfl hl (hs op hop)
  have hall := Reads.operators (f := fun op => [.transform ⟨fun v => v.map op.apply, none⟩]) hR hl
    hkeys hs (fun a => merge_map_self a _) hop hstep []
  rwa [List.append_nil] at hall

/-- What a level reads the next looser one reads, unless that is a level of prefix operators and
one of them stands there. -/
theorem Built.descend (hR : Readable lexicon number levels)
    (hB : Built lexicon number ofInt levels base fs) {l : Level α} (hl : levels[k]? = some l) {v : α}
    (hfirst : ∃ u us, ts = u :: us ∧ Expr.IsFirst levels (k + 1) u)
    (h : ReadsLevel levels fs text base (k + 1) ts v) : ReadsLevel levels fs text base k ts v := by
  have hmem := List.mem_of_getElem? hl
  have hloop {p : Pattern α} {max : Option Nat} (hstep : l.step? lexicon
      (OperatorTable.arithmetic lexicon number ofInt levels).symbols (.forward (base + k))
      (.forward (base + (k + 1))) = some (p, max)) : ReadsLevel levels fs text base k ts v := by
    have hnone : ∀ s ∈ ([] : List (List Text × (α → α))),
        Reads levels fs text p k s.1 (Option.map s.2) := fun _ h => nomatch h
    simpa using hB.repeated hR hl hstep h hnone (fun _ h => nomatch h) (Nat.le_refl k)
      (.inr (Nat.zero_le 1)) (fun _ _ => Nat.zero_le _)
  cases l with
  | left ops => exact hloop rfl
  | right ops => exact hloop rfl
  | postfixed ops => exact hloop rfl
  | primary body => cases hR.operators _ hmem
  | prefixed ops =>
    obtain ⟨u, us, rfl, hu⟩ := hfirst
    refine Reads.forward (hB.get? hl rfl) (Reads.choice hR.ignorable (fun _ => rfl) ?_)
    intro vs o a hvs ho
    obtain ⟨j, t, hj, hoj, hp⟩ := h vs o a (hvs.mono (Nat.le_succ k)) ho
    refine ⟨j, t, hj, hoj, FirstMatch.append_of_none (fun q hq => ?_) (.here hp)⟩
    obtain ⟨op, hop, rfl⟩ := List.mem_map.1 hq
    have hs : op.symbol ∈ (Level.prefixed ops).prefixSymbols := List.mem_map_of_mem hop
    refine refuses_keyword hR hmem (Level.prefixSymbols_subset hs) (fun _ w _ hw => ?_) _ vs o a
      hvs ho
    obtain rfl := Option.some.inj hw
    exact other_of_isFirst hR (Nat.lt_succ_self k) hl hs hu

/-- What a level reads every looser one reads, if it begins as an expression of the level does. -/
theorem Built.descend_le (hR : Readable lexicon number levels)
    (hB : Built lexicon number ofInt levels base fs) {i : Nat} (hik : i ≤ k)
    (hk : k ≤ levels.length) {v : α} (hfirst : ∃ u us, ts = u :: us ∧ Expr.IsFirst levels k u)
    (h : ReadsLevel levels fs text base k ts v) : ReadsLevel levels fs text base i ts v := by
  induction k with
  | zero =>
    obtain rfl := Nat.le_zero.1 hik
    exact h
  | succ k ih =>
    rcases Nat.lt_or_eq_of_le hik with hlt | rfl
    · have hkl : k < levels.length := hk
      refine ih (Nat.le_of_lt_succ hlt) (Nat.le_of_lt hkl) ?_
        (hB.descend hR (List.getElem?_eq_getElem hkl) hfirst h)
      obtain ⟨u, us, rfl, hu⟩ := hfirst
      exact ⟨u, us, rfl, hu.mono (Nat.le_succ k)⟩
    · exact h

end

end GrammarMachine
