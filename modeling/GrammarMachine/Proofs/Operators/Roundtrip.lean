import GrammarMachine.Proofs.Operators.Levels
import GrammarMachine.Proofs.Semantics.Parsing

/-!
# What is printed is read back

* `Built.reads_number`, `Built.reads_brackets`: the level of integers and brackets.
* `Chain`: an operand and operators of one level, as a left-associative level reads them.
* `Built.isRead`: every expression is read by the parser of its own level and of all looser ones.
* `OperatorTable.parse_print`: the parser of a table consumes a printed expression and synthesizes
  its value.

The induction is on the expression. A left-associative level does not read its left operand by
itself, but as the front of a chain of operands, so it is also shown what chain an expression is.
-/

namespace GrammarMachine

variable {α : Type} {lexicon : Lexicon α} {number : Pattern α} {ofInt : Int64 → α}
  {levels : List (Level α)} {base : Nat} {fs : Forwards α} {text : Text} {b k : Nat}
  {ts : List Text} {v : α}

/-! ## Integers and brackets -/

theorem takeWhile_digits {ds : Text} (hds : ∀ d ∈ ds, d.isDigit) (us : List Text) :
    (ds ++ gap us).takeWhile Char.isDigit = ds := by
  rw [List.takeWhile_append_of_pos hds]
  cases us with
  | nil => simp
  | cons => rw [gap_cons, List.takeWhile_cons_of_neg (by decide), List.append_nil]

/-- Digits of a number that fits into 64 bits are read as that number. -/
theorem readInt64?_digits {ds : Text} (hne : ds ≠ []) (hds : ∀ d ∈ ds, d.isDigit)
    (hlt : Decimal.ofDigits ds < 2 ^ 63) :
    Decimal.readInt64? ds = some (Int64.ofNat (Decimal.ofDigits ds)) := by
  have hsign : Decimal.sign ds = (false, ds) := by
    unfold Decimal.sign
    split
    · exact absurd (hds '-' List.mem_cons_self) (by decide)
    · exact absurd (hds '+' List.mem_cons_self) (by decide)
    · rfl
  have hnat : Decimal.readNat? ds = some (Decimal.ofDigits ds) := by
    rw [Decimal.readNat?, if_neg]
    simpa [hne] using hds
  have hint : Decimal.readInt? ds = some (Decimal.ofDigits ds : Int) := by
    rw [Decimal.readInt?, hsign]
    simp [hnat]
  rw [Decimal.readInt64?, hint, Option.bind_some, if_pos]
  · rfl
  · constructor
    · exact Int.le_trans (by decide) (Int.natCast_nonneg _)
    · have hmax : Int64.maxValue.toInt = 2 ^ 63 - 1 := by decide
      omega

/-- A literal matches where it stands as a token. -/
theorem Spelled.literal {u : Text} {us : List Text} {i : Nat} (h : Spelled text i (u :: us))
    (fs : Forwards α) (a : Option α) :
    (Pattern.literal u).Answers fs text i a (some ⟨u, i + u.byteLength, none, []⟩) := by
  refine Pattern.answers_iff.2 ?_
  simp [Pattern.Verdict, literalAt, literalEnd?, h.rest, intercalate_cons]

/-- The cell of the tightest level holds the choice of integers and brackets. -/
theorem Built.get?_arithmetic (hB : Built lexicon number ofInt levels base fs) :
    fs.get? (base + levels.length) = some (lexicon.grammar.choice
      [(lexicon.grammar.tokenInt number ofInt).pattern,
        (((lexicon.grammar.token (.literal ['('])).token (.forward base)).token
          (.literal [')'])).pattern]).program := by
  refine hB levels.length (.arithmetic lexicon number ofInt) _ ?_ ?_
  · rw [OperatorTable.arithmetic, List.getElem?_append_right (Nat.le_refl _), Nat.sub_self]
    rfl
  · have hhead : ((OperatorTable.arithmetic lexicon number ofInt levels).cells base).headD 0 =
        base := by
      simp [OperatorTable.cells, OperatorTable.arithmetic, List.range'_succ]
    rw [Level.Yields, Level.arithmetic, OperatorTable.levelProgram, hhead]

theorem Built.reads_number (hR : Readable lexicon number levels)
    (hB : Built lexicon number ofInt levels base fs) {ds : Text} (hne : ds ≠ [])
    (hds : ∀ d ∈ ds, d.isDigit) (hlt : Decimal.ofDigits ds < 2 ^ 63) :
    ReadsLevel levels fs text base levels.length [ds]
      (ofInt (Int64.ofNat (Decimal.ofDigits ds))) := by
  refine Reads.forward hB.get?_arithmetic (Reads.choice hR.ignorable (fun _ => rfl) ?_)
  intro us o a _ ho
  obtain ⟨j, hj, hoj, hskip⟩ := ho.next hR.ignorable fs
  have hnum := hR.integers fs text o _ a ho.rest
  rw [List.cons_append, List.nil_append, intercalate_cons, takeWhile_digits hds, if_neg hne] at hnum
  obtain ⟨c, extra, hnum⟩ := hnum
  have hreach := (ho.reaches_lexicon hR.ignorable fs a).tokenInt (Grammar.retains_lexicon _) ofInt
    hnum hskip
  rw [readInt64?_digits hne hds hlt] at hreach
  obtain ⟨t, ht⟩ := hreach.spelled ho hj hoj
  exact ⟨j, t, hj, hoj, .here (Pattern.answers_program_iff.2 ht)⟩

theorem Built.reads_brackets (hR : Readable lexicon number levels)
    (hB : Built lexicon number ofInt levels base fs)
    (h : ReadsLevel levels fs text base 0 ts v) :
    ReadsLevel levels fs text base levels.length (['('] :: ts ++ [[')']]) v := by
  refine Reads.forward hB.get?_arithmetic (Reads.choice hR.ignorable (fun _ => rfl) ?_)
  intro us o a _ ho
  rw [List.append_assoc, List.cons_append] at ho
  have hno : number.Answers fs text o a none := by
    have hnum := hR.integers fs text o _ a ho.rest
    rwa [if_pos (by rw [intercalate_cons]; rfl)] at hnum
  obtain ⟨i, hi, hoi, hskip⟩ := ho.next hR.ignorable fs
  obtain ⟨j, t, hj, hij, hinner⟩ := h _ i a ends_closing hi
  obtain ⟨l, hl, hjl, hskip'⟩ := hj.next hR.ignorable fs
  have hopen : (lexicon.grammar.token (.literal ['('])).Reaches fs text o a i a :=
    (ho.reaches_lexicon hR.ignorable fs a).token (Grammar.retains_lexicon _) (ho.literal fs a) hskip
  have hexpr := hopen.token ((Grammar.retains_lexicon _).token _) hinner (hj.skips hR.ignorable)
  have hclose := hexpr.token (((Grammar.retains_lexicon _).token _).token _) (hj.literal fs _) hskip'
  obtain ⟨t, ht⟩ := hclose.spelled ho hl (by omega)
  refine ⟨l, t, hl, by omega, .later ?_ (.here (Pattern.answers_program_iff.2 ht))⟩
  exact Pattern.answers_program_iff.2 ((ho.reaches_lexicon hR.ignorable fs a).tokenWith_fails
    (Grammar.isOpen_of_lexicon _) hno).answers

/-! ## Chains of operands -/

/-- An operand of a tighter level and steps behind it. -/
inductive Chain (levels : List (Level α)) (fs : Forwards α) (text : Text) (base : Nat)
    (p : Pattern α) (k : Nat) : List Text → α → Prop
  | single {us w} : ReadsLevel levels fs text base (k + 1) us w →
      Chain levels fs text base p k us w
  | snoc {us w us' f} : Chain levels fs text base p k us w →
      Reads levels fs text p (k + 1) us' (Option.map f) → StartsInfix levels k us' →
      Chain levels fs text base p k (us ++ us') (f w)

theorem Chain.exists_steps {p : Pattern α} (h : Chain levels fs text base p k ts v) :
    ∃ (us : List Text) (w : α) (steps : List (List Text × (α → α))),
      ReadsLevel levels fs text base (k + 1) us w ∧
      (∀ s ∈ steps, Reads levels fs text p (k + 1) s.1 (Option.map s.2)) ∧
      (∀ s ∈ steps, StartsInfix levels k s.1) ∧ ts = us ++ steps.flatMap (·.1) ∧
      v = steps.foldl (fun x s => s.2 x) w := by
  induction h with
  | @single us w h =>
    refine ⟨us, w, [], h, fun s hs => ?_, fun s hs => ?_, by simp, rfl⟩ <;> cases hs
  | @snoc _ _ vs f _ hreads hstart ih =>
    obtain ⟨us, w, steps, hus, hsteps, hstarts, rfl, rfl⟩ := ih
    refine ⟨us, w, steps ++ [(vs, f)], hus, fun s hs => ?_, fun s hs => ?_, by simp, by simp⟩
    · rcases List.mem_append.1 hs with hs | hs
      · exact hsteps s hs
      · obtain rfl := List.mem_singleton.1 hs
        exact hreads
    · rcases List.mem_append.1 hs with hs | hs
      · exact hstarts s hs
      · obtain rfl := List.mem_singleton.1 hs
        exact hstart

/-- A level without an upper bound on its steps reads chains. -/
theorem Built.reads_chain (hR : Readable lexicon number levels)
    (hB : Built lexicon number ofInt levels base fs) {l : Level α} (hl : levels[k]? = some l)
    {p : Pattern α}
    (hstep : l.step? lexicon (OperatorTable.arithmetic lexicon number ofInt levels).symbols
      (.forward (base + k)) (.forward (base + (k + 1))) = some (p, none))
    (h : Chain levels fs text base p k ts v) : ReadsLevel levels fs text base k ts v := by
  obtain ⟨us, w, steps, hus, hsteps, hstarts, rfl, rfl⟩ := h.exists_steps
  exact hB.repeated hR hl hstep hus hsteps hstarts (Nat.le_succ k) (.inl (Nat.lt_succ_self k))
    (fun _ h => nomatch h)

/-- A right-associative level reads an operator whose right operand is of the same level. -/
theorem Built.reads_right (hR : Readable lexicon number levels)
    (hB : Built lexicon number ofInt levels base fs) {ops : List (Binary α)}
    (hops : levels[k]? = some (.right ops)) {op : Binary α} (hop : op ∈ ops) {us : List Text} {w : α}
    (hl : ReadsLevel levels fs text base (k + 1) ts v)
    (hr : ReadsLevel levels fs text base k us w) :
    ReadsLevel levels fs text base k (ts ++ op.symbol :: us) (op.apply v w) := by
  have hstep : ∀ s ∈ [(op.symbol :: us, (op.apply · w))], Reads levels fs text
      (lexicon.grammar.choice (ops.map fun op => (OperatorTable.binaryStep lexicon
        (OperatorTable.arithmetic lexicon number ofInt levels).symbols (.forward (base + k))
        op).pattern)).pattern k s.1 (Option.map s.2) := by
    intro s hs
    obtain rfl := List.mem_singleton.1 hs
    exact Reads.binaryChoice hR (List.mem_of_getElem? hops)
      (nodup_of_getElem? hR.symbols.infixes hops) rfl hop hr
  have hstart : ∀ s ∈ [(op.symbol :: us, (op.apply · w))], StartsInfix levels k s.1 := by
    intro s hs
    obtain rfl := List.mem_singleton.1 hs
    exact ⟨_, _, _, rfl, hops, List.mem_map_of_mem hop⟩
  have hreads := hB.repeated hR hops rfl hl hstep hstart (Nat.le_refl k) (.inr (Nat.le_refl 1))
    (fun M hM => by cases hM; exact Nat.le_refl 1)
  rwa [List.flatMap_singleton] at hreads

/-- A level of prefix operators reads one of them and an operand of the same level. -/
theorem Built.reads_prefixed (hR : Readable lexicon number levels)
    (hB : Built lexicon number ofInt levels base fs) {ops : List (Unary α)}
    (hops : levels[k]? = some (.prefixed ops)) {op : Unary α} (hop : op ∈ ops)
    (h : ReadsLevel levels fs text base k ts v) :
    ReadsLevel levels fs text base k (op.symbol :: ts) (op.apply v) := by
  have hmem := List.mem_of_getElem? hops
  have hs : ∀ op ∈ ops, op.symbol ∈ (Level.prefixed ops).symbols := fun op hop =>
    List.mem_map_of_mem hop
  have hstep : Reads levels fs text (OperatorTable.prefixStep lexicon
      (OperatorTable.arithmetic lexicon number ofInt levels).symbols (.forward (base + k))
      op).pattern k (op.symbol :: ts) fun _ => some (op.apply v) :=
    h.prefixStep hR.ignorable hR.symbols rfl hmem (hs op hop)
  exact Reads.forward (hB.get? hops rfl) <| Reads.operators
    (f := fun op => [.consume (.forward (base + k))
      (some ⟨fun c => c.synthesized.map op.apply, none⟩) none true]) hR hmem
    (nodup_of_getElem? hR.symbols.prefixes hops) hs (fun _ => rfl) hop hstep _

/-! ## Every expression is read -/

/-- The expression is read by the parser of its level and by all looser ones. If its level repeats
a step without bound, it is a chain of that step. -/
structure Expr.IsRead (lexicon : Lexicon α) (number : Pattern α) (ofInt : Int64 → α)
    (levels : List (Level α)) (base : Nat) (fs : Forwards α) (text : Text) (e : Expr α) : Prop where
  reads : ∀ i, i ≤ e.level levels.length →
    ReadsLevel levels fs text base i (e.tokens levels.length) (e.eval ofInt)
  chain : ∀ l p, levels[e.level levels.length]? = some l →
    l.step? lexicon (OperatorTable.arithmetic lexicon number ofInt levels).symbols
      (.forward (base + e.level levels.length)) (.forward (base + (e.level levels.length + 1))) =
        some (p, none) →
    Chain levels fs text base p (e.level levels.length) (e.tokens levels.length) (e.eval ofInt)

variable {e : Expr α}

/-- An operand is read by the level of its place. -/
theorem Built.reads_operand (hR : Readable lexicon number levels)
    (hB : Built lexicon number ofInt levels base fs)
    (h : e.IsRead lexicon number ofInt levels base fs text) (hk : k ≤ levels.length) :
    ReadsLevel levels fs text base k (e.operand levels.length k) (e.eval ofInt) := by
  rw [Expr.operand, bracketed]
  split
  · refine hB.descend_le hR hk (Nat.le_refl _) ⟨_, _, rfl, .opening⟩ ?_
    exact hB.reads_brackets hR (h.reads 0 (Nat.zero_le _))
  · rename_i hlt
    exact h.reads k (by simpa using hlt)

/-- The left operand of a level that repeats a step without bound is a chain of that step. -/
theorem Built.chain_operand (hR : Readable lexicon number levels)
    (hB : Built lexicon number ofInt levels base fs)
    (h : e.IsRead lexicon number ofInt levels base fs text) {l : Level α}
    (hl : levels[k]? = some l) {p : Pattern α}
    (hstep : l.step? lexicon (OperatorTable.arithmetic lexicon number ofInt levels).symbols
      (.forward (base + k)) (.forward (base + (k + 1))) = some (p, none)) :
    Chain levels fs text base p k (e.operand levels.length k) (e.eval ofInt) := by
  have hk : k < levels.length := (List.getElem?_eq_some_iff.1 hl).1
  by_cases hlevel : e.level levels.length = k
  · subst hlevel
    rw [Expr.operand, bracketed, if_neg (by simp)]
    exact h.chain l p hl hstep
  · have hsame : e.operand levels.length k = e.operand levels.length (k + 1) := by
      have hiff : e.level levels.length < k ↔ e.level levels.length < k + 1 := by omega
      simp only [Expr.operand, hiff]
    rw [hsame]
    exact .single (hB.reads_operand hR h hk)

/-- From its own level an expression is read by all looser ones. -/
theorem Built.isRead_of_level (hR : Readable lexicon number levels)
    (hB : Built lexicon number ofInt levels base fs) (he : e.Over levels)
    (h : ReadsLevel levels fs text base (e.level levels.length) (e.tokens levels.length)
      (e.eval ofInt)) :
    ∀ i, i ≤ e.level levels.length →
      ReadsLevel levels fs text base i (e.tokens levels.length) (e.eval ofInt) :=
  fun _ hi => hB.descend_le hR hi he.level_le he.isFirst h

/-- Every expression is read. -/
theorem Built.isRead (hR : Readable lexicon number levels)
    (hB : Built lexicon number ofInt levels base fs) (e : Expr α) (he : e.Over levels) :
    e.IsRead lexicon number ofInt levels base fs text := by
  induction e with
  | number ds =>
    refine ⟨hB.isRead_of_level hR he (hB.reads_number hR he.1 he.2.1 he.2.2), fun l p hl => ?_⟩
    rw [Expr.level, List.getElem?_eq_none (Nat.le_refl _)] at hl
    cases hl
  | left k op l r ihl ihr =>
    have he' := he
    obtain ⟨⟨ops, hops, hop⟩, hel, her⟩ := he'
    have hlt : k < levels.length := (List.getElem?_eq_some_iff.1 hops).1
    have hright := hB.reads_operand hR (ihr her) hlt
    have hchain := (hB.chain_operand hR (ihl hel) hops rfl).snoc
      (Reads.binaryChoice hR (List.mem_of_getElem? hops)
        (nodup_of_getElem? hR.symbols.infixes hops) rfl hop hright)
      ⟨_, _, _, rfl, hops, List.mem_map_of_mem hop⟩
    rw [← Expr.tokens_left] at hchain
    refine ⟨hB.isRead_of_level hR he (hB.reads_chain hR hops rfl hchain), fun l' p hl' hp => ?_⟩
    obtain rfl := Option.some.inj (hops.symm.trans hl')
    cases hp
    exact hchain
  | right k op l r ihl ihr =>
    have he' := he
    obtain ⟨⟨ops, hops, hop⟩, hel, her⟩ := he'
    have hlt : k < levels.length := (List.getElem?_eq_some_iff.1 hops).1
    have hreads := hB.reads_right hR hops hop (hB.reads_operand hR (ihl hel) hlt)
      (hB.reads_operand hR (ihr her) (Nat.le_of_lt hlt))
    rw [← Expr.tokens_right] at hreads
    refine ⟨hB.isRead_of_level hR he hreads, fun l' p hl' hp => ?_⟩
    obtain rfl := Option.some.inj (hops.symm.trans hl')
    cases hp
  | prefixed k op e ih =>
    have he' := he
    obtain ⟨⟨ops, hops, hop⟩, hee⟩ := he'
    have hlt : k < levels.length := (List.getElem?_eq_some_iff.1 hops).1
    have hreads := hB.reads_prefixed hR hops hop (hB.reads_operand hR (ih hee) (Nat.le_of_lt hlt))
    refine ⟨hB.isRead_of_level hR he hreads, fun l' p hl' hp => ?_⟩
    obtain rfl := Option.some.inj (hops.symm.trans hl')
    cases hp
  | postfixed k op e ih =>
    have he' := he
    obtain ⟨⟨ops, hops, hop⟩, hee⟩ := he'
    have hchain := (hB.chain_operand hR (ih hee) hops rfl).snoc
      (Reads.postfixChoice hR (List.mem_of_getElem? hops)
        (nodup_of_getElem? hR.symbols.infixes hops) rfl hop)
      ⟨_, _, _, rfl, hops, List.mem_map_of_mem hop⟩
    refine ⟨hB.isRead_of_level hR he (hB.reads_chain hR hops rfl hchain), fun l' p hl' hp => ?_⟩
    obtain rfl := Option.some.inj (hops.symm.trans hl')
    cases hp
    exact hchain

/-! ## The printed text -/

/-- Tokens are not empty and have no spaces. -/
theorem Expr.IsToken.spelled (hR : Readable lexicon number levels) {t : Text}
    (h : Expr.IsToken levels t) : t ≠ [] ∧ ' ' ∉ t := by
  cases h with
  | number hne hds => exact ⟨hne, fun hsp => absurd (hds ' ' hsp) (by decide)⟩
  | opening | closing => exact ⟨List.cons_ne_nil _ _, by decide⟩
  | symbol hl hs =>
    exact ⟨hR.symbols.ne_nil _ hl _ hs, fun hsp => (hR.symbols.chars _ hl _ hs ' ' hsp).1 rfl⟩

theorem Expr.Over.spelled (hR : Readable lexicon number levels) (he : e.Over levels) :
    Spelled (e.print levels.length) 0 (e.tokens levels.length) :=
  ⟨Text.from?_zero _, fun t ht => (he.isToken t ht).spelled hR⟩

theorem Spelled.eq_byteLength {i : Nat} (h : Spelled text i []) : i = text.byteLength := by
  obtain ⟨s, hs, rfl⟩ := Text.from?_eq_some_iff.1 h.rest
  rw [hs]
  simp

/-- The table of operators above integers and brackets is built into cells of its own. -/
theorem OperatorTable.built_arithmetic (hops : ∀ l ∈ levels, l.isPrimary = false)
    (fs : Forwards α) :
    ∃ p fs', (build lexicon (arithmetic lexicon number ofInt levels)).run fs = .ok (p, fs') ∧
      fs'.get? fs.cells.size = some p ∧
      Built lexicon number ofInt levels fs.cells.size fs' := by
  refine build_ok fs ⟨.arithmetic lexicon number ofInt, by simp [arithmetic], rfl⟩
    fun i level hi => ?_
  rcases List.mem_append.1 (List.mem_of_getElem? hi) with hl | hl
  · have hnot := hops level hl
    cases level with
    | primary body => cases hnot
    | left ops | right ops | prefixed ops | postfixed ops => exact ⟨_, rfl⟩
  · obtain rfl := List.mem_singleton.1 hl
    exact ⟨_, rfl⟩

namespace OperatorTable

/-- The parser of a table consumes every printed expression to its end and synthesizes its value,
whatever attribute it inherits. -/
theorem parse_print (hR : Readable lexicon number levels) (ofInt : Int64 → α) (fs : Forwards α) :
    ∃ p fs', (build lexicon (arithmetic lexicon number ofInt levels)).run fs = .ok (p, fs') ∧
      ∀ e : Expr α, e.Over levels → ∀ inherited,
        Trial.Settles (fun fuel => p.parse ⟨fs', fuel⟩ (e.print levels.length) inherited)
          (some (some ⟨e.print levels.length, (e.print levels.length).byteLength,
            some (e.eval ofInt), none⟩)) := by
  obtain ⟨p, fs', hrun, hp, hB⟩ := built_arithmetic hR.operators fs
  refine ⟨p, fs', hrun, fun e he inherited => ?_⟩
  have hspelled := he.spelled hR
  rw [← List.append_nil (e.tokens _)] at hspelled
  obtain ⟨j, t, hj, -, hanswer⟩ := (hB.isRead hR e he).reads 0 (Nat.zero_le _) [] 0 inherited
    ends_nil hspelled
  obtain rfl := hj.eq_byteLength
  have hprogram := (Pattern.answers_forward_iff hp).1 hanswer
  have ht : t = e.print levels.length := by
    have hwhole := Text.slice?_append [] (e.print levels.length) []
    simp only [List.nil_append, List.append_nil, Text.byteLength_nil, Nat.zero_add] at hwhole
    exact Option.some.inj (hprogram.slice?.symm.trans hwhole)
  subst ht
  have hparse := Program.parse_settles hprogram
  rwa [Option.map_some, Option.filter_some, if_pos (decide_eq_true rfl)] at hparse

/-- Differences, products, signs and powers; `-` is used in two ways and `*` begins `**`. -/
def powers : List (Level Int) :=
  [.left [⟨['+'], (· + ·)⟩, ⟨['-'], (· - ·)⟩], .left [⟨['*'], (· * ·)⟩], .prefixed [⟨['-'], (- ·)⟩],
    .right [⟨['*', '*'], fun a b => a ^ b.toNat⟩], .postfixed [⟨['!'], (· + 1)⟩]]

/-- Spaces are ignorable. -/
def spaced : Lexicon Int := { ignore := some .spaces }

theorem readable_powers : Readable spaced .digits powers where
  operators := by simp [powers, Level.isPrimary]
  symbols := ⟨by decide, by simp [powers, Level.symbols], by decide, by decide⟩
  ignorable := skipsSpaces_run _ (Nat.zero_le 1)
  integers := matchesDigits_run _

/-- Of differences the left one comes first, of powers the right one. -/
theorem parse_print_powers :
    ∃ p fs', (build spaced (arithmetic spaced .digits Int64.toInt powers)).run .empty =
        .ok (p, fs') ∧
      Trial.Settles (fun fuel => p.parse ⟨fs', fuel⟩ "9 - - 2 ** 3 ** 2 - ( 3 - 1 )".toList none)
        (some (some ⟨"9 - - 2 ** 3 ** 2 - ( 3 - 1 )".toList, 29, some 519, none⟩)) := by
  let minus : Binary Int := ⟨['-'], (· - ·)⟩
  let power : Binary Int := ⟨['*', '*'], fun a b => a ^ b.toNat⟩
  let e : Expr Int := .left 0 minus
    (.left 0 minus (.number ['9'])
      (.prefixed 2 ⟨['-'], (- ·)⟩
        (.right 3 power (.number ['2']) (.right 3 power (.number ['3']) (.number ['2'])))))
    (.left 0 minus (.number ['3']) (.number ['1']))
  have hdigit (d : Char) (h : d.isDigit) (hlt : Decimal.ofDigits [d] < 2 ^ 63) :
      (Expr.number [d]).Over powers :=
    ⟨List.cons_ne_nil _ _, fun c hc => List.mem_singleton.1 hc ▸ h, hlt⟩
  have hminus : ∃ ops, powers[0]? = some (.left ops) ∧ minus ∈ ops :=
    ⟨_, rfl, .tail _ (.head _)⟩
  have hpower : ∃ ops, powers[3]? = some (.right ops) ∧ power ∈ ops := ⟨_, rfl, .head _⟩
  have he : e.Over powers :=
    ⟨hminus,
      ⟨hminus, hdigit '9' rfl (by decide), ⟨_, rfl, .head _⟩,
        hpower, hdigit '2' rfl (by decide), hpower, hdigit '3' rfl (by decide),
        hdigit '2' rfl (by decide)⟩,
      hminus, hdigit '3' rfl (by decide), hdigit '1' rfl (by decide)⟩
  obtain ⟨p, fs', hrun, hparse⟩ := parse_print readable_powers Int64.toInt .empty
  have hprint : e.print powers.length = "9 - - 2 ** 3 ** 2 - ( 3 - 1 )".toList := by decide
  have heval : e.eval Int64.toInt = 519 := by decide
  have h := hparse e he none
  rw [hprint, heval] at h
  exact ⟨p, fs', hrun, h⟩

end OperatorTable

end GrammarMachine
