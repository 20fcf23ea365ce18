import GrammarMachine.Proofs.Keywords.Paths
import GrammarMachine.Proofs.Nesting.Resting
import GrammarMachine.Proofs.Operators.Operands

/-!
# Which operator is taken

The symbols of a table share one keyword set, and an operator is taken where the walk through that
set spells its symbol. The set does not mark where symbols end. So the walk may go on behind the
longest symbol that stands at a place, along the beginning of a longer one, and then no operator is
taken there.

* `OperatorTable.LongestSymbol`, `OperatorTable.PathEnds`: the longest symbol that a text begins
  with, and that the text does not go on as a longer one.
* `Level.operators`, `Level.step`, `Level.program`: the operators of a level, the pattern that takes
  one of them, and the program of the level.
* `OperatorTable.step_takes_longest`: the step of a level takes the longest symbol and its operand,
  if the path ends there, and no operator otherwise.
-/

namespace GrammarMachine

variable {α : Type}

/-! ## The longest symbol -/

namespace OperatorTable

/-- The longest symbol of the table that the text begins with. -/
structure LongestSymbol (t : OperatorTable α) (rest w : Text) : Prop where
  mem : w ∈ t.flatMap Level.symbols
  starts : w <+: rest
  longest : ∀ s ∈ t.flatMap Level.symbols, s <+: rest → s.length ≤ w.length

/-- No longer beginning of the text is the beginning of a symbol of the table. -/
def PathEnds (t : OperatorTable α) (rest w : Text) : Prop :=
  ∀ v, v <+: rest → (∃ s ∈ t.flatMap Level.symbols, v <+: s) → v.length ≤ w.length

variable {t : OperatorTable α} {rest w : Text}

theorem LongestSymbol.prefix_walk (h : t.LongestSymbol rest w) : w <+: t.symbols.walk rest :=
  Keywords.prefix_walk_iff.2
    ⟨h.starts, Keywords.hasPath_ofList.2 (.inl ⟨w, h.mem, List.prefix_rfl⟩)⟩

/-- The walk spells the longest symbol exactly where the path ends with it. -/
theorem LongestSymbol.pathEnds_iff (h : t.LongestSymbol rest w) :
    t.PathEnds rest w ↔ t.symbols.walk rest = w := by
  constructor
  · intro hends
    obtain ⟨hstarts, hpath⟩ := Keywords.prefix_walk_iff.1 (List.prefix_rfl (l := t.symbols.walk rest))
    refine (h.prefix_walk.eq_of_length_le ?_).symm
    rcases Keywords.hasPath_ofList.1 hpath with hsymbol | hnil
    · exact hends _ hstarts hsymbol
    · rw [hnil]
      exact Nat.zero_le _
  · rintro hwalk v hv hsymbol
    have hpath : v <+: t.symbols.walk rest :=
      Keywords.prefix_walk_iff.2 ⟨hv, Keywords.hasPath_ofList.2 (.inl hsymbol)⟩
    rw [hwalk] at hpath
    exact hpath.length_le

/-- Where the path goes on, the walk spells no symbol: it would be a longer one. -/
theorem LongestSymbol.walk_notMem (h : t.LongestSymbol rest w) (hends : ¬ t.PathEnds rest w) :
    t.symbols.walk rest ∉ t.flatMap Level.symbols := by
  intro hmem
  have hlen := h.longest _ hmem (Keywords.walk_prefix rest t.symbols)
  exact hends (h.pathEnds_iff.2 (h.prefix_walk.eq_of_length_le hlen).symm)

end OperatorTable

/-! ## The operators of a level -/

namespace Level

/-- The operators of a level, each with its symbol and the instruction behind it. `this` and `next`
are the cells of the level itself and of the one below it. -/
def operators (this next : Nat) : Level α → List (Text × Instr (Pattern α) α)
  | left ops => ops.map fun op => (op.symbol, .consume (.forward next) (some op.action) none true)
  | right ops => ops.map fun op => (op.symbol, .consume (.forward this) (some op.action) none true)
  | prefixed ops => ops.map fun op => (op.symbol, .consume (.forward this) (some op.action) none true)
  | postfixed ops => ops.map fun op => (op.symbol, .transform ⟨fun v => v.map op.apply, none⟩)
  | primary _ => []

/-- The cell of the operand behind an operator, if the operators of the level have one there. -/
def operand? (this next : Nat) : Level α → Option Nat
  | left _ => some next
  | right _ | prefixed _ => some this
  | postfixed _ | primary _ => none

/-- An operator as a grammar. -/
def operatorStep (lexicon : Lexicon α) (symbols : Keywords) (op : Text × Instr (Pattern α) α) :
    Grammar α :=
  (lexicon.grammar.keywordIn op.1 symbols).append [op.2]

/-- The patterns of the operators of a level, in order. -/
def branches (lexicon : Lexicon α) (symbols : Keywords) (this next : Nat) (level : Level α) :
    List (Pattern α) :=
  (level.operators this next).map fun op => (operatorStep lexicon symbols op).pattern

/-- What a level tries where none of its operators matches: below a prefix level, an operand. -/
def fallback (next : Nat) : Level α → List (Pattern α)
  | prefixed _ => [.forward next]
  | _ => []

/-- The step of a level, which takes one of its operators. -/
def step (lexicon : Lexicon α) (symbols : Keywords) (this next : Nat) (level : Level α) :
    Grammar α :=
  lexicon.grammar.choice (level.branches lexicon symbols this next ++ level.fallback next)

/-- The program of a level of operators. A prefix level is its step; the others repeat theirs behind
an operand. -/
def program (lexicon : Lexicon α) (symbols : Keywords) (this next : Nat) : Level α → Program α
  | prefixed ops => ((prefixed ops).step lexicon symbols this next).program
  | right ops => ((lexicon.grammar.token (.forward next)).repeated 0 (some 1)
      ((right ops).step lexicon symbols this next).pattern).program
  | level => ((lexicon.grammar.token (.forward next)).repeated 0 none
      (level.step lexicon symbols this next).pattern).program

variable {lexicon : Lexicon α} {symbols : Keywords} {this next : Nat} {level : Level α}
  {op : Text × Instr (Pattern α) α}

theorem map_fst_operators (this next : Nat) (level : Level α) :
    (level.operators this next).map (·.1) = level.symbols := by
  cases level <;> simp [operators, Level.symbols]

/-- An operator consumes its operand, if it has one, and changes the attribute otherwise. -/
theorem snd_of_mem_operators (h : op ∈ level.operators this next) :
    (∃ cell action, level.operand? this next = some cell ∧
      op.2 = .consume (.forward cell) (some action) none true) ∨
    (level.operand? this next = none ∧ ∃ f, op.2 = .transform f) := by
  cases level with
  | left ops | right ops | prefixed ops =>
    obtain ⟨_, -, rfl⟩ := List.mem_map.1 h
    exact .inl ⟨_, _, rfl, rfl⟩
  | postfixed ops =>
    obtain ⟨_, -, rfl⟩ := List.mem_map.1 h
    exact .inr ⟨rfl, _, rfl⟩
  | primary body => cases h

theorem yields_program (h : level.isPrimary = false) (cells : List Nat) :
    level.Yields lexicon symbols cells this next (level.program lexicon symbols this next) := by
  cases level with
  | primary body => cases h
  | left ops | right ops | prefixed ops | postfixed ops =>
    simp only [program, step, branches, operators, fallback, List.append_nil, List.map_map]
    rfl

end Level

/-! ## Where a step stands -/

namespace Lexicon

/-- Ignorable text is skipped wherever that is tried, to a place that is not before. -/
def SkipsAhead (fs : Forwards α) (text : Text) (l : Lexicon α) : Prop :=
  ∀ i a, ∃ j, Skips (Pattern.Answers fs text) l.ignore i a j ∧ text.Ahead i j

/-- Ignorable text is skipped twice. -/
def SkipsTwice (fs : Forwards α) (text : Text) (l : Lexicon α) (i : Nat) (a b : Option α)
    (j : Nat) : Prop :=
  ∃ k, Skips (Pattern.Answers fs text) l.ignore i a k ∧ Skips (Pattern.Answers fs text) l.ignore k b j

/-- A step that is tested at `i` and inherits `a` tries its operators at `k`, and they look for their
symbols at `o`, where the text goes on with `rest`. Both skip ignorable text first. -/
structure Faces (fs : Forwards α) (text : Text) (l : Lexicon α) (i : Nat) (a : Option α) (k o : Nat)
    (rest : Text) : Prop where
  isBoundary : text.isBoundary i
  step : Skips (Pattern.Answers fs text) l.ignore i a k
  operator : Skips (Pattern.Answers fs text) l.ignore k a o
  from? : text.from? o = some rest

/-- Where the operand ends that is behind a symbol and ignorable text, if there is to be one. -/
inductive OperandEnds (fs : Forwards α) (text : Text) (l : Lexicon α) (a : Option α) :
    Option Nat → Nat → Nat → Prop
  | absent {o} : OperandEnds fs text l a none o o
  | behind {cell o j m} : Skips (Pattern.Answers fs text) l.ignore o a j →
      (Pattern.forward cell).Answers fs text j a (some m) →
      OperandEnds fs text l a (some cell) o m.lastIndex

end Lexicon

section

variable {fs : Forwards α} {text : Text} {lexicon : Lexicon α} {symbols : Keywords} {i o e : Nat}
  {a : Option α} {rest : Text} {op : Text × Instr (Pattern α) α} {level : Level α}
  {this next : Nat}

theorem Lexicon.SkipsAhead.ahead (h : lexicon.SkipsAhead fs text) {j : Nat}
    (hj : Skips (Pattern.Answers fs text) lexicon.ignore i a j) : text.Ahead i j := by
  obtain ⟨j', hj', hahead⟩ := h i a
  rwa [hj.unique Pattern.answers_unique hj']

theorem Lexicon.OperandEnds.ahead (h : lexicon.SkipsAhead fs text) {operand : Option Nat}
    (he : lexicon.OperandEnds fs text a operand o e) : text.Ahead o e := by
  cases he with
  | absent => exact .rfl
  | behind hj hm => exact (h.ahead hj).trans (hm.ahead (p := .forward _) trivial)

/-- The operand of the symbol that the walk spells ends ahead of it. -/
theorem Lexicon.OperandEnds.ahead_walk (h : lexicon.SkipsAhead fs text) {operand : Option Nat}
    (hrest : text.from? o = some rest)
    (he : lexicon.OperandEnds fs text a operand (o + Text.byteLength (symbols.walk rest)) e) :
    text.Ahead o e := by
  have hsearch : symbols.search text o =
      some ⟨symbols.walk rest, o + Text.byteLength (symbols.walk rest)⟩ := by
    rw [Keywords.search_eq, hrest]
    rfl
  exact (Keywords.search_ahead hsearch).trans (he.ahead h)

/-- A grammar that comes to its end ahead of its start matches. -/
theorem Grammar.Reaches.exists_answers {g : Grammar α} {b : Option α} {j : Nat}
    (h : g.Reaches fs text i a j b) (hi : text.isBoundary i) (hj : text.Ahead i j) :
    ∃ m, g.pattern.Answers fs text i a (some m) ∧ m.lastIndex = j ∧ m.attr = b := by
  obtain ⟨hb, hle⟩ := hj hi
  obtain ⟨t, ht⟩ := Text.exists_slice? hi hb hle
  exact ⟨_, Pattern.answers_program_iff.2 (h.answers ht), rfl, rfl⟩

/-! ## One operator -/

/-- An operator does not match where the walk does not spell its symbol. -/
theorem operatorStep_fails (ho : Skips (Pattern.Answers fs text) lexicon.ignore i a o)
    (hrest : text.from? o = some rest) (hwalk : symbols.walk rest ≠ op.1) :
    (Level.operatorStep lexicon symbols op).pattern.Answers fs text i a none := by
  have hfails : (lexicon.grammar.keywordIn op.1 symbols).Fails fs text i a := by
    refine (Grammar.reaches_lexicon lexicon ho).keywordIn_fails (Grammar.isOpen_of_lexicon _) ?_
    intro found hfound
    simp only [Keywords.search_eq, hrest, Option.map_some, Option.some.injEq] at hfound
    rwa [← hfound]
  exact Pattern.answers_program_iff.2
    (hfails.append ((Grammar.retains_lexicon _).keywordIn _ _).isOpen _).answers

/-- Where the walk spells the symbol of an operator, the operator matches up to the end of its
operand. -/
theorem operatorStep_answers (hahead : lexicon.SkipsAhead fs text) (hi : text.isBoundary i)
    (hop : op ∈ level.operators this next)
    (ho : Skips (Pattern.Answers fs text) lexicon.ignore i a o) (hrest : text.from? o = some rest)
    (hwalk : symbols.walk rest = op.1)
    (he : lexicon.OperandEnds fs text a (level.operand? this next) (o + Text.byteLength op.1) e) :
    ∃ m b, (Level.operatorStep lexicon symbols op).pattern.Answers fs text i a (some m) ∧
      Skips (Pattern.Answers fs text) lexicon.ignore e b m.lastIndex := by
  have hretains : (lexicon.grammar.keywordIn op.1 symbols).Retains :=
    (Grammar.retains_lexicon _).keywordIn _ _
  have hsearch : symbols.search text o = some ⟨op.1, o + Text.byteLength op.1⟩ := by
    simp [Keywords.search_eq, hrest, hwalk]
  have hsymbol {j : Nat} (hj : Skips (Pattern.Answers fs text) lexicon.ignore
      (o + Text.byteLength op.1) a j) :
      (lexicon.grammar.keywordIn op.1 symbols).Reaches fs text i a j a :=
    (Grammar.reaches_lexicon lexicon ho).next (Grammar.isOpen_of_lexicon _)
      (.keyword (Grammar.append_instr _) hsearch rfl hj)
  have hto : text.Ahead i e := (hahead.ahead ho).trans ((hwalk ▸ he).ahead_walk hahead hrest)
  rcases Level.snd_of_mem_operators hop with ⟨cell, action, hcell, hinstr⟩ | ⟨hnone, f, hinstr⟩
  · rw [hcell] at he
    cases he with
    | @behind _ _ j m hj hm =>
      obtain ⟨j', hj', hjj'⟩ := hahead m.lastIndex
        (((lexicon.grammar.keywordIn op.1 symbols).endFrame i j a).matchAttr (some action) m)
      have hreach := (Grammar.reaches_consume_iff hretains.isOpen).2
        ⟨j, a, m, hsymbol hj, hm, rfl, hj'⟩
      rw [← hinstr] at hreach
      obtain ⟨m', hm', rfl, -⟩ := hreach.exists_answers hi (hto.trans hjj')
      exact ⟨m', _, hm', hj'⟩
  · rw [hnone] at he
    cases he with
    | absent =>
      obtain ⟨j, hj, hij⟩ := hahead (o + Text.byteLength op.1) a
      have hreach := (hsymbol hj).transform hretains f
      obtain ⟨m', hm', rfl, -⟩ :=
        (show (Level.operatorStep lexicon symbols op).Reaches fs text i a j _ by
          rw [Level.operatorStep, hinstr]; exact hreach).exists_answers hi (hto.trans hij)
      exact ⟨m', a, hm', hj⟩

/-! ## The step of a level -/

/-- Of patterns that all match in a certain way or not at all, the first one matches in that way, if
there is one that matches. -/
theorem FirstMatch.exists_of_forall {V : Verdicts (Pattern α) α} (hV : V.Unique)
    {ps : List (Pattern α)} {Q : Match α → Prop}
    (h : ∀ p ∈ ps, V p i a none ∨ ∃ m, V p i a (some m) ∧ Q m)
    (hp : ∃ p ∈ ps, ∃ m, V p i a (some m)) (qs : List (Pattern α)) :
    ∃ m, FirstMatch V i a (ps ++ qs) (some m) ∧ Q m := by
  induction ps with
  | nil =>
    obtain ⟨p, hp, -⟩ := hp
    cases hp
  | cons p ps ih =>
    obtain ⟨hhead, htail⟩ := List.forall_mem_cons.1 h
    rcases hhead with hno | ⟨m, hm, hQ⟩
    · obtain ⟨p', hp', m', hm'⟩ := hp
      rcases List.mem_cons.1 hp' with rfl | hp'
      · cases hV _ _ _ _ _ hno hm'
      · obtain ⟨m, hm, hQ⟩ := ih htail ⟨p', hp', m', hm'⟩
        exact ⟨m, .later hno hm, hQ⟩
    · exact ⟨m, .here hm, hQ⟩

/-- Where the walk spells a symbol of the level, its step takes an operator with that symbol. -/
theorem step_answers {k : Nat} (hahead : lexicon.SkipsAhead fs text)
    (hfaces : lexicon.Faces fs text i a k o rest) (hwalk : symbols.walk rest ∈ level.symbols)
    (he : lexicon.OperandEnds fs text a (level.operand? this next)
      (o + Text.byteLength (symbols.walk rest)) e) :
    ∃ m b c, (level.step lexicon symbols this next).pattern.Answers fs text i a (some m) ∧
      lexicon.SkipsTwice fs text e b c m.lastIndex := by
  have hik := hahead.ahead hfaces.step
  have hbranch (op : Text × Instr (Pattern α) α) (hop : op ∈ level.operators this next)
      (hsymbol : symbols.walk rest = op.1) :=
    operatorStep_answers hahead (hik hfaces.isBoundary).1 hop hfaces.operator hfaces.from? hsymbol
      (hsymbol ▸ he)
  have hbranches : ∀ p ∈ level.branches lexicon symbols this next,
      p.Answers fs text k a none ∨ ∃ m, p.Answers fs text k a (some m) ∧
        ∃ b, Skips (Pattern.Answers fs text) lexicon.ignore e b m.lastIndex := by
    intro p hp
    obtain ⟨op, hop, rfl⟩ := List.mem_map.1 hp
    by_cases hsymbol : symbols.walk rest = op.1
    · obtain ⟨m, b, hm, hb⟩ := hbranch op hop hsymbol
      exact .inr ⟨m, hm, b, hb⟩
    · exact .inl (operatorStep_fails hfaces.operator hfaces.from? hsymbol)
  have hmatches : ∃ p ∈ level.branches lexicon symbols this next, ∃ m,
      p.Answers fs text k a (some m) := by
    rw [← Level.map_fst_operators this next] at hwalk
    obtain ⟨op, hop, hsymbol⟩ := List.mem_map.1 hwalk
    obtain ⟨m, -, hm, -⟩ := hbranch op hop hsymbol.symm
    exact ⟨_, List.mem_map_of_mem hop, m, hm⟩
  obtain ⟨m, hfirst, b, hb⟩ := FirstMatch.exists_of_forall Pattern.answers_unique hbranches hmatches
    (level.fallback next)
  obtain ⟨j, hj, hmj⟩ := hahead m.lastIndex
    ((lexicon.grammar.endFrame i k a).keep (merge a m.attr))
  have hreach : (level.step lexicon symbols this next).Reaches fs text i a j _ :=
    (Grammar.reaches_lexicon lexicon hfaces.step).next (Grammar.isOpen_of_lexicon _)
      (.choice (Grammar.append_instr _) hfirst hj)
  have hij : text.Ahead i j :=
    (((hik.trans (hahead.ahead hfaces.operator)).trans (he.ahead_walk hahead hfaces.from?)).trans
      (hahead.ahead hb)).trans hmj
  obtain ⟨m', hm', rfl, -⟩ := hreach.exists_answers hfaces.isBoundary hij
  exact ⟨m', b, _, hm', _, hb, hj⟩

end

namespace OperatorTable

/-- Sums and negations of integers, with a symbol that begins with those of both. -/
def stacked : OperatorTable Int :=
  [.left [plus, ⟨"+-+".toList, (· - ·)⟩], .prefixed [⟨['-'], (- ·)⟩],
    .primary fun _ => return (Lexicon.empty.grammar.tokenInt .digits Int64.toInt).program]

/-- The level of sums. -/
def stackedSums : Level Int := .left [plus, ⟨"+-+".toList, (· - ·)⟩]

/-- The cells of the levels. -/
def stackedForwards : Forwards Int :=
  ⟨#[some (stackedSums.program .empty stacked.symbols 0 1),
    some ((Level.prefixed [⟨['-'], (- ·)⟩]).program .empty stacked.symbols 1 2),
    some integersProgram]⟩

theorem build_stacked : (build .empty stacked).run .empty =
    .ok (stackedSums.program .empty stacked.symbols 0 1, stackedForwards) := rfl

/-- The text goes on behind the longest symbol as a longer one begins. So the symbol is not taken,
although it is one of the level and its operand is there, and the text does not parse. -/
theorem step_passes_over_symbol :
    (build .empty stacked).run .empty =
      .ok (stackedSums.program .empty stacked.symbols 0 1, stackedForwards) ∧
    stacked[0]? = some stackedSums ∧
    Lexicon.empty.Faces stackedForwards "1+-2".toList 1 (some 1) 1 1 "+-2".toList ∧
    stacked.LongestSymbol "+-2".toList ['+'] ∧ ['+'] ∈ stackedSums.symbols ∧
    Lexicon.empty.OperandEnds stackedForwards "1+-2".toList (some 1) (stackedSums.operand? 0 1) 2 4 ∧
    (stackedSums.step .empty stacked.symbols 0 1).pattern.Answers stackedForwards "1+-2".toList 1
      (some 1) none ∧
    Trial.Settles (fun fuel => (stackedSums.program .empty stacked.symbols 0 1).parse
      ⟨stackedForwards, fuel⟩ "1+-2".toList none) (some none) := by
  have hoperand : (Pattern.forward 1).Answers stackedForwards "1+-2".toList 2 (some 1)
      (some ⟨"-2".toList, 4, some (-2), []⟩) := Pattern.answers_of_outcome? 16 (by decide +kernel)
  have hstep : (stackedSums.step .empty stacked.symbols 0 1).pattern.Answers stackedForwards
      "1+-2".toList 1 (some 1) none := Pattern.answers_of_outcome? 16 (by decide +kernel)
  have hsum : (stackedSums.program .empty stacked.symbols 0 1).Answers stackedForwards "1+-2".toList
      0 none (some ⟨['1'], 1, some 1, []⟩) :=
    Pattern.answers_program_iff.1 (Pattern.answers_of_outcome? 24 (by decide +kernel))
  have hparse := Program.parse_settles hsum
  rw [Option.map_some, Option.filter_some, if_neg (by decide)] at hparse
  exact ⟨build_stacked, rfl, ⟨by decide, .nothing, .nothing, by decide⟩,
    ⟨by decide, by decide, by decide⟩, by decide, .behind .nothing hoperand, hstep, hparse⟩

/-- Let a table be built, and let ignorable text be skipped ahead wherever that is tried. Wherever the
step of a level of operators is tested, it matches the longest symbol of the table that is there and
the operand behind it, and ends with the ignorable text behind them, if that symbol is one of the
level, its operand matches, and the path of the symbols does not go on in the text. If the path does
go on, no operator of the level matches. -/
theorem step_takes_longest {lexicon : Lexicon α} {t : OperatorTable α} {fs fs' later : Forwards α}
    {p : Program α} (hbuild : (build lexicon t).run fs = .ok (p, fs'))
    (hgrows : ∀ body, .primary body ∈ t → (body (t.cells fs.cells.size)).Grows)
    (hlater : fs'.Extends later) {n : Nat} {level : Level α} (hn : t[n]? = some level)
    (hl : level.isPrimary = false) {text : Text} (hahead : lexicon.SkipsAhead later text) :
    later.get? (fs.cells.size + n) =
      some (level.program lexicon t.symbols (fs.cells.size + n) (fs.cells.size + (n + 1))) ∧
    ∀ i a k o rest w, lexicon.Faces later text i a k o rest → t.LongestSymbol rest w →
      (w ∈ level.symbols → t.PathEnds rest w → ∀ e, lexicon.OperandEnds later text a
          (level.operand? (fs.cells.size + n) (fs.cells.size + (n + 1))) (o + w.byteLength) e →
        ∃ m b c, (level.step lexicon t.symbols (fs.cells.size + n)
            (fs.cells.size + (n + 1))).pattern.Answers later text i a (some m) ∧
          lexicon.SkipsTwice later text e b c m.lastIndex) ∧
      (¬ t.PathEnds rest w → ∀ q ∈ level.branches lexicon t.symbols (fs.cells.size + n)
        (fs.cells.size + (n + 1)), q.Answers later text k a none) := by
  refine ⟨hlater.holds _ _ (get?_of_build_ok hbuild hgrows hn hl (Level.yields_program hl _)), ?_⟩
  intro i a k o rest w hfaces hw
  refine ⟨fun hmem hends e he => ?_, fun hends q hq => ?_⟩
  · obtain rfl := hw.pathEnds_iff.1 hends
    exact step_answers hahead hfaces hmem he
  · obtain ⟨op, hop, rfl⟩ := List.mem_map.1 hq
    refine operatorStep_fails hfaces.operator hfaces.from? fun hwalk => hw.walk_notMem hends ?_
    rw [hwalk]
    refine List.mem_flatMap.2 ⟨level, List.mem_of_getElem? hn, ?_⟩
    rw [← Level.map_fst_operators (fs.cells.size + n) (fs.cells.size + (n + 1))]
    exact List.mem_map_of_mem hop

/-- The longer symbol is taken as a whole. -/
theorem step_takes_longest_stacked :
    ∃ m, (stackedSums.step .empty stacked.symbols 0 1).pattern.Answers stackedForwards
      "1+-+2".toList 1 (some 1) (some m) ∧ m.lastIndex = 5 := by
  have hgrows : ∀ body, .primary body ∈ stacked → (body (stacked.cells 0)).Grows := by
    intro body hbody
    obtain rfl : body = fun _ => pure integersProgram := by
      simpa [stacked, integersProgram, Grammar.empty] using hbody
    exact Build.grows_pure _
  have hoperand : (Pattern.forward 1).Answers stackedForwards "1+-+2".toList 4 (some 1)
      (some ⟨['2'], 5, some 2, []⟩) := Pattern.answers_of_outcome? 16 (by decide +kernel)
  have hlongest : stacked.LongestSymbol "+-+2".toList "+-+".toList :=
    ⟨by decide, by decide, by decide⟩
  have hahead : Lexicon.empty.SkipsAhead stackedForwards "1+-+2".toList :=
    fun i _ => ⟨i, .nothing, .rfl⟩
  obtain ⟨-, hstep⟩ := step_takes_longest build_stacked hgrows (.refl _) (n := 0) rfl rfl hahead
  obtain ⟨m, _, _, hm, _, hj, hk⟩ := (hstep 1 (some 1) 1 1 "+-+2".toList "+-+".toList
    ⟨by decide, .nothing, .nothing, by decide⟩ hlongest).1 (by decide)
    (hlongest.pathEnds_iff.2 (by decide)) 5 (.behind .nothing hoperand)
  cases hj
  exact ⟨m, hm, hk.unique Pattern.answers_unique .nothing⟩

end OperatorTable

end GrammarMachine
