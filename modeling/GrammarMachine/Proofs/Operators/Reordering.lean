import GrammarMachine.Proofs.Keywords.Search
import GrammarMachine.Proofs.Operators.Longest
import GrammarMachine.Proofs.Semantics.Equivalence

/-!
# The order of operators

The operators of a level are tried in the order in which they are listed. That order does not show:
all of them look for their symbols at one place, the keyword set spells one text there, and at most
one of the symbols is that text. So at most one operator gets past its symbol, be it that its
operand is missing then, and all others fail.

* `FirstMatch.perm`: patterns of which at most one matches can be tried in any order.
* `Level.Reordered`, `OperatorTable.Reordered`: operators of a level are listed in another order;
  their symbols are pairwise distinct.
* `Level.Reordered.program_equivalent`: the programs of such levels are equivalent.
* `OperatorTable.build_reordered`: the parsers built from such tables come to the same.
-/

namespace GrammarMachine

variable {α : Type}

/-! ## Patterns that exclude each other -/

/-- Where one of the patterns matches, the other does not. -/
def Verdicts.Excludes {π : Type} (V : Verdicts π α) (i : Nat) (a : Option α) (p q : π) : Prop :=
  ∀ m, (V p i a (some m) → V q i a none) ∧ (V q i a (some m) → V p i a none)

section

variable {π : Type} {V : Verdicts π α} {i : Nat} {a : Option α} {r : Option (Match α)}

theorem FirstMatch.swap {p q : π} {ps : List π} (hpq : V.Excludes i a p q)
    (h : FirstMatch V i a (p :: q :: ps) r) : FirstMatch V i a (q :: p :: ps) r := by
  cases h with
  | here hp => exact .later ((hpq _).1 hp) (.here hp)
  | later hp h =>
    cases h with
    | here hq => exact .here hq
    | later hq h => exact .later hq (.later hp h)

theorem FirstMatch.cons_congr {p : π} {ps qs : List π}
    (hpq : ∀ r, FirstMatch V i a ps r → FirstMatch V i a qs r)
    (h : FirstMatch V i a (p :: ps) r) : FirstMatch V i a (p :: qs) r := by
  cases h with
  | here hp => exact .here hp
  | later hp h => exact .later hp (hpq _ h)

/-- Patterns that exclude each other can be tried in any order. -/
theorem FirstMatch.perm {ps qs : List π} (hperm : ps.Perm qs)
    (hps : ps.Pairwise (V.Excludes i a)) (rest : List π)
    (h : FirstMatch V i a (ps ++ rest) r) : FirstMatch V i a (qs ++ rest) r := by
  induction hperm generalizing r with
  | nil => exact h
  | cons p _ ih => exact h.cons_congr fun r => ih (List.pairwise_cons.1 hps).2
  | swap p q ps =>
    refine h.swap ?_
    exact (List.pairwise_cons.1 hps).1 p List.mem_cons_self
  | trans hperm _ ih ih' =>
    have hsymm {p q : π} (hpq : V.Excludes i a p q) : V.Excludes i a q p :=
      fun m => (hpq m).symm
    exact ih' ((hperm.pairwise_iff hsymm).1 hps) (ih hps h)

end

theorem FirstMatch.of_forall₂ {π : Type} {V : Verdicts π α} {i : Nat} {a : Option α}
    {r : Option (Match α)} {ps qs : List π}
    (hpq : List.Forall₂ (fun p q => ∀ r, V p i a r → V q i a r) ps qs)
    (h : FirstMatch V i a ps r) : FirstMatch V i a qs r := by
  induction hpq with
  | nil => exact h
  | cons hp _ ih =>
    cases h with
    | here h => exact .here (hp _ h)
    | later h htail => exact .later (hp _ h) (ih htail)

/-! ## Operators with other symbols -/

section

variable {fs : Forwards α} {text : Text} {lexicon : Lexicon α} {symbols symbols' : Keywords}
  {i : Nat} {a : Option α} {op op' : Text × Instr (Pattern α) α}

/-- An operator is the same among symbols that are searched alike. -/
theorem operatorStep_equivalent (h : symbols.search = symbols'.search) :
    (Level.operatorStep lexicon symbols op).program.Equivalent
      (Level.operatorStep lexicon symbols' op).program := by
  have hrefines (fs : Forwards α) (text : Text) {symbols symbols' : Keywords}
      (h : symbols.search = symbols'.search) :
      List.Forall₂ (Instr.Refines (Pattern.Answers fs text))
        (Level.operatorStep lexicon symbols op).program.instrs
        (Level.operatorStep lexicon symbols' op).program.instrs :=
    List.rel_append (List.rel_append (List.forall₂_same.2 fun x _ => .same x)
      (.cons (.keyword op.1 h) .nil)) (.cons (.same op.2) .nil)
  exact Program.equivalent_of_refines rfl rfl (fun fs text => hrefines fs text h)
    fun fs text => hrefines fs text h.symm

/-- An operator that matches has come past its symbol. -/
theorem reaches_symbol_of_answers {m : Match α}
    (h : (Level.operatorStep lexicon symbols op).pattern.Answers fs text i a (some m)) :
    ∃ o b, (lexicon.grammar.keywordIn op.1 symbols).Reaches fs text i a o b := by
  obtain ⟨x, hx, hm⟩ := Program.answers_exec_iff.1 (Pattern.answers_program_iff.1 h)
  have hopen : (lexicon.grammar.keywordIn op.1 symbols).IsOpen :=
    ((Grammar.retains_lexicon _).keywordIn _ _).isOpen
  rcases (Grammar.exec_front_iff hopen).1 hx with ⟨o, b, hlead, -⟩ | ⟨-, rfl⟩
  · exact ⟨o, b, hlead⟩
  · cases hm

/-- Where an operator matches, those with other symbols do not. -/
theorem operatorStep_excludes (hne : op.1 ≠ op'.1) :
    Verdicts.Excludes (Pattern.Answers fs text) i a (Level.operatorStep lexicon symbols op).pattern
      (Level.operatorStep lexicon symbols op').pattern := by
  have hother {op op' : Text × Instr (Pattern α) α} (hne : op.1 ≠ op'.1) {m : Match α}
      (h : (Level.operatorStep lexicon symbols op).pattern.Answers fs text i a (some m)) :
      (Level.operatorStep lexicon symbols op').pattern.Answers fs text i a none := by
    obtain ⟨o, b, hsymbol⟩ := reaches_symbol_of_answers h
    obtain ⟨k, found, hlead, hfound, hmatched, -⟩ :=
      (Grammar.reaches_keywordIn_iff (Grammar.isOpen_of_lexicon lexicon)).1 hsymbol
    have hfails : (lexicon.grammar.keywordIn op'.1 symbols).Fails fs text i a := by
      refine hlead.keywordIn_fails (Grammar.isOpen_of_lexicon _) fun found' hfound' => ?_
      cases hfound.symm.trans hfound'
      rwa [hmatched]
    exact Pattern.answers_program_iff.2
      (hfails.append ((Grammar.retains_lexicon _).keywordIn _ _).isOpen _).answers
  exact fun m => ⟨hother hne, hother hne.symm⟩

end

/-! ## Levels -/

/-- The level, or the level with its operators in another order. In the second case their symbols
are pairwise distinct. -/
inductive Level.Reordered : Level α → Level α → Prop
  | same (level) : Reordered level level
  | left {ops ops'} : ops.Perm ops' → (ops.map Binary.symbol).Nodup →
      Reordered (.left ops) (.left ops')
  | right {ops ops'} : ops.Perm ops' → (ops.map Binary.symbol).Nodup →
      Reordered (.right ops) (.right ops')
  | prefixed {ops ops'} : ops.Perm ops' → (ops.map Unary.symbol).Nodup →
      Reordered (.prefixed ops) (.prefixed ops')
  | postfixed {ops ops'} : ops.Perm ops' → (ops.map Unary.symbol).Nodup →
      Reordered (.postfixed ops) (.postfixed ops')

namespace Level

variable {lexicon : Lexicon α} {symbols symbols' : Keywords} {this next : Nat}
  {level level' : Level α}

theorem Reordered.symbols_perm (h : level.Reordered level') :
    level.symbols.Perm level'.symbols := by
  cases h with
  | same => exact .refl _
  | left hops | right hops | prefixed hops | postfixed hops => exact hops.map _

theorem Reordered.isPrimary_eq (h : level.Reordered level') :
    level.isPrimary = level'.isPrimary := by
  cases h <;> rfl

/-- A choice between operators with distinct symbols does not depend on their order. -/
theorem choice_equivalent {ops ops' : List (Text × Instr (Pattern α) α)} (hperm : ops.Perm ops')
    (hsymbols : (ops.map Prod.fst).Nodup) (rest : List (Pattern α)) :
    (lexicon.grammar.choice
        (ops.map (fun op => (operatorStep lexicon symbols op).pattern) ++ rest)).program.Equivalent
      (lexicon.grammar.choice
        (ops'.map (fun op => (operatorStep lexicon symbols op).pattern) ++ rest)).program := by
  have hrefines (fs : Forwards α) (text : Text) {ops ops' : List (Text × Instr (Pattern α) α)}
      (hperm : ops.Perm ops') (hsymbols : (ops.map Prod.fst).Nodup) :
      List.Forall₂ (Instr.Refines (Pattern.Answers fs text))
        (lexicon.grammar.choice (ops.map (fun op => (operatorStep lexicon symbols op).pattern) ++
          rest)).program.instrs
        (lexicon.grammar.choice (ops'.map (fun op => (operatorStep lexicon symbols op).pattern) ++
          rest)).program.instrs := by
    refine List.rel_append (List.forall₂_same.2 fun x _ => .same x) (.cons (.choice ?_) .nil)
    intro i a r h
    refine FirstMatch.perm (hperm.map _) (List.pairwise_map.2 ?_) rest h
    exact (List.pairwise_map.1 hsymbols).imp fun hne => operatorStep_excludes hne
  exact Program.equivalent_of_refines rfl rfl (fun fs text => hrefines fs text hperm hsymbols)
    fun fs text => hrefines fs text hperm.symm ((hperm.map _).nodup_iff.1 hsymbols)

theorem program_repeated (g : Grammar α) (min : Nat) (max : Option Nat) (p : Pattern α) :
    (g.repeated min max p).program.instrs = g.instrs ++ [.loopStart loopCapture,
      .loopTry loopCapture min 3 none none, .consume p none (some loopCapture) true,
      .loopBack 2 max] := by
  simp [Repetition.program, Grammar.repeated]

/-- Repeating equivalent programs comes to the same. -/
theorem repeated_equivalent {p q : Program α} (h : p.Equivalent q) (g : Grammar α) (min : Nat)
    (max : Option Nat) :
    (g.repeated min max (.program p)).program.Equivalent
      (g.repeated min max (.program q)).program := by
  have hrefines (fs : Forwards α) (text : Text) {p q : Program α} (h : p.Equivalent q) :
      List.Forall₂ (Instr.Refines (Pattern.Answers fs text))
        (g.repeated min max (.program p)).program.instrs
        (g.repeated min max (.program q)).program.instrs := by
    have hbody : Instr.Refines (Pattern.Answers fs text)
        (.consume (.program p) none (some loopCapture) true)
        (.consume (.program q) none (some loopCapture) true) := by
      refine .consume _ _ _ fun i a r hp => ?_
      exact Pattern.answers_program_iff.2 ((h ..).1 (Pattern.answers_program_iff.1 hp))
    rw [program_repeated, program_repeated]
    exact List.rel_append (List.forall₂_same.2 fun x _ => .same x)
      (.cons (.same _) (.cons (.same _) (.cons hbody (.cons (.same _) .nil))))
  exact Program.equivalent_of_refines rfl rfl (fun fs text => hrefines fs text h)
    fun fs text => hrefines fs text h.symm

theorem Reordered.operators (h : level.Reordered level') (this next : Nat) :
    level = level' ∨ (level.operators this next).Perm (level'.operators this next) ∧
      level.symbols.Nodup ∧ level.fallback next = level'.fallback next := by
  cases h with
  | same => exact .inl rfl
  | left hops hsymbols | right hops hsymbols | prefixed hops hsymbols | postfixed hops hsymbols =>
    exact .inr ⟨hops.map _, hsymbols, rfl⟩

/-- The step of a level does not depend on the order of its operators. -/
theorem Reordered.step_equivalent (h : level.Reordered level') :
    (level.step lexicon symbols this next).program.Equivalent
      (level'.step lexicon symbols this next).program := by
  rcases h.operators this next with rfl | ⟨hops, hsymbols, hfallback⟩
  · exact .refl _
  · rw [← map_fst_operators this next] at hsymbols
    rw [step, step, ← hfallback]
    exact choice_equivalent hops hsymbols _

/-- The step of a level is the same among symbols that are searched alike. -/
theorem step_equivalent (h : symbols.search = symbols'.search) (level : Level α) :
    (level.step lexicon symbols this next).program.Equivalent
      (level.step lexicon symbols' this next).program := by
  have hrefines (fs : Forwards α) (text : Text) {symbols symbols' : Keywords}
      (h : symbols.search = symbols'.search) :
      List.Forall₂ (Instr.Refines (Pattern.Answers fs text))
        (level.step lexicon symbols this next).program.instrs
        (level.step lexicon symbols' this next).program.instrs := by
    refine List.rel_append (List.forall₂_same.2 fun x _ => .same x) (.cons (.choice ?_) .nil)
    intro i a r hfirst
    refine hfirst.of_forall₂ (List.rel_append ?_ (List.forall₂_same.2 fun _ _ _ => id))
    rw [branches, branches, List.forall₂_map_left_iff, List.forall₂_map_right_iff]
    refine List.forall₂_same.2 fun op _ r hr => Pattern.answers_program_iff.2 ?_
    exact (operatorStep_equivalent h ..).1 (Pattern.answers_program_iff.1 hr)
  exact Program.equivalent_of_refines rfl rfl (fun fs text => hrefines fs text h)
    fun fs text => hrefines fs text h.symm

/-- The program of a level does not depend on the order of its operators, nor on the symbols but for
how they are searched. -/
theorem Reordered.program_equivalent (hsymbols : symbols.search = symbols'.search)
    (h : level.Reordered level') :
    (level.program lexicon symbols this next).Equivalent
      (level'.program lexicon symbols' this next) := by
  have hstep : (level.step lexicon symbols this next).program.Equivalent
      (level'.step lexicon symbols' this next).program :=
    h.step_equivalent.trans (level'.step_equivalent hsymbols)
  cases h with
  | same level =>
    cases level with
    | left | right | postfixed | primary => exact repeated_equivalent hstep _ _ _
    | prefixed => exact hstep
  | left | right | postfixed => exact repeated_equivalent hstep _ _ _
  | prefixed => exact hstep

end Level

namespace OperatorTable

/-- Level by level, the tables list the same operators. -/
def Reordered (t t' : OperatorTable α) : Prop := List.Forall₂ Level.Reordered t t'

/-- The bodies of the table use the cells they are handed, but do not look into them. -/
def IsUniform (t : OperatorTable α) : Prop :=
  ∀ body, .primary body ∈ t → ∀ cells, (body cells).IsUniform

variable {t t' : OperatorTable α}

/-- The symbols are searched alike whatever the order of the operators. -/
theorem Reordered.search_eq (h : t.Reordered t') : t.symbols.search = t'.symbols.search := by
  refine Keywords.search_perm ?_
  induction h with
  | nil => exact .refl _
  | cons hlevel _ ih => exact hlevel.symbols_perm.append ih

section

variable {lexicon : Lexicon α} {symbols symbols' : Keywords} {cells : List Nat}

theorem levelProgram_corresponds (hsymbols : symbols.search = symbols'.search) {this next : Nat}
    {level level' : Level α} (h : level.Reordered level')
    (hbody : ∀ body, level = .primary body → (body cells).IsUniform) :
    (levelProgram lexicon symbols cells (.forward this) (.forward next) level).Corresponds
      Program.Equivalent
      (levelProgram lexicon symbols' cells (.forward this) (.forward next) level') := by
  cases hl : level.isPrimary with
  | true =>
    cases h with
    | same =>
      cases level with
      | primary body => exact hbody body rfl
      | left | right | prefixed | postfixed => cases hl
    | left | right | prefixed | postfixed => cases hl
  | false =>
    have hlevel : level.Yields lexicon symbols cells this next
        (level.program lexicon symbols this next) := Level.yields_program hl cells
    have hlevel' : level'.Yields lexicon symbols' cells this next
        (level'.program lexicon symbols' this next) :=
      Level.yields_program (h.isPrimary_eq ▸ hl) cells
    rw [hlevel, hlevel']
    exact Build.corresponds_pure (h.program_equivalent hsymbols)

theorem buildLevels_corresponds (hsymbols : symbols.search = symbols'.search)
    {levels levels' : List (Level α)} (h : List.Forall₂ Level.Reordered levels levels')
    (hbodies : ∀ body, .primary body ∈ levels → (body cells).IsUniform) (these : List Nat) :
    (buildLevels lexicon symbols cells levels these).Corresponds (List.Forall₂ Program.Equivalent)
      (buildLevels lexicon symbols' cells levels' these) := by
  induction h generalizing these with
  | nil => exact Build.corresponds_pure .nil
  | cons hlevel _ ih =>
    cases these with
    | nil => exact Build.corresponds_pure .nil
    | cons this below =>
      have hbody : ∀ body, _ = Level.primary body → (body cells).IsUniform :=
        fun body hbody => hbodies body (hbody ▸ List.mem_cons_self)
      refine (levelProgram_corresponds hsymbols hlevel hbody).bind fun p q hpq => ?_
      refine (Build.corresponds_define hpq this).bind fun _ _ _ => ?_
      refine (ih (fun body hbody => hbodies body (List.mem_cons_of_mem _ hbody)) below).bind
        fun ps qs hpqs => ?_
      exact Build.corresponds_pure (.cons hpq hpqs)

end

/-- Tables that list the same operators are built to equivalent programs. -/
theorem build_corresponds (h : t.Reordered t') (ht : t.IsUniform) (lexicon : Lexicon α) :
    (build lexicon t).Corresponds Program.Equivalent (build lexicon t') := by
  have hlength := h.length_eq
  have hlast : Option.Rel Level.Reordered t.getLast? t'.getLast? := by
    rw [List.getLast?_eq_getElem?, List.getLast?_eq_getElem?, hlength]
    exact forall₂_getElem? h _
  simp only [build]
  generalize t.getLast? = last, t'.getLast? = last' at hlast
  cases hlast with
  | none => exact Build.corresponds_throw _
  | some hlevel =>
    simp only [hlevel.isPrimary_eq, hlength]
    split
    · exact Build.corresponds_throw _
    · refine (Build.corresponds_news _).bind fun cells cells' hcells => ?_
      subst hcells
      refine (buildLevels_corresponds h.search_eq h (fun body hbody => ht body hbody cells)
        cells).bind fun ps qs hpqs => ?_
      cases hpqs with
      | nil => exact Build.corresponds_throw _
      | cons hpq => exact Build.corresponds_pure hpq

/-- The order of operators inside a level does not matter. Of two tables that list the same
operators level by level, both are refused for the same reason, or both are built. What is built
then answers alike at every offset of every text, whatever is inherited, and so does all that is
built from it later on. -/
theorem build_reordered (h : t.Reordered t') (ht : t.IsUniform) (lexicon : Lexicon α)
    (fs : Forwards α) :
    (∃ e, (build lexicon t).run fs = .error e ∧ (build lexicon t').run fs = .error e) ∨
    ∃ p p' gs gs', (build lexicon t).run fs = .ok (p, gs) ∧
      (build lexicon t').run fs = .ok (p', gs') ∧
      (∀ text i a r, p.Answers gs text i a r ↔ p'.Answers gs' text i a r) ∧
      p.Equivalent p' ∧ gs.Equivalent gs' := by
  have hbuilt := build_corresponds h ht lexicon fs fs (.refl fs)
  rw [Build.run, Build.run]
  generalize (build lexicon t).outcome fs = o, (build lexicon t').outcome fs = o' at hbuilt
  cases hbuilt with
  | error e _ => exact .inl ⟨e, rfl, rfl⟩
  | ok hpq hgs =>
    exact .inr ⟨_, _, _, _, rfl, rfl, fun _ _ _ _ => hgs.program_answers_iff hpq, hpq, hgs⟩

/-- Sums and differences are read alike if differences are listed first. -/
theorem build_reordered_sums :
    let number : Level Nat := .primary fun _ =>
      pure (Grammar.empty.tokenWith (.literal ['1']) ⟨fun _ => some 1, none⟩).program
    let sum : Binary Nat := ⟨['+'], (· + ·)⟩
    let difference : Binary Nat := ⟨['-'], (· - ·)⟩
    ∃ p gs, (build .empty [.left [difference, sum], number]).run .empty = .ok (p, gs) ∧
      p.Answers gs "1+1-1".toList 0 none (some ⟨"1+1-1".toList, 5, some 1, []⟩) := by
  intro number sum difference
  let t : OperatorTable Nat := [.left [sum, difference], number]
  have h : t.Reordered [.left [difference, sum], number] :=
    .cons (.left (.swap _ _ _) (by decide)) (.cons (.same _) .nil)
  have ht : t.IsUniform := by
    intro body hbody cells
    have hnumber : Level.primary body = number := by simpa [t] using hbody
    rw [Level.primary.inj (show Level.primary body = .primary _ from hnumber)]
    exact Build.isUniform_pure _
  rcases build_reordered h ht .empty .empty with ⟨e, he, -⟩ | ⟨p, p', gs, gs', hp, hp', hanswers, -⟩
  · cases he
  · cases hp
    refine ⟨p', gs', hp', (hanswers ..).1 (Pattern.answers_program_iff.1 ?_)⟩
    exact Pattern.answers_of_outcome? 30 (by decide +kernel)

end OperatorTable

end GrammarMachine
