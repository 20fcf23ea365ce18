import GrammarMachine.Proofs.Forwards.Cells
import GrammarMachine.Proofs.Semantics.Parsing
import GrammarMachine.Proofs.Semantics.Reach

/-!
# Nested parentheses

The smallest grammar that refers to itself: a pair of parentheses around the grammar itself, or else
nothing. The choice falls back to nothing at every depth. So a parenthesis that is missing deep
inside makes the level there match nothing, and the level around it then lacks its own closing
parenthesis, all the way up. What is left is all or nothing: either every opening parenthesis of the
run at an offset is closed, or none is consumed.

* `Parentheses.parens`: the grammar, tied by `fix`; `Parentheses.level` is what its cell then holds.
* `Parentheses.pair_answers` and its like: a pair by what is found inside it.
* `Parentheses.level_answers_opening`: what a level consumes of a run of opening parentheses, by
  induction on the run and for every offset.
* `Parentheses.parens_recognises`: the language of the grammar, and what it consumes anywhere.
-/

namespace GrammarMachine.Parentheses

variable {α : Type}

/-- So many opening parentheses and as many closing ones. -/
def nested (n : Nat) : Text := List.replicate n '(' ++ List.replicate n ')'

/-- A pair of parentheses around what a cell holds. -/
def pair (cell : Nat) : Grammar α :=
  ((Grammar.empty.token (.literal ['('])).token (.forward cell)).token (.literal [')'])

/-- One level: a pair of parentheses, or else nothing. -/
def level (nothing : Pattern α) (cell : Nat) : Program α :=
  (Grammar.empty.choice [(pair cell).pattern, nothing]).program

/-- The grammar of nested parentheses, which refers to itself. -/
def parens (nothing : Pattern α) : Build α (Program α) := fix fun self => return level nothing self

/-- A program and the end of the input behind it. -/
def whole (p : Program α) : Program α := (Grammar.empty.token (.program p)).endOfInput.program

/-- The two ways to write down nothing: no characters, or no steps. -/
inductive IsNothing : Pattern α → Prop
  | literal : IsNothing (.literal [])
  | grammar : IsNothing Grammar.empty.pattern

variable {fs : Forwards α} {text rest : Text} {i k cell : Nat} {a : Option α} {nothing : Pattern α}

theorem byteLength_nested (n : Nat) : Text.byteLength (nested n) = 2 * n := by
  rw [nested, Text.byteLength_append, Text.byteLength_replicate n (by decide),
    Text.byteLength_replicate n (by decide), Nat.two_mul]

/-- Every text begins with a definite number of opening parentheses. -/
theorem exists_opening (t : Text) :
    ∃ k rest, t = List.replicate k '(' ++ rest ∧ rest.head? ≠ some '(' := by
  induction t with
  | nil => exact ⟨0, [], rfl, by simp⟩
  | cons c t ih =>
    by_cases hc : c = '('
    · obtain ⟨k, rest, rfl, hrest⟩ := ih
      exact ⟨k + 1, rest, by rw [hc, List.replicate_succ, List.cons_append], hrest⟩
    · exact ⟨0, c :: t, rfl, by simpa using hc⟩

/-! ## The two branches of a level -/

/-- Nothing is found wherever a character begins. -/
theorem IsNothing.answers (h : IsNothing nothing) (hi : text.from? i = some rest) :
    ∃ b, nothing.Answers fs text i a (some ⟨[], i, b, []⟩) ∧ merge a b = a := by
  cases h with
  | literal => exact ⟨none, Pattern.answers_literal_iff.2 ⟨rest, hi, rfl⟩, rfl⟩
  | grammar =>
    exact ⟨a, Pattern.answers_program_iff.2 <|
      (Grammar.reaches_empty_iff.2 ⟨rfl, rfl⟩).answers (Text.slice?_of_from? (u := []) hi),
      merge_self a⟩

/-- Where no character begins, not even nothing is found. -/
theorem IsNothing.answers_none (h : IsNothing nothing) (hi : text.from? i = none) :
    nothing.Answers fs text i a none := by
  cases h with
  | literal =>
    refine Pattern.answers_literal_none_iff.2 fun rest hrest => ?_
    cases hi.symm.trans hrest
  | grammar =>
    refine Pattern.answers_program_iff.2 <|
      (Grammar.answers_iff Grammar.retains_empty.isOpen).2 (.inl ⟨i, a, ?_, ?_⟩)
    · exact Grammar.reaches_empty_iff.2 ⟨rfl, rfl⟩
    · simp [Text.slice?, hi]

theorem retains_opened : (Grammar.empty.token (.literal ['(']) : Grammar α).Retains :=
  Grammar.retains_empty.token _

theorem retains_inside (cell : Nat) :
    ((Grammar.empty.token (.literal ['('])).token (.forward cell) : Grammar α).Retains :=
  retains_opened.token _

/-- A pair goes on behind its opening parenthesis. -/
theorem reaches_opened (hi : text.from? i = some ('(' :: rest)) :
    (Grammar.empty.token (.literal ['('])).Reaches fs text i a (i + 1) a :=
  (Grammar.reaches_empty_iff.2 ⟨rfl, rfl⟩).token Grammar.retains_empty
    (Pattern.answers_literal_iff.2 ⟨rest, hi, rfl⟩) fun _ => .nothing

/-- A pair goes on behind what its cell matches. -/
theorem reaches_inside {p : Program α} (hc : fs.get? cell = some p) {m : Match α}
    (hi : text.from? i = some ('(' :: rest)) (hp : p.Answers fs text (i + 1) a (some m)) :
    ((Grammar.empty.token (.literal ['('])).token (.forward cell)).Reaches fs text i a
      m.lastIndex (merge a m.attr) :=
  (reaches_opened hi).token retains_opened ((Pattern.answers_forward_iff hc).2 hp)
    fun _ => .nothing

/-- A pair matches where its cell matches between two parentheses. -/
theorem pair_answers {p : Program α} (hc : fs.get? cell = some p) {u v : Text}
    (hi : text.from? i = some (('(' :: u) ++ (')' :: v)))
    (hp : p.Answers fs text (i + 1) a (some ⟨u, i + 1 + u.byteLength, a, []⟩)) :
    (pair cell).program.Answers fs text i a
      (some ⟨'(' :: u ++ [')'], i + 1 + u.byteLength + 1, a, []⟩) := by
  have hinside := reaches_inside hc hi hp
  rw [merge_self] at hinside
  have hclose : text.from? (i + 1 + u.byteLength) = some ([')'] ++ v) := by
    rw [Nat.add_assoc]
    exact Text.from?_add hi
  have hpair : (pair cell).Reaches fs text i a (i + 1 + u.byteLength + 1) a :=
    hinside.token (retains_inside cell) (Pattern.answers_literal_iff.2 ⟨v, hclose, rfl⟩)
      fun _ => .nothing
  have hi' : text.from? i = some (('(' :: u ++ [')']) ++ v) := by
    rw [hi]
    simp
  have hlength : Text.byteLength ('(' :: u ++ [')']) = 1 + (u.byteLength + 1) := by
    rw [List.cons_append, Text.byteLength_cons, Text.byteLength_append]
    rfl
  have hslice := Text.slice?_of_from? hi'
  rw [hlength, ← Nat.add_assoc, ← Nat.add_assoc] at hslice
  exact hpair.answers hslice

/-- A pair does not match where no parenthesis is opened. -/
theorem pair_answers_none (hno : ∀ rest, text.from? i ≠ some ('(' :: rest)) :
    (pair cell).program.Answers fs text i a none := by
  have hempty : Grammar.empty.Reaches fs text i a i a := Grammar.reaches_empty_iff.2 ⟨rfl, rfl⟩
  have hopen := hempty.token_fails Grammar.retains_empty.isOpen
    (Pattern.answers_literal_none_iff (t := ['(']).2 hno)
  exact ((hopen.append retains_opened.isOpen _).append (retains_inside cell).isOpen _).answers

/-- A pair does not match where its cell is not followed by a closing parenthesis. -/
theorem pair_answers_none_of_unclosed {p : Program α} (hc : fs.get? cell = some p) {m : Match α}
    (hi : text.from? i = some ('(' :: rest)) (hp : p.Answers fs text (i + 1) a (some m))
    (hno : ∀ v, text.from? m.lastIndex ≠ some (')' :: v)) :
    (pair cell).program.Answers fs text i a none :=
  ((reaches_inside hc hi hp).token_fails (retains_inside cell).isOpen
    (Pattern.answers_literal_none_iff (t := [')']).2 hno)).answers

/-- A level whose pair matches matches the same. -/
theorem level_answers {u : Text} {j : Nat}
    (hpair : (pair cell).program.Answers fs text i a (some ⟨u, j, a, []⟩)) :
    (level nothing cell).Answers fs text i a (some ⟨u, j, a, []⟩) := by
  have hfirst : FirstMatch (Pattern.Answers fs text) i a [(pair cell).pattern, nothing]
      (some ⟨u, j, a, []⟩) := .here (Pattern.answers_program_iff.2 hpair)
  have hchoice := (Grammar.reaches_empty_iff.2 ⟨rfl, rfl⟩).choice Grammar.retains_empty hfirst
    fun _ => .nothing
  rw [merge_self] at hchoice
  exact hchoice.answers hpair.slice?

/-- A level whose pair does not match matches nothing. -/
theorem level_answers_nothing (hnothing : IsNothing nothing) (hi : text.from? i = some rest)
    (hpair : (pair cell).program.Answers fs text i a none) :
    (level nothing cell).Answers fs text i a (some ⟨[], i, a, []⟩) := by
  obtain ⟨b, hb, hmerge⟩ : ∃ b, nothing.Answers fs text i a (some ⟨[], i, b, []⟩) ∧
      merge a b = a := hnothing.answers hi
  have hfirst : FirstMatch (Pattern.Answers fs text) i a [(pair cell).pattern, nothing]
      (some ⟨[], i, b, []⟩) := .later (Pattern.answers_program_iff.2 hpair) (.here hb)
  have hchoice := (Grammar.reaches_empty_iff.2 ⟨rfl, rfl⟩).choice Grammar.retains_empty hfirst
    fun _ => .nothing
  rw [hmerge] at hchoice
  exact hchoice.answers (Text.slice?_of_from? (u := []) hi)

/-- Where no character begins a level does not match. -/
theorem level_answers_none (hnothing : IsNothing nothing) (hi : text.from? i = none) :
    (level nothing cell).Answers fs text i a none := by
  have hpair : (pair cell).program.Answers fs text i a none :=
    pair_answers_none fun rest hrest => by cases hi.symm.trans hrest
  have hempty : Grammar.empty.Reaches fs text i a i a := Grammar.reaches_empty_iff.2 ⟨rfl, rfl⟩
  exact (hempty.choice_fails Grammar.retains_empty.isOpen
    (.later (Pattern.answers_program_iff.2 hpair) (.later (hnothing.answers_none hi) .nil))).answers

/-! ## A whole run of opening parentheses -/

theorem nested_succ (n : Nat) : nested (n + 1) = '(' :: nested n ++ [')'] := by
  rw [nested, List.replicate_succ, List.replicate_succ']
  simp [nested]

/-- One closing parenthesis more than `k` of them is the next character. -/
theorem replicate_succ_prefix_iff {c : Char} {r : Text} :
    List.replicate (k + 1) c <+: List.replicate k c ++ r ↔ ∃ v, r = c :: v := by
  rw [List.replicate_succ', List.prefix_append_right_inj]
  exact ⟨fun ⟨v, hv⟩ => ⟨v, hv.symm⟩, fun ⟨v, hv⟩ => ⟨v, hv.symm⟩⟩

section

variable (hnothing : IsNothing nothing) (hc : fs.get? cell = some (level nothing cell))

include hnothing hc

/-- What a level consumes of `k` opening parentheses and what follows them: all with as many closing
ones, or else nothing. -/
theorem level_answers_opening (hrest : rest.head? ≠ some '(')
    (hi : text.from? i = some (List.replicate k '(' ++ rest)) :
    (level nothing cell).Answers fs text i a
      (some (if List.replicate k ')' <+: rest then ⟨nested k, i + 2 * k, a, []⟩
        else ⟨[], i, a, []⟩)) := by
  induction k generalizing i with
  | zero =>
    rw [if_pos (by simp : List.replicate 0 ')' <+: rest)]
    refine level_answers_nothing hnothing hi (pair_answers_none fun r hr => hrest ?_)
    have hopen : some rest = some ('(' :: r) := hi.symm.trans hr
    rw [Option.some.inj hopen]
    rfl
  | succ k ih =>
    have hi' : text.from? (i + 1) = some (List.replicate k '(' ++ rest) :=
      Text.from?_add (u := ['(']) hi
    have hinner := ih hi'
    by_cases hclosed : List.replicate k ')' <+: rest
    · obtain ⟨r, rfl⟩ := hclosed
      rw [if_pos (List.prefix_append _ r)] at hinner
      have hbehind : text.from? (i + 1 + 2 * k) = some r := by
        rw [← byteLength_nested k]
        refine Text.from?_add (hi'.trans ?_)
        rw [nested, List.append_assoc]
      by_cases hr : ∃ v, r = ')' :: v
      · obtain ⟨v, rfl⟩ := hr
        rw [if_pos (replicate_succ_prefix_iff.2 ⟨v, rfl⟩), nested_succ,
          show i + 2 * (k + 1) = i + 1 + 2 * k + 1 by omega, ← byteLength_nested k]
        rw [← byteLength_nested k] at hinner
        have hpair : text.from? i = some ('(' :: nested k ++ ')' :: v) := by
          rw [hi, nested, List.replicate_succ]
          simp
        exact level_answers (pair_answers hc hpair hinner)
      · rw [if_neg (mt replicate_succ_prefix_iff.1 hr)]
        refine level_answers_nothing hnothing hi
          (pair_answers_none_of_unclosed hc hi hinner fun v hv => hr ⟨v, ?_⟩)
        exact Option.some.inj (hbehind.symm.trans hv)
    · -- The level inside matches nothing, and what follows it is an opening parenthesis.
      have hmore : ¬ List.replicate (k + 1) ')' <+: rest := fun h =>
        hclosed ((List.prefix_append _ [')']).trans (List.replicate_succ' ▸ h))
      rw [if_neg hclosed] at hinner
      rw [if_neg hmore]
      refine level_answers_nothing hnothing hi
        (pair_answers_none_of_unclosed hc hi hinner fun v hv => ?_)
      cases k with
      | zero => exact hclosed List.nil_prefix
      | succ k => cases hi'.symm.trans hv

end

/-! ## Whole texts -/

/-- The number of parentheses that are opened at the front of a text is unique. -/
theorem opening_unique {n : Nat} {rest' : Text} (hrest : rest.head? ≠ some '(')
    (hrest' : rest'.head? ≠ some '(')
    (h : List.replicate k '(' ++ rest = List.replicate n '(' ++ rest') : k = n ∧ rest = rest' := by
  induction k generalizing n with
  | zero =>
    cases n with
    | zero => exact ⟨rfl, h⟩
    | succ n => exact absurd (congrArg List.head? h) hrest
  | succ k ih =>
    cases n with
    | zero => exact absurd (congrArg List.head? h.symm) hrest'
    | succ n =>
      obtain ⟨rfl, heq⟩ := ih (List.cons.inj h).2
      exact ⟨rfl, heq⟩

/-- A level matches the whole of a text just if that is nested parentheses. -/
theorem opening_isWhole_iff (hrest : rest.head? ≠ some '(')
    (ht : text = List.replicate k '(' ++ rest) :
    text.byteLength ≤ (if List.replicate k ')' <+: rest then 2 * k else 0) ↔
      ∃ n, text = nested n := by
  have hnested : (∃ n, text = nested n) ↔ rest = List.replicate k ')' := by
    constructor
    · rintro ⟨n, hn⟩
      have hhead : (List.replicate n ')').head? ≠ some '(' := by
        cases n <;> simp [List.replicate_succ]
      obtain ⟨rfl, rfl⟩ := opening_unique hrest hhead (ht.symm.trans hn)
      rfl
    · rintro rfl
      exact ⟨k, ht⟩
  have hlength : text.byteLength = k + rest.byteLength := by
    rw [ht, Text.byteLength_append, Text.byteLength_replicate k (by decide)]
  have hopen : text.byteLength = 0 → rest = List.replicate k ')' := fun h => by
    obtain rfl : k = 0 := by omega
    exact Text.byteLength_eq_zero.1 (by omega)
  rw [hnested]
  split
  · rename_i hclosed
    obtain ⟨r, rfl⟩ := hclosed
    rw [hlength, Text.byteLength_append, Text.byteLength_replicate k (by decide),
      show k + (k + Text.byteLength r) ≤ 2 * k ↔ Text.byteLength r = 0 by omega,
      Text.byteLength_eq_zero, List.append_right_eq_self]
  · rename_i hunclosed
    exact ⟨fun h => hopen (Nat.le_zero.1 h), fun h => absurd (h ▸ List.prefix_rfl) hunclosed⟩

/-- A program and the end of the input behind it parse a text where the program matches all of
it. -/
theorem whole_settles {p : Program α} {m : Match α} (hp : p.Answers fs text 0 a (some m)) :
    ∃ r, Trial.Settles (fun fuel => (whole p).parse ⟨fs, fuel⟩ text a) (some r) ∧
      (r.isSome ↔ text.byteLength ≤ m.lastIndex) := by
  have hretains : (Grammar.empty.token (.program p) : Grammar α).Retains :=
    Grammar.retains_empty.token _
  have hfront : (Grammar.empty.token (.program p)).Reaches fs text 0 a m.lastIndex
      (merge a m.attr) :=
    (Grammar.reaches_empty_iff.2 ⟨rfl, rfl⟩).token Grammar.retains_empty
      (Pattern.answers_program_iff.2 hp) fun _ => .nothing
  by_cases hend : text.byteLength ≤ m.lastIndex
  · have hwhole := hfront.token hretains
      (Pattern.answers_iff.2 (if_pos hend).symm :
        Pattern.endOfInput.Answers fs text _ _ (some ⟨[], text.byteLength, none, []⟩))
      fun _ => .nothing
    have hslice : text.slice? 0 text.byteLength = some text := by
      simpa using Text.slice?_append [] text []
    refine ⟨_, Program.parse_settles (hwhole.answers hslice), iff_of_true ?_ hend⟩
    simp
  · have hno := hfront.token_fails hretains.isOpen
      (Pattern.answers_iff.2 (if_neg hend).symm : Pattern.endOfInput.Answers fs text _ _ none)
    exact ⟨_, Program.parse_settles hno.answers, iff_of_false (by simp) hend⟩

theorem parens_run (nothing : Pattern α) (fs : Forwards α) :
    (parens nothing).run fs = .ok (level nothing fs.cells.size,
      fs.push.set fs.cells.size (level nothing fs.cells.size)) := by
  have hundefined : fs.push.get? fs.cells.size = none := by
    rw [Forwards.get?_push, Forwards.get?_of_size_le (Nat.le_refl _)]
  rw [Build.run_eq_ok_iff, parens, fix, Build.outcome_bind_ok (Forward.new_outcome fs),
    Build.outcome_bind_ok (Build.outcome_pure _ _),
    Build.outcome_bind_ok (Forward.bind_outcome _ _ _), Forwards.offer_of_none hundefined]
  rfl

/-- The grammar of nested parentheses refers to itself without fault, and in all that is built later
it recognises exactly the nested parentheses. Wherever a character begins it consumes `k` pairs
where `k` parentheses and no more are opened and as many closed behind them, and nothing otherwise;
so it matches everywhere there. Together with the end of the input it parses the texts of `n`
opening and then `n` closing parentheses, and no others. -/
theorem parens_recognises (hnothing : IsNothing nothing) (fs : Forwards α) :
    ∃ p fs', (parens nothing).run fs = .ok (p, fs') ∧ ∀ later, fs'.Extends later →
      ∀ (text : Text) (a : Option α),
        (∀ i k rest, text.from? i = some (List.replicate k '(' ++ rest) → rest.head? ≠ some '(' →
          p.Answers later text i a
            (some (if List.replicate k ')' <+: rest then ⟨nested k, i + 2 * k, a, []⟩
              else ⟨[], i, a, []⟩))) ∧
        (∀ i, text.from? i = none → p.Answers later text i a none) ∧
        ∃ r, Trial.Settles (fun fuel => (whole p).parse ⟨later, fuel⟩ text a) (some r) ∧
          (r.isSome ↔ ∃ n, text = nested n) := by
  refine ⟨_, _, parens_run nothing fs, fun later hlater text a => ?_⟩
  have hc : later.get? fs.cells.size = some (level nothing fs.cells.size) :=
    hlater.holds _ _ (Forwards.get?_set_self _ (by simp))
  have hlevel {i k : Nat} {rest : Text} (hrest : rest.head? ≠ some '(')
      (hi : text.from? i = some (List.replicate k '(' ++ rest)) :=
    level_answers_opening (a := a) hnothing hc hrest hi
  refine ⟨fun i k rest hi hrest => hlevel hrest hi,
    fun i hi => level_answers_none hnothing hi, ?_⟩
  obtain ⟨k, rest, ht, hrest⟩ := exists_opening text
  obtain ⟨r, hr, hwhole⟩ := whole_settles (hlevel hrest (i := 0) (by rw [Text.from?_zero, ht]))
  refine ⟨r, hr, ?_⟩
  rw [hwhole, ← opening_isWhole_iff hrest ht]
  split <;> simp

/-- Two pairs behind another character, and a parenthesis behind them that is not closed. -/
theorem parens_recognises_pairs :
    ∃ (p : Program Nat) (fs' : Forwards Nat), (parens (.literal [])).run .empty = .ok (p, fs') ∧
      p.Answers fs' "a(())(".toList 1 none (some ⟨"(())".toList, 5, none, []⟩) ∧
      p.Answers fs' "a(())(".toList 5 none (some ⟨[], 5, none, []⟩) ∧
      ∃ r, Trial.Settles (fun fuel => (whole p).parse ⟨fs', fuel⟩ "(())".toList none) (some r) ∧
        r.isSome := by
  obtain ⟨p, fs', hrun, h⟩ := parens_recognises (α := Nat) .literal .empty
  obtain ⟨hat, -, -⟩ := h fs' (.refl fs') "a(())(".toList none
  obtain ⟨-, -, r, hr, hwhole⟩ := h fs' (.refl fs') "(())".toList none
  refine ⟨p, fs', hrun, ?_, ?_, r, hr, hwhole.2 ⟨2, rfl⟩⟩
  · have hclosed := hat 1 2 "))(".toList rfl (by decide)
    rwa [if_pos (by decide)] at hclosed
  · have hunclosed := hat 5 1 [] rfl (by decide)
    rwa [if_neg (by decide)] at hunclosed

end GrammarMachine.Parentheses
