import GrammarMachine.Proofs.Semantics.Answers
import GrammarMachine.Proofs.Semantics.Straight
import GrammarMachine.Proofs.Text.Offsets

/-!
# Grammars step by step

What an open grammar comes to, by what its last step does where the steps before it end.

* `Grammar.Reaches`, `Grammar.Fails`: the grammar comes to its end at an offset with an attribute,
  or does not match.
* `Grammar.Reaches.token` and its like: one rule for each kind of step that the operators of a table
  use.
* `Grammar.Reaches.answers`: a grammar that comes to its end matches.
-/

namespace GrammarMachine

namespace Grammar

variable {α : Type} {fs : Forwards α} {text : Text} {g : Grammar α}

/-- Run from an offset, the grammar comes to its end at `o` with the attribute `a`. -/
def Reaches (fs : Forwards α) (text : Text) (g : Grammar α) (start : Nat) (inherited : Option α)
    (o : Nat) (a : Option α) : Prop :=
  Exec (Pattern.Answers fs text) g.program text (.initial 0 start inherited)
    (some ⟨o, a, .closed 0⟩)

/-- Run from an offset, the grammar does not match. -/
def Fails (fs : Forwards α) (text : Text) (g : Grammar α) (start : Nat)
    (inherited : Option α) : Prop :=
  Exec (Pattern.Answers fs text) g.program text (.initial 0 start inherited) none

theorem captures_of_isOpen (hg : g.IsOpen) {f : Frame α} {r : Option (Final α)}
    (h : Exec (Pattern.Answers fs text) g.program text f r) :
    ∀ fin, r = some fin → fin.captures = f.captures :=
  h.captures_of_straight fun _ i _ hi => hg i (List.mem_of_getElem? hi)

/-- A grammar that matches reaches the end of its match. -/
theorem reaches_of_answers (hg : g.IsOpen) {start : Nat} {inherited : Option α} {m : Match α}
    (h : g.program.Answers fs text start inherited (some m)) :
    g.Reaches fs text start inherited m.lastIndex m.attr := by
  cases Program.answers_iff.1 h with
  | @matched fin _ hfin _ =>
    have hc : fin.captures = .closed 0 := captures_of_isOpen hg hfin fin rfl
    rw [Reaches, ← hc]
    exact hfin

section

variable {start o : Nat} {inherited a : Option α}

theorem Fails.answers (h : g.Fails fs text start inherited) :
    g.program.Answers fs text start inherited none :=
  Program.answers_iff.2 (.failed h)

/-- A grammar matches the text up to where it comes to its end, if that can be sliced out. -/
theorem answers_iff (hg : g.IsOpen) {r : Option (Match α)} :
    g.program.Answers fs text start inherited r ↔
      (∃ o a, g.Reaches fs text start inherited o a ∧
        r = (text.slice? start o).map fun t => ⟨t, o, a, []⟩) ∨
      (g.Fails fs text start inherited ∧ r = none) := by
  rw [Program.answers_exec_iff]
  constructor
  · rintro ⟨x, hx, rfl⟩
    cases x with
    | none => exact .inr ⟨hx, rfl⟩
    | some fin =>
      obtain ⟨o, a, cs⟩ := fin
      obtain rfl : cs = .closed 0 := captures_of_isOpen hg hx _ rfl
      exact .inl ⟨o, a, hx, rfl⟩
  · rintro (⟨o, a, hlead, rfl⟩ | ⟨hno, rfl⟩)
    · exact ⟨_, hlead, rfl⟩
    · exact ⟨none, hno, rfl⟩

/-- Two ends of a grammar are the same. -/
theorem Reaches.unique {o' : Nat} {a' : Option α} (h : g.Reaches fs text start inherited o a)
    (h' : g.Reaches fs text start inherited o' a') : o = o' ∧ a = a' := by
  cases Exec.unique h h'
  exact ⟨rfl, rfl⟩

theorem Reaches.not_fails (h : g.Reaches fs text start inherited o a) :
    ¬ g.Fails fs text start inherited := by
  intro h'
  cases Exec.unique h h'

/-- A grammar that comes to its end matches the text up to there. -/
theorem Reaches.answers (h : g.Reaches fs text start inherited o a) {t : Text}
    (ht : text.slice? start o = some t) :
    g.program.Answers fs text start inherited (some ⟨t, o, a, []⟩) :=
  Program.answers_iff.2 (.matched h ht)

/-- A grammar that does not match is not saved by further steps. -/
theorem Fails.append (hg : g.IsOpen) (h : g.Fails fs text start inherited)
    (is : List (Instr (Pattern α) α)) : (g.append is).Fails fs text start inherited :=
  Exec.of_straight (g := .initial 0 start inherited) hg h (Nat.zero_le _) ⟨rfl, rfl, rfl⟩ rfl
    (fun _ h => nomatch h) (fun _ => rfl)

/-! ## One more step -/

/-- The frame at the end of the grammar. -/
def endFrame (g : Grammar α) (start o : Nat) (a : Option α) : Frame α :=
  ⟨start, g.instrs.length, o, a, 0, g.drops, none, .closed 0⟩

/-- The frame behind the grammar at the front of a program with `n` repetitions. -/
def frontFrame (g : Grammar α) (n start o : Nat) (a : Option α) : Frame α :=
  { g.endFrame start o a with captures := .closed n }

theorem past_initial {n : Nat} : (Frame.initial n start inherited).past g.instrs ⟨o, a, .closed 0⟩ =
    g.frontFrame n start o a := by
  simp [Frame.past, Frame.initial, frontFrame, endFrame, drops]

/-- A program that begins with an open grammar runs the grammar first, and goes on behind it. -/
theorem exec_front_iff (hg : g.IsOpen) {rest : List (Instr (Pattern α) α)} {n : Nat}
    {r : Option (Final α)} :
    Exec (Pattern.Answers fs text) ⟨g.instrs ++ rest, g.lexicon.ignore, n⟩ text
        (.initial n start inherited) r ↔
      (∃ o a, g.Reaches fs text start inherited o a ∧
        Exec (Pattern.Answers fs text) ⟨g.instrs ++ rest, g.lexicon.ignore, n⟩ text
          (g.frontFrame n start o a) r) ∨
      (g.Fails fs text start inherited ∧ r = none) := by
  constructor
  · intro h
    rcases h.straight_inv (n := 0) hg (Nat.zero_le _) (f := .initial 0 start inherited)
      ⟨rfl, rfl, rfl⟩ rfl with ⟨⟨o, a, cs⟩, hfin, hgo⟩ | ⟨hno, rfl⟩
    · obtain rfl : cs = .closed 0 := captures_of_isOpen hg hfin _ rfl
      rw [past_initial] at hgo
      exact .inl ⟨o, a, hfin, hgo⟩
    · exact .inr ⟨hno, rfl⟩
  · rintro (⟨o, a, hlead, hgo⟩ | ⟨hno, rfl⟩)
    · refine Exec.of_straight (g := .initial n start inherited) hg hlead (Nat.zero_le _)
        ⟨rfl, rfl, rfl⟩ rfl (fun fin hfin => ?_) (fun h => nomatch h)
      cases hfin
      rwa [past_initial]
    · exact Exec.of_straight (g := .initial n start inherited) hg hno (Nat.zero_le _)
        ⟨rfl, rfl, rfl⟩ rfl (fun _ h => nomatch h) fun _ => rfl

theorem Reaches.exec_append (hg : g.IsOpen) (h : g.Reaches fs text start inherited o a)
    {is : List (Instr (Pattern α) α)} {r : Option (Final α)}
    (hr : Exec (Pattern.Answers fs text) (g.append is).program text (g.endFrame start o a) r) :
    Exec (Pattern.Answers fs text) (g.append is).program text (.initial 0 start inherited) r :=
  (exec_front_iff hg).2 (.inl ⟨o, a, h, hr⟩)

theorem append_instr (instr : Instr (Pattern α) α) :
    (g.append [instr]).program.instrs[(g.endFrame start o a).pc]? = some instr := by
  simp [append, program, endFrame]

theorem Reaches.next (hg : g.IsOpen) (h : g.Reaches fs text start inherited o a)
    {instr : Instr (Pattern α) α} {j : Nat} {b : Option α}
    (hs : Step (Pattern.Answers fs text) (g.append [instr]).program text (g.endFrame start o a)
      (some ((g.endFrame start o a).next j b))) :
    (g.append [instr]).Reaches fs text start inherited j b := by
  refine h.exec_append hg (.step hs ?_)
  exact .halt (f := (g.endFrame start o a).next j b)
    (by simp [append, program, endFrame, Frame.next])

theorem Reaches.fails (hg : g.IsOpen) (h : g.Reaches fs text start inherited o a)
    {instr : Instr (Pattern α) α}
    (hs : Step (Pattern.Answers fs text) (g.append [instr]).program text (g.endFrame start o a)
      none) :
    (g.append [instr]).Fails fs text start inherited :=
  h.exec_append hg (.fail hs)

theorem keep_endFrame (hg : g.Retains) (b : Option α) : (g.endFrame start o a).keep b = b := by
  simp [Frame.keep, endFrame, hg.drops]

section

variable {p : Pattern α} {m : Match α} {j : Nat}

theorem Reaches.tokenWith (hg : g.Retains)
    (h : g.Reaches fs text start inherited o a) {action : Action α}
    (hp : p.Answers fs text o a (some m))
    (hj : ∀ b, Skips (Pattern.Answers fs text) g.lexicon.ignore m.lastIndex b j) :
    (g.tokenWith p action).Reaches fs text start inherited j
      (merge a (action.apply ⟨m.matched, m.attr, a, m.extra⟩)) := by
  refine h.next hg.isOpen ?_
  rw [← keep_endFrame hg (merge a _)]
  exact .consume (append_instr _) hp (hj _)

/-- A match of the grammar and one more token has the attribute that the action computes. -/
theorem Reaches.tokenWith_attr (hg : g.Retains)
    (h : g.Reaches fs text start inherited o a) {action : Action α}
    (hp : p.Answers fs text o a (some m)) {m' : Match α}
    (hm : (g.tokenWith p action).program.Answers fs text start inherited (some m')) :
    m'.attr = merge a (action.apply ⟨m.matched, m.attr, a, m.extra⟩) := by
  obtain ⟨fin, hfin, hattr⟩ : ∃ fin, Exec (Pattern.Answers fs text) (g.tokenWith p action).program
      text (.initial 0 start inherited) (some fin) ∧ m'.attr = fin.attr := by
    cases Program.answers_iff.1 hm with
    | matched hx _ => exact ⟨_, hx, rfl⟩
  rw [hattr]
  rcases Exec.straight_inv (n := 0) hg.isOpen hfin (Nat.zero_le _) ⟨rfl, rfl, rfl⟩ rfl with
    ⟨front, hfront, hrest⟩ | ⟨-, hnone⟩
  · obtain rfl : front = ⟨o, a, .closed 0⟩ := Option.some.inj (hfront.unique h)
    rw [past_initial] at hrest
    rcases hrest.of_consume (append_instr _) with ⟨-, hnone⟩ | ⟨m₁, j, hm₁, -, hlast⟩
    · cases hnone
    · obtain rfl := Option.some.inj (hm₁.unique hp)
      have hhalt := hlast.unique (.halt (by simp [append, program, endFrame, Frame.next]))
      rw [Option.some.inj hhalt]
      exact keep_endFrame hg _
  · cases hnone

/-- A token that is read as an integer. -/
theorem Reaches.tokenInt (hg : g.Retains) (h : g.Reaches fs text start inherited o a)
    (ofInt : Int64 → α) (hp : p.Answers fs text o a (some m))
    (hj : ∀ b, Skips (Pattern.Answers fs text) g.lexicon.ignore m.lastIndex b j) :
    (g.tokenInt p ofInt).Reaches fs text start inherited j
      (merge a ((Decimal.readInt64? m.matched).map ofInt)) :=
  h.tokenWith hg hp hj

theorem Reaches.tokenWith_fails (hg : g.IsOpen) (h : g.Reaches fs text start inherited o a)
    {action : Action α} (hp : p.Answers fs text o a none) :
    (g.tokenWith p action).Fails fs text start inherited :=
  h.fails hg (.consumeFails (append_instr _) hp)

theorem Reaches.token (hg : g.Retains)
    (h : g.Reaches fs text start inherited o a) (hp : p.Answers fs text o a (some m))
    (hj : ∀ b, Skips (Pattern.Answers fs text) g.lexicon.ignore m.lastIndex b j) :
    (g.token p).Reaches fs text start inherited j (merge a m.attr) := by
  refine h.next hg.isOpen ?_
  rw [← keep_endFrame hg (merge a _)]
  exact .consume (append_instr _) hp (hj _)

theorem Reaches.token_fails (hg : g.IsOpen) (h : g.Reaches fs text start inherited o a)
    (hp : p.Answers fs text o a none) : (g.token p).Fails fs text start inherited :=
  h.fails hg (.consumeFails (append_instr _) hp)

/-- A grammar that consumes one more pattern comes to its end behind the match of the pattern. -/
theorem reaches_consume_iff (hg : g.IsOpen) {action : Option (Action α)} {b : Option α} :
    (g.append [.consume p action none true]).Reaches fs text start inherited j b ↔
      ∃ o a m, g.Reaches fs text start inherited o a ∧ p.Answers fs text o a (some m) ∧
        b = (g.endFrame start o a).matchAttr action m ∧
        Skips (Pattern.Answers fs text) g.lexicon.ignore m.lastIndex b j := by
  constructor
  · intro h
    rcases (exec_front_iff hg).1 h with ⟨o, a, hlead, hgo⟩ | ⟨-, hno⟩
    · rcases Exec.of_consume (append_instr _) hgo with ⟨-, hno⟩ | ⟨m, i, hm, hs, hlast⟩
      · cases hno
      · cases hlast.unique (.halt (by simp [append, program, endFrame, Frame.next]))
        exact ⟨o, a, m, hlead, hm, rfl, hs⟩
    · cases hno
  · rintro ⟨o, a, m, hlead, hm, rfl, hs⟩
    exact hlead.next hg (.consume (append_instr _) hm hs)

/-- A grammar that consumes one more pattern fails where it failed before, or with the pattern. -/
theorem fails_consume_iff (hg : g.IsOpen) {action : Option (Action α)} :
    (g.append [.consume p action none true]).Fails fs text start inherited ↔
      g.Fails fs text start inherited ∨
        ∃ o a, g.Reaches fs text start inherited o a ∧ p.Answers fs text o a none := by
  constructor
  · intro h
    rcases (exec_front_iff hg).1 h with ⟨o, a, hlead, hgo⟩ | ⟨hno, -⟩
    · rcases Exec.of_consume (append_instr _) hgo with ⟨hp, -⟩ | ⟨m, i, hm, hs, hlast⟩
      · exact .inr ⟨o, a, hlead, hp⟩
      · cases hlast.unique (.halt (by simp [append, program, endFrame, Frame.next]))
    · exact .inl hno
  · rintro (hno | ⟨o, a, hlead, hp⟩)
    · exact hno.append hg _
    · exact hlead.fails hg (.consumeFails (append_instr _) hp)

/-- A grammar with one more instruction ends where that instruction leads. -/
theorem reaches_append_iff (hg : g.IsOpen) (instr : Instr (Pattern α) α)
    (hi : instr.IsStraight) {b : Option α} :
    (g.append [instr]).Reaches fs text start inherited j b ↔
      ∃ o a f, g.Reaches fs text start inherited o a ∧
        Step (Pattern.Answers fs text) (g.append [instr]).program text (g.endFrame start o a)
          (some f) ∧ f.index = j ∧ f.attr = b := by
  have hhalt {o : Nat} {a : Option α} {f : Frame α}
      (hs : Step (Pattern.Answers fs text) (g.append [instr]).program text (g.endFrame start o a)
        (some f)) :
      Exec (Pattern.Answers fs text) (g.append [instr]).program text f
        (some ⟨f.index, f.attr, .closed 0⟩) := by
    obtain ⟨hf, -⟩ := hs.eq_follow hi (append_instr _)
    have hcaptures : f.captures = .closed 0 := by rw [hf]; rfl
    rw [← hcaptures]
    refine .halt ?_
    rw [hf]
    simp [append, program, endFrame, Frame.follow]
  constructor
  · intro h
    rcases (exec_front_iff hg).1 h with ⟨o, a, hlead, hgo⟩ | ⟨-, hno⟩
    · rcases hgo.of_isStraight hi (append_instr instr) with ⟨f, hs, hrest⟩ | ⟨-, hno⟩
      · cases hrest.unique (hhalt hs)
        exact ⟨o, a, f, hlead, hs, rfl, rfl⟩
      · cases hno
    · cases hno
  · rintro ⟨o, a, f, hlead, hs, rfl, rfl⟩
    exact hlead.exec_append hg (.step hs (hhalt hs))

/-- A grammar goes on behind a test where the test has the outcome asked for. -/
theorem reaches_ahead_iff (hg : g.IsOpen) {positive : Bool} {b : Option α} :
    (g.append [.ahead p positive]).Reaches fs text start inherited j b ↔
      g.Reaches fs text start inherited j b ∧
        ∃ r, p.Answers fs text j b r ∧ r.isSome = positive := by
  rw [reaches_append_iff hg (.ahead p positive) trivial]
  constructor
  · rintro ⟨o, a, f, hlead, hs, rfl, rfl⟩
    cases hs with
    | ahead hj hp hr =>
      cases (append_instr _).symm.trans hj
      exact ⟨hlead, _, hp, hr⟩
    | consume hj | loopStart hj | loopEnds hj | loopAgain hj | choice hj | guard hj | assign hj
    | transform hj | dropAttributes hj | skip hj | keyword hj => cases (append_instr _).symm.trans hj
  · rintro ⟨hlead, r, hp, hr⟩
    exact ⟨j, b, _, hlead, .ahead (append_instr _) hp hr, rfl, rfl⟩

/-- A grammar that skips once more ends behind ignorable text. -/
theorem reaches_skip_iff (hg : g.IsOpen) {b : Option α} :
    (g.append [.skip]).Reaches fs text start inherited j b ↔
      ∃ o, g.Reaches fs text start inherited o b ∧
        Skips (Pattern.Answers fs text) g.lexicon.ignore o b j := by
  rw [reaches_append_iff hg .skip trivial]
  constructor
  · rintro ⟨o, a, f, hlead, hs, rfl, rfl⟩
    cases hs with
    | skip hj hk => exact ⟨o, hlead, hk⟩
    | consume hj | loopStart hj | loopEnds hj | loopAgain hj | choice hj | ahead hj | guard hj
    | assign hj | transform hj | dropAttributes hj | keyword hj =>
      cases (append_instr _).symm.trans hj
  · rintro ⟨o, hlead, hk⟩
    exact ⟨o, b, _, hlead, .skip (append_instr _) hk, rfl, rfl⟩

theorem Reaches.choice (hg : g.Retains)
    (h : g.Reaches fs text start inherited o a) {ps : List (Pattern α)}
    (hp : FirstMatch (Pattern.Answers fs text) o a ps (some m))
    (hj : ∀ b, Skips (Pattern.Answers fs text) g.lexicon.ignore m.lastIndex b j) :
    (g.choice ps).Reaches fs text start inherited j (merge a m.attr) := by
  refine h.next hg.isOpen ?_
  rw [← keep_endFrame hg (merge a _)]
  exact .choice (append_instr _) hp (hj _)

theorem Reaches.choice_fails (hg : g.IsOpen) (h : g.Reaches fs text start inherited o a)
    {ps : List (Pattern α)} (hp : FirstMatch (Pattern.Answers fs text) o a ps none) :
    (g.choice ps).Fails fs text start inherited :=
  h.fails hg (.choiceFails (append_instr _) hp)

theorem Reaches.ahead (hg : g.IsOpen) (h : g.Reaches fs text start inherited o a)
    {positive : Bool} {r : Option (Match α)} (hp : p.Answers fs text o a r)
    (hr : r.isSome = positive) :
    (g.append [.ahead p positive]).Reaches fs text start inherited o a :=
  h.next hg (.ahead (append_instr _) hp hr)

theorem Reaches.ahead_fails (hg : g.IsOpen) (h : g.Reaches fs text start inherited o a)
    {positive : Bool} {r : Option (Match α)} (hp : p.Answers fs text o a r)
    (hr : r.isSome ≠ positive) : (g.append [.ahead p positive]).Fails fs text start inherited :=
  h.fails hg (.aheadFails (append_instr _) hp hr)

theorem Reaches.keywordIn (hg : g.IsOpen) (h : g.Reaches fs text start inherited o a)
    {words : Keywords} {found : Keywords.Found} (hf : words.search text o = some found)
    (hj : ∀ b, Skips (Pattern.Answers fs text) g.lexicon.ignore found.lastIndex b j) :
    (g.keywordIn found.matched words).Reaches fs text start inherited j a :=
  h.next hg (.keyword (append_instr _) hf rfl (hj _))

theorem Reaches.keywordIn_fails (hg : g.IsOpen) (h : g.Reaches fs text start inherited o a)
    {words : Keywords} {word : Text}
    (hf : ∀ found, words.search text o = some found → found.matched ≠ word) :
    (g.keywordIn word words).Fails fs text start inherited :=
  h.fails hg (.keywordFails (append_instr _) hf)

theorem Reaches.transform (hg : g.Retains)
    (h : g.Reaches fs text start inherited o a) (t : Transform α) :
    (g.transform t).Reaches fs text start inherited o (merge a (t.apply a)) := by
  refine h.next hg.isOpen ?_
  rw [← keep_endFrame hg (merge a _)]
  exact .transform (append_instr _)

/-- The chain without steps skips ignorable text. -/
theorem reaches_lexicon (l : Lexicon α)
    (hj : Skips (Pattern.Answers fs text) l.ignore start inherited j) :
    l.grammar.Reaches fs text start inherited j inherited := by
  cases hl : l.ignore with
  | none =>
    rw [hl] at hj
    cases hj
    exact .halt (by simp [Lexicon.grammar, program, hl, Frame.initial])
  | some q =>
    refine .step (.skip (i := j) (by simp [Lexicon.grammar, program, hl, Frame.initial]) hj) ?_
    exact .halt (f := (Frame.initial 0 start inherited).next j inherited)
      (by simp [Lexicon.grammar, program, hl, Frame.initial, Frame.next])

/-- The chain without steps and ignorable text stays where it is. -/
theorem reaches_empty_iff {b : Option α} :
    empty.Reaches fs text start inherited j b ↔ j = start ∧ b = inherited := by
  have h : empty.Reaches fs text start inherited start inherited := reaches_lexicon .empty .nothing
  constructor
  · intro h'
    cases Exec.unique h' h
    exact ⟨rfl, rfl⟩
  · rintro ⟨rfl, rfl⟩
    exact h

theorem not_fails_empty : ¬ empty.Fails fs text start inherited := by
  intro h
  cases Exec.unique h (reaches_lexicon (j := start) .empty .nothing)

end

end

end Grammar

end GrammarMachine
