import GrammarMachine.Proofs.Nesting.Resting
import GrammarMachine.Proofs.Spacing.Texts
import Mathlib.Data.List.Induction

/-!
# Steps on texts that differ in their spacing

One grammar runs on two texts that differ in their spacing, and skips the blanks of both. Where it
rests in the one text and in the other one, the offsets are abreast, and a step takes it from there
to offsets that are abreast again, or fails in both texts.

* `Pattern.MatchesBlanks`: the pattern matches the longest run of blanks, if there is one.
* `Pattern.StepsAbreast`: a pattern that comes to an answer at abreast offsets, in both texts alike.
* `Grammar.RunsAbreast`: a grammar that does so from offsets with blanks behind them.
-/

namespace GrammarMachine

variable {α : Type}

/-- The pattern matches the longest run of blanks at an offset, and does not match if there is none. -/
def Pattern.MatchesBlanks (fs : Forwards α) (blank : Char → Bool) (p : Pattern α) : Prop :=
  ∀ text i a, ∃ r, p.Answers fs text i a r ∧ r.map (·.lastIndex) =
    if ((text.from? i).getD []).takeWhile blank = [] then none
    else some (i + Text.byteLength (((text.from? i).getD []).takeWhile blank))

/-- Offsets that are abreast and not before others. -/
def Text.Onward (blank : Char → Bool) (text text' : Text) (i i' j j' : Nat) : Prop :=
  Abreast blank text text' j j' ∧ i ≤ j ∧ i' ≤ j'

/-- Tested at abreast offsets, the pattern comes to an answer in both texts. It matches in both or in
none, and goes on to offsets behind which the texts differ in their spacing only. -/
def Pattern.StepsAbreast (fs : Forwards α) (blank : Char → Bool) (text text' : Text)
    (p : Pattern α) : Prop :=
  ∀ i i' a a', Text.Abreast blank text text' i i' →
    ∃ r r', p.Answers fs text i a r ∧ p.Answers fs text' i' a' r' ∧
      Option.Rel (fun m m' => Text.Near blank text text' m.lastIndex m'.lastIndex ∧
        i ≤ m.lastIndex ∧ i' ≤ m'.lastIndex) r r'

/-- Run from offsets behind which the texts differ in their spacing only, the grammar comes to its
end in both texts or fails in both. -/
def Grammar.RunsAbreast (fs : Forwards α) (blank : Char → Bool) (text text' : Text)
    (g : Grammar α) : Prop :=
  ∀ i i' a a', Text.Near blank text text' i i' →
    (∃ o b o' b', g.Reaches fs text i a o b ∧ g.Reaches fs text' i' a' o' b' ∧
      Text.Onward blank text text' i i' o o') ∨
    (g.Fails fs text i a ∧ g.Fails fs text' i' a')

variable {fs : Forwards α} {blank : Char → Bool} {text text' : Text} {q : Pattern α}

/-! ## Blanks -/

theorem Pattern.MatchesBlanks.skips (hq : q.MatchesBlanks fs blank) (text : Text) (i : Nat)
    (a : Option α) : Skips (Pattern.Answers fs text) (some q) i a
      (i + Text.byteLength (((text.from? i).getD []).takeWhile blank)) := by
  obtain ⟨r, hr, hlast⟩ := hq text i a
  split at hlast
  · rename_i hno
    rw [hno, Text.byteLength_nil, Nat.add_zero]
    exact .stays (Option.map_eq_none_iff.1 hlast ▸ hr)
  · obtain ⟨m, rfl, hm⟩ := Option.map_eq_some_iff.1 hlast
    rw [← hm]
    exact .moves hr

theorem Pattern.MatchesBlanks.skipsAlike (hq : q.MatchesBlanks fs blank) (text : Text) :
    SkipsAlike (Pattern.Answers fs text) (some q) :=
  skipsAlike_of_skips Pattern.answers_unique (hq.skips text)

theorem Text.Near.exists_skips (hq : q.MatchesBlanks fs blank) {i i' : Nat}
    (h : Near blank text text' i i') :
    ∃ j j', (∀ a, Skips (Pattern.Answers fs text) (some q) i a j) ∧
      (∀ a, Skips (Pattern.Answers fs text') (some q) i' a j') ∧
      Onward blank text text' i i' j j' := by
  obtain ⟨v, v', hv, hv', -⟩ := id h
  have hskip := hq.skips text i
  have hskip' := hq.skips text' i'
  simp only [hv, hv', Option.getD_some] at hskip hskip'
  exact ⟨_, _, hskip, hskip', h.abreast hv hv', Nat.le_add_right _ _, Nat.le_add_right _ _⟩

theorem Text.Onward.trans {i i' j j' k k' : Nat} (h : i ≤ j) (h' : i' ≤ j')
    (hk : Onward blank text text' j j' k k') : Onward blank text text' i i' k k' :=
  ⟨hk.1, Nat.le_trans h hk.2.1, Nat.le_trans h' hk.2.2⟩

/-- A set of characters, one or more of them, is a pattern of this kind. -/
theorem Pattern.matchesBlanks_run (source : Text) (s : CharSet) :
    (Pattern.regex (α := α) ⟨.standard, source, .run s 1⟩).MatchesBlanks fs s.contains := by
  intro text i a
  have hnone (h : ((text.from? i).getD []).takeWhile s.contains = []) :
      (Pattern.regex (α := α) ⟨.standard, source, .run s 1⟩).Answers fs text i a none := by
    refine answers_run_none source s (Nat.le_refl 1) (fun rest hrest => ?_) a
    rw [hrest, Option.getD_some] at h
    rw [h]
    exact Nat.one_pos
  split
  · exact ⟨none, hnone ‹_›, rfl⟩
  · rename_i hrun
    cases hrest : text.from? i with
    | none => simp [hrest] at hrun
    | some rest =>
      rw [hrest, Option.getD_some] at hrun
      exact ⟨_, answers_run source s (Nat.le_refl 1) hrest (List.length_pos_iff.2 hrun) a, rfl⟩

/-! ## Patterns -/

/-- A word that stands in one of the texts stands in the other one. -/
theorem Text.Abreast.literalEnd? {t : Text} (ht : ∀ c ∈ t, blank c = false) {i i' stop : Nat}
    (h : Abreast blank text text' i i') (hstop : literalEnd? t text i = some stop) :
    ∃ stop', literalEnd? t text' i' = some stop' ∧ Near blank text text' stop stop' ∧
      i ≤ stop ∧ i' ≤ stop' := by
  obtain ⟨u, v, rfl, rfl, rfl⟩ := literalEnd?_eq_some hstop
  obtain ⟨v', hv', hnear⟩ := h.of_append ht (from?_append u (t ++ v))
  exact ⟨_, by simp [GrammarMachine.literalEnd?, hv'], hnear, Nat.le_add_right _ _,
    Nat.le_add_right _ _⟩

theorem Pattern.stepsAbreast_literal {t : Text} (ht : ∀ c ∈ t, blank c = false) :
    (literal t : Pattern α).StepsAbreast fs blank text text' := by
  intro i i' a a' h
  refine ⟨_, _, Pattern.answers_iff.2 rfl, Pattern.answers_iff.2 rfl, ?_⟩
  simp only [literalAt]
  cases hstop : literalEnd? t text i with
  | some stop =>
    obtain ⟨stop', hstop', hend⟩ := h.literalEnd? ht hstop
    rw [hstop']
    exact .some hend
  | none =>
    cases hstop' : literalEnd? t text' i' with
    | none => exact .none
    | some stop' =>
      obtain ⟨stop, hstop'', -⟩ := h.symm.literalEnd? ht hstop'
      rw [hstop] at hstop''
      cases hstop''

theorem Pattern.stepsAbreast_endOfInput :
    (endOfInput : Pattern α).StepsAbreast fs blank text text' := by
  intro i i' a a' h
  refine ⟨_, _, Pattern.answers_iff.2 rfl, Pattern.answers_iff.2 rfl, ?_⟩
  by_cases hi : text.byteLength ≤ i
  · have hi' := h.byteLength_le hi
    obtain ⟨hle, hle'⟩ := h.le_byteLength
    rw [if_pos hi, if_pos hi']
    refine .some ⟨?_, hle, hle'⟩
    rw [Nat.le_antisymm hi hle, Nat.le_antisymm hi' hle']
    exact h.near
  · rw [if_neg hi, if_neg (mt h.symm.byteLength_le hi)]
    exact .none

theorem exists_firstMatch_abreast {ps : List (Pattern α)}
    (hps : ∀ p ∈ ps, p.StepsAbreast fs blank text text') {i i' : Nat} (a a' : Option α)
    (h : Text.Abreast blank text text' i i') :
    ∃ r r', FirstMatch (Pattern.Answers fs text) i a ps r ∧
      FirstMatch (Pattern.Answers fs text') i' a' ps r' ∧
      Option.Rel (fun m m' => Text.Near blank text text' m.lastIndex m'.lastIndex ∧
        i ≤ m.lastIndex ∧ i' ≤ m'.lastIndex) r r' := by
  induction ps with
  | nil => exact ⟨none, none, .nil, .nil, .none⟩
  | cons p ps ih =>
    obtain ⟨hp, hps⟩ := List.forall_mem_cons.1 hps
    obtain ⟨r, r', hr, hr', hrel⟩ := hp i i' a a' h
    cases hrel with
    | some hm => exact ⟨_, _, .here hr, .here hr', .some hm⟩
    | none =>
      obtain ⟨r, r', hr₀, hr₀', hrel⟩ := ih hps
      exact ⟨r, r', .later hr hr₀, .later hr' hr₀', hrel⟩

/-! ## Steps of a grammar -/

/-- Whether the step consumes patterns or looks ahead at one. -/
def Link.Tests : Link α → Prop
  | token _ _ | choice _ | ahead _ _ => True
  | _ => False

/-- The patterns that the step tests. -/
def Link.patterns : Link α → List (Pattern α)
  | token p _ | ahead p _ => [p]
  | choice ps => ps
  | _ => []

namespace Grammar

variable {l : Lexicon α} {g : Grammar α}

theorem runsAbreast_lexicon (hl : l.ignore = some q) (hq : q.MatchesBlanks fs blank) :
    l.grammar.RunsAbreast fs blank text text' := by
  intro i i' a a' h
  obtain ⟨j, j', hj, hj', hon⟩ := h.exists_skips hq
  rw [← hl] at hj hj'
  exact .inl ⟨j, a, j', a', reaches_lexicon l (hj a), reaches_lexicon l (hj' a'), hon⟩

/-- Where the grammar runs alike in both texts, so does the grammar with one more instruction, if the
instruction goes on from abreast offsets to such offsets. -/
theorem RunsAbreast.append (hg : g.IsOpen) (h : g.RunsAbreast fs blank text text')
    {is : List (Instr (Pattern α) α)}
    (hstep : ∀ i i' a a' o b o' b', g.Reaches fs text i a o b → g.Reaches fs text' i' a' o' b' →
      Text.Abreast blank text text' o o' →
      (∃ j c j' c', (g.append is).Reaches fs text i a j c ∧
        (g.append is).Reaches fs text' i' a' j' c' ∧ Text.Onward blank text text' o o' j j') ∨
      ((g.append is).Fails fs text i a ∧ (g.append is).Fails fs text' i' a')) :
    (g.append is).RunsAbreast fs blank text text' := by
  intro i i' a a' hi
  rcases h i i' a a' hi with ⟨o, b, o', b', hlead, hlead', ho, hle, hle'⟩ | ⟨hno, hno'⟩
  · rcases hstep i i' a a' o b o' b' hlead hlead' ho with
      ⟨j, c, j', c', hj, hj', hon⟩ | hfails
    · exact .inl ⟨j, c, j', c', hj, hj', hon.trans hle hle'⟩
    · exact .inr hfails
  · exact .inr ⟨hno.append hg _, hno'.append hg _⟩

theorem RunsAbreast.ahead (hg : g.IsOpen) (h : g.RunsAbreast fs blank text text') {p : Pattern α}
    (hp : p.StepsAbreast fs blank text text') (positive : Bool) :
    (g.append [.ahead p positive]).RunsAbreast fs blank text text' := by
  refine h.append hg fun i i' a a' o b o' b' hlead hlead' ho => ?_
  obtain ⟨r, r', hr, hr', hrel⟩ := hp o o' b b' ho
  have hsome : r'.isSome = r.isSome := by cases hrel <;> rfl
  by_cases hpos : r.isSome = positive
  · exact .inl ⟨o, b, o', b', hlead.ahead hg hr hpos, hlead'.ahead hg hr' (hsome.trans hpos),
      ho, Nat.le_refl _, Nat.le_refl _⟩
  · exact .inr ⟨hlead.ahead_fails hg hr hpos, hlead'.ahead_fails hg hr' (hsome ▸ hpos)⟩

section

variable (hl : g.lexicon.ignore = some q) (hq : q.MatchesBlanks fs blank) (hg : g.Retains)
  (h : g.RunsAbreast fs blank text text')

include hl hq hg h

theorem RunsAbreast.token {p : Pattern α} (hp : p.StepsAbreast fs blank text text')
    (action : Option (Action α)) :
    ((Link.token p action).add g).RunsAbreast fs blank text text' := by
  rw [Link.add_eq]
  refine h.append hg.isOpen fun i i' a a' o b o' b' hlead hlead' ho => ?_
  obtain ⟨r, r', hr, hr', hrel⟩ := hp o o' b b' ho
  cases hrel with
  | none =>
    exact .inr ⟨(fails_consume_iff hg.isOpen).2 (.inr ⟨o, b, hlead, hr⟩),
      (fails_consume_iff hg.isOpen).2 (.inr ⟨o', b', hlead', hr'⟩)⟩
  | some hm =>
    obtain ⟨hnear, hle, hle'⟩ := hm
    obtain ⟨j, j', hj, hj', hon⟩ := hnear.exists_skips hq
    rw [← hl] at hj hj'
    exact .inl ⟨j, _, j', _, (reaches_consume_iff hg.isOpen).2 ⟨o, b, _, hlead, hr, rfl, hj _⟩,
      (reaches_consume_iff hg.isOpen).2 ⟨o', b', _, hlead', hr', rfl, hj' _⟩, hon.trans hle hle'⟩

theorem RunsAbreast.choice {ps : List (Pattern α)}
    (hps : ∀ p ∈ ps, p.StepsAbreast fs blank text text') :
    (g.choice ps).RunsAbreast fs blank text text' := by
  refine h.append hg.isOpen fun i i' a a' o b o' b' hlead hlead' ho => ?_
  obtain ⟨r, r', hr, hr', hrel⟩ := exists_firstMatch_abreast hps b b' ho
  cases hrel with
  | none => exact .inr ⟨hlead.choice_fails hg.isOpen hr, hlead'.choice_fails hg.isOpen hr'⟩
  | some hm =>
    obtain ⟨hnear, hle, hle'⟩ := hm
    obtain ⟨j, j', hj, hj', hon⟩ := hnear.exists_skips hq
    rw [← hl] at hj hj'
    exact .inl ⟨j, _, j', _, hlead.choice hg hr hj, hlead'.choice hg hr' hj',
      hon.trans hle hle'⟩

theorem RunsAbreast.add {s : Link α} (hs : s.Tests)
    (hp : ∀ p ∈ s.patterns, p.StepsAbreast fs blank text text') :
    (s.add g).RunsAbreast fs blank text text' := by
  cases s with
  | token p action => exact h.token hl hq hg (hp p List.mem_cons_self) action
  | choice ps => exact h.choice hl hq hg hp
  | ahead p positive =>
    rw [Link.add_eq]
    exact h.ahead hg.isOpen (hp p List.mem_cons_self) positive
  | _ => exact hs.elim

end

theorem retains_chain {ss : List (Link α)} (hss : ∀ s ∈ ss, s.Tests) : (l.chain ss).Retains :=
  Lexicon.retains_chain fun h => hss _ h

/-- An open grammar whose steps test patterns that step alike runs alike in both texts. -/
theorem runsAbreast_chain (hl : l.ignore = some q) (hq : q.MatchesBlanks fs blank)
    {ss : List (Link α)} (hss : ∀ s ∈ ss, s.Tests)
    (hp : ∀ s ∈ ss, ∀ p ∈ s.patterns, p.StepsAbreast fs blank text text') :
    (l.chain ss).RunsAbreast fs blank text text' := by
  induction ss using List.reverseRecOn with
  | nil => exact runsAbreast_lexicon hl hq
  | append_singleton ss s ih =>
    have hfront {P : Link α → Prop} (hP : ∀ s' ∈ ss ++ [s], P s') : (∀ s' ∈ ss, P s') ∧ P s :=
      ⟨fun s' hs' => hP s' (List.mem_append_left _ hs'), hP s (by simp)⟩
    rw [show l.chain (ss ++ [s]) = s.add (l.chain ss) by simp [Lexicon.chain]]
    exact (ih (hfront hss).1 (hfront hp).1).add (Lexicon.chain_lexicon ▸ hl) hq
      (retains_chain (hfront hss).1) (hfront hss).2 (hfront hp).2

end Grammar

end GrammarMachine
