import GrammarMachine.Proofs.Repetition.Attribute
import GrammarMachine.Proofs.Repetition.Pairing

/-!
# Folding after a repetition and accumulating during it

A fold goes over the iterations that a repetition has kept. Another way to the same attribute is to
start from the initial value and to apply the action in every iteration to what has been accumulated
before, though it is not known yet which iterations are kept.

* `Grammar.accumulating`: the pattern, with the action applied to each match of it.
* `Grammar.Tests`: the offsets at which a repetition tests its pattern.
* `Grammar.fold_eq_accumulate`: both ways come to the same match.
-/

namespace GrammarMachine

variable {α : Type} {fs : Forwards α} {text : Text}

/-- What the pattern matches, and what it synthesizes, does not depend on the attribute. -/
def Pattern.AnswersAlike (fs : Forwards α) (text : Text) (p : Pattern α) : Prop :=
  ∀ i a b r, p.Answers fs text i a r → p.Answers fs text i b r

/-- The iteration `it'` leaves what the action makes of the iteration `it` and of the attribute that
`it'` began under. -/
def Accumulates (action : Action α) (_ b : Option α) (it it' : Iteration α) : Prop :=
  it'.attr = foldStep false action b it.found

/-- What has been accumulated after some iterations is what a fold over them computes. -/
theorem Paired.threadedAttr_eq_foldl {R : Nat → Nat → Prop} {action : Action α} {a b : Option α}
    {its its' : List (Iteration α)} (h : Paired R (Accumulates action) a b its its') (n : Nat) :
    threadedAttr b its' n = ((its.take n).map (·.found)).foldl (foldStep false action) b := by
  induction h generalizing n with
  | nil => simp
  | cons _ hattr _ ih =>
    cases n with
    | zero => simp
    | succ n => rw [threadedAttr_succ, ih, hattr]; rfl

namespace Grammar

variable {g : Grammar α} {min : Nat} {max : Option Nat} {p : Pattern α} {action : Action α}
  {init : Option α} {ts : List Terminal} {start : Nat} {inherited : Option α}

/-- The pattern, with the action applied to its match and to the inherited attribute. -/
def accumulating (p : Pattern α) (action : Action α) : Pattern α :=
  (empty.tokenWith p action).pattern

/-- The grammar with the attribute overwritten at its end, if there is a value for it. -/
def seeded (g : Grammar α) : Option α → Grammar α
  | some v => g.assign v
  | none => g

/-- The offsets at which a repetition behind the grammar tests its pattern. -/
inductive Tests (fs : Forwards α) (text : Text) (g : Grammar α) (p : Pattern α) (start : Nat)
    (inherited : Option α) : Nat → Prop
  | first {o a} : g.Reaches fs text start inherited o a → Tests fs text g p start inherited o
  | next {o a b m j} : Tests fs text g p start inherited o → p.Answers fs text o a (some m) →
      Skips (Pattern.Answers fs text) g.lexicon.ignore m.lastIndex b j →
      Tests fs text g p start inherited j

/-! ## The accumulating pattern -/

theorem accumulating_answers_iff {i : Nat} {a : Option α} {r : Option (Match α)} :
    (accumulating p action).Answers fs text i a r ↔
      ∃ r₀, p.Answers fs text i a r₀ ∧ r = r₀.bind fun m =>
        (text.slice? i m.lastIndex).map fun t =>
          ⟨t, m.lastIndex, merge a (action.apply ⟨m.matched, m.attr, a, m.extra⟩), []⟩ := by
  have hopen : (empty : Grammar α).IsOpen := retains_empty.isOpen
  have hattr (m : Match α) : ((empty : Grammar α).endFrame i i a).matchAttr (some action) m =
      merge a (action.apply ⟨m.matched, m.attr, a, m.extra⟩) :=
    keep_endFrame retains_empty _
  rw [accumulating, pattern, Pattern.answers_program_iff,
    answers_iff (retains_empty.tokenWith p action).isOpen]
  constructor
  · rintro (⟨o, b, hreach, rfl⟩ | ⟨hfail, rfl⟩)
    · obtain ⟨_, _, m, hlead, hm, rfl, hs⟩ := (reaches_consume_iff hopen).1 hreach
      obtain ⟨rfl, rfl⟩ := reaches_empty_iff.1 hlead
      cases hs
      exact ⟨some m, hm, by rw [hattr]; rfl⟩
    · rcases (fails_consume_iff hopen).1 hfail with hno | ⟨_, _, hlead, hp⟩
      · exact absurd hno not_fails_empty
      · obtain ⟨rfl, rfl⟩ := reaches_empty_iff.1 hlead
        exact ⟨none, hp, rfl⟩
  · rintro ⟨r₀, hr₀, rfl⟩
    have hlead : (empty : Grammar α).Reaches fs text i a i a := reaches_empty_iff.2 ⟨rfl, rfl⟩
    cases r₀ with
    | none => exact .inr ⟨(fails_consume_iff hopen).2 (.inr ⟨i, a, hlead, hr₀⟩), rfl⟩
    | some m =>
      exact .inl ⟨m.lastIndex, _, (reaches_consume_iff hopen).2
        ⟨i, a, m, hlead, hr₀, (hattr m).symm, .nothing⟩, rfl⟩

/-! ## The seeded grammar -/

theorem seeded_lexicon : (g.seeded init).lexicon = g.lexicon := by cases init <;> rfl

theorem Retains.seeded (hg : g.Retains) (init : Option α) : (g.seeded init).Retains := by
  cases init with
  | none => exact hg
  | some v => exact hg.append trivial rfl

theorem exec_assign (hg : g.Retains) (v : α) {o : Nat} {a : Option α} :
    Exec (Pattern.Answers fs text) (g.assign v).program text (g.endFrame start o a)
      (some ⟨o, some v, .closed 0⟩) := by
  have h : Exec (Pattern.Answers fs text) (g.assign v).program text (g.endFrame start o a)
      (some ⟨o, (g.endFrame start o a).keep (some v), .closed 0⟩) :=
    .step (.assign (append_instr _)) <|
      .halt (f := (g.endFrame start o a).next o ((g.endFrame start o a).keep (some v)))
        (by simp [assign, append, program, endFrame, Frame.next])
  rwa [keep_endFrame hg] at h

/-- The seeded grammar ends where the grammar does, with the attribute that a fold starts from. -/
theorem reaches_seeded_iff (hg : g.Retains) {o : Nat} {b : Option α} :
    (g.seeded init).Reaches fs text start inherited o b ↔
      ∃ a, g.Reaches fs text start inherited o a ∧ b = merge a init := by
  cases init with
  | none => exact ⟨fun h => ⟨b, h, rfl⟩, fun ⟨_, h, hb⟩ => hb ▸ h⟩
  | some v =>
    constructor
    · intro h
      rcases (exec_front_iff hg.isOpen).1 h with ⟨o', a, hlead, hgo⟩ | ⟨-, hno⟩
      · cases Exec.unique hgo (exec_assign hg v)
        exact ⟨a, hlead, rfl⟩
      · cases hno
    · rintro ⟨a, hlead, rfl⟩
      exact hlead.exec_append hg.isOpen (exec_assign hg v)

theorem fails_seeded_iff (hg : g.Retains) :
    (g.seeded init).Fails fs text start inherited ↔ g.Fails fs text start inherited := by
  cases init with
  | none => exact Iff.rfl
  | some v =>
    constructor
    · intro h
      rcases (exec_front_iff hg.isOpen).1 h with ⟨o, a, -, hgo⟩ | ⟨hno, -⟩
      · cases Exec.unique hgo (exec_assign hg v)
      · exact hno
    · exact fun h => h.append hg.isOpen _

/-! ## Iterations -/

section

variable (hp : p.AnswersAlike fs text)
  (hskip : SkipsAlike (Pattern.Answers fs text) g.lexicon.ignore)
  (hrange : ∀ o a m, g.Tests fs text p start inherited o → p.Answers fs text o a (some m) →
    ∃ t, text.slice? o m.lastIndex = some t)

include hp hskip hrange

/-- An iteration of the pattern comes with one of the accumulating pattern. -/
theorem exists_iterates_accumulating (action : Action α) (o o' : Nat) (a b : Option α)
    (r : Option (Iteration α)) (hoo' : o = o') (ho : g.Tests fs text p start inherited o)
    (h : Iterates (Pattern.Answers fs text) g.lexicon.ignore false p o a r) :
    ∃ r', Iterates (Pattern.Answers fs text) g.lexicon.ignore false (accumulating p action) o' b r' ∧
      Option.Rel (fun it it' => it.stop = it'.stop ∧ Accumulates action a b it it' ∧
        g.Tests fs text p start inherited it.stop) r r' := by
  subst hoo'
  cases h with
  | fails hfail =>
    exact ⟨none, .fails (accumulating_answers_iff.2 ⟨none, hp _ _ b _ hfail, rfl⟩), .none⟩
  | @ends _ _ m stop hm hs =>
    obtain ⟨t, ht⟩ := hrange o a m ho hm
    have hq : (accumulating p action).Answers fs text o b
        (some ⟨t, m.lastIndex, merge b (action.apply ⟨m.matched, m.attr, b, m.extra⟩), []⟩) :=
      accumulating_answers_iff.2 ⟨some m, hp _ _ b _ hm, by simp [ht]⟩
    refine ⟨_, .ends hq (hskip _ _ _ _ hs), .some ⟨rfl, ?_, .next ho hm hs⟩⟩
    simp [Accumulates, foldStep, merge, Option.or_assoc]

/-- An iteration of the accumulating pattern comes with one of the pattern. -/
theorem exists_iterates_of_accumulating (action : Action α) (o o' : Nat) (b a : Option α)
    (r' : Option (Iteration α)) (hoo' : o = o') (ho : g.Tests fs text p start inherited o)
    (h : Iterates (Pattern.Answers fs text) g.lexicon.ignore false (accumulating p action) o b r') :
    ∃ r, Iterates (Pattern.Answers fs text) g.lexicon.ignore false p o' a r ∧
      Option.Rel (fun it' it => it'.stop = it.stop ∧ Accumulates action a b it it' ∧
        g.Tests fs text p start inherited it'.stop) r' r := by
  subst hoo'
  cases h with
  | fails hfail =>
    obtain ⟨r, hr, hnone⟩ := accumulating_answers_iff.1 hfail
    cases r with
    | none => exact ⟨none, .fails (hp _ _ a _ hr), .none⟩
    | some m =>
      obtain ⟨t, ht⟩ := hrange o b m ho hr
      simp [ht] at hnone
  | @ends _ _ m' stop hm' hs =>
    obtain ⟨r, hr, hsome⟩ := accumulating_answers_iff.1 hm'
    cases r with
    | none => cases hsome
    | some m =>
      obtain ⟨t, ht⟩ := hrange o b m ho hr
      obtain rfl : m' = _ := by simpa [ht] using hsome
      refine ⟨_, .ends (hp _ _ a _ hr) (hskip _ _ _ _ hs), .some ⟨rfl, ?_, .next ho hr hs⟩⟩
      simp [Accumulates, foldStep, merge, Option.or_assoc]

end

/-! ## The two repetitions -/

/-- The loop of a repetition with a fold. -/
def foldingLoop (g : Grammar α) (fs : Forwards α) (text : Text) (min : Nat) (max : Option Nat)
    (p : Pattern α) (action : Action α) (init : Option α) (ts : List Terminal) : Loop α :=
  g.loop fs text min max p (some (action, init)) ts

/-- The loop of the repetition that accumulates. -/
def accumulatingLoop (g : Grammar α) (fs : Forwards α) (text : Text) (min : Nat) (max : Option Nat)
    (p : Pattern α) (action : Action α) (init : Option α) (ts : List Terminal) : Loop α :=
  (g.seeded init).loop fs text min max (accumulating p action) none ts

theorem iterates_foldingLoop (hg : g.Retains) :
    (g.foldingLoop fs text min max p action init ts).iterates =
      Iterates (Pattern.Answers fs text) g.lexicon.ignore false p := by
  simp only [foldingLoop, loop, hg.drops]

theorem iterates_accumulatingLoop (hg : g.Retains) :
    (g.accumulatingLoop fs text min max p action init ts).iterates =
      Iterates (Pattern.Answers fs text) g.lexicon.ignore false (accumulating p action) := by
  simp only [accumulatingLoop, loop, seeded_lexicon, (hg.seeded init).drops]

theorem follows_accumulatingLoop :
    (g.accumulatingLoop fs text min max p action init ts).follows =
      (g.foldingLoop fs text min max p action init ts).follows := by
  simp only [accumulatingLoop, foldingLoop, loop, seeded_lexicon]

/-- What the fold computes has been accumulated. -/
theorem attrAfter_alike (hg : g.Retains) {R : Nat → Nat → Prop} {o n : Nat} {a : Option α}
    {its its' : List (Iteration α)} (h : Paired R (Accumulates action) a (merge a init) its its') :
    (g.accumulatingLoop fs text min max p action init ts).attrAfter
        ((g.seeded init).loopFrame start o (merge a init)) [] its' n =
      (g.foldingLoop fs text min max p action init ts).attrAfter (g.loopFrame start o a) [] its n :=
  calc
    _ = threadedAttr (merge a init) its' n := attrAfter_threaded (hg.seeded init).drops ..
    _ = ((its.take n).map (·.found)).foldl (foldStep false action) (merge a init) :=
      Paired.threadedAttr_eq_foldl h n
    _ = _ := (attrAfter_folding hg.drops ..).symm

section

variable (hb : checkBounds min max = .ok ())
  (hskip : SkipsAlike (Pattern.Answers fs text) g.lexicon.ignore) (hg : g.Retains)
  (hp : p.AnswersAlike fs text)
  (hrange : ∀ o a m, g.Tests fs text p start inherited o → p.Answers fs text o a (some m) →
    ∃ t, text.slice? o m.lastIndex = some t)

include hb hskip

theorem foldingLoop_within : (g.foldingLoop fs text min max p action init ts).Within
    (Pattern.Answers fs text) (g.repetition min max p (some (action, init)) ts).program text :=
  loop_within hb hskip

theorem accumulatingLoop_within : (g.accumulatingLoop fs text min max p action init ts).Within
    (Pattern.Answers fs text)
    ((g.seeded init).repetition min max (accumulating p action) none ts).program text :=
  loop_within hb (by rwa [seeded_lexicon])

include hg hp hrange

/-- A run of the repetition with the fold comes with one of the accumulating repetition. -/
theorem exec_accumulating_of_folding {x : Option (Final α)}
    (h : Exec (Pattern.Answers fs text)
      (g.repetition min max p (some (action, init)) ts).program text (.initial 1 start inherited) x) :
    ∃ y, Exec (Pattern.Answers fs text)
        ((g.seeded init).repetition min max (accumulating p action) none ts).program text
        (.initial 1 start inherited) y ∧
      Option.Rel (fun fin fin' => fin'.index = fin.index ∧ fin'.attr = fin.attr) x y := by
  rcases (exec_repetition_iff hg.isOpen).1 h with ⟨o, a, hlead, hloop⟩ | ⟨hno, rfl⟩
  · obtain ⟨y, hy, its, its', hpaired, -, hrel⟩ :=
      (foldingLoop_within hb hskip).finished_alike
        (accumulatingLoop_within hb hskip)
        (.of_eq rfl rfl follows_accumulatingLoop fun _ _ _ => Follow.unique)
        (loop_reached hb start o a) (loop_reached hb start o (merge a init)) rfl rfl
        (fun its hits => by
          rw [iterates_foldingLoop hg] at hits
          rw [iterates_accumulatingLoop hg]
          exact hits.exists_paired oneToOne_eq
            (exists_iterates_accumulating hp hskip hrange action) rfl (.first hlead)) hloop
    refine ⟨y, (exec_repetition_iff (hg.seeded init).isOpen).2
      (.inl ⟨o, merge a init, (reaches_seeded_iff hg).2 ⟨a, hlead, rfl⟩, hy⟩), ?_⟩
    cases hrel with
    | none => exact .none
    | some hfin =>
      obtain ⟨hindex, n, -, hattr, hattr'⟩ := hfin
      exact .some ⟨hindex.symm, by rw [hattr', hattr]; exact attrAfter_alike hg hpaired⟩
  · exact ⟨none, (exec_repetition_iff (hg.seeded init).isOpen).2
      (.inr ⟨(fails_seeded_iff hg).2 hno, rfl⟩), .none⟩

/-- A run of the accumulating repetition comes with one of the repetition with the fold. -/
theorem exec_folding_of_accumulating {x : Option (Final α)}
    (h : Exec (Pattern.Answers fs text)
      ((g.seeded init).repetition min max (accumulating p action) none ts).program text
      (.initial 1 start inherited) x) :
    ∃ y, Exec (Pattern.Answers fs text)
        (g.repetition min max p (some (action, init)) ts).program text
        (.initial 1 start inherited) y ∧
      Option.Rel (fun fin fin' => fin'.index = fin.index ∧ fin'.attr = fin.attr) x y := by
  rcases (exec_repetition_iff (hg.seeded init).isOpen).1 h with ⟨o, b, hseeded, hloop⟩ | ⟨hno, rfl⟩
  · obtain ⟨a, hlead, rfl⟩ := (reaches_seeded_iff hg).1 hseeded
    obtain ⟨y, hy, its', its, hpaired, -, hrel⟩ :=
      (accumulatingLoop_within hb hskip).finished_alike
        (foldingLoop_within hb hskip)
        (.of_eq rfl rfl follows_accumulatingLoop.symm fun _ _ _ => Follow.unique)
        (loop_reached hb start o (merge a init)) (loop_reached hb start o a) rfl rfl
        (fun its hits => by
          rw [iterates_accumulatingLoop hg] at hits
          rw [iterates_foldingLoop hg]
          exact hits.exists_paired oneToOne_eq
            (exists_iterates_of_accumulating hp hskip hrange action) rfl (.first hlead)) hloop
    refine ⟨y, (exec_repetition_iff hg.isOpen).2 (.inl ⟨o, a, hlead, hy⟩), ?_⟩
    cases hrel with
    | none => exact .none
    | some hfin =>
      obtain ⟨hindex, n, -, hattr, hattr'⟩ := hfin
      exact .some ⟨hindex.symm,
        by rw [hattr', hattr]; exact (attrAfter_alike hg hpaired.swap).symm⟩
  · exact ⟨none, (exec_repetition_iff hg.isOpen).2 (.inr ⟨(fails_seeded_iff hg).1 hno, rfl⟩), .none⟩

end

/-- A repetition with a fold comes to the same match as the repetition that accumulates, if the
pattern takes no notice of the attribute and covers a range of the text wherever it is tested. -/
theorem fold_eq_accumulate {r : Repetition α} (ts : List Terminal) (hg : g.Retains)
    (hr : g.tokenTimes min max p = .ok r) (hp : p.AnswersAlike fs text)
    (hskip : SkipsAlike (Pattern.Answers fs text) g.lexicon.ignore) {start : Nat}
    {inherited : Option α}
    (hrange : ∀ o a m, g.Tests fs text p start inherited o → p.Answers fs text o a (some m) →
      ∃ t, text.slice? o m.lastIndex = some t) (action : Action α) (init : Option α) :
    ∃ r', (g.seeded init).tokenTimes min max (empty.tokenWith p action).pattern = .ok r' ∧
      ∀ res, ((r.withFold action init).followedBy ts).program.Answers fs text start inherited res ↔
        (r'.followedBy ts).program.Answers fs text start inherited res := by
  obtain ⟨hb, rfl⟩ := tokenTimes_eq_ok hr
  refine ⟨_, by rw [tokenTimes, hb]; rfl, fun res => ⟨?_, ?_⟩⟩
  · exact .of_alike fun x hx => exec_accumulating_of_folding hb hskip hg hp hrange hx
  · exact .of_alike fun x hx => exec_folding_of_accumulating hb hskip hg hp hrange hx

/-- The third line break belongs to the terminal, and the action gives nothing for the second. -/
theorem fold_eq_accumulate_backtracked :
    ∃ r', ((empty : Grammar Nat).seeded (some 0)).tokenTimes 1 (some 3)
        (empty.tokenWith (.literal ['\n'])
          ⟨fun c => c.inherited.bind fun n => if n = 0 then some 1 else none, none⟩).pattern = .ok r' ∧
      (r'.followedBy [.lineBreak]).program.Answers .empty ['\n', '\n', '\n'] 0 none
        (some ⟨['\n', '\n', '\n'], 3, some 1, []⟩) := by
  let action : Action Nat := ⟨fun c => c.inherited.bind fun n => if n = 0 then some 1 else none, none⟩
  have hp : (Pattern.literal ['\n'] : Pattern Nat).AnswersAlike .empty ['\n', '\n', '\n'] :=
    fun _ _ _ _ h => Pattern.answers_iff.2 (Pattern.answers_iff.1 h :)
  have hrange : ∀ (o : Nat) (a : Option Nat) (m : Match Nat),
      (empty : Grammar Nat).Tests .empty ['\n', '\n', '\n'] (.literal ['\n']) 0 none o →
      (Pattern.literal ['\n']).Answers .empty ['\n', '\n', '\n'] o a (some m) →
      ∃ t, Text.slice? ['\n', '\n', '\n'] o m.lastIndex = some t := by
    intro o a m _ hm
    have hm : some m = literalAt ['\n'] _ o := Pattern.answers_iff.1 hm
    obtain ⟨stop, hstop, rfl⟩ := Option.map_eq_some_iff.1 hm.symm
    obtain ⟨u, v, htext, rfl, rfl⟩ := literalEnd?_eq_some hstop
    rw [htext]
    exact ⟨_, Text.slice?_append u ['\n'] v⟩
  have hr : (empty : Grammar Nat).tokenTimes 1 (some 3) (.literal ['\n']) =
      .ok (empty.repeated 1 (some 3) (.literal ['\n'])) := rfl
  obtain ⟨r', hr', h⟩ := fold_eq_accumulate [.lineBreak] retains_empty hr hp
    (fun _ _ _ _ h => by cases h; exact .nothing) hrange action (some 0)
  refine ⟨r', hr', (h _).1 ?_⟩
  exact Pattern.answers_program_iff.1 (Pattern.answers_of_outcome? 16 (by decide +kernel))

end Grammar

end GrammarMachine
