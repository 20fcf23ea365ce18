import GrammarMachine.Proofs.Nesting.Resting
import GrammarMachine.Proofs.Repetition.Attribute
import GrammarMachine.Proofs.Repetition.Pairing

/-!
# Delimited repetitions

An element, and then a delimiter and an element any number of times.

* `Separated`: what one iteration comes to, a delimiter and an element after it.
* `Grammar.delimitedLoop`: the loop of a delimited repetition, which begins behind the first element.
* `Grammar.tokenDelimited_answers`: a delimited repetition matches as an element with a repetition of
  delimiter and element behind it, and a fold goes over its elements alone.
-/

namespace GrammarMachine

variable {α : Type} {fs : Forwards α} {text : Text}

/-! ## The body -/

/-- One iteration: a delimiter, and then an element. Ignorable text is skipped after each of them. -/
inductive Separated {π : Type} (V : Verdicts π α) (ignore : Option π) (dropping : Bool)
    (element delimiter : π) : IterationVerdicts α
  | fails {o a} : V delimiter o a none → Separated V ignore dropping element delimiter o a none
  | goes {o a m j r} : V delimiter o a (some m) →
      Skips V ignore m.lastIndex (if dropping then none else merge a m.attr) j →
      Iterates V ignore dropping element j (if dropping then none else merge a m.attr) r →
      Separated V ignore dropping element delimiter o a r

/-- The element merges the attribute that the delimiter has merged, unless attributes are dropped. -/
theorem Separated.carries {π : Type} {V : Verdicts π α} {ignore : Option π} {dropping : Bool}
    {element delimiter : π} {o : Nat} {a : Option α} {it : Iteration α}
    (h : Separated V ignore dropping element delimiter o a (some it)) :
    (if dropping then none else merge a it.attr) = it.attr := by
  cases h with
  | goes _ _ hit =>
    have hc := hit.carries
    cases dropping with
    | true => exact hc
    | false =>
      simp only [Bool.false_eq_true, if_false] at hc ⊢
      rw [← hc]
      simp only [merge, Option.or_assoc, Option.or_self]

theorem Separated.unique {π : Type} {V : Verdicts π α} (hV : V.Unique) {ignore : Option π}
    {dropping : Bool} {element delimiter : π} (o : Nat) (a : Option α) (r r' : Option (Iteration α))
    (h : Separated V ignore dropping element delimiter o a r)
    (h' : Separated V ignore dropping element delimiter o a r') : r = r' := by
  cases h with
  | fails h =>
    cases h' with
    | fails h' => rfl
    | goes h' _ _ => cases hV _ _ _ _ _ h h'
  | goes h hs hit =>
    cases h' with
    | fails h' => cases hV _ _ _ _ _ h h'
    | goes h' hs' hit' =>
      cases hV _ _ _ _ _ h h'
      obtain rfl := hs.unique hV hs'
      exact Iterates.unique hV _ _ _ _ hit hit'

namespace Grammar

variable {g : Grammar α} {e d : Pattern α} {fold : Option (Action α × Option α)}
  {ts : List Terminal} {start : Nat} {inherited : Option α}

/-- The grammar with a delimited repetition behind it, and terminals behind that. -/
def delimitedRepetition (g : Grammar α) (e d : Pattern α) (fold : Option (Action α × Option α))
    (ts : List Terminal) : Repetition α :=
  ((g.tokenDelimited e d).folding fold).followedBy ts

/-- The loop of a delimited repetition. -/
def delimitedLoop (g : Grammar α) (fs : Forwards α) (text : Text) (e d : Pattern α)
    (fold : Option (Action α × Option α)) (ts : List Terminal) : Loop α where
  address := g.instrs.length + 2
  length := 2
  min := 0
  max := none
  fold := fold.map (·.1)
  init := fold.bind (·.2)
  dropping := g.drops
  iterates := Separated (Pattern.Answers fs text) g.lexicon.ignore g.drops e d
  follows := Follow (Pattern.Answers fs text) g.lexicon.ignore ts

/-- What stands behind the grammar in the program of a delimited repetition. -/
def delimitedInstrs (e d : Pattern α) (fold : Option (Action α × Option α)) (ts : List Terminal) :
    List (Instr (Pattern α) α) :=
  .loopStart loopCapture :: .consume e none (some loopCapture) true ::
    .loopTry loopCapture 0 4 (fold.map (·.1)) (fold.bind (·.2)) :: .token d ::
    .consume e none (some loopCapture) true :: .loopBack 3 none ::
    ts.map fun t => .token t.pattern

theorem delimitedRepetition_program : (g.delimitedRepetition e d fold ts).program =
    ⟨g.instrs ++ delimitedInstrs e d fold ts, g.lexicon.ignore, 1⟩ := by
  cases fold <;> simp [delimitedRepetition, Repetition.followedBy_eq, Repetition.folding,
    tokenDelimited, Repetition.withFold, Repetition.program, delimitedInstrs]

theorem delimited_instrs_drop (i : Nat) :
    (g.delimitedRepetition e d fold ts).program.instrs.drop (g.instrs.length + i) =
      (delimitedInstrs e d fold ts).drop i := by
  rw [delimitedRepetition_program, ← List.drop_drop, List.drop_left]

theorem delimited_instrs_get? {pc : Nat} (i : Nat) (hpc : pc = g.instrs.length + i) :
    (g.delimitedRepetition e d fold ts).program.instrs[pc]? = (delimitedInstrs e d fold ts)[i]? := by
  rw [hpc, ← List.head?_drop, delimited_instrs_drop, List.head?_drop]

theorem delimited_ignore :
    (g.delimitedRepetition e d fold ts).program.ignore = g.lexicon.ignore := by
  rw [delimitedRepetition_program]

/-- The body of a delimited repetition runs through one iteration. -/
theorem execIn_separated {n : Nat} {f : Frame α} {r : Option (Final α)}
    (hpc : f.pc = g.instrs.length + 3) (hd : f.dropping = g.drops)
    (h : ExecIn (Pattern.Answers fs text) (g.delimitedRepetition e d fold ts).program text n f r) :
    (Separated (Pattern.Answers fs text) g.lexicon.ignore g.drops e d f.index f.attr none ∧
      r = none) ∨
    ∃ it m, Separated (Pattern.Answers fs text) g.lexicon.ignore g.drops e d f.index f.attr
        (some it) ∧ m < n ∧
      ExecIn (Pattern.Answers fs text) (g.delimitedRepetition e d fold ts).program text m
        (f.behind (g.instrs.length + 5) it) r := by
  rcases h.of_consume (delimited_instrs_get? 3 hpc) with ⟨hp, rfl⟩ | ⟨m, j, n', hp, hs, hlt, h⟩
  · exact .inl ⟨.fails hp, rfl⟩
  rw [if_pos rfl, delimited_ignore, Frame.matchAttr_none hd] at hs
  rw [Frame.matchAttr_none hd] at h
  have hd' : ({ f.next j (if g.drops then none else merge f.attr m.attr) with
      captures := f.capturesAfter none m } : Frame α).dropping = g.drops := hd
  rcases h.of_iterated delimited_ignore
    (delimited_instrs_get? 4 (congrArg (· + 1) hpc)) hd' with
    ⟨hit, rfl⟩ | ⟨it, n'', hit, hlt', h⟩
  · exact .inl ⟨.goes hp hs hit, rfl⟩
  · rw [show g.instrs.length + 5 = f.pc + 1 + 1 by omega]
    exact .inr ⟨it, n'', .goes hp hs hit, by omega, h⟩

theorem delimitedLoop_within (hskip : SkipsAlike (Pattern.Answers fs text) g.lexicon.ignore) :
    (g.delimitedLoop fs text e d fold ts).Within (Pattern.Answers fs text)
      (g.delimitedRepetition e d fold ts).program text where
  attempt := delimited_instrs_get? 2 rfl
  back := delimited_instrs_get? 5 rfl
  bounds m hm := nomatch hm
  body_sound hpc hd h := execIn_separated hpc hd h
  body_fails {f} hpc hd h := by
    have hd : f.dropping = g.drops := hd
    cases h with
    | fails hp => exact .fail (.consumeFails (delimited_instrs_get? 3 hpc) hp)
    | @goes _ _ m j _ hp hs hit =>
      rw [← Frame.matchAttr_none hd] at hs hit
      refine .step (.consume (delimited_instrs_get? 3 hpc) hp ?_)
        (.of_iterates_none (delimited_instrs_get? 4 (congrArg (· + 1) hpc)) hit)
      rwa [if_pos rfl, delimited_ignore]
  body_ends {f it r} hpc hd h hr := by
    have hd : f.dropping = g.drops := hd
    cases h with
    | @goes _ _ m j _ hp hs hit =>
      rw [← Frame.matchAttr_none hd] at hs hit
      refine .step (.consume (delimited_instrs_get? 3 hpc) hp ?_)
        (.of_iterates delimited_ignore (delimited_instrs_get? 4 (congrArg (· + 1) hpc)) ?_ hit ?_)
      · rwa [if_pos rfl, delimited_ignore]
      · exact hd
      · rwa [← hpc] at hr
  carries h := h.carries
  trail {f r} hpc hd hf := by
    have hts : (g.delimitedRepetition e d fold ts).program.instrs.drop f.pc =
        ts.map fun t => .token t.pattern :=
      (congrArg (List.drop · _) hpc).trans (delimited_instrs_drop 6)
    have h := exec_terminals (r := r) (delimited_ignore.symm ▸ hskip) hf hts
    rwa [delimited_ignore] at h

/-! ## The way to the loop -/

/-- The frame in which the loop is reached, behind the first element. The fold is to start from the
attribute before that element. -/
def delimitedFrame (g : Grammar α) (start j : Nat) (a b : Option α) (m : Match α) : Frame α :=
  ⟨start, g.instrs.length + 2, j, b, 0, g.drops, a,
    ((Captures.closed 1).start loopCapture).record loopCapture m⟩

theorem delimitedLoop_reached (start j : Nat) (a b : Option α) (m : Match α) :
    (g.delimitedLoop fs text e d fold ts).Reached (g.delimitedFrame start j a b m) [m] where
  pc := rfl
  dropping := rfl
  captures := rfl
  below _ hm := nomatch hm
  clean h := absurd h (Nat.lt_irrefl 0)

/-- Behind the grammar the first element is consumed, and then the loop is reached. -/
theorem exec_first_element_iff {o : Nat} {a : Option α} {r : Option (Final α)} :
    Exec (Pattern.Answers fs text) (g.delimitedRepetition e d fold ts).program text
        (g.frontFrame 1 start o a) r ↔
      (∃ m j, e.Answers fs text o a (some m) ∧
        Skips (Pattern.Answers fs text) g.lexicon.ignore m.lastIndex
          (if g.drops then none else merge a m.attr) j ∧
        Exec (Pattern.Answers fs text) (g.delimitedRepetition e d fold ts).program text
          (g.delimitedFrame start j a (if g.drops then none else merge a m.attr) m) r) ∨
      (e.Answers fs text o a none ∧ r = none) := by
  let f : Frame α := { (g.frontFrame 1 start o a).next o a with
    seed := a, captures := (Captures.closed 1).start loopCapture }
  have hstart : (g.delimitedRepetition e d fold ts).program.instrs[(g.frontFrame 1 start o a).pc]? =
      some (.loopStart loopCapture) := delimited_instrs_get? 0 rfl
  have hfirst : (g.delimitedRepetition e d fold ts).program.instrs[f.pc]? =
      some (.consume e none (some loopCapture) true) := delimited_instrs_get? 1 rfl
  constructor
  · intro h
    rcases Exec.of_consume (f := f) hfirst (h.of_loopStart hstart) with
      ⟨hno, rfl⟩ | ⟨m, j, hm, hs, hgo⟩
    · exact .inr ⟨hno, rfl⟩
    · rw [if_pos rfl, delimited_ignore] at hs
      exact .inl ⟨m, j, hm, hs, hgo⟩
  · intro h
    refine .step (.loopStart hstart Nat.one_pos) ?_
    rcases h with ⟨m, j, hm, hs, hgo⟩ | ⟨hno, rfl⟩
    · refine .step (.consume (f := f) hfirst hm ?_) hgo
      rw [if_pos rfl, delimited_ignore]
      exact hs
    · exact .fail (.consumeFails (f := f) hfirst hno)

/-- A call of a delimited repetition runs through the grammar and the first element to the loop. -/
theorem exec_delimited_iff (hg : g.IsOpen) {r : Option (Final α)} :
    Exec (Pattern.Answers fs text) (g.delimitedRepetition e d fold ts).program text
        (.initial 1 start inherited) r ↔
      (∃ o a m j, g.Reaches fs text start inherited o a ∧ e.Answers fs text o a (some m) ∧
        Skips (Pattern.Answers fs text) g.lexicon.ignore m.lastIndex
          (if g.drops then none else merge a m.attr) j ∧
        Exec (Pattern.Answers fs text) (g.delimitedRepetition e d fold ts).program text
          (g.delimitedFrame start j a (if g.drops then none else merge a m.attr) m) r) ∨
      ((g.token e).Fails fs text start inherited ∧ r = none) := by
  have hfront : Exec (Pattern.Answers fs text) (g.delimitedRepetition e d fold ts).program text
        (.initial 1 start inherited) r ↔
      (∃ o a, g.Reaches fs text start inherited o a ∧
        Exec (Pattern.Answers fs text) (g.delimitedRepetition e d fold ts).program text
          (g.frontFrame 1 start o a) r) ∨ (g.Fails fs text start inherited ∧ r = none) := by
    rw [delimitedRepetition_program]
    exact exec_front_iff hg
  simp only [hfront, exec_first_element_iff]
  rw [show (g.token e).Fails fs text start inherited ↔ _ from fails_consume_iff hg]
  constructor
  · rintro (⟨o, a, hlead, ⟨m, j, hm, hs, hgo⟩ | ⟨hno, rfl⟩⟩ | ⟨hno, rfl⟩)
    · exact .inl ⟨o, a, m, j, hlead, hm, hs, hgo⟩
    · exact .inr ⟨.inr ⟨o, a, hlead, hno⟩, rfl⟩
    · exact .inr ⟨.inl hno, rfl⟩
  · rintro (⟨o, a, m, j, hlead, hm, hs, hgo⟩ | ⟨hno | ⟨o, a, hlead, hno⟩, rfl⟩)
    · exact .inl ⟨o, a, hlead, .inl ⟨m, j, hm, hs, hgo⟩⟩
    · exact .inr ⟨hno, rfl⟩
    · exact .inl ⟨o, a, hlead, .inr ⟨hno, rfl⟩⟩

/-! ## A delimiter and an element as one pattern -/

/-- A delimiter and an element after it. -/
def delimitedPair (e d : Pattern α) : Pattern α := ((empty.token d).token e).pattern

theorem reaches_single_iff {i o : Nat} {a b : Option α} :
    ((empty : Grammar α).token d).Reaches fs text i a o b ↔
      ∃ m, d.Answers fs text i a (some m) ∧ o = m.lastIndex ∧ b = merge a m.attr := by
  have hopen : (empty : Grammar α).IsOpen := retains_empty.isOpen
  constructor
  · intro h
    obtain ⟨_, _, m, hlead, hm, rfl, hs⟩ := (reaches_consume_iff hopen).1 h
    obtain ⟨rfl, rfl⟩ := reaches_empty_iff.1 hlead
    cases hs
    exact ⟨m, hm, rfl, rfl⟩
  · rintro ⟨m, hm, rfl, rfl⟩
    exact (reaches_consume_iff hopen).2 ⟨i, a, m, reaches_empty_iff.2 ⟨rfl, rfl⟩, hm, rfl, .nothing⟩

theorem fails_single_iff {i : Nat} {a : Option α} :
    ((empty : Grammar α).token d).Fails fs text i a ↔ d.Answers fs text i a none := by
  have hopen : (empty : Grammar α).IsOpen := retains_empty.isOpen
  refine (fails_consume_iff hopen).trans ⟨?_, fun h => .inr ⟨i, a, reaches_empty_iff.2 ⟨rfl, rfl⟩, h⟩⟩
  rintro (hno | ⟨_, _, hlead, hp⟩)
  · exact absurd hno not_fails_empty
  · obtain ⟨rfl, rfl⟩ := reaches_empty_iff.1 hlead
    exact hp

/-- The pair matches where an iteration of the delimited repetition does, if what it matches can be
sliced out. -/
theorem delimitedPair_answers_iff {i : Nat} {a : Option α} {r : Option (Match α)} :
    (delimitedPair e d).Answers fs text i a r ↔
      ∃ r₀, Separated (Pattern.Answers fs text) none false e d i a r₀ ∧
        r = r₀.bind fun it => (text.slice? i it.stop).map fun t => ⟨t, it.stop, it.attr, []⟩ := by
  have hopen : ((empty : Grammar α).token d).IsOpen := (retains_empty.token d).isOpen
  rw [delimitedPair, pattern, Pattern.answers_program_iff,
    answers_iff ((retains_empty.token d).token e).isOpen]
  constructor
  · rintro (⟨o, b, hreach, rfl⟩ | ⟨hfail, rfl⟩)
    · obtain ⟨_, _, m, hlead, hm, rfl, hs⟩ := (reaches_consume_iff hopen).1 hreach
      obtain ⟨md, hmd, rfl, rfl⟩ := reaches_single_iff.1 hlead
      cases hs
      exact ⟨_, .goes hmd .nothing (.ends hm .nothing), rfl⟩
    · rcases (fails_consume_iff hopen).1 hfail with hno | ⟨_, _, hlead, hp⟩
      · exact ⟨none, .fails (fails_single_iff.1 hno), rfl⟩
      · obtain ⟨md, hmd, rfl, rfl⟩ := reaches_single_iff.1 hlead
        exact ⟨none, .goes hmd .nothing (.fails hp), rfl⟩
  · rintro ⟨r₀, hr₀, rfl⟩
    cases hr₀ with
    | fails hno => exact .inr ⟨(fails_consume_iff hopen).2 (.inl (fails_single_iff.2 hno)), rfl⟩
    | goes hmd hs hit =>
      cases hs
      have hlead := reaches_single_iff.2 ⟨_, hmd, rfl, rfl⟩
      cases hit with
      | fails hp => exact .inr ⟨(fails_consume_iff hopen).2 (.inr ⟨_, _, hlead, hp⟩), rfl⟩
      | ends hm hs =>
        cases hs
        exact .inl ⟨_, _, (reaches_consume_iff hopen).2 ⟨_, _, _, hlead, hm, rfl, .nothing⟩, rfl⟩

section

variable (he : e.IsPlain) (hd : d.IsPlain)

include he hd

/-- An iteration of plain patterns from a boundary ends at a boundary ahead. -/
theorem separated_ahead {ignore : Option (Pattern α)} {dropping : Bool} {o : Nat} {a : Option α}
    {it : Iteration α} (h : Separated (Pattern.Answers fs text) ignore dropping e d o a (some it))
    (hig : ∀ q, ignore = some q → q.IsPlain) : text.Ahead o it.stop := by
  cases h with
  | goes hm hs hit => exact ((hm.ahead hd).trans (hs.ahead hig)).trans (hit.ahead he hig)

/-- An iteration of a delimited repetition comes with one of the pair. -/
theorem exists_iterates_pair (o o' : Nat) (a b : Option α) (r : Option (Iteration α))
    (hoo' : o = o') (hP : text.isBoundary o ∧ b = a)
    (h : Separated (Pattern.Answers fs text) none false e d o a r) :
    ∃ r', Iterates (Pattern.Answers fs text) none false (delimitedPair e d) o' b r' ∧
      Option.Rel (fun it it' => it.stop = it'.stop ∧ it'.attr = it.attr ∧
        text.isBoundary it.stop ∧ it'.attr = it.attr) r r' := by
  subst hoo'
  obtain ⟨ho, rfl⟩ := hP
  cases r with
  | none => exact ⟨none, .fails (delimitedPair_answers_iff.2 ⟨none, h, rfl⟩), .none⟩
  | some it =>
    obtain ⟨hb, hle⟩ := separated_ahead he hd h nofun ho
    obtain ⟨t, ht⟩ := Text.exists_slice? ho hb hle
    have hq : (delimitedPair e d).Answers fs text o b (some ⟨t, it.stop, it.attr, []⟩) :=
      delimitedPair_answers_iff.2 ⟨some it, h, by simp [ht]⟩
    have hattr : merge b it.attr = it.attr := h.carries
    exact ⟨_, .ends hq .nothing, .some ⟨rfl, hattr, hb, hattr⟩⟩

/-- An iteration of the pair comes with one of a delimited repetition. -/
theorem exists_separated (o o' : Nat) (b a : Option α) (r' : Option (Iteration α))
    (hoo' : o = o') (hP : text.isBoundary o ∧ a = b)
    (h : Iterates (Pattern.Answers fs text) none false (delimitedPair e d) o b r') :
    ∃ r, Separated (Pattern.Answers fs text) none false e d o' a r ∧
      Option.Rel (fun it' it => it'.stop = it.stop ∧ it.attr = it'.attr ∧
        text.isBoundary it'.stop ∧ it.attr = it'.attr) r' r := by
  subst hoo'
  obtain ⟨ho, rfl⟩ := hP
  have hslice {it : Iteration α}
      (hit : Separated (Pattern.Answers fs text) none false e d o a (some it)) :
      text.isBoundary it.stop ∧ ∃ t, text.slice? o it.stop = some t := by
    obtain ⟨hb, hle⟩ := separated_ahead he hd hit nofun ho
    exact ⟨hb, Text.exists_slice? ho hb hle⟩
  cases h with
  | fails hno =>
    obtain ⟨r, hr, hnone⟩ := delimitedPair_answers_iff.1 hno
    cases r with
    | none => exact ⟨none, hr, .none⟩
    | some it =>
      obtain ⟨-, t, ht⟩ := hslice hr
      simp [ht] at hnone
  | @ends _ _ m stop hm hs =>
    cases hs
    obtain ⟨r, hr, hsome⟩ := delimitedPair_answers_iff.1 hm
    cases r with
    | none => cases hsome
    | some it =>
      obtain ⟨hb, t, ht⟩ := hslice hr
      obtain rfl : m = _ := by simpa [ht] using hsome
      have hattr : it.attr = merge a it.attr := hr.carries.symm
      exact ⟨_, hr, .some ⟨rfl, hattr, hb, hattr⟩⟩

end

/-! ## The two repetitions -/

/-- The repetition of pairs behind the first element. -/
def pairLoop (g : Grammar α) (fs : Forwards α) (text : Text) (e d : Pattern α)
    (ts : List Terminal) : Loop α :=
  (g.token e).loop fs text 0 none (delimitedPair e d) none ts

theorem attrAfter_delimited (hg : g.Retains) {j n : Nat} {a b : Option α} {m : Match α}
    (its : List (Iteration α)) :
    (g.delimitedLoop fs text e d none ts).attrAfter (g.delimitedFrame start j a b m) [m] its n =
      threadedAttr b its n := by
  simp [Loop.attrAfter, delimitedFrame, Frame.settledAttr, delimitedLoop, Frame.keep, hg.drops]

theorem attrAfter_delimited_fold (hg : g.Retains) (action : Action α) (init : Option α) {j n : Nat}
    {a b : Option α} {m : Match α} (its : List (Iteration α)) :
    (g.delimitedLoop fs text e d (some (action, init)) ts).attrAfter
        (g.delimitedFrame start j a b m) [m] its n =
      attrOfKept (some (action, init)) a (m :: (its.take n).map (·.found)) := by
  simp only [Loop.attrAfter, delimitedFrame, Frame.settledAttr, delimitedLoop, Frame.keep, hg.drops]
  rfl

theorem attrAfter_pair (hg : g.Retains) {j n : Nat} {b : Option α} (its : List (Iteration α)) :
    (g.pairLoop fs text e d ts).attrAfter ((g.token e).loopFrame start j b) [] its n =
      threadedAttr b its n :=
  attrAfter_threaded (hg.token e).drops ..

section

variable (hg : g.Retains) (hignore : g.lexicon.ignore = none)

include hg hignore

theorem iterates_delimitedLoop : (g.delimitedLoop fs text e d fold ts).iterates =
    Separated (Pattern.Answers fs text) none false e d := by
  simp only [delimitedLoop, hg.drops, hignore]

theorem iterates_pairLoop : (g.pairLoop fs text e d ts).iterates =
    Iterates (Pattern.Answers fs text) none false (delimitedPair e d) := by
  simp only [pairLoop, loop, (hg.token e).drops]
  rw [show (g.token e).lexicon = g.lexicon from rfl, hignore]

/-- A call of a delimited repetition without ignorable text reaches the loop behind the element. -/
theorem exec_delimited_iff_of_retains {r : Option (Final α)} :
    Exec (Pattern.Answers fs text) (g.delimitedRepetition e d fold ts).program text
        (.initial 1 start inherited) r ↔
      (∃ o a m, g.Reaches fs text start inherited o a ∧ e.Answers fs text o a (some m) ∧
        Exec (Pattern.Answers fs text) (g.delimitedRepetition e d fold ts).program text
          (g.delimitedFrame start m.lastIndex a (merge a m.attr) m) r) ∨
      ((g.token e).Fails fs text start inherited ∧ r = none) := by
  rw [exec_delimited_iff hg.isOpen, hg.drops, hignore]
  refine or_congr_left ⟨?_, ?_⟩
  · rintro ⟨o, a, m, j, hlead, hm, hs, hgo⟩
    cases hs
    exact ⟨o, a, m, hlead, hm, hgo⟩
  · rintro ⟨o, a, m, hlead, hm, hgo⟩
    exact ⟨o, a, m, m.lastIndex, hlead, hm, .nothing, hgo⟩

theorem exec_pairs_iff {r : Option (Final α)} :
    Exec (Pattern.Answers fs text)
        ((g.token e).repetition 0 none (delimitedPair e d) none ts).program text
        (.initial 1 start inherited) r ↔
      (∃ o a m, g.Reaches fs text start inherited o a ∧ e.Answers fs text o a (some m) ∧
        Exec (Pattern.Answers fs text)
          ((g.token e).repetition 0 none (delimitedPair e d) none ts).program text
          ((g.token e).loopFrame start m.lastIndex (merge a m.attr)) r) ∨
      ((g.token e).Fails fs text start inherited ∧ r = none) := by
  rw [exec_repetition_iff (hg.token e).isOpen]
  refine or_congr_left ⟨?_, ?_⟩
  · rintro ⟨o₁, a₁, htoken, hgo⟩
    obtain ⟨o, a, m, hlead, hm, rfl, hs⟩ := (reaches_consume_iff hg.isOpen).1 htoken
    rw [hignore] at hs
    cases hs
    rw [Frame.matchAttr_none (f := g.endFrame start o a) hg.drops] at hgo
    exact ⟨o, a, m, hlead, hm, hgo⟩
  · rintro ⟨o, a, m, hlead, hm, hgo⟩
    refine ⟨_, _, (reaches_consume_iff hg.isOpen).2 ⟨o, a, m, hlead, hm,
      (Frame.matchAttr_none (f := g.endFrame start o a) hg.drops m).symm, ?_⟩, hgo⟩
    rw [hignore]
    exact .nothing

variable (he : e.IsPlain) (hd : d.IsPlain)

omit hg hignore in
theorem pairLoop_within (hskip : SkipsAlike (Pattern.Answers fs text) g.lexicon.ignore) :
    (g.pairLoop fs text e d ts).Within (Pattern.Answers fs text)
      ((g.token e).repetition 0 none (delimitedPair e d) none ts).program text :=
  loop_within rfl hskip

include he hd

/-- A run of the delimited repetition comes with one of the repetition of pairs. -/
theorem exec_pairs_of_delimited {x : Option (Final α)}
    (h : Exec (Pattern.Answers fs text) (g.delimitedRepetition e d none ts).program text
      (.initial 1 start inherited) x) :
    ∃ y, Exec (Pattern.Answers fs text)
        ((g.token e).repetition 0 none (delimitedPair e d) none ts).program text
        (.initial 1 start inherited) y ∧
      Option.Rel (fun fin fin' => fin'.index = fin.index ∧ fin'.attr = fin.attr) x y := by
  have hskip := skipsAlike_of_ignore_none (V := Pattern.Answers fs text) hignore
  rcases (exec_delimited_iff_of_retains hg hignore).1 h with ⟨o, a, m, hlead, hm, hgo⟩ | ⟨hno, rfl⟩
  · obtain ⟨y, hy, its, its', hpaired, -, hrel⟩ :=
      (delimitedLoop_within hskip).finished_alike
        (pairLoop_within hskip) (.of_eq rfl rfl rfl fun _ _ _ => Follow.unique)
        (delimitedLoop_reached start m.lastIndex a _ m)
        (loop_reached rfl start m.lastIndex (merge a m.attr)) rfl rfl
        (fun its hits => by
          rw [iterates_delimitedLoop hg hignore] at hits
          rw [iterates_pairLoop hg hignore]
          exact hits.exists_paired oneToOne_eq (exists_iterates_pair he hd) rfl
            ⟨hm.isBoundary he, rfl⟩) hgo
    refine ⟨y, (exec_pairs_iff hg hignore).2 (.inl ⟨o, a, m, hlead, hm, hy⟩), ?_⟩
    cases hrel with
    | none => exact .none
    | some hfin =>
      obtain ⟨hindex, n, -, hattr, hattr'⟩ := hfin
      refine .some ⟨hindex.symm, ?_⟩
      rw [hattr', hattr, attrAfter_delimited hg]
      exact (attrAfter_pair hg its').trans (hpaired.threadedAttr_eq rfl n)
  · exact ⟨none, (exec_pairs_iff hg hignore).2 (.inr ⟨hno, rfl⟩), .none⟩

/-- A run of the repetition of pairs comes with one of the delimited repetition. -/
theorem exec_delimited_of_pairs {x : Option (Final α)}
    (h : Exec (Pattern.Answers fs text)
      ((g.token e).repetition 0 none (delimitedPair e d) none ts).program text
      (.initial 1 start inherited) x) :
    ∃ y, Exec (Pattern.Answers fs text) (g.delimitedRepetition e d none ts).program text
        (.initial 1 start inherited) y ∧
      Option.Rel (fun fin fin' => fin'.index = fin.index ∧ fin'.attr = fin.attr) x y := by
  have hskip := skipsAlike_of_ignore_none (V := Pattern.Answers fs text) hignore
  rcases (exec_pairs_iff hg hignore).1 h with ⟨o, a, m, hlead, hm, hgo⟩ | ⟨hno, rfl⟩
  · have hW : (g.delimitedLoop fs text e d none ts).Within (Pattern.Answers fs text)
        (g.delimitedRepetition e d none ts).program text := delimitedLoop_within hskip
    obtain ⟨y, hy, its', its, hpaired, -, hrel⟩ :=
      (pairLoop_within hskip).finished_alike hW (.of_eq rfl rfl rfl fun _ _ _ => Follow.unique)
        (loop_reached rfl start m.lastIndex (merge a m.attr))
        (delimitedLoop_reached start m.lastIndex a _ m) rfl rfl
        (fun its hits => by
          rw [iterates_pairLoop hg hignore] at hits
          rw [iterates_delimitedLoop hg hignore]
          exact hits.exists_paired oneToOne_eq (exists_separated he hd) rfl
            ⟨hm.isBoundary he, rfl⟩) hgo
    refine ⟨y, (exec_delimited_iff_of_retains hg hignore).2 (.inl ⟨o, a, m, hlead, hm, hy⟩), ?_⟩
    cases hrel with
    | none => exact .none
    | some hfin =>
      obtain ⟨hindex, n, -, hattr, hattr'⟩ := hfin
      refine .some ⟨hindex.symm, ?_⟩
      rw [hattr', hattr, attrAfter_delimited hg]
      exact (hpaired.threadedAttr_eq rfl n).trans (attrAfter_pair hg its').symm
  · exact ⟨none, (exec_delimited_iff_of_retains hg hignore).2 (.inr ⟨hno, rfl⟩), .none⟩

end

/-! ## The elements kept -/

/-- What a delimited repetition keeps: the first element, which it finds behind the grammar under the
attribute `seed`, and the elements of the iterations kept. The terminals behind them end at `stop`. -/
inductive KeepsElements (fs : Forwards α) (text : Text) (g : Grammar α) (e d : Pattern α)
    (ts : List Terminal) (start : Nat) (inherited : Option α) :
    Option α → List (Match α) → Nat → Prop
  | intro {o seed first its n stop} : g.Reaches fs text start inherited o seed →
      e.Answers fs text o seed (some first) →
      Unrolls (Separated (Pattern.Answers fs text) none false e d) none 0 first.lastIndex
        (merge seed first.attr) its →
      Keeps (Follow (Pattern.Answers fs text) none ts) 0 0 first.lastIndex its n stop →
      KeepsElements fs text g e d ts start inherited seed (first :: (its.take n).map (·.found)) stop

/-- Without ignorable text an iteration ends with its element. -/
theorem separated_stop {o : Nat} {a : Option α} {it : Iteration α}
    (h : Separated (Pattern.Answers fs text) none false e d o a (some it)) :
    it.stop = it.found.lastIndex := by
  cases h with
  | goes _ _ hit =>
    cases hit with
    | ends _ hs =>
      cases hs
      rfl

theorem offsetAfter_eq_getLastD {its : List (Iteration α)}
    (h : ∀ it ∈ its, it.stop = it.found.lastIndex) (first : Match α) (n : Nat) :
    offsetAfter first.lastIndex its n =
      (((its.take n).map (·.found)).getLastD first).lastIndex := by
  induction its generalizing first n with
  | nil => cases n <;> rfl
  | cons it its ih =>
    obtain ⟨hstop, hrest⟩ := List.forall_mem_cons.1 h
    cases n with
    | zero => rfl
    | succ n => rw [offsetAfter_succ, hstop, ih hrest, List.take_succ_cons, List.map_cons,
        List.getLastD_cons]

/-- What follows a delimited repetition follows the last element. -/
theorem KeepsElements.follows {seed : Option α} {first : Match α} {others : List (Match α)}
    {stop : Nat}
    (h : g.KeepsElements fs text e d ts start inherited seed (first :: others) stop) :
    Follow (Pattern.Answers fs text) none ts (others.getLastD first).lastIndex (some stop) := by
  cases h with
  | intro _ _ hits hk =>
    rw [← offsetAfter_eq_getLastD (hits.forall_mem fun _ _ _ => separated_stop)]
    exact hk.follows

/-- With another fold, or with none, the run keeps the same elements. -/
theorem exec_delimited_refold (hg : g.Retains) (hignore : g.lexicon.ignore = none)
    (fold fold' : Option (Action α × Option α)) {x : Option (Final α)}
    (h : Exec (Pattern.Answers fs text) (g.delimitedRepetition e d fold ts).program text
      (.initial 1 start inherited) x) :
    ∃ y, Exec (Pattern.Answers fs text) (g.delimitedRepetition e d fold' ts).program text
        (.initial 1 start inherited) y ∧
      Option.Rel (fun fin fin' => fin'.index = fin.index ∧ ∃ seed first others,
        g.KeepsElements fs text e d ts start inherited seed (first :: others) fin.index ∧
        ∀ f, fold' = some f → fin'.attr = attrOfKept (some f) seed (first :: others)) x y := by
  have hskip := skipsAlike_of_ignore_none (V := Pattern.Answers fs text) hignore
  rcases (exec_delimited_iff_of_retains hg hignore).1 h with ⟨o, a, m, hlead, hm, hgo⟩ | ⟨hno, rfl⟩
  · have hreached (fold : Option (Action α × Option α)) :
        (g.delimitedLoop fs text e d fold ts).Reached
          (g.delimitedFrame start m.lastIndex a (merge a m.attr) m) [m] :=
      delimitedLoop_reached ..
    have hL : (g.delimitedLoop fs text e d fold ts).Alike (· = ·)
        (g.delimitedLoop fs text e d fold' ts) :=
      .of_eq rfl rfl rfl fun _ _ _ => Follow.unique
    obtain ⟨its, hits, hends⟩ := (delimitedLoop_within hskip).finished (hreached fold) hgo
    have hsame : Paired (· = ·) (fun _ _ _ _ => True) (merge a m.attr) (merge a m.attr) its its :=
      .rfl (fun _ => rfl) fun _ _ => trivial
    obtain ⟨y, hy, hends'⟩ := (delimitedLoop_within hskip).exists_finished (hreached fold') hits
      fun n hn hno => hends.exists_follows_alike hL rfl rfl hsame hn hno
    have hrel := hends.alike hL rfl rfl hsame hends'
    refine ⟨y, (exec_delimited_iff_of_retains hg hignore).2 (.inl ⟨o, a, m, hlead, hm, hy⟩), ?_⟩
    cases hrel with
    | none => exact .none
    | some hfin =>
      obtain ⟨hindex, n, hk, -, hattr⟩ := hfin
      rw [iterates_delimitedLoop hg hignore] at hits
      simp only [delimitedLoop, hignore] at hk
      refine .some ⟨hindex.symm, a, m, _, .intro hlead hm hits hk, ?_⟩
      rintro ⟨action, init⟩ rfl
      rw [hattr, attrAfter_delimited_fold hg]
  · exact ⟨none, (exec_delimited_iff_of_retains hg hignore).2 (.inr ⟨hno, rfl⟩), .none⟩

/-- A delimited repetition of plain patterns comes to the same match as its element with a repetition
of delimiter and element behind it. A fold over it comes to an answer where it does itself, with the
same extent, and goes over the elements that are kept, in order, from the initial value or else from
the attribute before the first one. What follows begins where the last element ends, so a delimiter
without an element behind it is left alone. -/
theorem tokenDelimited_answers (hg : g.Retains) (hignore : g.lexicon.ignore = none)
    (he : e.IsPlain) (hd : d.IsPlain) (ts : List Terminal) (start : Nat) (inherited : Option α) :
    (∀ r, ((g.tokenDelimited e d).followedBy ts).program.Answers fs text start inherited r ↔
      (((g.token e).tokenZeroOrMore ((empty.token d).token e).pattern).followedBy ts).program.Answers
        fs text start inherited r) ∧
    ∀ action init,
      ((∃ r, ((g.tokenDelimited e d).followedBy ts).program.Answers fs text start inherited r) ↔
        ∃ r', (((g.tokenDelimited e d).withFold action init).followedBy ts).program.Answers
          fs text start inherited r') ∧
      ∀ r r', ((g.tokenDelimited e d).followedBy ts).program.Answers fs text start inherited r →
        (((g.tokenDelimited e d).withFold action init).followedBy ts).program.Answers
          fs text start inherited r' →
        Option.Rel (fun m m' => m'.lastIndex = m.lastIndex ∧ ∃ seed first others,
          g.KeepsElements fs text e d ts start inherited seed (first :: others) m.lastIndex ∧
          Follow (Pattern.Answers fs text) none ts (others.getLastD first).lastIndex
            (some m.lastIndex) ∧
          m'.attr = (first :: others).foldl
            (fun acc x => merge acc (action.apply ⟨x.matched, x.attr, acc, x.extra⟩))
            (init.or seed)) r r' := by
  have hrefold (fold fold' : Option (Action α × Option α)) (r : Option (Match α))
      (h : (g.delimitedRepetition e d fold ts).program.Answers fs text start inherited r) :=
    h.exists_of_alike (q := (g.delimitedRepetition e d fold' ts).program)
      (R := fun stop _ attr => ∃ seed first others,
        g.KeepsElements fs text e d ts start inherited seed (first :: others) stop ∧
        ∀ f, fold' = some f → attr = attrOfKept (some f) seed (first :: others))
      fun x hx => exec_delimited_refold hg hignore fold fold' hx
  refine ⟨fun r => ⟨?_, ?_⟩, fun action init => ⟨⟨?_, ?_⟩, ?_⟩⟩
  · exact .of_alike fun x hx => exec_pairs_of_delimited hg hignore he hd hx
  · exact .of_alike fun x hx => exec_delimited_of_pairs hg hignore he hd hx
  · rintro ⟨r, hr⟩
    obtain ⟨r', hr', -⟩ := hrefold none (some (action, init)) r hr
    exact ⟨r', hr'⟩
  · rintro ⟨r', hr'⟩
    obtain ⟨r, hr, -⟩ := hrefold (some (action, init)) none r' hr'
    exact ⟨r, hr⟩
  · intro r r' hr hr'
    obtain ⟨r'', hr'', hrel⟩ := hrefold none (some (action, init)) r hr
    obtain rfl := hr''.unique hr'
    cases hrel with
    | none => exact .none
    | some hm =>
      obtain ⟨hm', seed, first, others, hkept, hattr⟩ := hm
      exact .some ⟨by rw [hm'], seed, first, others, hkept, hkept.follows, hattr _ rfl⟩

/-- The second line break would delimit, but then none is left for the terminal. -/
theorem tokenDelimited_answers_backtracked :
    let lineFeed : Pattern Nat := .literal ['\n']
    (((empty.token lineFeed).tokenZeroOrMore
        ((empty.token lineFeed).token lineFeed).pattern).followedBy [.lineBreak]).program.Answers
      .empty ['\n', '\n', '\n'] 0 none (some ⟨['\n', '\n'], 2, none, []⟩) ∧
    ∃ seed first others,
      empty.KeepsElements .empty ['\n', '\n', '\n'] lineFeed lineFeed [.lineBreak] 0 none seed
        (first :: others) 2 ∧
      some 1 = (first :: others).foldl (fun acc _ => merge acc (acc.map (· + 1))) ((some 0).or seed) := by
  intro lineFeed
  let count : Action Nat := ⟨fun c => c.inherited.map (· + 1), none⟩
  have h : ((empty.tokenDelimited lineFeed lineFeed).followedBy [.lineBreak]).program.Answers .empty
      ['\n', '\n', '\n'] 0 none (some ⟨['\n', '\n'], 2, none, []⟩) :=
    Pattern.answers_program_iff.1 (Pattern.answers_of_outcome? 16 (by decide +kernel))
  have h' : (((empty.tokenDelimited lineFeed lineFeed).withFold count (some 0)).followedBy
      [.lineBreak]).program.Answers .empty ['\n', '\n', '\n'] 0 none
        (some ⟨['\n', '\n'], 2, some 1, []⟩) :=
    Pattern.answers_program_iff.1 (Pattern.answers_of_outcome? 16 (by decide +kernel))
  refine ⟨((tokenDelimited_answers (e := lineFeed) (d := lineFeed) retains_empty rfl trivial trivial
    [.lineBreak] 0 none).1 _).1 h, ?_⟩
  cases ((tokenDelimited_answers (e := lineFeed) (d := lineFeed) retains_empty rfl trivial trivial
    [.lineBreak] 0 none).2 count (some 0)).2 _ _ h h' with
  | some hm =>
    obtain ⟨-, seed, first, others, hkept, -, hattr⟩ := hm
    exact ⟨seed, first, others, hkept, hattr⟩

end Grammar

end GrammarMachine
