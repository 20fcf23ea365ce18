import GrammarMachine.Proofs.Nesting.Transparency
import GrammarMachine.Proofs.Semantics.Parsing
import GrammarMachine.Proofs.Settlement.Once
import GrammarMachine.Proofs.Termination.Grounded

/-!
# Matching up to the end of the text

A parse of the whole text takes the one match that there is at the start and asks where it ends. If
the end of the input stands behind the grammar instead, a repetition that ends the grammar may give
up iterations for its sake. That never finds more: fewer iterations end further back, so if they use
up the text, all of them do, and those behind are empty.

* `Ending.closeAtEnd`: a grammar with the end of the input behind it.
* `followUnder_endOfInput_iff`: what the end of the input comes to behind a grammar.
* `Seal.finished_atEnd`: a repetition with the end of the input behind it and without.
* `Program.Anchors`: the runs of one program are those of another one that use up the text.
* `Ending.parse_whole_iff`: a parse of the whole text is a match of the grammar up to the end, if
  ignorable text can be looked for there; `Ending.parse_whole_recursive` is a text where it cannot.
-/

namespace GrammarMachine

variable {α : Type} {fs : Forwards α} {text : Text}

/-! ## The end of the input behind a grammar -/

/-- The program of an open grammar with this end, and with the end of the input behind it. -/
def Ending.closeAtEnd (g : Grammar α) : Ending α → Program α
  | chain => g.endOfInput.program
  | sealed s fold ts => (((s.repetition g).folding fold).followedBy ts).endOfInput.program

/-- The grammar is open, or ends in a repetition that is accepted, without terminals behind it. -/
def Ending.EndsInLoop : Ending α → Prop
  | chain => True
  | sealed s _ ts => s.IsAccepted ∧ ts = []

theorem Ending.closeAtEnd_sealed (g : Grammar α) (s : Seal α)
    (fold : Option (Action α × Option α)) (ts : List Terminal) :
    (sealed s fold ts).closeAtEnd g = (sealed s fold (ts ++ [.endOfInput])).close g := by
  simp [closeAtEnd, close, Repetition.followedBy_eq, Repetition.endOfInput, Terminal.pattern]

/-- Where the text ends, looking for ignorable text comes to an answer. -/
def SkipsAtEnd (fs : Forwards α) (text : Text) (ignore : Option (Pattern α)) : Prop :=
  ∃ a, Skips (Pattern.Answers fs text) ignore text.byteLength a text.byteLength

section

variable {ignore : Option (Pattern α)} (hig : ∀ p, ignore = some p → p.IsPlain)

include hig

/-- At the end of the text there is nothing to skip. -/
theorem Skips.at_byteLength {a : Option α} {j : Nat}
    (h : Skips (Pattern.Answers fs text) ignore text.byteLength a j) : j = text.byteLength := by
  obtain ⟨hj, hle⟩ := h.ahead hig (Text.isBoundary_byteLength text)
  exact Nat.le_antisymm (Text.le_byteLength_of_isBoundary hj) hle

theorem skipsAtEnd_iff (halike : SkipsAlike (Pattern.Answers fs text) ignore) :
    SkipsAtEnd fs text ignore ↔
      ∀ p, ignore = some p → ∃ r, p.Answers fs text text.byteLength none r := by
  constructor
  · rintro ⟨a, ha⟩ p hp
    exact (halike _ _ none _ ha).exists_answer hp
  · intro h
    obtain ⟨j, hj⟩ := exists_skips h
    obtain rfl := hj.at_byteLength hig
    exact ⟨none, hj⟩

/-- The end of the input is found where the text ends, and then ignorable text is looked for. -/
theorem followUnder_endOfInput_iff {a : Option α} {i : Nat} {e : Option Nat} :
    FollowUnder (Pattern.Answers fs text) ignore a [.endOfInput] i e ↔
      (i < text.byteLength ∧ e = none) ∨
      (text.byteLength ≤ i ∧ e = some text.byteLength ∧
        Skips (Pattern.Answers fs text) ignore text.byteLength a text.byteLength) := by
  have hanswer {r : Option (Match α)} :
      (Terminal.endOfInput.pattern : Pattern α).Answers fs text i a r ↔
        r = if text.byteLength ≤ i then some ⟨[], text.byteLength, none, []⟩ else none :=
    Pattern.answers_iff
  constructor
  · intro h
    cases h with
    | fails hp =>
      have hp := hanswer.1 hp
      split at hp
      · cases hp
      · exact .inl ⟨by omega, rfl⟩
    | goes hp hs hrest =>
      have hp := hanswer.1 hp
      split at hp
      · cases hp
        cases hrest
        obtain rfl := hs.at_byteLength hig
        exact .inr ⟨‹_›, rfl, hs⟩
      · cases hp
  · rintro (⟨hlt, rfl⟩ | ⟨hle, rfl, hs⟩)
    · exact .fails (hanswer.2 (if_neg (Nat.not_le.2 hlt)).symm)
    · exact .goes (hanswer.2 (if_pos hle).symm) hs .nil

end

/-! ## The repetition -/

namespace Seal

variable {g : Grammar α} {s : Seal α} {fold : Option (Action α × Option α)} {ts : List Terminal}
  {start : Nat} {inherited : Option α}

/-- If what is skipped does not depend on the attribute, the program has its loop. -/
theorem loop_within (hs : s.IsAccepted)
    (halike : SkipsAlike (Pattern.Answers fs text) g.lexicon.ignore) :
    (s.loop g fs text fold ts).Within (Pattern.Answers fs text)
      ((Ending.sealed s fold ts).close g) text := by
  have hfollows (i : Nat) (e : Option Nat) : (s.loop g fs text fold ts).follows i e ↔
      Follow (Pattern.Answers fs text) g.lexicon.ignore ts i e := by
    simp only [loop, followUnder_iff halike, exists_const]
  cases s with
  | times min max p =>
    have h : (g.loop fs text min max p fold ts).Within (Pattern.Answers fs text)
        (g.repetition min max p fold ts).program text := Grammar.loop_within hs halike
    exact { h with
      trail := fun hpc hd hf => by
        simp only [hfollows]
        exact h.trail hpc hd hf }
  | delimited element delimiter =>
    have h : (g.delimitedLoop fs text element delimiter fold ts).Within (Pattern.Answers fs text)
        (g.delimitedRepetition element delimiter fold ts).program text :=
      Grammar.delimitedLoop_within halike
    exact { h with
      trail := fun hpc hd hf => by
        simp only [hfollows]
        exact h.trail hpc hd hf }

/-- What stands before the iterations does not match. -/
def FailsBefore (fs : Forwards α) (text : Text) (g : Grammar α) (start : Nat)
    (inherited : Option α) : Seal α → Prop
  | times _ _ _ => g.Fails fs text start inherited
  | delimited element _ => (g.token element).Fails fs text start inherited

/-- A call of the program comes to its iterations, or fails before them. -/
theorem exec_begins_iff (hg : g.IsOpen) {r : Option (Final α)} :
    Exec (Pattern.Answers fs text) ((Ending.sealed s fold ts).close g) text
        (.initial 1 start inherited) r ↔
      (∃ seed lead o a, s.Begins fs text g start inherited seed lead o a ∧
        Exec (Pattern.Answers fs text) ((Ending.sealed s fold ts).close g) text
          (s.frame g start seed lead o a) r) ∨
      (s.FailsBefore fs text g start inherited ∧ r = none) := by
  cases s with
  | times min max p =>
    refine (Grammar.exec_repetition_iff hg).trans (or_congr_left ⟨?_, ?_⟩)
    · rintro ⟨o, a, hlead, hgo⟩
      exact ⟨a, [], o, a, .times hlead, hgo⟩
    · rintro ⟨_, _, _, _, hbegins, hgo⟩
      cases hbegins with
      | times hlead => exact ⟨_, _, hlead, hgo⟩
  | delimited element delimiter =>
    refine (Grammar.exec_delimited_iff hg).trans (or_congr_left ⟨?_, ?_⟩)
    · rintro ⟨o, a, m, j, hlead, hm, hs, hgo⟩
      exact ⟨a, [m], j, _, .delimited hlead hm hs, hgo⟩
    · rintro ⟨_, _, _, _, hbegins, hgo⟩
      cases hbegins with
      | delimited hlead hm hs => exact ⟨_, _, _, _, hlead, hm, hs, hgo⟩

theorem loop_follows_nil {i : Nat} {e : Option Nat} :
    (s.loop g fs text fold []).follows i e ↔ e = some i := by
  constructor
  · rintro ⟨a, ha⟩
    cases ha
    rfl
  · rintro rfl
    exact ⟨none, .nil⟩

/-- With nothing behind it a repetition keeps the most iterations that it may. -/
theorem le_of_keeps_nil {k o e n n' : Nat} {its : List (Iteration α)}
    (hk : Keeps (s.loop g fs text fold []).follows s.min k o its n e)
    (hn : Admissible s.min k o its n') : n' ≤ n := by
  refine Nat.le_of_not_lt fun hlt => ?_
  cases loop_follows_nil.1 (hk.most n' hlt hn)

section

variable (hp : (Ending.sealed s fold ts).IsPlain)
  (hig : ∀ p, g.lexicon.ignore = some p → p.IsPlain)

include hp hig

/-- An iteration of plain patterns goes ahead. -/
theorem iterates_ahead {dropping : Bool} {o : Nat} {a : Option α} {it : Iteration α}
    (h : s.iterates (Pattern.Answers fs text) g.lexicon.ignore dropping o a (some it)) :
    text.Ahead o it.stop := by
  cases s with
  | times => exact Iterates.ahead hp hig h
  | delimited => exact Grammar.separated_ahead hp.1 hp.2 h hig

/-- The iterations begin ahead of where the program does, if the grammar before them ends there. -/
theorem Begins.ahead {seed : Option α} {lead : List (Match α)} {o : Nat} {a : Option α}
    (hlead : ∀ o a, g.Reaches fs text start inherited o a → text.Ahead start o)
    (h : s.Begins fs text g start inherited seed lead o a) : text.Ahead start o := by
  cases h with
  | times hr => exact hlead _ _ hr
  | delimited hr hm hs => exact ((hlead _ _ hr).trans (hm.ahead hp.1)).trans (hs.ahead hig)

end

section

variable {f : Frame α} {lead : List (Match α)} {its : List (Iteration α)} {x y : Option (Final α)}
  (hig : ∀ p, g.lexicon.ignore = some p → p.IsPlain)

include hig

theorem loop_follows_none {i : Nat} :
    (s.loop g fs text fold [.endOfInput]).follows i none ↔ i < text.byteLength := by
  simp [loop, followUnder_endOfInput_iff hig]

theorem loop_follows_some {i e : Nat} :
    (s.loop g fs text fold [.endOfInput]).follows i (some e) ↔
      text.byteLength ≤ i ∧ e = text.byteLength ∧ SkipsAtEnd fs text g.lexicon.ignore := by
  simp [loop, followUnder_endOfInput_iff hig, SkipsAtEnd]

variable (hoff : ∀ n n', n ≤ n' → offsetAfter f.index its n ≤ offsetAfter f.index its n' ∧
    offsetAfter f.index its n' ≤ text.byteLength)
  (hx : (s.loop g fs text fold []).Finished f lead its x)

include hoff hx

/-- With the end of the input behind it a repetition comes to what it comes to without, if that is
the end of the text, and otherwise fails. -/
theorem finished_atEnd (hy : (s.loop g fs text fold [.endOfInput]).Finished f lead its y) :
    Option.Rel (fun fin fin' => fin'.index = fin.index ∧ fin'.attr = fin.attr)
        (x.filter fun fin => fin.index = text.byteLength) y ∧
      (y.isSome → SkipsAtEnd fs text g.lexicon.ignore) := by
  cases hx with
  | fails hno =>
    cases hy with
    | fails => exact ⟨.none, nofun⟩
    | ends hk' => cases loop_follows_nil.1 (hno _ hk'.admissible)
  | @ends n fin hk _ hattr =>
    have hindex := Option.some.inj (loop_follows_nil.1 hk.follows)
    cases hy with
    | fails hno =>
      have hlt := (loop_follows_none hig).1 (hno n hk.admissible)
      have hne : fin.index ≠ text.byteLength := by omega
      rw [Option.filter_some, if_neg (by simpa using hne)]
      exact ⟨.none, nofun⟩
    | @ends n' fin' hk' _ hattr' =>
      obtain ⟨hend, hindex', hskips⟩ := (loop_follows_some hig).1 hk'.follows
      have hle : n' ≤ n := le_of_keeps_nil hk hk'.admissible
      obtain ⟨hahead, hbound⟩ := hoff n' n hle
      -- The iterations kept without the end use up the text too, so no fewer of them may be kept.
      obtain rfl : n' = n := by
        refine Nat.le_antisymm hle (Nat.le_of_not_lt fun hlt => ?_)
        have hshort := (loop_follows_none hig).1 (hk'.most n hlt hk.admissible)
        omega
      have hend' : fin.index = text.byteLength := by omega
      rw [Option.filter_some, if_pos (by simpa using hend')]
      exact ⟨.some ⟨hindex'.trans hend'.symm, hattr'.trans hattr.symm⟩, fun _ => hskips⟩

/-- With the end of the input behind it a repetition comes to an answer if it does without, and if
ignorable text can be looked for at the end of the text. -/
theorem exists_follows_atEnd
    (hskips : (∃ fin, x = some fin ∧ fin.index = text.byteLength) →
      SkipsAtEnd fs text g.lexicon.ignore) {n : Nat}
    (hn : Admissible s.min f.count f.index its n) :
    ∃ e, (s.loop g fs text fold [.endOfInput]).follows (offsetAfter f.index its n) e := by
  rcases Nat.lt_or_ge (offsetAfter f.index its n) text.byteLength with hlt | hge
  · exact ⟨none, (loop_follows_none hig).2 hlt⟩
  refine ⟨_, (loop_follows_some hig).2 ⟨hge, rfl, hskips ?_⟩⟩
  cases hx with
  | fails hno => cases loop_follows_nil.1 (hno n hn)
  | @ends n₀ fin hk _ _ =>
    have hindex := Option.some.inj (loop_follows_nil.1 hk.follows)
    have := hoff n n₀ (le_of_keeps_nil hk hn)
    exact ⟨fin, rfl, by omega⟩

end

end Seal

/-! ## Runs that use up the text -/

/-- The runs of the second program from the start of the text are those of the first one that end
where the text does. -/
structure Program.Anchors (fs : Forwards α) (text : Text) (inherited : Option α)
    (p q : Program α) : Prop where
  sound : ∀ y, Exec (Pattern.Answers fs text) q text (.initial q.captures 0 inherited) y →
    ∃ x, Exec (Pattern.Answers fs text) p text (.initial p.captures 0 inherited) x ∧
      Option.Rel (fun fin fin' => fin'.index = fin.index ∧ fin'.attr = fin.attr)
        (x.filter fun fin => fin.index = text.byteLength) y ∧
      (y.isSome → SkipsAtEnd fs text p.ignore)
  complete : ∀ x, Exec (Pattern.Answers fs text) p text (.initial p.captures 0 inherited) x →
    ((∃ fin, x = some fin ∧ fin.index = text.byteLength) → SkipsAtEnd fs text p.ignore) →
    ∃ y, Exec (Pattern.Answers fs text) q text (.initial q.captures 0 inherited) y

/-- A run that ends where the text does is a match of all of it. -/
theorem Program.filter_match? {x y : Option (Final α)}
    (h : Option.Rel (fun fin fin' => fin'.index = fin.index ∧ fin'.attr = fin.attr)
      (x.filter fun fin => fin.index = text.byteLength) y) :
    (((x.bind (Final.match? text 0)).map fun m =>
        (⟨m.matched, m.lastIndex, m.attr, none⟩ : Parsed α)).filter
          fun m => m.lastIndex = text.byteLength) =
      (y.bind (Final.match? text 0)).map fun m => ⟨m.matched, m.lastIndex, m.attr, none⟩ := by
  cases x with
  | none =>
    cases h
    rfl
  | some fin =>
    by_cases hend : fin.index = text.byteLength
    · rw [Option.filter_some, if_pos (by simpa using hend)] at h
      cases h with
      | some hfin =>
        obtain ⟨hindex, hattr⟩ := hfin
        simp only [Option.bind_some, Final.match?, hindex, hattr]
        cases text.slice? 0 fin.index <;> simp [hend]
    · rw [Option.filter_some, if_neg (by simpa using hend)] at h
      cases h
      simp only [Option.bind_some, Final.match?]
      cases text.slice? 0 fin.index <;> simp [hend]

section

variable {p q : Program α} {inherited : Option α}

/-- A parse of the whole text is a match up to its end. -/
theorem Program.Anchors.parseStart_iff (h : Program.Anchors fs text inherited p q)
    {x : Option (Option (Parsed α))} :
    Trial.Settles (fun fuel => q.parseStart ⟨fs, fuel⟩ text 0 inherited) x ↔
      Trial.Settles (fun fuel => p.parse ⟨fs, fuel⟩ text inherited) x ∧
        ((∃ m, x = some (some m)) → SkipsAtEnd fs text p.ignore) := by
  have hsound {y : Option (Option (Parsed α))}
      (hq : Trial.Settles (fun fuel => q.parseStart ⟨fs, fuel⟩ text 0 inherited) y) :
      Trial.Settles (fun fuel => p.parse ⟨fs, fuel⟩ text inherited) y ∧
        ((∃ m, y = some (some m)) → SkipsAtEnd fs text p.ignore) := by
    obtain ⟨r, hr⟩ := exists_answers_of_parseStart hq
    obtain rfl := (parseStart_settles hr).unique hq
    obtain ⟨fin', hfin', rfl⟩ := answers_exec_iff.1 hr
    obtain ⟨fin, hfin, hrel, hskips⟩ := h.sound _ hfin'
    refine ⟨?_, fun ⟨m, hm⟩ => hskips ?_⟩
    · rw [← filter_match? hrel]
      exact parse_settles (answers_exec_iff.2 ⟨fin, hfin, rfl⟩)
    · cases fin' with
      | none => cases hm
      | some => rfl
  refine ⟨hsound, fun ⟨hp, hskips⟩ => ?_⟩
  obtain ⟨r, hr⟩ := exists_answers_of_parse hp
  obtain ⟨fin, hfin, rfl⟩ := answers_exec_iff.1 hr
  obtain rfl := (parse_settles hr).unique hp
  obtain ⟨fin', hfin'⟩ := h.complete fin hfin fun ⟨fin, hsome, hend⟩ => hskips <| by
    obtain ⟨t, ht⟩ := Text.exists_slice? (Text.isBoundary_zero text)
      (Text.isBoundary_byteLength text) (Nat.zero_le _)
    simp [hsome, Final.match?, hend, ht]
  have hq := parseStart_settles (answers_exec_iff.2 ⟨fin', hfin', rfl⟩)
  rwa [← (hsound hq).1.unique hp]

end

section

variable {l : Lexicon α} {ss : List (Link α)} {e : Ending α} {inherited : Option α}
  (hss : ∀ s ∈ ss, s.IsPlain) (hig : ∀ p, l.ignore = some p → p.IsPlain)

include hss hig

theorem Lexicon.ahead_of_reaches {start o : Nat} {a : Option α}
    (h : (l.chain ss).Reaches fs text start inherited o a) : text.Ahead start o := by
  have hplain : (Ending.chain.close (l.chain ss)).IsPlain := Ending.isPlain_close hss trivial hig
  exact Exec.ahead hplain h _ rfl

variable (halike : SkipsAlike (Pattern.Answers fs text) l.ignore) (hdrop : .dropAttributes ∉ ss)

include halike hdrop

/-- The steps of an open grammar, and then the end of the input. -/
theorem Lexicon.anchors_chain :
    Program.Anchors fs text inherited (l.chain ss).program (l.chain ss).endOfInput.program := by
  have hg := l.retains_chain hdrop
  have hignore : (l.chain ss).program.ignore = l.ignore := congrArg Lexicon.ignore chain_lexicon
  have hbound {o : Nat} {a : Option α} (h : (l.chain ss).Reaches fs text 0 inherited o a) :
      o ≤ text.byteLength :=
    Text.le_byteLength_of_isBoundary (ahead_of_reaches hss hig h (Text.isBoundary_zero text)).1
  have hend {o : Nat} {a : Option α} {y : Option (Final α)} :
      Exec (Pattern.Answers fs text) (l.chain ss).endOfInput.program text
          ((l.chain ss).frontFrame 0 0 o a) y ↔
        ∃ e, FollowUnder (Pattern.Answers fs text) l.ignore a [.endOfInput] o e ∧
          y = e.map fun e => ⟨e, a, .closed 0⟩ := by
    rw [← hignore]
    exact exec_terminals_under (Grammar.keep_endFrame hg a) (List.drop_left ..)
  have hfront {y : Option (Final α)} :
      Exec (Pattern.Answers fs text) (l.chain ss).endOfInput.program text
          (.initial 0 0 inherited) y ↔
        (∃ o a, (l.chain ss).Reaches fs text 0 inherited o a ∧
          Exec (Pattern.Answers fs text) (l.chain ss).endOfInput.program text
            ((l.chain ss).frontFrame 0 0 o a) y) ∨
        ((l.chain ss).Fails fs text 0 inherited ∧ y = none) :=
    Grammar.exec_front_iff hg.isOpen
  constructor
  · intro y hy
    rcases hfront.1 hy with ⟨o, a, hlead, hgo⟩ | ⟨hno, rfl⟩
    · obtain ⟨e, he, rfl⟩ := hend.1 hgo
      refine ⟨_, hlead, ?_⟩
      rw [Option.filter_some]
      rcases (followUnder_endOfInput_iff hig).1 he with ⟨hlt, rfl⟩ | ⟨hle, rfl, hs⟩
      · rw [if_neg (by simpa using Nat.ne_of_lt hlt)]
        exact ⟨.none, nofun⟩
      · have hindex : o = text.byteLength := Nat.le_antisymm (hbound hlead) hle
        rw [if_pos (by simpa using hindex)]
        exact ⟨.some ⟨hindex.symm, rfl⟩, fun _ => ⟨a, hignore ▸ hs⟩⟩
    · exact ⟨none, hno, .none, nofun⟩
  · intro x hx hskips
    cases x with
    | none => exact ⟨none, hfront.2 (.inr ⟨hx, rfl⟩)⟩
    | some fin =>
      obtain ⟨o, a, cs⟩ := fin
      obtain rfl : cs = .closed 0 := Grammar.captures_of_isOpen hg.isOpen hx _ rfl
      suffices h : ∃ e, FollowUnder (Pattern.Answers fs text) l.ignore a [.endOfInput] o e by
        obtain ⟨e, he⟩ := h
        exact ⟨_, hfront.2 (.inl ⟨o, a, hx, hend.2 ⟨e, he, rfl⟩⟩)⟩
      rcases Nat.lt_or_ge o text.byteLength with hlt | hge
      · exact ⟨none, (followUnder_endOfInput_iff hig).2 (.inl ⟨hlt, rfl⟩)⟩
      · have hindex : o = text.byteLength := Nat.le_antisymm (hbound hx) hge
        obtain ⟨b, hb⟩ := hskips ⟨_, rfl, hindex⟩
        rw [hignore] at hb
        exact ⟨_, (followUnder_endOfInput_iff hig).2 (.inr ⟨hge, rfl, halike _ _ _ _ hb⟩)⟩

omit hdrop in
/-- A repetition behind the steps, and then the end of the input. -/
theorem Seal.anchors {s : Seal α} {fold : Option (Action α × Option α)}
    (hp : (Ending.sealed s fold []).IsPlain) (hs : s.IsAccepted) :
    Program.Anchors fs text inherited ((Ending.sealed s fold []).close (l.chain ss))
      ((Ending.sealed s fold [.endOfInput]).close (l.chain ss)) := by
  have hopen : (l.chain ss).IsOpen := Lexicon.isOpen_chain
  have hlead (o : Nat) (a : Option α) (h : (l.chain ss).Reaches fs text 0 inherited o a) :
      text.Ahead 0 o := Lexicon.ahead_of_reaches hss hig h
  rw [← (Lexicon.chain_lexicon : (l.chain ss).lexicon = l)] at hig halike
  have hreached (ts : List Terminal) (seed : Option α) (lead : List (Match α)) (o : Nat)
      (a : Option α) :
      (s.loop (l.chain ss) fs text fold ts).Reached (s.frame (l.chain ss) 0 seed lead o a) lead :=
    loop_reached hs seed lead o a
  have hoff {seed lead} {o : Nat} {a : Option α} {its : List (Iteration α)}
      (hb : s.Begins fs text (l.chain ss) 0 inherited seed lead o a)
      (hits : Unrolls (s.iterates (Pattern.Answers fs text) (l.chain ss).lexicon.ignore
        (l.chain ss).drops) s.max 0 o a its) (n n' : Nat) (hn : n ≤ n') :
      offsetAfter o its n ≤ offsetAfter o its n' ∧ offsetAfter o its n' ≤ text.byteLength := by
    have hahead {i j : Nat} (hij : i ≤ j) :
        text.Ahead (offsetAfter o its i) (offsetAfter o its j) :=
      hits.ahead (fun _ _ _ hit => iterates_ahead hp hig hit) hij
    obtain ⟨hstart, -⟩ := hb.ahead hp hig hlead (Text.isBoundary_zero text)
    have hbound (i : Nat) : text.isBoundary (offsetAfter o its i) :=
      (hahead (Nat.zero_le i) (by rwa [offsetAfter_zero])).1
    exact ⟨(hahead hn (hbound n)).2, Text.le_byteLength_of_isBoundary (hbound n')⟩
  constructor
  · intro y hy
    rcases (exec_begins_iff hopen).1 hy with ⟨seed, lead, o, a, hb, hgo⟩ | ⟨hno, rfl⟩
    · obtain ⟨its, hits, hfin'⟩ := (loop_within hs halike).finished (hreached _ seed lead o a) hgo
      obtain ⟨x, hx, hfin⟩ := (loop_within hs halike).exists_finished
        (hreached [] seed lead o a) hits fun n _ _ => ⟨_, loop_follows_nil.2 rfl⟩
      obtain ⟨hrel, hskips⟩ := finished_atEnd hig (hoff hb hits) hfin hfin'
      exact ⟨x, (exec_begins_iff hopen).2 (.inl ⟨seed, lead, o, a, hb, hx⟩), hrel,
        close_ignore ▸ hskips⟩
    · exact ⟨none, (exec_begins_iff hopen).2 (.inr ⟨hno, rfl⟩), .none, nofun⟩
  · intro x hx hskips
    rw [close_ignore] at hskips
    rcases (exec_begins_iff hopen).1 hx with ⟨seed, lead, o, a, hb, hgo⟩ | ⟨hno, rfl⟩
    · obtain ⟨its, hits, hfin⟩ := (loop_within hs halike).finished (hreached [] seed lead o a) hgo
      obtain ⟨y, hy, -⟩ := (loop_within hs halike).exists_finished
        (hreached [.endOfInput] seed lead o a) hits
        fun n hn _ => exists_follows_atEnd hig (hoff hb hits) hfin hskips hn
      exact ⟨y, (exec_begins_iff hopen).2 (.inl ⟨seed, lead, o, a, hb, hy⟩)⟩
    · exact ⟨none, (exec_begins_iff hopen).2 (.inr ⟨hno, rfl⟩)⟩

end

/-- A parse of the whole text comes to what the grammar with the end of the input behind it comes to
at the start of the text: to the same match, or to none. The end of the input is a token, so where
it is found ignorable text is looked for once more behind it, and that has to come to an answer. It
does if no forward reference is found in the pattern of ignorable text. -/
theorem Ending.parse_whole_iff {l : Lexicon α} {ss : List (Link α)} {e : Ending α}
    (hdrop : .dropAttributes ∉ ss) (hss : ∀ s ∈ ss, s.IsPlain) (he : e.IsPlain)
    (hloop : e.EndsInLoop) (hig : ∀ p, l.ignore = some p → p.IsPlain)
    (halike : SkipsAlike (Pattern.Answers fs text) l.ignore) (inherited : Option α)
    (x : Option (Option (Parsed α))) :
    (Trial.Settles (fun fuel =>
        (e.closeAtEnd (l.chain ss)).parseStart ⟨fs, fuel⟩ text 0 inherited) x ↔
      Trial.Settles (fun fuel => (e.close (l.chain ss)).parse ⟨fs, fuel⟩ text inherited) x ∧
        ((∃ m, x = some (some m)) →
          ∀ p, l.ignore = some p → ∃ r, p.Answers fs text text.byteLength none r)) ∧
    ((∀ p, l.ignore = some p → p.IsGrounded ∧ p.IsSound) →
      (Trial.Settles (fun fuel =>
          (e.closeAtEnd (l.chain ss)).parseStart ⟨fs, fuel⟩ text 0 inherited) x ↔
        Trial.Settles (fun fuel => (e.close (l.chain ss)).parse ⟨fs, fuel⟩ text inherited) x)) := by
  have hanchors : Program.Anchors fs text inherited (e.close (l.chain ss))
      (e.closeAtEnd (l.chain ss)) := by
    cases e with
    | chain => exact Lexicon.anchors_chain hss hig halike hdrop
    | sealed s fold ts =>
      obtain ⟨hs, rfl⟩ := hloop
      rw [closeAtEnd_sealed]
      exact Seal.anchors hss hig halike he hs
  have hignore : (e.close (l.chain ss)).ignore = l.ignore := by rw [close_chain]
  rw [hanchors.parseStart_iff, hignore, skipsAtEnd_iff hig halike]
  refine ⟨Iff.rfl, fun hgrounded => and_iff_left fun _ p hp => ?_⟩
  obtain ⟨hp, hsound⟩ := hgrounded p hp
  exact hp.exists_answers hsound _ none

/-- Behind an `a` the `b` are counted, up to the end of the text and not of the last `b`. -/
theorem Ending.parse_whole_counted :
    let count : Action Nat := ⟨fun c => c.inherited.map (· + 1), none⟩
    let g := (Lexicon.empty.withIgnore (some .spaces)).chain [.token (.literal ['a']) none]
    let e : Ending Nat := .sealed (.times 0 none (.literal ['b'])) (some (count, some 0)) []
    let whole : Parsed Nat := ⟨"a b b ".toList, 6, some 2, none⟩
    Trial.Settles (fun fuel => (e.close g).parse ⟨.empty, fuel⟩ "a b b ".toList none)
        (some (some whole)) ∧
      Trial.Settles (fun fuel => (e.closeAtEnd g).parseStart ⟨.empty, fuel⟩ "a b b ".toList 0 none)
        (some (some whole)) := by
  intro count g e whole
  have h : (e.close g).Answers .empty "a b b ".toList 0 none
      (some ⟨"a b b ".toList, 6, some 2, []⟩) :=
    Pattern.answers_program_iff.1 (Pattern.answers_of_outcome? 16 (by decide +kernel))
  have hparse : Trial.Settles (fun fuel => (e.close g).parse ⟨.empty, fuel⟩ "a b b ".toList none)
      (some (some whole)) := Program.parse_settles h
  have hspaces : ∀ p, (Lexicon.empty.withIgnore (some .spaces) : Lexicon Nat).ignore = some p →
      p.IsPlain ∧ p.IsGrounded ∧ p.IsSound := by
    rintro p ⟨⟩
    exact ⟨trivial, .regex _, .regex _⟩
  have hsteps : ∀ s ∈ [Link.token (.literal ['a'] : Pattern Nat) none],
      s.IsPlain ∧ s ≠ .dropAttributes := by
    simp [Link.IsPlain, Pattern.IsPlain]
  have hplain : e.IsPlain := trivial
  have hloop : e.EndsInLoop := ⟨rfl, rfl⟩
  have hiff : Trial.Settles (fun fuel =>
          (e.closeAtEnd g).parseStart ⟨.empty, fuel⟩ "a b b ".toList 0 none) (some (some whole)) ↔
        Trial.Settles (fun fuel => (e.close g).parse ⟨.empty, fuel⟩ "a b b ".toList none)
          (some (some whole)) :=
    (Ending.parse_whole_iff (fun h => (hsteps _ h).2 rfl) (fun s hs => (hsteps s hs).1) hplain hloop
      (fun p hp => (hspaces p hp).1) (Pattern.alike_run _ _ (Nat.zero_le 1)) none _).2
      fun p hp => (hspaces p hp).2
  exact ⟨hparse, hiff.2 hparse⟩

/-- A cell with a space, or else the cell itself at the same place. -/
def Forwards.leftRecursive : Forwards Nat :=
  ⟨#[some (Grammar.empty.choice [.literal [' '], .forward 0]).program]⟩

theorem not_answers_leftRecursive {i : Nat} (hi : i ≠ 0) (a : Option Nat) (r : Option (Match Nat)) :
    ¬ (Pattern.forward 0).Answers .leftRecursive [' '] i a r := by
  intro h
  obtain ⟨fuel, hfind⟩ := h.exists_find
  clear h
  induction fuel generalizing r with
  | zero =>
    obtain ⟨j, j', h⟩ := hfind
    exact Trial.not_ends_outOfFuel h
  | succ fuel ih =>
    have hruns : Runs (Probe.verdicts (Pattern.find .leftRecursive [' '] fuel))
        (Grammar.empty.choice [.literal [' '], .forward 0]).program [' '] i a r :=
      Pattern.find_sound hfind
    obtain ⟨x, hx⟩ : ∃ x, Exec (Probe.verdicts (Pattern.find .leftRecursive [' '] fuel))
        (Grammar.empty.choice [.literal [' '], .forward 0]).program [' '] (.initial 0 i a) x := by
      cases hruns with
      | matched hx | unsliced hx | failed hx => exact ⟨_, hx⟩
    obtain ⟨o, ho⟩ := hx.firstMatch rfl
    cases ho with
    | here hspace =>
      obtain ⟨rest, hrest, -⟩ := Pattern.answers_literal_iff.1 (Pattern.answers_of_find hspace)
      obtain ⟨s, hs, rfl⟩ := Text.from?_eq_some_iff.1 hrest
      cases s with
      | nil => exact hi Text.byteLength_nil
      | cons c s => exact List.append_ne_nil_of_right_ne_nil s (by simp) (List.cons.inj hs).2.symm
    | later _ hself =>
      cases hself with
      | here hself | later hself => exact ih _ hself

/-- An ignorable pattern that recurses for ever where no space stands. A parse of the whole text
matches, but behind the end of the input ignorable text is looked for without end. -/
theorem Ending.parse_whole_recursive :
    let blank : Pattern Nat := .forward 0
    let g := (Lexicon.empty.withIgnore (some blank)).chain []
    (blank.IsPlain ∧ SkipsAlike (Pattern.Answers .leftRecursive [' ']) (some blank)) ∧
      Trial.Settles (fun fuel => (chain.close g).parse ⟨.leftRecursive, fuel⟩ [' '] none)
        (some (some ⟨[' '], 1, none, none⟩)) ∧
      ∀ x, ¬ Trial.Settles (fun fuel =>
        (chain.closeAtEnd g).parseStart ⟨.leftRecursive, fuel⟩ [' '] 0 none) x := by
  intro blank g
  have hspace (a : Option Nat) : ∃ m : Match Nat, m.lastIndex = 1 ∧
      blank.Answers .leftRecursive [' '] 0 a (some m) :=
    ⟨⟨[' '], 1, a, []⟩, rfl, Pattern.answers_of_outcome? 3 (by cases a <;> rfl)⟩
  have halike : SkipsAlike (Pattern.Answers .leftRecursive [' ']) (some blank) := by
    intro i a b j hj
    obtain ⟨r, hr⟩ := hj.exists_answer rfl
    obtain rfl : i = 0 := Classical.byContradiction fun hi => not_answers_leftRecursive hi a r hr
    obtain ⟨m, hm, ha⟩ := hspace a
    obtain ⟨m', hm', hb⟩ := hspace b
    rw [hj.unique Pattern.answers_unique (.moves ha), hm, ← hm']
    exact .moves hb
  have hplain : ∀ p, (Lexicon.empty.withIgnore (some blank)).ignore = some p → p.IsPlain := by
    rintro _ ⟨⟩
    trivial
  have hanchors : Program.Anchors .leftRecursive [' '] none g.program g.endOfInput.program :=
    Lexicon.anchors_chain (List.forall_mem_nil _) hplain halike (List.not_mem_nil)
  have hparse : Trial.Settles (fun fuel => (chain.close g).parse ⟨.leftRecursive, fuel⟩ [' '] none)
      (some (some ⟨[' '], 1, none, none⟩)) := by
    have h : (chain.close g).Answers .leftRecursive [' '] 0 none (some ⟨[' '], 1, none, []⟩) :=
      Pattern.answers_program_iff.1 (Pattern.answers_of_outcome? 8 (by decide +kernel))
    exact Program.parse_settles h
  refine ⟨⟨trivial, halike⟩, hparse, fun x hx => ?_⟩
  obtain ⟨hx, hskips⟩ := hanchors.parseStart_iff.1 hx
  obtain ⟨a, hend⟩ := hskips ⟨_, hx.unique hparse⟩
  obtain ⟨r, hr⟩ := hend.exists_answer rfl
  exact not_answers_leftRecursive (by decide) a r hr

end GrammarMachine
