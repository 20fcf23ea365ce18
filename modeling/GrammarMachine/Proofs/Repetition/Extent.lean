import GrammarMachine.Proofs.Repetition.Program
import GrammarMachine.Proofs.Text.Offsets

/-!
# Extent of a repetition

Where a repetition of a pattern ends, with line breaks and the end of the input behind it.

* `Pattern.Advances`: a pattern that comes to an answer at every boundary and never goes back.
* `Grammar.repetition_extent`: the repetition matches if the terminals match after some admissible
  number of iterations, and ends where they end after the most.
-/

namespace GrammarMachine

variable {α : Type} {fs : Forwards α} {text : Text}

/-- Tested at a boundary, the pattern comes to an answer, and its match ends at a boundary ahead. -/
structure Pattern.Advances (fs : Forwards α) (text : Text) (p : Pattern α) : Prop where
  answers : ∀ i a, text.isBoundary i → ∃ r, p.Answers fs text i a r
  ends : ∀ i a m, text.isBoundary i → p.Answers fs text i a (some m) →
    text.isBoundary m.lastIndex ∧ i ≤ m.lastIndex

/-! ## Patterns that advance -/

theorem literal_advances (t : Text) : (Pattern.literal t : Pattern α).Advances fs text where
  answers i a _ := ⟨_, Pattern.answers_iff.2 rfl⟩
  ends i a m hi h := by
    have h : some m = literalAt t text i := Pattern.answers_iff.1 h
    obtain ⟨stop, hstop, rfl⟩ := Option.map_eq_some_iff.1 h.symm
    obtain ⟨u, v, rfl, rfl, rfl⟩ := literalEnd?_eq_some hstop
    exact ⟨Text.isBoundary_of_from? (Text.from?_add (Text.from?_append u _)), Nat.le_add_right _ _⟩

theorem Terminal.advances (t : Terminal) : (t.pattern : Pattern α).Advances fs text where
  answers i a _ := by
    cases t <;> exact ⟨_, Pattern.answers_iff.2 rfl⟩
  ends i a m hi h := by
    cases t with
    | lineBreak =>
      have h : some m = lineBreakAt text i := Pattern.answers_iff.1 h
      obtain ⟨stop, hstop, hm⟩ := Option.bind_eq_some_iff.1 h.symm
      obtain ⟨t, ht, rfl⟩ := Option.map_eq_some_iff.1 hm
      exact ⟨(Text.isBoundary_of_slice? ht).2, Text.le_of_slice? ht⟩
    | endOfInput =>
      have h : some m = if text.byteLength ≤ i then _ else _ := Pattern.answers_iff.1 h
      split at h
      · obtain rfl := Option.some.inj h
        exact ⟨Text.isBoundary_byteLength text, Text.le_byteLength_of_isBoundary hi⟩
      · cases h

theorem Skips.advances {ignore : Option (Pattern α)}
    (hig : ∀ q, ignore = some q → q.Advances fs text) {i j : Nat} {a : Option α}
    (hi : text.isBoundary i) (h : Skips (Pattern.Answers fs text) ignore i a j) :
    text.isBoundary j ∧ i ≤ j := by
  cases h with
  | nothing | stays => exact ⟨hi, Nat.le_refl _⟩
  | moves h => exact (hig _ rfl).ends i a _ hi h

/-! ## Iterations and terminals advance -/

section

variable {ignore : Option (Pattern α)} {p : Pattern α} {dropping : Bool}

theorem exists_iterates (hp : p.Advances fs text)
    (hig : ∀ q, ignore = some q → q.Advances fs text) {o : Nat} (ho : text.isBoundary o)
    (a : Option α) :
    ∃ r, Iterates (Pattern.Answers fs text) ignore dropping p o a r := by
  obtain ⟨r, hr⟩ := hp.answers o a ho
  cases r with
  | none => exact ⟨none, .fails hr⟩
  | some m =>
    obtain ⟨j, hj⟩ := exists_skips fun q hq => (hig q hq).answers _
      (if dropping then none else merge a m.attr) (hp.ends o a m ho hr).1
    exact ⟨_, .ends hr hj⟩

theorem Iterates.advances (hp : p.Advances fs text)
    (hig : ∀ q, ignore = some q → q.Advances fs text) {o : Nat} {a : Option α} {it : Iteration α}
    (ho : text.isBoundary o)
    (h : Iterates (Pattern.Answers fs text) ignore dropping p o a (some it)) :
    text.isBoundary it.stop ∧ o ≤ it.stop := by
  cases h with
  | ends hm hs =>
    obtain ⟨hb, hle⟩ := hp.ends _ _ _ ho hm
    obtain ⟨hb', hle'⟩ := hs.advances hig hb
    exact ⟨hb', Nat.le_trans hle hle'⟩

theorem exists_follow (hig : ∀ q, ignore = some q → q.Advances fs text) (ts : List Terminal)
    {i : Nat} (hi : text.isBoundary i) : ∃ e, Follow (Pattern.Answers fs text) ignore ts i e := by
  induction ts generalizing i with
  | nil => exact ⟨_, .nil⟩
  | cons t ts ih =>
    obtain ⟨r, hr⟩ := t.advances.answers i none hi
    cases r with
    | none => exact ⟨none, .fails hr⟩
    | some m =>
      have hm := (t.advances.ends i none m hi hr).1
      obtain ⟨j, hj⟩ := exists_skips fun q hq => (hig q hq).answers _ none hm
      obtain ⟨e, he⟩ := ih (hj.advances hig hm).1
      exact ⟨e, .goes hr hj he⟩

theorem Follow.advances (hig : ∀ q, ignore = some q → q.Advances fs text) {ts : List Terminal}
    {i e : Nat} (hi : text.isBoundary i)
    (h : Follow (Pattern.Answers fs text) ignore ts i (some e)) : text.isBoundary e ∧ i ≤ e := by
  generalize hr : some e = r at h
  induction h with
  | nil =>
    cases hr
    exact ⟨hi, Nat.le_refl _⟩
  | fails => cases hr
  | @goes t ts i m j e hm hs _ ih =>
    obtain ⟨hb, hle⟩ := t.advances.ends i none m hi hm
    obtain ⟨hb', hle'⟩ := hs.advances hig hb
    obtain ⟨hb'', hle''⟩ := ih hb' hr
    exact ⟨hb'', by omega⟩

theorem Follow.unique {ts : List Terminal} {i : Nat} {e e' : Option Nat}
    (h : Follow (Pattern.Answers fs text) ignore ts i e)
    (h' : Follow (Pattern.Answers fs text) ignore ts i e') : e = e' := by
  induction h with
  | nil =>
    cases h'
    rfl
  | fails h =>
    cases h' with
    | fails => rfl
    | goes h' => cases h.unique h'
  | goes h hs _ ih =>
    cases h' with
    | fails h' => cases h.unique h'
    | goes h' hs' he =>
      cases h.unique h'
      cases hs.unique Pattern.answers_unique hs'
      exact ih he

/-- All offsets at which an iteration ends are boundaries. -/
theorem Unrolls.advances (hp : p.Advances fs text)
    (hig : ∀ q, ignore = some q → q.Advances fs text) {max : Option Nat} {k o : Nat} {a : Option α}
    {its : List (Iteration α)}
    (h : Unrolls (Iterates (Pattern.Answers fs text) ignore dropping p) max k o a its)
    (ho : text.isBoundary o) (n : Nat) :
    text.isBoundary (offsetAfter o its n) ∧ o ≤ offsetAfter o its n := by
  induction h generalizing n with
  | fails _ => cases n <;> exact ⟨ho, Nat.le_refl _⟩
  | @last k o a it hit _ =>
    obtain ⟨hb, hle⟩ := hit.advances hp hig ho
    match n with
    | 0 => exact ⟨ho, Nat.le_refl _⟩
    | 1 | _ + 2 => exact ⟨hb, hle⟩
  | more hit _ _ _ ih =>
    obtain ⟨hb, hle⟩ := hit.advances hp hig ho
    cases n with
    | zero => exact ⟨ho, Nat.le_refl _⟩
    | succ n => exact ⟨(ih hb n).1, Nat.le_trans hle (ih hb n).2⟩

end

/-! ## The extent -/

namespace Grammar

variable {g : Grammar α} {min : Nat} {max : Option Nat} {p : Pattern α}
  {fold : Option (Action α × Option α)} {ts : List Terminal}

/-- Take the iterations of the pattern one after the other, from where the grammar ends. The
repetition matches if the terminals match after an admissible number of them, and ends where the
terminals end after the most. -/
theorem repetition_extent {r : Repetition α} (fold : Option (Action α × Option α))
    (ts : List Terminal) (hg : g.IsOpen) (hr : g.tokenTimes min max p = .ok r)
    (hp : p.Advances fs text) (hig : ∀ q, g.lexicon.ignore = some q → q.Advances fs text)
    (hskip : SkipsAlike (Pattern.Answers fs text) g.lexicon.ignore)
    {start : Nat} {inherited : Option α} {m₀ : Match α}
    (hlead : g.program.Answers fs text start inherited (some m₀)) :
    ∃ its, Unrolls (Iterates (Pattern.Answers fs text) g.lexicon.ignore g.drops p) max 0
        m₀.lastIndex m₀.attr its ∧
      ∃ o, ((r.folding fold).followedBy ts).program.Answers fs text start inherited o ∧
        (o.isSome ↔ ∃ n e, Admissible min 0 m₀.lastIndex its n ∧
          Follow (Pattern.Answers fs text) g.lexicon.ignore ts
            (offsetAfter m₀.lastIndex its n) (some e)) ∧
        ∀ m, o = some m → ∃ n,
          Keeps (Follow (Pattern.Answers fs text) g.lexicon.ignore ts) min 0 m₀.lastIndex its n
            m.lastIndex := by
  obtain ⟨hb, rfl⟩ := tokenTimes_eq_ok hr
  have hL : (g.loop fs text min max p fold ts).Within (Pattern.Answers fs text)
      (g.repetition min max p fold ts).program text := loop_within hb hskip
  have hf : (g.loop fs text min max p fold ts).Reached
      (g.loopFrame start m₀.lastIndex m₀.attr) [] := loop_reached hb _ _ _
  obtain ⟨hstart, hb₀, hle₀⟩ : text.isBoundary start ∧ text.isBoundary m₀.lastIndex ∧
      start ≤ m₀.lastIndex := by
    cases Program.answers_iff.1 hlead with
    | matched _ ht =>
      exact ⟨(Text.isBoundary_of_slice? ht).1, (Text.isBoundary_of_slice? ht).2,
        Text.le_of_slice? ht⟩
  -- Each of the iterations stays within the text, so the repetition unrolls.
  obtain ⟨its, hits⟩ : ∃ its, Unrolls
      (Iterates (Pattern.Answers fs text) g.lexicon.ignore g.drops p) max 0 m₀.lastIndex m₀.attr
      its := by
    refine exists_unrolls (fun o ho => Text.le_byteLength_of_isBoundary ho) (fun o a ho => ?_) 0 hb₀
      m₀.attr
    obtain ⟨r, hr⟩ := exists_iterates hp hig ho a
    exact ⟨r, hr, fun it hit => Iterates.advances hp hig ho (hit ▸ hr)⟩
  have hadv := hits.advances hp hig hb₀
  obtain ⟨r, hexec⟩ := hL.exists_exec hf hits fun n _ => exists_follow hig ts (hadv n).1
  obtain ⟨its', hits', hfin⟩ := hL.finished hf hexec
  obtain rfl := hits.unique (Iterates.unique Pattern.answers_unique) hits'
  have hrun := exec_repetition_of_loop hg (reaches_of_answers hg hlead) hexec
  refine ⟨its, hits, ?_⟩
  cases hfin with
  | fails hno =>
    refine ⟨none, Program.answers_iff.2 (.failed hrun), ?_, fun m h => nomatch h⟩
    simp only [Option.isSome_none, Bool.false_eq_true, false_iff, not_exists, not_and]
    intro n e hn he
    cases (hno n hn).unique he
  | @ends n fin hk _ _ =>
    obtain ⟨hbn, hlen⟩ := hk.follows.advances hig (hadv n).1
    obtain ⟨t, ht⟩ :=
      Text.exists_slice? hstart hbn (Nat.le_trans hle₀ (Nat.le_trans (hadv n).2 hlen))
    refine ⟨_, Program.answers_iff.2 (.matched hrun ht), ?_, ?_⟩
    · exact iff_of_true rfl ⟨n, fin.index, hk.admissible, hk.follows⟩
    · rintro m hm
      obtain rfl := Option.some.inj hm
      exact ⟨n, hk⟩

theorem repetition_extent_bracket :
    ∃ o, (((Grammar.empty.token (.literal ['('])).repeated 1 (some 3) (.literal ['a'])).followedBy
        [.lineBreak]).program.Answers (.empty : Forwards Nat) "(aa\n".toList 0 none o ∧
      ∀ m, o = some m → ∃ (its : List (Iteration Nat)) (n : Nat),
        Keeps (Follow (Pattern.Answers (.empty : Forwards Nat) "(aa\n".toList) none [.lineBreak])
          1 0 1 its n m.lastIndex := by
  let g : Grammar Nat := Grammar.empty.token (.literal ['('])
  have hr : g.tokenTimes 1 (some 3) (.literal ['a']) =
      .ok (g.repeated 1 (some 3) (.literal ['a'])) := rfl
  have hlead : g.program.Answers .empty "(aa\n".toList 0 none (some ⟨['('], 1, none, []⟩) :=
    Pattern.answers_program_iff.1 (Pattern.answers_of_outcome? 8 (by decide +kernel))
  obtain ⟨its, -, o, ho, -, hk⟩ := repetition_extent none [.lineBreak]
    ((Grammar.retains_lexicon _).token _).isOpen hr (literal_advances ['a'])
    (fun _ h => nomatch h) (fun _ _ _ _ h => by cases h; exact .nothing) hlead
  exact ⟨o, ho, fun m hm => ⟨its, hk m hm⟩⟩

end Grammar

end GrammarMachine
