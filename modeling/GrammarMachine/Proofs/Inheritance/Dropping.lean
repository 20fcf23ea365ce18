import GrammarMachine.Proofs.Nesting.Links
import GrammarMachine.Proofs.Repetition.Delimited

/-!
# Attributes that are dropped

From the step on that drops attributes the machine goes on as before, but what is computed is thrown
away. The attribute that was held before stays until something is computed, so a grammar in which
only tests and keywords follow hands it on.

* `Link.Computes`: the steps that compute an attribute.
* `Step.dropped`, `Exec.dropped`: an attribute that is gone stays gone, whatever actions return.
* `Grammar.reaches_dropping`: the steps behind the one that drops attributes.
* `Ending.close_drops`: a grammar with such a step, as a whole and as a token of another one.
-/

namespace GrammarMachine

section

variable {π α : Type} {V : Verdicts π α} {code : Code π α} {text : Text} {f : Frame α}

/-- Whether the instruction computes an attribute. -/
def Instr.computes : Instr π α → Bool
  | .consume .. | .choice _ | .assign _ | .transform _ => true
  | _ => false

theorem Frame.keep_dropping (hd : f.dropping = true) (a : Option α) : f.keep a = none := by
  simp [Frame.keep, hd]

/-- While attributes are dropped an instruction that computes one leaves none, and the others leave
the attribute as it is. -/
theorem Step.attr_of_dropping (hd : f.dropping = true) {instr : Instr π α}
    (hi : code.instrs[f.pc]? = some instr) {f' : Frame α} (h : Step V code text f (some f')) :
    f'.dropping = true ∧ f'.attr = if instr.computes then none else f.attr := by
  have hkeep := Frame.keep_dropping hd
  cases h with
  | consume hj | choice hj | assign hj | transform hj =>
    cases hi.symm.trans hj
    exact ⟨hd, hkeep _⟩
  | loopStart hj | loopEnds hj | loopAgain hj | ahead hj | guard hj | skip hj | keyword hj =>
    cases hi.symm.trans hj
    exact ⟨hd, rfl⟩
  | dropAttributes hj =>
    cases hi.symm.trans hj
    exact ⟨rfl, rfl⟩

/-- The attribute of a repetition that is over is dropped too. -/
theorem Frame.settledAttr_dropping (hd : f.dropping = true) (a : Option α) (ms : List (Match α))
    (fold : Option (Action α)) (init : Option α) : f.settledAttr a ms fold init = none := by
  rw [← Loop.keep_settledAttr, Frame.keep_dropping hd]

/-- An attribute that is gone stays gone. -/
theorem Exec.dropped {r : Option (Final α)} (h : Exec V code text f r) (hd : f.dropping = true)
    (ha : f.attr = none) : ∀ x, r = some x → x.attr = none := by
  induction h with
  | halt _ =>
    rintro x ⟨⟩
    exact ha
  | step hs _ ih =>
    obtain ⟨instr, hi⟩ := hs.exists_instr
    obtain ⟨hd', ha'⟩ := hs.attr_of_dropping hd hi
    exact ih hd' (by simp [ha', ha])
  | fail _ | tooFew _ _ _ => exact fun _ h => nomatch h
  | @kept f capture min exit fold init y hi _ ih =>
    rintro x ⟨⟩
    simp only [Frame.afterIteration, Frame.settledAttr_dropping hd, Frame.keep_dropping hd,
      ite_self]
  | @left f capture min exit fold init r hi _ _ _ _ ih =>
    refine ih hd ?_
    simp only [Frame.leaveLoop, Frame.settledAttr_dropping hd, ha, ite_self]

/-- A repetition leaves no attribute while attributes are dropped, be there iterations or not. -/
theorem Exec.dropped_of_loopTry {capture min exit : Nat} {fold : Option (Action α)}
    {init : Option α} (hi : code.instrs[f.pc]? = some (.loopTry capture min exit fold init)) {x : Final α}
    (h : Exec V code text f (some x)) (hd : f.dropping = true) (hc : f.count = 0) :
    x.attr = none := by
  obtain ⟨n, hn⟩ := h.height
  obtain ⟨_, _, -, -, hr⟩ := hn.of_loopTry hi
  rcases hr with ⟨y, -, hx⟩ | ⟨-, -, hx⟩ | ⟨-, -, hleft⟩
  · cases hx
    simp only [Frame.afterIteration, if_pos hc, Frame.settledAttr_dropping hd]
  · cases hx
  · refine hleft.dropped hd ?_ x rfl
    simp only [Frame.leaveLoop, if_pos hc, Frame.settledAttr_dropping hd]

end

variable {α : Type} {fs : Forwards α} {text : Text} {l : Lexicon α} {start j : Nat}
  {inherited b : Option α}

/-! ## Steps behind the one that drops -/

namespace Link

/-- Whether the step computes an attribute. -/
def Computes : Link α → Prop
  | token _ _ | word _ | choice _ | assign _ | transform _ => True
  | ahead _ _ | guard _ | keyword _ _ | dropAttributes => False

theorem computes_iff {s : Link α} : s.Computes ↔ (s.instrs l).any Instr.computes = true := by
  cases s <;> simp [Computes, instrs, Instr.computes]

theorem exists_computes_iff {ss : List (Link α)} :
    (∃ s ∈ ss, s.Computes) ↔ (instrsOf l ss).any Instr.computes = true := by
  simp only [computes_iff (l := l), instrsOf, List.any_flatMap, List.any_eq_true]

end Link

namespace Grammar

variable {g : Grammar α}

/-- The step that drops attributes leaves the one that is held. -/
theorem reaches_of_dropAttributes (hg : g.IsOpen)
    (h : g.dropAttributes.Reaches fs text start inherited j b) :
    g.Reaches fs text start inherited j b := by
  obtain ⟨o, a, f, hlead, hs, rfl, rfl⟩ := (reaches_append_iff hg .dropAttributes trivial).1 h
  cases hs with
  | dropAttributes => exact hlead
  | consume hj | loopStart hj | loopEnds hj | loopAgain hj | choice hj | ahead hj | guard hj
  | assign hj | transform hj | skip hj | keyword hj => cases (append_instr _).symm.trans hj

/-- Behind a grammar that drops attributes the one that is held stays until one is computed. -/
theorem reaches_dropping (hg : g.IsOpen) (hd : g.drops = true) {is : List (Instr (Pattern α) α)}
    (his : ∀ i ∈ is, i.IsStraight) (h : (g.append is).Reaches fs text start inherited j b) :
    ∃ o a, g.Reaches fs text start inherited o a ∧
      b = if is.any Instr.computes then none else a := by
  induction is generalizing g with
  | nil => exact ⟨j, b, by simpa [append] using h, rfl⟩
  | cons i is ih =>
    have hi : i.IsStraight := his i List.mem_cons_self
    have hcons : g.append (i :: is) = (g.append [i]).append is := by simp [append]
    have hopen : (g.append [i]).IsOpen := hg.append fun i' hi' => List.mem_singleton.1 hi' ▸ hi
    have hdrops : (g.append [i]).drops = true := by
      simp only [drops] at hd
      simp [drops, append, hd]
    obtain ⟨o₁, a₁, h₁, rfl⟩ :=
      ih hopen hdrops (fun i' hi' => his i' (List.mem_cons_of_mem i hi')) (hcons ▸ h)
    obtain ⟨o, a, f, hlead, hs, -, rfl⟩ := (reaches_append_iff hg i hi).1 h₁
    obtain ⟨-, hattr⟩ := hs.attr_of_dropping hd (append_instr i)
    refine ⟨o, a, hlead, ?_⟩
    rw [hattr, List.any_cons]
    cases i.computes <;> simp [endFrame]

end Grammar

theorem Lexicon.chain_dropAttributes (before after : List (Link α)) :
    l.chain (before ++ .dropAttributes :: after) =
      (l.chain before).dropAttributes.append (Link.instrsOf l after) := by
  simp [chain_eq, Grammar.dropAttributes, Grammar.append, Link.instrsOf, Link.instrs]

section

variable {before after : List (Link α)}

theorem Lexicon.drops_chain : (l.chain (before ++ .dropAttributes :: after)).drops = true := by
  simp [chain_dropAttributes, Grammar.drops, Grammar.append, Grammar.dropAttributes, Instr.drops]

/-- Steps of which one drops attributes end with the attribute that was held there, or with none if
one is computed behind. -/
theorem Lexicon.reaches_chain_dropping
    (h : (l.chain (before ++ .dropAttributes :: after)).Reaches fs text start inherited j b) :
    ∃ o a, (l.chain before).Reaches fs text start inherited o a ∧
      b = if (Link.instrsOf l after).any Instr.computes then none else a := by
  have hopen : (l.chain before).IsOpen := isOpen_chain
  rw [chain_dropAttributes] at h
  obtain ⟨o, a, hlead, hb⟩ := Grammar.reaches_dropping (hopen.append (by simp [Instr.IsStraight]))
    (by simp [Grammar.drops, Grammar.append, Instr.drops])
    Link.isStraight_instrsOf h
  exact ⟨o, a, Grammar.reaches_of_dropAttributes hopen hlead, hb⟩

/-- A repetition behind a grammar that drops attributes leaves none. -/
theorem Seal.exec_dropping {g : Grammar α} (hd : g.drops = true) (s : Seal α)
    (fold : Option (Action α × Option α)) (ts : List Terminal) {o : Nat} {a : Option α}
    {x : Final α} (h : Exec (Pattern.Answers fs text) ((Ending.sealed s fold ts).close g) text
      (g.frontFrame 1 start o a) (some x)) : x.attr = none := by
  cases s with
  | times min max p =>
    have hstart := h.of_loopStart (Grammar.repetition_instrs_get? 0 rfl)
    exact hstart.dropped_of_loopTry (Grammar.repetition_instrs_get? 1 rfl) hd rfl
  | delimited element delimiter =>
    have hstart := h.of_loopStart (Grammar.delimited_instrs_get? 0 rfl)
    rcases hstart.of_consume (Grammar.delimited_instrs_get? 1 rfl) with
      ⟨-, hno⟩ | ⟨m, i, -, -, hrest⟩
    · cases hno
    · exact hrest.dropped hd (Frame.keep_dropping hd _) x rfl

/-- A grammar that drops attributes from some step on. If an attribute is computed behind it, there
is none in the end, whatever the actions return; if not, it is the one that was held there. If there
is none, a grammar that keeps attributes holds the same behind this one as before. -/
theorem Ending.drops_attribute (before after : List (Link α)) (e : Ending α) {m : Match α}
    (h : (e.close (l.chain (before ++ .dropAttributes :: after))).Answers fs text start inherited
      (some m)) :
    ((∃ s ∈ after, s.Computes) ∨ e ≠ .chain → m.attr = none) ∧
    ((∀ s ∈ after, ¬ s.Computes) → e = .chain →
      ∃ o, (l.chain before).Reaches fs text start inherited o m.attr) ∧
    (m.attr = none → ∀ g : Grammar α, g.Retains → ∀ i a, g.Reaches fs text i a start inherited →
      ∀ j b, (g.token (.program (e.close (l.chain (before ++ .dropAttributes :: after))))).Reaches
          fs text i a j b ↔
        b = inherited ∧
          Skips (Pattern.Answers fs text) g.lexicon.ignore m.lastIndex inherited j) := by
  have hopen : (l.chain (before ++ .dropAttributes :: after)).IsOpen := Lexicon.isOpen_chain
  refine ⟨fun hsome => ?_, fun hnone he => ?_, fun hm g hg i a hlead j b => ?_⟩
  · cases e with
    | chain =>
      obtain ⟨o, a, -, hattr⟩ := Lexicon.reaches_chain_dropping (Grammar.reaches_of_answers hopen h)
      rw [hattr, if_pos (Link.exists_computes_iff.1 (hsome.resolve_right fun h => h rfl))]
    | sealed s fold ts =>
      have hclose := close_eq (l.chain (before ++ .dropAttributes :: after)) (sealed s fold ts)
      cases Program.answers_iff.1 h with
      | matched hx _ =>
        rw [hclose] at hx
        rcases (Grammar.exec_front_iff hopen).1 hx with ⟨o, a, -, hgo⟩ | ⟨-, hno⟩
        · rw [← hclose] at hgo
          exact Seal.exec_dropping Lexicon.drops_chain s fold ts hgo
        · cases hno
  · subst he
    obtain ⟨o, a, hlead, hattr⟩ :=
      Lexicon.reaches_chain_dropping (Grammar.reaches_of_answers hopen h)
    refine ⟨o, ?_⟩
    rwa [hattr, if_neg]
    rw [← Link.exists_computes_iff]
    exact fun ⟨s, hs, hc⟩ => hnone s hs hc
  · have hattr : (g.endFrame i start inherited).matchAttr none m = inherited := by
      rw [Frame.matchAttr, Grammar.keep_endFrame hg, hm, merge_none]
      rfl
    rw [Grammar.token, Instr.token, Grammar.reaches_consume_iff hg.isOpen]
    constructor
    · rintro ⟨o, a', m', hlead', hp, rfl, hk⟩
      obtain ⟨rfl, rfl⟩ := hlead.unique hlead'
      cases h.unique (Pattern.answers_program_iff.1 hp)
      rw [hattr] at hk ⊢
      exact ⟨rfl, hk⟩
    · rintro ⟨rfl, hk⟩
      exact ⟨start, b, m, hlead, Pattern.answers_program_iff.2 h, hattr.symm, hk⟩

end

/-- Two matches are counted, but the count is dropped. The grammar around holds 7 all along. -/
theorem Ending.drops_attribute_counted :
    let count : Action Nat := ⟨fun c => c.inherited.map (· + 1), none⟩
    let p := (Ending.sealed (.times 0 none (.literal ['x'])) (some (count, some 0)) []).close
      (Lexicon.empty.chain ([.assign 1] ++ .dropAttributes :: []))
    p.Answers .empty ['x', 'x'] 0 (some 7) (some ⟨['x', 'x'], 2, none, []⟩) ∧
      ((Grammar.empty.assign 7).token (.program p)).Reaches .empty ['x', 'x'] 0 none 2
        (some 7) := by
  intro count p
  have h : p.Answers .empty ['x', 'x'] 0 (some 7) (some ⟨['x', 'x'], 2, none, []⟩) :=
    Pattern.answers_program_iff.1 (Pattern.answers_of_outcome? 16 (by decide +kernel))
  have hseven : (Grammar.empty.assign 7).Reaches .empty ['x', 'x'] 0 none 0 (some 7) :=
    (Grammar.reaches_empty_iff.2 ⟨rfl, rfl⟩).next Grammar.retains_empty.isOpen
      (.assign (Grammar.append_instr _))
  obtain ⟨hnone, -, hnested⟩ := Ending.drops_attribute [.assign 1] [] _ h
  have hkeeps : (Grammar.empty.assign 7).Retains := Grammar.retains_empty.append trivial rfl
  exact ⟨h, (hnested (hnone (.inr nofun)) _ hkeeps 0 none hseven 2 (some 7)).2 ⟨rfl, .nothing⟩⟩

end GrammarMachine
