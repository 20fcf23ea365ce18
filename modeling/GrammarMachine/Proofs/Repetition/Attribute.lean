import GrammarMachine.Proofs.Repetition.Extent

/-!
# Attribute of a repetition

What a repetition of a pattern computes from the iterations that it keeps, and from no others.

* `threadedAttr_eq_foldl`: the attribute threaded through iterations merges what they synthesize.
* `Grammar.repetition_attribute`: a fold goes over the matches of the iterations kept; without a
  fold, the attribute is the one threaded through them.
* `Grammar.Reaches.repeated`: without bounds and terminals all iterations are kept.
-/

namespace GrammarMachine

variable {α : Type} {fs : Forwards α} {text : Text}

/-- While attributes are not dropped, the iterations merge what they synthesize one by one. -/
theorem threadedAttr_eq_foldl {π : Type} {V : Verdicts π α} {ignore : Option π} {p : π}
    {max : Option Nat} {k o : Nat} {a : Option α} {its : List (Iteration α)}
    (h : Unrolls (Iterates V ignore false p) max k o a its) (n : Nat) :
    threadedAttr a its n =
      ((its.take n).map (·.found)).foldl (fun acc m => merge acc m.attr) a := by
  induction h generalizing n with
  | fails _ => simp
  | last hit _ =>
    cases hit with
    | ends => cases n <;> simp
  | more hit _ _ _ ih =>
    cases hit with
    | ends =>
      cases n with
      | zero => simp
      | succ n => simpa using ih n

/-- What a repetition computes that began under the attribute `a` and keeps iterations with the
matches `ms`. -/
def attrOfKept (fold : Option (Action α × Option α)) (a : Option α) (ms : List (Match α)) :
    Option α :=
  match fold with
  | some (action, init) =>
    ms.foldl (fun acc m => merge acc (action.apply ⟨m.matched, m.attr, acc, m.extra⟩)) (init.or a)
  | none => ms.foldl (fun acc m => merge acc m.attr) a

namespace Grammar

variable {g : Grammar α} {min : Nat} {max : Option Nat} {p : Pattern α}

/-- A repetition that matches keeps some of the iterations. Its fold goes over their matches in
order, from the initial value or else from the attribute before the repetition; without a fold, the
attribute before the repetition merges what they synthesize. -/
theorem repetition_attribute {r : Repetition α} (fold : Option (Action α × Option α))
    (ts : List Terminal) (hg : g.IsOpen) (hdrops : g.drops = false)
    (hr : g.tokenTimes min max p = .ok r)
    (hskip : SkipsAlike (Pattern.Answers fs text) g.lexicon.ignore)
    {start : Nat} {inherited : Option α} {m : Match α}
    (h : ((r.folding fold).followedBy ts).program.Answers fs text start inherited (some m)) :
    ∃ o a its n, g.Reaches fs text start inherited o a ∧
      Unrolls (Iterates (Pattern.Answers fs text) g.lexicon.ignore false p) max 0 o a its ∧
      Keeps (Follow (Pattern.Answers fs text) g.lexicon.ignore ts) min 0 o its n m.lastIndex ∧
      m.attr = attrOfKept fold a ((its.take n).map (·.found)) := by
  obtain ⟨hb, rfl⟩ := tokenTimes_eq_ok hr
  have hL : (g.loop fs text min max p fold ts).Within (Pattern.Answers fs text)
      (g.repetition min max p fold ts).program text := loop_within hb hskip
  cases Program.answers_iff.1 h with
  | @matched fin t hexec _ =>
    rcases exec_repetition hg hexec with ⟨o, a, hlead, hloop⟩ | hno
    · obtain ⟨its, hits, hfin⟩ := hL.finished (loop_reached hb start o a) hloop
      have hall : Unrolls (Iterates (Pattern.Answers fs text) g.lexicon.ignore false p) max 0 o a
          its := hdrops ▸ hits
      cases hfin with
      | @ends n _ hk _ hattr =>
        refine ⟨o, a, its, n, hlead, hall, hk, hattr.trans ?_⟩
        simp only [loopFrame, if_true, Frame.settledAttr, loop, Frame.keep, hdrops,
          Bool.false_eq_true, if_false, List.nil_append]
        cases fold with
        | some f => rfl
        | none => exact threadedAttr_eq_foldl hall n
    · cases hno

/-- Of two line breaks the second belongs to the terminal, so the fold counts only the first. -/
theorem repetition_attribute_backtracked :
    ∃ (o : Nat) (a : Option Nat) (its : List (Iteration Nat)) (n : Nat),
      Keeps (Follow (Pattern.Answers (.empty : Forwards Nat) ['\n', '\n']) none [.lineBreak]) 0 0 o
        its n 2 ∧
      some 1 = attrOfKept (some (⟨fun c => c.inherited.map (· + 1), none⟩, some 0)) a
        ((its.take n).map (·.found)) := by
  let g : Grammar Nat := Grammar.empty
  let count : Action Nat := ⟨fun c => c.inherited.map (· + 1), none⟩
  have hr : g.tokenTimes 0 none (.literal ['\n']) = .ok (g.repeated 0 none (.literal ['\n'])) := rfl
  have h : (((g.repeated 0 none (.literal ['\n'])).folding (some (count, some 0))).followedBy
      [.lineBreak]).program.Answers .empty ['\n', '\n'] 0 none
        (some ⟨['\n', '\n'], 2, some 1, []⟩) :=
    Pattern.answers_program_iff.1 (Pattern.answers_of_outcome? 16 (by decide +kernel))
  obtain ⟨o, a, its, n, -, -, hk, hattr⟩ := repetition_attribute (some (count, some 0))
    [.lineBreak] (Grammar.isOpen_of_lexicon _) rfl hr (fun _ _ _ _ h => by cases h; exact .nothing) h
  exact ⟨o, a, its, n, hk, hattr⟩

/-- Without terminals and a lower bound, a repetition keeps all iterations. -/
theorem Reaches.repeated (hg : g.Retains) (hb : checkBounds 0 max = .ok ())
    (hskip : SkipsAlike (Pattern.Answers fs text) g.lexicon.ignore) {start o : Nat}
    {inherited a : Option α} (h : g.Reaches fs text start inherited o a)
    {its : List (Iteration α)}
    (hits : Unrolls (Iterates (Pattern.Answers fs text) g.lexicon.ignore false p) max 0 o a its)
    {t : Text} (ht : text.slice? start (offsetAfter o its its.length) = some t) :
    (g.repeated 0 max p).program.Answers fs text start inherited
      (some ⟨t, offsetAfter o its its.length, threadedAttr a its its.length, []⟩) := by
  have hL : (g.loop fs text 0 max p none []).Within (Pattern.Answers fs text)
      (g.repetition 0 max p none []).program text := loop_within hb hskip
  have hf : (g.loop fs text 0 max p none []).Reached (g.loopFrame start o a) [] :=
    loop_reached hb _ _ _
  have hall : Unrolls (g.loop fs text 0 max p none []).iterates max 0 o a its := by
    rw [loop, hg.drops]
    exact hits
  obtain ⟨r, hexec⟩ := hL.exists_exec hf hall fun n _ => ⟨_, .nil⟩
  obtain ⟨its', hits', hfin⟩ := hL.finished hf hexec
  obtain rfl := hall.unique (Iterates.unique Pattern.answers_unique) hits'
  have hlast : Admissible 0 0 o its its.length := ⟨Nat.le_refl _, .inl (Nat.zero_le _)⟩
  have hrun := exec_repetition_of_loop hg.isOpen h hexec
  cases hfin with
  | fails hno => cases hno _ hlast
  | @ends n fin hk _ hattr =>
    obtain rfl : n = its.length := by
      rcases Nat.lt_or_eq_of_le hk.admissible.1 with hn | hn
      · cases hk.most _ hn hlast
      · exact hn
    have hindex : fin.index = offsetAfter o its its.length :=
      Option.some.inj (follow_nil_iff.1 hk.follows)
    have hkept : fin.attr = threadedAttr a its its.length := by
      rw [hattr]
      simp [loopFrame, Frame.settledAttr, loop, Frame.keep, hg.drops]
    rw [← hindex] at ht ⊢
    rw [← hkept]
    exact Program.answers_iff.2 (.matched hrun ht)

/-- A repetition does not match where the grammar before it does not. -/
theorem Fails.repeated (hg : g.IsOpen) {start : Nat} {inherited : Option α}
    (h : g.Fails fs text start inherited) (min : Nat) (max : Option Nat) (p : Pattern α) :
    (g.repeated min max p).program.Answers fs text start inherited none := by
  have hprogram : (g.repeated min max p).program = (g.repetition min max p none []).program := rfl
  rw [hprogram, repetition_program]
  exact Program.answers_iff.2 (.failed (Exec.of_straight (g := .initial 1 start inherited) hg h
    (Nat.zero_le _) ⟨rfl, rfl, rfl⟩ rfl (fun _ h => nomatch h) fun _ => rfl))

end Grammar

end GrammarMachine
