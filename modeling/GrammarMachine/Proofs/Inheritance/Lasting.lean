import GrammarMachine.Proofs.Inheritance.Relation
import GrammarMachine.Proofs.Nesting.Transparency

/-!
# Attributes that last

A present attribute is never lost: what is merged into it is present or leaves it as it is, and the
fold of a repetition starts from the attribute before it. If moreover no function of a program
computes an attribute, the inherited one comes out as it went in. A nested program may drop it, and
then the program around it still has it.

* `Pattern.IsInert`: no function computes an attribute, and none is assigned.
* `Program.IsInert`: the same for a program.
* `Frame.Carries`: the attribute is the one that was inherited, or there is none.
  `Step.carries`, `Exec.carries` keep it so, and `Pattern.inert_answers` is what it comes to.
* `Ending.attribute_lasts`: a grammar that does not drop attributes.
-/

namespace GrammarMachine

variable {α : Type}

/-! ## Nothing is computed -/

/-- The functions of the instruction compute no attribute, and it assigns none. -/
def Instr.IsInert {π : Type} : Instr π α → Prop
  | .consume _ action _ _ => ∀ f, action = some f → ∀ call, f.apply call = none
  | .loopTry _ _ _ fold init => (∀ f, fold = some f → ∀ call, f.apply call = none) ∧ init = none
  | .assign _ => False
  | .transform f => ∀ a, f.apply a = none
  | _ => True

/-- No function in the pattern computes an attribute, and none is assigned in it. -/
inductive Pattern.IsInert : Pattern α → Prop
  | literal (t : Text) : IsInert (.literal t)
  | regex (r : Regex) : IsInert (.regex r)
  | forward (cell : Nat) : IsInert (.forward cell)
  | lineBreak : IsInert .lineBreak
  | endOfInput : IsInert .endOfInput
  | wordEnd (ignore : Option (Pattern α)) (words : Option Keywords) :
    IsInert (.wordEnd ignore words)
  | custom {f : Matcher α} : (∀ text i a m, f.apply text i a = some m → m.attr = none) →
      IsInert (.custom f)
  | program {code : Program α} : (∀ i ∈ code.instrs, i.IsInert) →
      (∀ i ∈ code.instrs, ∀ p ∈ i.patterns, p.IsInert) → IsInert (.program code)

/-- No function in the program computes an attribute, and none is assigned in it. What is ignorable
does not matter. -/
structure Program.IsInert (code : Program α) : Prop where
  instrs : ∀ i ∈ code.instrs, i.IsInert
  patterns : ∀ i ∈ code.instrs, ∀ p ∈ i.patterns, p.IsInert

/-- No program that a cell holds computes an attribute. -/
def Forwards.IsInert (fs : Forwards α) : Prop :=
  ∀ cell code, fs.get? cell = some code → Program.IsInert code

/-! ## What a run hands on -/

/-- The second attribute is the first one, or there is none. -/
def HandsOn (a b : Option α) : Prop := b = none ∨ b = a

/-- Inert patterns hand on the attribute or nothing. -/
def Verdicts.Carries (V : Verdicts (Pattern α) α) : Prop :=
  ∀ p i a m, p.IsInert → V p i a (some m) → HandsOn a m.attr

/-- The attribute is `a`, or there is none, and so is that before the repetition. -/
structure Frame.Carries (a : Option α) (f : Frame α) : Prop where
  attr : HandsOn a f.attr
  seed : HandsOn a f.seed

section

variable {V : Verdicts (Pattern α) α} {code : Program α} {text : Text} {f : Frame α} {a : Option α}

theorem HandsOn.merge {b c : Option α} (hb : HandsOn a b) (hc : HandsOn a c) :
    HandsOn a (merge b c) := by
  cases c with
  | none => exact hb
  | some v => exact hc

theorem HandsOn.keep {b : Option α} (hb : HandsOn a b) : HandsOn a (f.keep b) := by
  rw [Frame.keep]
  split
  · exact .inl rfl
  · exact hb

theorem FirstMatch.exists_mem {i : Nat} {ps : List (Pattern α)} {r : Option (Match α)}
    (h : FirstMatch V i a ps r) : ∀ m, r = some m → ∃ p ∈ ps, V p i a (some m) := by
  induction h with
  | nil => exact fun _ h => nomatch h
  | here h =>
    rintro m ⟨⟩
    exact ⟨_, List.mem_cons_self, h⟩
  | later _ _ ih =>
    intro m hm
    obtain ⟨p, hp, h⟩ := ih m hm
    exact ⟨p, List.mem_cons_of_mem _ hp, h⟩

/-- An inert instruction hands on the attribute or nothing. -/
theorem Step.carries (hV : V.Carries) (hc : Program.IsInert code) (hf : f.Carries a) {f' : Frame α}
    (h : Step V code text f (some f')) : f'.Carries a := by
  have hmerge {p : Pattern α} {m : Match α} (hp : p.IsInert) (hm : V p f.index f.attr (some m)) :
      HandsOn a (f.keep (merge f.attr m.attr)) := by
    refine (hf.attr.merge ?_).keep
    rcases hV p _ _ _ hp hm with h | h
    · exact .inl h
    · rw [h]
      exact hf.attr
  cases h with
  | @consume p action capture skips m i hi hp hs =>
    have hmem := List.mem_of_getElem? hi
    refine ⟨?_, hf.seed⟩
    cases action with
    | none => exact hmerge (hc.patterns _ hmem p List.mem_cons_self) hp
    | some g =>
      have hnone : g.apply ⟨m.matched, m.attr, f.attr, m.extra⟩ = none := hc.instrs _ hmem g rfl _
      simp only [Frame.next, Frame.matchAttr, hnone, merge_none]
      exact hf.attr.keep
  | loopStart hi => exact ⟨hf.attr, hf.attr⟩
  | choice hi hm hs =>
    obtain ⟨p, hp, hm⟩ := hm.exists_mem _ rfl
    exact ⟨hmerge (hc.patterns _ (List.mem_of_getElem? hi) p hp) hm, hf.seed⟩
  | assign hi => exact (hc.instrs _ (List.mem_of_getElem? hi)).elim
  | @transform t hi =>
    have hnone : t.apply f.attr = none := hc.instrs _ (List.mem_of_getElem? hi) _
    simp only [hnone, merge_none]
    exact ⟨hf.attr.keep, hf.seed⟩
  | loopEnds | loopAgain | ahead | guard | dropAttributes | skip | keyword =>
    exact ⟨hf.attr, hf.seed⟩

/-- The attribute of a repetition that is over. -/
theorem Frame.Carries.settledAttr (hc : Program.IsInert code) (hf : f.Carries a)
    {capture min exit : Nat} {fold : Option (Action α)} {init : Option α}
    (hi : code.instrs[f.pc]? = some (.loopTry capture min exit fold init)) {b : Option α}
    (hb : HandsOn a b) (ms : List (Match α)) : HandsOn a (f.settledAttr b ms fold init) := by
  obtain ⟨hfold, rfl⟩ := hc.instrs _ (List.mem_of_getElem? hi)
  cases fold with
  | none => exact hb.keep
  | some g =>
    have hseed : HandsOn a (f.keep (merge f.seed none)) := hf.seed.keep
    simp only [Frame.settledAttr]
    generalize f.keep (merge f.seed none) = acc at hseed
    induction ms generalizing acc with
    | nil => exact hseed
    | cons m ms ih =>
      refine ih _ ?_
      rw [foldStep, hfold g rfl]
      split
      · exact .inl rfl
      · exact hseed

/-- A call of an inert program hands on the attribute or nothing. -/
theorem Exec.carries (hV : V.Carries) (hc : Program.IsInert code) {r : Option (Final α)}
    (h : Exec V code text f r) (hf : f.Carries a) :
    ∀ x, r = some x → HandsOn a x.attr := by
  have henter {f : Frame α} (hf : f.Carries a) : f.enterIteration.Carries a := ⟨hf.attr, .inl rfl⟩
  induction h with
  | halt _ =>
    rintro x ⟨⟩
    exact hf.attr
  | step hs _ ih => exact ih (hs.carries hV hc hf)
  | fail _ | tooFew _ _ _ => exact fun _ h => nomatch h
  | @kept f capture min exit fold init y hi _ ih =>
    rintro x ⟨⟩
    have hmerge : HandsOn a (f.keep (merge f.attr y.attr)) :=
      (hf.attr.merge (ih (henter hf) y rfl)).keep
    simp only [Frame.afterIteration]
    split
    · exact hf.settledAttr hc hi hmerge _
    · exact hmerge
  | @left f capture min exit fold init r hi _ _ _ _ ih =>
    refine ih ⟨?_, hf.seed⟩
    simp only [Frame.leaveLoop]
    split
    · exact hf.settledAttr hc hi hf.attr _
    · exact hf.attr

theorem Runs.carries (hV : V.Carries) (hc : Program.IsInert code) {i : Nat} {m : Match α}
    (h : Runs V code text i a (some m)) : HandsOn a m.attr := by
  cases h with
  | matched h _ => exact h.carries hV hc ⟨.inr rfl, .inl rfl⟩ _ rfl

variable {fs : Forwards α}

theorem Match.attr_of_span? {i j : Nat} {m : Match α} (h : Match.span? text i j = some m) :
    m.attr = none := by
  obtain ⟨t, -, rfl⟩ := Option.map_eq_some_iff.1 h
  rfl

theorem Pattern.Verdict.carries (hV : V.Carries) (hfs : fs.IsInert) {p : Pattern α}
    (hp : p.IsInert) {i : Nat} {m : Match α} (h : Verdict V fs text p i a (some m)) :
    HandsOn a m.attr := by
  cases hp with
  | literal t =>
    obtain ⟨stop, -, rfl⟩ := Option.map_eq_some_iff.1 (Eq.symm h)
    exact .inl rfl
  | regex r =>
    obtain ⟨rest, -, hfound⟩ := Option.bind_eq_some_iff.1 (Eq.symm h)
    obtain ⟨found, -, hm⟩ := Option.bind_eq_some_iff.1 hfound
    cases hm
    exact .inl rfl
  | lineBreak =>
    obtain ⟨stop, -, hm⟩ := Option.bind_eq_some_iff.1 (Eq.symm h)
    exact .inl (Match.attr_of_span? hm)
  | endOfInput =>
    simp only [Verdict] at h
    split at h
    · cases h
      exact .inl rfl
    · cases h
  | wordEnd ignore words =>
    simp only [Verdict] at h
    split at h
    · obtain ⟨m', hm, h⟩ := h
      cases h
      exact .inl (Match.attr_of_span? hm)
    · obtain ⟨b, -, h⟩ := h
      split at h
      · obtain ⟨m', hm, h⟩ := h
        cases h
        exact .inl (Match.attr_of_span? hm)
      · cases h
  | custom hf => exact .inl (hf _ _ _ _ (Eq.symm h))
  | forward cell =>
    simp only [Verdict] at h
    split at h
    · rename_i code hcell
      exact Runs.carries hV (hfs cell code hcell) h
    · cases h
  | program hi hp => exact Runs.carries hV ⟨hi, hp⟩ h

/-- Inert patterns hand on the attribute or nothing. -/
theorem Pattern.inert_answers (hfs : fs.IsInert) (text : Text) :
    Verdicts.Carries (Pattern.Answers fs text) := by
  have hfuel (fuel : Nat) : Verdicts.Carries (Probe.verdicts (find fs text fuel)) := by
    induction fuel with
    | zero =>
      rintro p i a m - ⟨j, j', h⟩
      exact absurd h Trial.not_ends_outOfFuel
    | succ fuel ih => exact fun p i a m hp h => Verdict.carries ih hfs hp (find_sound h)
  intro p i a m hp h
  obtain ⟨fuel, h⟩ := h.exists_find
  exact hfuel fuel p i a m hp h

end

/-- A grammar that does not drop attributes synthesizes one if it inherits one. If moreover nothing
in it computes an attribute, it is the inherited one. Nested programs and those of cells may drop
attributes in either case. -/
theorem Ending.attribute_lasts {fs : Forwards α} {text : Text} {l : Lexicon α} {ss : List (Link α)}
    (hdrop : .dropAttributes ∉ ss) (e : Ending α) {start : Nat} {a : Option α} (ha : a.isSome)
    {m : Match α} (h : (e.close (l.chain ss)).Answers fs text start a (some m)) :
    m.attr.isSome ∧ (Program.IsInert (e.close (l.chain ss)) → fs.IsInert → m.attr = a) := by
  have hsome : m.attr.isSome := h.isSome (keeps_close hdrop) ha
  refine ⟨hsome, fun hinert hfs => ?_⟩
  have hcarries : HandsOn a m.attr :=
    (Program.answers_iff.1 h).carries (Pattern.inert_answers hfs text) hinert
  refine hcarries.resolve_left fun hnone => ?_
  simp [hnone] at hsome

/-- A nested program drops the attribute, and a fold computes none: the inherited 7 comes out. -/
theorem Ending.attribute_lasts_folded :
    let dropping : Pattern Nat := (Grammar.empty.dropAttributes.token (.literal ['y'])).pattern
    let p := (Ending.sealed (.times 0 none (.literal ['x'])) (some (.pass, none)) []).close
      (Lexicon.empty.chain [.token dropping none])
    Program.IsInert p ∧ ∃ m, p.Answers .empty ['y', 'x', 'x'] 0 (some 7) (some m) ∧
      m.attr.isSome ∧ m.attr = some 7 := by
  intro dropping p
  have h : p.Answers .empty ['y', 'x', 'x'] 0 (some 7) (some ⟨['y', 'x', 'x'], 3, some 7, []⟩) :=
    Pattern.answers_program_iff.1 (Pattern.answers_of_outcome? 16 (by decide +kernel))
  have hdropping : (Pattern.program (⟨[.dropAttributes, .token (.literal ['y'])], none, 0⟩ :
      Program Nat)).IsInert :=
    .program (by simp [Instr.IsInert, Instr.token])
      (by simpa [Instr.patterns, Instr.token] using .literal _)
  have hinert : Program.IsInert (⟨[.token dropping, .loopStart 0, .loopTry 0 0 3 (some .pass) none,
      .consume (.literal ['x']) none (some 0) true, .loopBack 2 none], none, 1⟩ : Program Nat) :=
    ⟨by simp [Instr.IsInert, Instr.token, Action.pass],
      by simpa [Instr.patterns, Instr.token] using ⟨hdropping, .literal _⟩⟩
  obtain ⟨hsome, hattr⟩ := Ending.attribute_lasts (by simp) _ rfl h
  exact ⟨hinert, _, h, hsome, hattr hinert (by simp [Forwards.IsInert])⟩

end GrammarMachine
