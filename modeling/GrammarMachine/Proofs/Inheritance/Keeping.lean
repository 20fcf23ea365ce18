import GrammarMachine.Proofs.Semantics.Answers
import GrammarMachine.Proofs.Semantics.Straight

/-!
# Attributes that stay present

A program that drops no attributes synthesizes one whenever it inherits one, be it of its own or
the inherited one.

* `Code.Keeps`: the program drops no attributes, and repetitions begin before they are attempted.
* `Step.isPresent`, `Exec.isPresent`: a present attribute stays present.
* `Program.Answers.isSome`: the same for the program.
* `Grammar.Retains.keeps`, `Grammar.Retains.keeps_repeated`: the programs of grammars.
-/

namespace GrammarMachine

variable {π α : Type} {V : Verdicts π α} {code : Code π α} {text : Text} {f : Frame α}

/-- Attributes are nowhere dropped, and no iteration is attempted before its repetition begins,
which notes the attribute for a fold. -/
structure Code.Keeps (code : Code π α) : Prop where
  drops : ∀ i ∈ code.instrs, i.drops = false
  starts : ∀ (pc capture min exit : Nat) (fold : Option (Action α)) (init : Option α),
    code.instrs[pc]? = some (.loopTry capture min exit fold init) →
    ∃ j, j < pc ∧ ∃ c, code.instrs[j]? = some (.loopStart c)

/-- The attribute is present, and so is that before the repetition, once it has begun. -/
structure Frame.IsPresent (code : Code π α) (f : Frame α) : Prop where
  attr : f.attr.isSome
  dropping : f.dropping = false
  seed : f.count = 0 → (∃ j, j < f.pc ∧ ∃ c, code.instrs[j]? = some (.loopStart c)) → f.seed.isSome

theorem merge_isSome {a : Option α} (h : a.isSome) (b : Option α) : (merge a b).isSome := by
  cases b <;> simp_all [merge]

theorem Frame.IsPresent.keep (h : f.IsPresent code) (a : Option α) : f.keep a = a := by
  simp [Frame.keep, h.dropping]

/-- The next instruction, unless the repetition begins at this one. -/
theorem Frame.IsPresent.next (h : f.IsPresent code)
    (hi : ∀ c, code.instrs[f.pc]? ≠ some (.loopStart c)) (j : Nat) {a : Option α} (ha : a.isSome) :
    (f.next j a).IsPresent code := by
  refine ⟨ha, h.dropping, fun hc ⟨k, hk, c, hkc⟩ => h.seed hc ⟨k, ?_, c, hkc⟩⟩
  rcases Nat.lt_or_eq_of_le (Nat.lt_succ_iff.1 hk) with hlt | rfl
  · exact hlt
  · exact absurd hkc (hi c)

/-- A present attribute stays present. -/
theorem Step.isPresent (hk : code.Keeps) (h : f.IsPresent code) {f' : Frame α}
    (hs : Step V code text f (some f')) : f'.IsPresent code := by
  have hmerge (a : Option α) : (f.keep (merge f.attr a)).isSome := by
    rw [h.keep]
    exact merge_isSome h.attr a
  have hne {instr : Instr π α} (hi : code.instrs[f.pc]? = some instr)
      (hinstr : ∀ c, instr ≠ .loopStart c) : ∀ c, code.instrs[f.pc]? ≠ some (.loopStart c) :=
    fun c hc => hinstr c (Option.some.inj (hi.symm.trans hc))
  cases hs with
  | @consume p action capture skips m j hi =>
    have hattr : (f.matchAttr action m).isSome := hmerge _
    have hnext := h.next (hne hi nofun) j hattr
    exact ⟨hnext.attr, hnext.dropping, hnext.seed⟩
  | loopStart hi => exact ⟨h.attr, h.dropping, fun _ _ => h.attr⟩
  | loopEnds hi => exact h.next (hne hi nofun) _ h.attr
  | loopAgain hi =>
    exact ⟨h.attr, h.dropping, fun hc ⟨j, hj, hstart⟩ =>
      h.seed hc ⟨j, Nat.lt_of_lt_of_le hj (Nat.sub_le _ _), hstart⟩⟩
  | choice hi => exact h.next (hne hi nofun) _ (hmerge _)
  | ahead hi => exact h.next (hne hi nofun) _ h.attr
  | guard hi => exact h.next (hne hi nofun) _ h.attr
  | assign hi => exact h.next (hne hi nofun) _ (by rw [h.keep]; rfl)
  | transform hi => exact h.next (hne hi nofun) _ (hmerge _)
  | dropAttributes hi => cases hk.drops _ (List.mem_of_getElem? hi)
  | skip hi => exact h.next (hne hi nofun) _ h.attr
  | keyword hi => exact h.next (hne hi nofun) _ h.attr

/-- The attribute of a repetition that is over. -/
theorem Frame.IsPresent.settledAttr (hk : code.Keeps) (h : f.IsPresent code) (hc : f.count = 0)
    {capture min exit : Nat} {fold : Option (Action α)} {init : Option α}
    (hi : code.instrs[f.pc]? = some (.loopTry capture min exit fold init)) {a : Option α}
    (ha : a.isSome) (ms : List (Match α)) : (f.settledAttr a ms fold init).isSome := by
  cases fold with
  | none => rwa [Frame.settledAttr, h.keep]
  | some action =>
    have hacc : (f.keep (merge f.seed init)).isSome := by
      rw [h.keep]
      cases init with
      | some v => rfl
      | none => exact h.seed hc (hk.starts _ _ _ _ _ _ hi)
    simp only [Frame.settledAttr, h.dropping]
    generalize f.keep (merge f.seed init) = acc at hacc
    induction ms generalizing acc with
    | nil => exact hacc
    | cons m ms ih =>
      refine ih _ ?_
      rw [foldStep, if_neg Bool.false_ne_true]
      exact merge_isSome hacc _

/-- A call that begins with a present attribute ends with one. -/
theorem Exec.isPresent (hk : code.Keeps) {r : Option (Final α)} (h : Exec V code text f r)
    (hf : f.IsPresent code) : ∀ x, r = some x → x.attr.isSome := by
  have henter {f : Frame α} (hf : f.IsPresent code) : f.enterIteration.IsPresent code :=
    ⟨hf.attr, hf.dropping, fun hc => nomatch hc⟩
  induction h with
  | halt _ =>
    rintro x ⟨⟩
    exact hf.attr
  | step hs _ ih => exact ih (hs.isPresent hk hf)
  | fail _ | tooFew _ _ _ => exact fun _ h => nomatch h
  | @kept f capture min exit fold init y hi _ ih =>
    rintro x ⟨⟩
    have hmerge : (f.keep (merge f.attr y.attr)).isSome := by
      rw [hf.keep]
      exact merge_isSome hf.attr _
    simp only [Frame.afterIteration]
    split
    · rename_i hc
      exact hf.settledAttr hk hc hi hmerge _
    · exact hmerge
  | @left f capture min exit fold init r hi _ _ _ _ ih =>
    refine ih ⟨?_, hf.dropping, fun hc _ => hf.seed hc (hk.starts _ _ _ _ _ _ hi)⟩
    simp only [Frame.leaveLoop]
    split
    · rename_i hc
      exact hf.settledAttr hk hc hi hf.attr _
    · exact hf.attr

/-- A program that inherits an attribute synthesizes one. -/
theorem Program.Answers.isSome {fs : Forwards α} {p : Program α} {i : Nat} {a : Option α}
    {m : Match α} (hk : p.Keeps) (h : p.Answers fs text i a (some m)) (ha : a.isSome) :
    m.attr.isSome := by
  cases Program.answers_iff.1 h with
  | matched hx _ =>
    exact hx.isPresent hk ⟨ha, rfl, fun _ ⟨_, hj, _⟩ => absurd hj (Nat.not_lt_zero _)⟩ _ rfl

/-! ## Programs that keep attributes -/

/-- An open grammar keeps attributes unless it drops them. -/
theorem Grammar.Retains.keeps {g : Grammar α} (h : g.Retains) : g.program.Keeps where
  drops i hi := by
    have hany : g.instrs.any Instr.drops = false := h.drops
    exact List.any_eq_false.1 hany i hi |> Bool.eq_false_iff.2
  starts pc _ _ _ _ _ hpc := (h.isOpen _ (List.mem_of_getElem? hpc)).elim

/-- A repetition of a pattern keeps attributes if what precedes it does. -/
theorem Grammar.Retains.keeps_repeated {g : Grammar α} (h : g.Retains) (min : Nat)
    (max : Option Nat) (p : Pattern α) : (g.repeated min max p).program.Keeps where
  drops i hi := by
    have hany : g.instrs.any Instr.drops = false := h.drops
    have hlead := List.any_eq_false.1 hany i
    simp only [Repetition.program, Grammar.repeated, List.mem_append, List.mem_cons,
      List.not_mem_nil, or_false] at hi
    rcases hi with ((hi | rfl) | rfl | rfl) | rfl
    · exact Bool.eq_false_iff.2 (hlead hi)
    all_goals rfl
  starts pc capture min' exit fold init hpc := by
    have hstart : (g.repeated min max p).program.instrs[g.instrs.length]? =
        some (.loopStart loopCapture) := by
      simp [Repetition.program, Grammar.repeated]
    have hle : g.instrs.length ≤ pc := by
      refine Nat.le_of_not_lt fun hlt => ?_
      have hlead : g.instrs[pc]? = some (.loopTry capture min' exit fold init) := by
        rw [← hpc]
        simp [Repetition.program, Grammar.repeated, List.getElem?_append_left hlt]
      exact h.isOpen _ (List.mem_of_getElem? hlead)
    have hne : g.instrs.length ≠ pc := by
      rintro rfl
      cases hstart.symm.trans hpc
    exact ⟨g.instrs.length, by omega, loopCapture, hstart⟩

end GrammarMachine
