import GrammarMachine.Proofs.Forwards.Cells
import GrammarMachine.Proofs.Semantics.Answers
import GrammarMachine.Proofs.Steering.Rewriting

/-!
# Programs with the same answers

Programs that answer alike whatever the cells hold can stand for each other, in cells and in what is
built from them.

* `Program.Equivalent`, `Forwards.Equivalent`: programs, and cells that hold such programs.
* `Forwards.Equivalent.answers_iff`: every pattern answers alike over equivalent cells.
* `Instr.Refines`, `Program.equivalent_of_refines`: programs that differ in patterns or choices that
  answer alike, or in keywords that are searched alike.
* `Build.Corresponds`: constructions that come to related results from equivalent cells, with a rule
  for each operation on cells. `Build.IsUniform`: a construction that cannot tell equivalent
  programs in cells from each other.
-/

namespace GrammarMachine

variable {π α : Type}

/-- Whatever the cells hold, the programs have the same answers. -/
def Program.Equivalent (p q : Program α) : Prop :=
  ∀ fs text i a r, p.Answers fs text i a r ↔ q.Answers fs text i a r

/-- The same cells are defined, by equivalent programs. -/
structure Forwards.Equivalent (fs fs' : Forwards α) : Prop where
  size : fs.cells.size = fs'.cells.size
  holds : ∀ cell, Option.Rel Program.Equivalent (fs.get? cell) (fs'.get? cell)

theorem Program.Equivalent.refl (p : Program α) : p.Equivalent p := fun _ _ _ _ _ => .rfl

theorem Program.Equivalent.symm {p q : Program α} (h : p.Equivalent q) : q.Equivalent p :=
  fun fs text i a r => (h fs text i a r).symm

theorem Program.Equivalent.trans {p q u : Program α} (h : p.Equivalent q) (h' : q.Equivalent u) :
    p.Equivalent u := fun fs text i a r => (h fs text i a r).trans (h' fs text i a r)

namespace Forwards.Equivalent

variable {fs fs' : Forwards α} {text : Text}

theorem refl (fs : Forwards α) : fs.Equivalent fs :=
  ⟨rfl, fun _ => rel_self fun p _ => .refl p⟩

theorem symm (h : fs.Equivalent fs') : fs'.Equivalent fs :=
  ⟨h.size.symm, fun cell => rel_back (h.holds cell) fun _ _ _ hpq => hpq.symm⟩

/-- What a pattern comes to over some cells, where the patterns in it are tested over equivalent
ones. -/
theorem verdict (h : fs.Equivalent fs') {p : Pattern α} {i : Nat} {a : Option α}
    {r : Option (Match α)} (hp : Pattern.Verdict (Pattern.Answers fs' text) fs text p i a r) :
    Pattern.Verdict (Pattern.Answers fs' text) fs' text p i a r := by
  cases p with
  | forward cell =>
    have hcell := h.holds cell
    simp only [Pattern.Verdict] at hp ⊢
    generalize fs.get? cell = o, fs'.get? cell = o' at hcell hp ⊢
    cases hcell with
    | none => exact hp
    | some hpq => exact Program.answers_iff.1 ((hpq ..).1 (Program.answers_iff.2 hp))
  | _ => exact hp

theorem answers (h : fs.Equivalent fs') {p : Pattern α} {i : Nat} {a : Option α}
    {r : Option (Match α)} (hp : p.Answers fs text i a r) : p.Answers fs' text i a r := by
  -- What a pattern comes to with some fuel, by those in it with less.
  have hfuel (fuel : Nat) : ∀ p i a r, Probe.verdicts (Pattern.find fs text fuel) p i a r →
      Pattern.Answers fs' text p i a r := by
    induction fuel with
    | zero =>
      rintro p i a r ⟨j, j', hends⟩
      exact absurd hends Trial.not_ends_outOfFuel
    | succ fuel ih =>
      intro p i a r hfind
      exact Pattern.find_complete (h.verdict ((Pattern.find_sound hfind).mono ih))
  obtain ⟨fuel, hfind⟩ := hp.exists_find
  exact hfuel fuel p i a r hfind

/-- Every pattern answers alike over equivalent cells. -/
theorem answers_iff (h : fs.Equivalent fs') {p : Pattern α} {i : Nat} {a : Option α}
    {r : Option (Match α)} : p.Answers fs text i a r ↔ p.Answers fs' text i a r :=
  ⟨h.answers, h.symm.answers⟩

/-- Equivalent programs answer alike over equivalent cells. -/
theorem program_answers_iff (h : fs.Equivalent fs') {p q : Program α} (hpq : p.Equivalent q)
    {i : Nat} {a : Option α} {r : Option (Match α)} :
    p.Answers fs text i a r ↔ q.Answers fs' text i a r := by
  rw [← Pattern.answers_program_iff, h.answers_iff, Pattern.answers_program_iff]
  exact hpq fs' text i a r

theorem set (h : fs.Equivalent fs') {p q : Program α} (hpq : p.Equivalent q) (cell : Nat) :
    (fs.set cell p).Equivalent (fs'.set cell q) := by
  refine ⟨by rw [Forwards.size_set, Forwards.size_set, h.size], fun other => ?_⟩
  by_cases hcell : cell = other
  · subst other
    by_cases hlt : cell < fs.cells.size
    · rw [Forwards.get?_set_self p hlt, Forwards.get?_set_self q (h.size ▸ hlt)]
      exact .some hpq
    · rw [Forwards.get?_of_size_le, Forwards.get?_of_size_le]
      · exact .none
      · rw [Forwards.size_set, ← h.size]
        exact Nat.not_lt.1 hlt
      · rw [Forwards.size_set]
        exact Nat.not_lt.1 hlt
  · rw [Forwards.get?_set_ne p hcell, Forwards.get?_set_ne q hcell]
    exact h.holds other

theorem offer (h : fs.Equivalent fs') {p q : Program α} (hpq : p.Equivalent q) (cell : Nat) :
    (fs.offer cell p).Equivalent (fs'.offer cell q) := by
  have hcell := h.holds cell
  rw [Forwards.offer, Forwards.offer]
  generalize ho : fs.get? cell = o, ho' : fs'.get? cell = o' at hcell
  cases hcell with
  | none => exact h.set hpq cell
  | some _ => exact h

theorem push (h : fs.Equivalent fs') : fs.push.Equivalent fs'.push where
  size := by rw [Forwards.size_push, Forwards.size_push, h.size]
  holds := fun cell => by
    rw [Forwards.get?_push, Forwards.get?_push]
    exact h.holds cell

end Forwards.Equivalent

/-! ## Instructions that do the same -/

section

variable {V : Verdicts π α} {code code' : Code π α} {text : Text} {f : Frame α}

/-- An instruction depends on no others. -/
theorem Step.of_instr (hi : code'.instrs[f.pc]? = code.instrs[f.pc]?)
    (hig : code'.ignore = code.ignore) {o : Option (Frame α)} (h : Step V code text f o) :
    Step V code' text f o := by
  cases h with
  | consume hj hp hs => exact .consume (hi.trans hj) hp (hig ▸ hs)
  | consumeFails hj hp => exact .consumeFails (hi.trans hj) hp
  | loopStart hj hc => exact .loopStart (hi.trans hj) hc
  | loopEnds hj he => exact .loopEnds (hi.trans hj) he
  | loopAgain hj hmax hmoved hb => exact .loopAgain (hi.trans hj) hmax hmoved hb
  | choice hj hp hs => exact .choice (hi.trans hj) hp (hig ▸ hs)
  | choiceFails hj hp => exact .choiceFails (hi.trans hj) hp
  | ahead hj hp hr => exact .ahead (hi.trans hj) hp hr
  | aheadFails hj hp hr => exact .aheadFails (hi.trans hj) hp hr
  | guard hj hc => exact .guard (hi.trans hj) hc
  | guardFails hj hc => exact .guardFails (hi.trans hj) hc
  | assign hj => exact .assign (hi.trans hj)
  | transform hj => exact .transform (hi.trans hj)
  | dropAttributes hj => exact .dropAttributes (hi.trans hj)
  | skip hj hs => exact .skip (hi.trans hj) (hig ▸ hs)
  | keyword hj hf hw hs => exact .keyword (hi.trans hj) hf hw (hig ▸ hs)
  | keywordFails hj hf => exact .keywordFails (hi.trans hj) hf

/-- What the first instruction does, the second one does, be it with another pattern, another choice
or other keywords. -/
inductive Instr.Refines (V : Verdicts π α) : Instr π α → Instr π α → Prop
  | same (x) : Refines V x x
  | consume {p q} (action capture skips) : (∀ i a r, V p i a r → V q i a r) →
      Refines V (.consume p action capture skips) (.consume q action capture skips)
  | choice {ps qs} : (∀ i a r, FirstMatch V i a ps r → FirstMatch V i a qs r) →
      Refines V (.choice ps) (.choice qs)
  | keyword {words words' : Keywords} (word) : words.search = words'.search →
      Refines V (.keyword words word) (.keyword words' word)

theorem Step.of_refines {x y : Instr π α} (hx : code.instrs[f.pc]? = some x)
    (hy : code'.instrs[f.pc]? = some y) (hxy : x.Refines V y) (hig : code'.ignore = code.ignore)
    {o : Option (Frame α)} (h : Step V code text f o) : Step V code' text f o := by
  cases hxy with
  | same => exact h.of_instr (hy.trans hx.symm) hig
  | consume action capture skips hpq =>
    rcases h.of_consume hx with ⟨hp, rfl⟩ | ⟨m, i, hp, hs, rfl⟩
    · exact .consumeFails hy (hpq _ _ _ hp)
    · exact .consume hy (hpq _ _ _ hp) (hig ▸ hs)
  | choice hpq =>
    cases h with
    | choice hj hp hs =>
      cases hx.symm.trans hj
      exact .choice hy (hpq _ _ _ hp) (hig ▸ hs)
    | choiceFails hj hp =>
      cases hx.symm.trans hj
      exact .choiceFails hy (hpq _ _ _ hp)
    | consume hj | consumeFails hj | loopStart hj | loopEnds hj | loopAgain hj | ahead hj
    | aheadFails hj | guard hj | guardFails hj | assign hj | transform hj | dropAttributes hj
    | skip hj | keyword hj | keywordFails hj => cases hx.symm.trans hj
  | keyword word hsearch =>
    cases h with
    | keyword hj hf hw hs =>
      cases hx.symm.trans hj
      exact .keyword hy (hsearch ▸ hf) hw (hig ▸ hs)
    | keywordFails hj hf =>
      cases hx.symm.trans hj
      exact .keywordFails hy (hsearch ▸ hf)
    | consume hj | consumeFails hj | loopStart hj | loopEnds hj | loopAgain hj | choice hj
    | choiceFails hj | ahead hj | aheadFails hj | guard hj | guardFails hj | assign hj
    | transform hj | dropAttributes hj | skip hj => cases hx.symm.trans hj

theorem Exec.of_refines (hcode : List.Forall₂ (Instr.Refines V) code.instrs code'.instrs)
    (hig : code'.ignore = code.ignore) {r : Option (Final α)} (h : Exec V code text f r) :
    Exec V code' text f r := by
  have hstep {f : Frame α} {o : Option (Frame α)} (hs : Step V code text f o) :
      Step V code' text f o := by
    obtain ⟨x, hx⟩ := hs.exists_instr
    obtain ⟨y, hy, hxy⟩ := rel_exists_right (forall₂_getElem? hcode f.pc) hx
    exact hs.of_refines hx hy hxy hig
  have hloop {k capture min exit : Nat} {fold : Option (Action α)} {init : Option α}
      (hi : code.instrs[k]? = some (.loopTry capture min exit fold init)) :
      code'.instrs[k]? = some (.loopTry capture min exit fold init) := by
    obtain ⟨y, hy, hxy⟩ := rel_exists_right (forall₂_getElem? hcode k) hi
    cases hxy
    exact hy
  induction h with
  | @halt f hi =>
    have hrel := forall₂_getElem? hcode f.pc
    rw [hi] at hrel
    exact .halt (Option.isNone_iff_eq_none.1 (by rw [← Option.not_isSome, ← rel_isSome hrel]; rfl))
  | step hs _ ih => exact .step (hstep hs) ih
  | fail hs => exact .fail (hstep hs)
  | kept hi _ ih => exact .kept (hloop hi) ih
  | tooFew hi _ hm ih => exact .tooFew (hloop hi) ih hm
  | left hi _ hm _ ih ih' => exact .left (hloop hi) ih hm ih'

end

/-- Programs that do the same over all cells are equivalent. -/
theorem Program.equivalent_of_refines {p q : Program α} (hig : p.ignore = q.ignore)
    (hcaptures : p.captures = q.captures)
    (h : ∀ fs text, List.Forall₂ (Instr.Refines (Pattern.Answers fs text)) p.instrs q.instrs)
    (h' : ∀ fs text, List.Forall₂ (Instr.Refines (Pattern.Answers fs text)) q.instrs p.instrs) :
    p.Equivalent q := by
  intro fs text i a r
  rw [Program.answers_exec_iff, Program.answers_exec_iff, hcaptures]
  constructor
  · rintro ⟨x, hx, rfl⟩
    exact ⟨x, hx.of_refines (h fs text) hig.symm, rfl⟩
  · rintro ⟨x, hx, rfl⟩
    exact ⟨x, hx.of_refines (h' fs text) hig, rfl⟩

/-! ## Constructions -/

namespace Build

variable {β γ δ ε : Type}

/-- Two results of constructions: values that are related, or the same error, and equivalent cells
in either case. -/
inductive Outcomes (R : β → γ → Prop) : Except BuildError β × Forwards α →
    Except BuildError γ × Forwards α → Prop
  | ok {b c fs fs'} : R b c → fs.Equivalent fs' → Outcomes R (.ok b, fs) (.ok c, fs')
  | error {fs fs'} (e : BuildError) : fs.Equivalent fs' → Outcomes R (.error e, fs) (.error e, fs')

/-- From equivalent cells, two constructions come to related results. -/
def Corresponds (R : β → γ → Prop) (x : Build α β) (y : Build α γ) : Prop :=
  ∀ fs fs', fs.Equivalent fs' → Outcomes R (x.outcome fs) (y.outcome fs')

/-- A construction cannot tell cells from each other that hold equivalent programs. -/
def IsUniform (x : Build α (Program α)) : Prop := x.Corresponds Program.Equivalent x

variable {R : β → γ → Prop} {S : δ → ε → Prop} {x : Build α β} {y : Build α γ}

theorem corresponds_pure {b : β} {c : γ} (h : R b c) :
    (pure b : Build α β).Corresponds R (pure c) := fun _ _ hfs => .ok h hfs

theorem corresponds_throw (e : BuildError) :
    (throw e : Build α β).Corresponds R (throw e : Build α γ) := fun _ _ hfs => .error e hfs

theorem Corresponds.bind (hx : x.Corresponds R y) {k : β → Build α δ} {l : γ → Build α ε}
    (hk : ∀ b c, R b c → (k b).Corresponds S (l c)) : (x >>= k).Corresponds S (y >>= l) := by
  intro fs fs' hfs
  have hxy := hx fs fs' hfs
  rw [outcome_bind, outcome_bind]
  generalize x.outcome fs = o, y.outcome fs' = o' at hxy
  cases hxy with
  | ok hbc hgs => exact hk _ _ hbc _ _ hgs
  | error e hgs => exact .error e hgs

theorem corresponds_new : (Forward.new : Build α Nat).Corresponds Eq Forward.new := by
  intro fs fs' hfs
  rw [Forward.new_outcome, Forward.new_outcome, hfs.size]
  exact .ok rfl hfs.push

theorem corresponds_news (n : Nat) :
    (Forward.news n : Build α _).Corresponds Eq (Forward.news n) := by
  induction n with
  | zero => exact corresponds_pure rfl
  | succ n ih =>
    refine corresponds_new.bind fun b c hbc => ?_
    subst hbc
    refine ih.bind fun bs cs hbcs => ?_
    subst hbcs
    exact corresponds_pure rfl

variable {p q : Program α}

theorem corresponds_define (h : p.Equivalent q) (cell : Nat) :
    (Forward.define cell p).Corresponds Eq (Forward.define cell q) := by
  intro fs fs' hfs
  rw [Forward.define_outcome, Forward.define_outcome, rel_isSome (hfs.holds cell)]
  split
  · exact .error _ (hfs.offer h cell)
  · exact .ok rfl (hfs.offer h cell)

theorem corresponds_bind (h : p.Equivalent q) (cell : Nat) :
    (Forward.bind cell p).Corresponds Eq (Forward.bind cell q) := by
  intro fs fs' hfs
  rw [Forward.bind_outcome, Forward.bind_outcome]
  exact .ok rfl (hfs.offer h cell)

theorem isUniform_pure (p : Program α) : (pure p : Build α _).IsUniform :=
  corresponds_pure (.refl p)

/-- A program that refers to itself is built alike from equivalent cells, if its body is. -/
theorem isUniform_fix {body : Nat → Build α (Program α)} (h : ∀ cell, (body cell).IsUniform) :
    (fix body).IsUniform := by
  refine corresponds_new.bind fun b c hbc => ?_
  subst hbc
  refine (h b).bind fun p q hpq => ?_
  exact (corresponds_bind hpq b).bind fun _ _ _ => corresponds_pure hpq

end Build

end GrammarMachine
