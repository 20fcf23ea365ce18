import GrammarMachine.Proofs.Nesting.Moving
import Mathlib.Logic.Relation

/-!
# Layout

Both jumps of a repetition are relative. Where they lead is laid down once, and a call that keeps to
it stays in the code.

* `Code.WellFormed`: there is at most one repetition; its exit leads one past its end, and its end
  back to its start; every capture has a place.
* `Repetition.wellFormed`: so it is in the program of every repetition.
* `Code.Visits V code text f g`: a call at `f` comes by `g`, be it in a nested call. The verdicts
  `V` on patterns may be any.
* `Code.Visits.pc_le`, `Code.Visits.captures_length`: the address and the captures stay in range.
* `Code.Visits.exists_attempt`: an iteration is ended in the call that it began.
-/

namespace GrammarMachine

variable {π α : Type}

/-- Whether the instruction begins a repetition. -/
def Instr.Starts : Instr π α → Prop
  | .loopStart _ => True
  | _ => False

/-- The capture that the instruction names. -/
def Instr.capture? : Instr π α → Option Nat
  | .consume _ _ capture _ => capture
  | .loopStart capture | .loopTry capture _ _ _ _ => some capture
  | _ => none

namespace Code

/-- The code has at most one repetition, whose jumps lead to each other, and room for all
captures. -/
structure WellFormed (code : Code π α) : Prop where
  one_start : ∀ (i j : Nat) x y, code.instrs[i]? = some x → code.instrs[j]? = some y →
    x.Starts → y.Starts → i = j
  one_attempt : ∀ (i j : Nat) x y, code.instrs[i]? = some x → code.instrs[j]? = some y →
    x.Attempts → y.Attempts → i = j
  one_return : ∀ (i j : Nat) x y, code.instrs[i]? = some x → code.instrs[j]? = some y →
    x.Returns → y.Returns → i = j
  /-- The exit of an attempt leads one past the end of the iteration. -/
  exit : ∀ (i : Nat) c min exit fold init,
    code.instrs[i]? = some (.loopTry c min exit fold init) →
    ∃ (j : Nat) (back : Nat) (max : Option Nat),
      code.instrs[j]? = some (.loopBack back max) ∧ i < j ∧ i + exit = j + 1
  /-- The end of an iteration leads back to the attempt. -/
  back : ∀ (j : Nat) back max, code.instrs[j]? = some (.loopBack back max) →
    ∃ (i : Nat) (c min exit : Nat) (fold : Option (Action α)) (init : Option α),
      code.instrs[i]? = some (.loopTry c min exit fold init) ∧ i + back = j
  captures : ∀ (i : Nat) x c, code.instrs[i]? = some x → x.capture? = some c → c < code.captures

variable {code : Code π α}

/-- The addresses of the loop behind the attempt, to the end of the iteration. -/
def Inside (code : Code π α) (k : Nat) : Prop :=
  ∃ (i j : Nat) (x y : Instr π α), code.instrs[i]? = some x ∧ x.Attempts ∧
    code.instrs[j]? = some y ∧ y.Returns ∧ i < k ∧ k ≤ j

theorem WellFormed.inside_back (hw : code.WellFormed) {j back : Nat} {max : Option Nat}
    (hj : code.instrs[j]? = some (.loopBack back max)) : back ≤ j ∧ code.Inside j := by
  obtain ⟨i, c, min, exit, fold, init, hi, hback⟩ := hw.back j back max hj
  obtain ⟨j', back', max', hj', hlt, -⟩ := hw.exit i c min exit fold init hi
  obtain rfl := hw.one_return j j' _ _ hj hj' trivial trivial
  exact ⟨by omega, i, j, _, _, hi, trivial, hj, trivial, hlt, Nat.le_refl j⟩

theorem WellFormed.not_inside_target (hw : code.WellFormed) {j back : Nat} {max : Option Nat}
    (hj : code.instrs[j]? = some (.loopBack back max)) : ¬ code.Inside (j - back) := by
  obtain ⟨i, c, min, exit, fold, init, hi, hback⟩ := hw.back j back max hj
  rintro ⟨i', j', x, y, hi', hx, -, -, hlt, -⟩
  obtain rfl := hw.one_attempt i i' _ _ hi hi' trivial hx
  omega

/-- The loop is entered by the attempt of an iteration alone. -/
theorem Inside.of_succ {k : Nat} {x : Instr π α} (h : code.Inside (k + 1))
    (hx : code.instrs[k]? = some x) (hne : ¬ x.Attempts) : code.Inside k := by
  obtain ⟨i, j, y, z, hi, hy, hj, hz, hlt, hle⟩ := h
  have hik : i ≠ k := by
    rintro rfl
    exact hne (Option.some.inj (hi.symm.trans hx) ▸ hy)
  exact ⟨i, j, y, z, hi, hy, hj, hz, by omega, by omega⟩

theorem WellFormed.not_inside_exit (hw : code.WellFormed) {i c min exit : Nat}
    {fold : Option (Action α)} {init : Option α}
    (hi : code.instrs[i]? = some (.loopTry c min exit fold init)) : ¬ code.Inside (i + exit) := by
  obtain ⟨j, back, max, hj, -, hexit⟩ := hw.exit i c min exit fold init hi
  rintro ⟨i', j', x, y, -, -, hj', hy, -, hle⟩
  obtain rfl := hw.one_return j j' _ _ hj hj' trivial hy
  omega

theorem not_inside_zero : ¬ code.Inside 0 := fun ⟨_, _, _, _, _, _, _, _, hlt, _⟩ =>
  Nat.not_lt_zero _ hlt

end Code

/-! ## Programs -/

theorem Instr.IsInLine.not_starts {i : Instr π α} (h : i.IsInLine) : ¬ i.Starts := by
  cases i <;> simp_all [IsInLine, Starts]

/-- Code without a loop. -/
theorem Code.wellFormed_of_isInLine {code : Code π α} (h : ∀ i ∈ code.instrs, i.IsInLine)
    (hc : ∀ i ∈ code.instrs, ∀ c, i.capture? = some c → c < code.captures) :
    code.WellFormed where
  one_start _ _ _ _ hi _ hx _ := absurd hx (h _ (List.mem_of_getElem? hi)).not_starts
  one_attempt _ _ _ _ hi _ hx _ := absurd hx (h _ (List.mem_of_getElem? hi)).no_jump.1
  one_return _ _ _ _ hi _ hx _ := absurd hx (h _ (List.mem_of_getElem? hi)).no_jump.2
  exit _ _ _ _ _ _ hi := (h _ (List.mem_of_getElem? hi)).elim
  back _ _ _ hi := (h _ (List.mem_of_getElem? hi)).elim
  captures _ _ c hi := hc _ (List.mem_of_getElem? hi) c

namespace Repetition

variable {r : Repetition α}

/-- The instructions around the parts of a repetition. -/
theorem IsSingle.mem_cases {i : Instr (Pattern α) α} (hi : i ∈ r.program.instrs) :
    i ∈ r.lead ∨ i ∈ r.opening ∨ i ∈ r.body ∨ i ∈ r.trail ∨ i = .loopStart loopCapture ∨
      i = .loopTry loopCapture r.min (r.body.length + 2) r.fold r.init ∨
      i = .loopBack (r.body.length + 1) r.max := by
  simp only [program, List.mem_append, List.mem_cons] at hi
  rcases hi with ((h | h | h) | h | h) | h | h <;> simp [h]

/-- The repetition begins behind what precedes it. -/
theorem IsSingle.of_starts (hr : r.IsSingle) (hlead : ∀ i ∈ r.lead, i.IsInLine) {k : Nat}
    {i : Instr (Pattern α) α} (hi : (r.lead ++ r.loopInstrs)[k]? = some i) (hs : i.Starts) :
    k = r.lead.length := by
  have hrest : ∀ i ∈ r.opening ++ .loopTry loopCapture r.min (r.body.length + 2) r.fold r.init ::
      (r.body ++ .loopBack (r.body.length + 1) r.max :: r.trail), ¬ i.Starts := by
    intro i hi
    simp only [List.mem_append, List.mem_cons] at hi
    rcases hi with hi | rfl | hi | rfl | hi
    · exact (hr.opening i hi).not_starts
    · exact id
    · exact (hr.body i hi).not_starts
    · exact id
    · exact (hr.trail i hi).not_starts
  exact (eq_of_getElem?_append Instr.Starts r.lead (by simpa [loopInstrs] using hi) hs
    (fun i hi => (hlead i hi).not_starts) hrest).1

/-- A repetition is laid out with its jumps in place. -/
theorem wellFormed (hr : r.IsSingle) (hlead : ∀ i ∈ r.lead, i.IsInLine)
    (hc : ∀ i ∈ r.program.instrs, ∀ c, i.capture? = some c → c < 1) : r.program.WellFormed := by
  rw [program_eq] at hc ⊢
  constructor
  case one_start =>
    intro i j x y hi hj hx hy
    rw [hr.of_starts hlead hi hx, hr.of_starts hlead hj hy]
  case one_attempt =>
    intro i j x y hi hj hx hy
    rw [(hr.of_attempts hlead hi hx).1, (hr.of_attempts hlead hj hy).1]
  case one_return =>
    intro i j x y hi hj hx hy
    rw [(hr.of_returns hlead hi hx).1, (hr.of_returns hlead hj hy).1]
  case exit =>
    intro i c min exit fold init hi
    obtain ⟨rfl, he⟩ := hr.of_attempts hlead hi trivial
    cases he
    exact ⟨_, _, _, IsSingle.getElem?_loopBack r r.lead, by omega, by omega⟩
  case back =>
    intro j back max hj
    obtain ⟨rfl, he⟩ := hr.of_returns hlead hj trivial
    cases he
    exact ⟨_, _, _, _, _, _, IsSingle.getElem?_loopTry r r.lead, rfl⟩
  case captures =>
    intro i x c hi
    exact hc x (List.mem_of_getElem? hi) c

end Repetition

/-! ## The frames that a call comes by -/

/-- From the frame `f` on, the call comes by a frame, itself or in the attempt of an iteration. -/
inductive Code.Visits (V : Verdicts π α) (code : Code π α) (text : Text) (f : Frame α) :
    Frame α → Prop
  | here : Visits V code text f f
  | step {g h} : Visits V code text f g → Step V code text g (some h) → Visits V code text f h
  | iterate {g capture min exit fold init} : Visits V code text f g →
      code.instrs[g.pc]? = some (.loopTry capture min exit fold init) →
      Visits V code text f g.enterIteration
  | leave {g capture min exit fold init} : Visits V code text f g →
      code.instrs[g.pc]? = some (.loopTry capture min exit fold init) →
      Visits V code text f (g.leaveLoop capture exit fold init)

/-- Within one call, steps lead from one frame to the other. -/
abbrev Code.Walks (V : Verdicts π α) (code : Code π α) (text : Text) : Frame α → Frame α → Prop :=
  Relation.ReflTransGen fun f g => Step V code text f (some g)

section

variable {V : Verdicts π α} {code : Code π α} {text : Text} {f g : Frame α}

theorem Frame.length_capturesAfter (f : Frame α) (capture : Option Nat) (m : Match α) :
    (f.capturesAfter capture m).length = f.captures.length := by
  cases capture with
  | none => rfl
  | some id => exact List.length_modify ..

/-- The frame after a step. -/
theorem Step.pc_captures (h : Step V code text f (some g)) :
    g.captures.length = f.captures.length ∧ g.start = f.start ∧ g.count = f.count ∧
      ((g.pc = f.pc + 1 ∧ ∃ x, code.instrs[f.pc]? = some x ∧ ¬ x.Attempts) ∨
        ∃ back max, code.instrs[f.pc]? = some (.loopBack back max) ∧ g.pc = f.pc - back) := by
  cases h with
  | @consume p action capture skips m i hi =>
    exact ⟨f.length_capturesAfter capture m, rfl, rfl, .inl ⟨rfl, _, hi, id⟩⟩
  | loopStart hi => exact ⟨List.length_modify .., rfl, rfl, .inl ⟨rfl, _, hi, id⟩⟩
  | loopAgain hi => exact ⟨rfl, rfl, rfl, .inr ⟨_, _, hi, rfl⟩⟩
  | loopEnds hi | choice hi | ahead hi | guard hi | assign hi | transform hi | dropAttributes hi
  | skip hi | keyword hi => exact ⟨rfl, rfl, rfl, .inl ⟨rfl, _, hi, id⟩⟩

namespace Code.Visits

/-- The address never leaves the code. -/
theorem pc_le (hw : code.WellFormed) (h : Visits V code text f g)
    (hf : f.pc ≤ code.instrs.length) : g.pc ≤ code.instrs.length := by
  have hlt {k : Nat} {x : Instr π α} (hk : code.instrs[k]? = some x) : k < code.instrs.length :=
    (List.getElem?_eq_some_iff.1 hk).1
  induction h with
  | here => exact hf
  | step _ hs ih =>
    obtain ⟨-, -, -, ⟨hpc, x, hx, -⟩ | ⟨back, max, -, hpc⟩⟩ := hs.pc_captures
    · rw [hpc]
      exact hlt hx
    · omega
  | iterate _ hi => exact hlt hi
  | leave _ hi =>
    obtain ⟨j, back, max, hj, -, hexit⟩ := hw.exit _ _ _ _ _ _ hi
    rw [Frame.leaveLoop, hexit]
    exact hlt hj

theorem captures_length (h : Visits V code text f g) :
    g.captures.length = f.captures.length := by
  induction h with
  | here => rfl
  | step _ hs ih => exact hs.pc_captures.1.trans ih
  | iterate _ _ ih | leave _ _ ih => exact ih

/-- Inside the loop a call runs an iteration from its start, and has not begun another one. -/
theorem exists_attempt (hw : code.WellFormed) (h : Visits V code text f g)
    (hf : ¬ code.Inside f.pc) (hg : code.Inside g.pc) :
    ∃ (e : Frame α) (x : Instr π α), Visits V code text f e ∧ code.instrs[e.pc]? = some x ∧
      x.Attempts ∧ Walks V code text e.enterIteration g ∧ g.start = e.index ∧
      g.count = e.count + 1 := by
  induction h with
  | here => exact absurd hg hf
  | @step g g' _ hs ih =>
    obtain ⟨-, hstart, hcount, ⟨hpc, x, hx, hne⟩ | ⟨back, max, hi, hpc⟩⟩ := hs.pc_captures
    · rw [hpc] at hg
      obtain ⟨e, y, he, hy, hattempts, hwalk, hes, hec⟩ := ih (hg.of_succ hx hne)
      exact ⟨e, y, he, hy, hattempts, hwalk.tail hs, hstart.trans hes, hcount.trans hec⟩
    · rw [hpc] at hg
      exact absurd hg (hw.not_inside_target hi)
  | @iterate g _ _ _ _ _ hvisits hi =>
    exact ⟨g, _, hvisits, hi, trivial, .refl, rfl, rfl⟩
  | leave _ hi => exact absurd hg (hw.not_inside_exit hi)

end Code.Visits

end

end GrammarMachine
