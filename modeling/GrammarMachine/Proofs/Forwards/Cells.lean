import GrammarMachine.Forward

/-!
# Cells

What constructions do to the cells of forward references. Whether a construction succeeds or fails,
the cells are what it left behind.

* `Build.outcome_bind`: a composed construction, by its parts.
* `Build.run_eq_ok_iff`, `Build.bind_ok`: the same for constructions that succeed.
* `Forwards.offer`: a program for a cell that has none.
* `Forwards.Extends`: no cell is gone, and no program in one.
* `Forward.define_outcome`, `Forward.bind_outcome`, `Forward.news_run`: the operations on cells.
-/

namespace GrammarMachine

variable {α β γ : Type} {fs fs' : Forwards α} {cell : Nat}

/-! ## Constructions by their parts -/

namespace Build

@[simp] theorem outcome_pure (b : β) (fs : Forwards α) :
    (pure b : Build α β).outcome fs = (.ok b, fs) := rfl

@[simp] theorem outcome_throw (e : BuildError) (fs : Forwards α) :
    (throw e : Build α β).outcome fs = (.error e, fs) := rfl

/-- What follows a construction goes on from the cells that it leaves, unless it failed. -/
theorem outcome_bind (x : Build α β) (k : β → Build α γ) (fs : Forwards α) :
    (x >>= k).outcome fs =
      match x.outcome fs with
      | (.ok b, fs') => (k b).outcome fs'
      | (.error e, fs') => (.error e, fs') := by
  simp only [outcome, ExceptT.run_bind, StateT.run_bind]
  show (match StateT.run (ExceptT.run x) fs with | (a, s) => _) = _
  rcases StateT.run (ExceptT.run x) fs with ⟨_ | _, fs'⟩ <;> rfl

theorem outcome_bind_ok {x : Build α β} {b : β} (h : x.outcome fs = (.ok b, fs'))
    (k : β → Build α γ) : (x >>= k).outcome fs = (k b).outcome fs' := by
  rw [outcome_bind, h]

theorem outcome_bind_error {x : Build α β} {e : BuildError} (h : x.outcome fs = (.error e, fs'))
    (k : β → Build α γ) : (x >>= k).outcome fs = (.error e, fs') := by
  rw [outcome_bind, h]

theorem outcome_get_bind (k : Forwards α → Build α γ) (fs : Forwards α) :
    ((get : Build α (Forwards α)) >>= k).outcome fs = (k fs).outcome fs :=
  outcome_bind_ok rfl k

theorem run_eq_ok_iff {x : Build α β} {b : β} :
    x.run fs = .ok (b, fs') ↔ x.outcome fs = (.ok b, fs') := by
  rw [run]
  rcases x.outcome fs with ⟨e | c, fs₁⟩ <;> simp [Except.map]

/-- What follows a construction goes on from the cells that it leaves. -/
theorem run_bind {x : Build α β} {k : β → Build α γ} {b : β} (h : x.run fs = .ok (b, fs')) :
    (x >>= k).run fs = (k b).run fs' := by
  rw [run, run, outcome_bind_ok (run_eq_ok_iff.1 h)]

/-- A construction in two parts that succeeds, by its parts. -/
theorem bind_ok {x : Build α β} {k : β → Build α γ} {fs₂ : Forwards α} {c : γ}
    (h : (x >>= k).run fs = .ok (c, fs₂)) :
    ∃ b fs₁, x.run fs = .ok (b, fs₁) ∧ (k b).run fs₁ = .ok (c, fs₂) := by
  rw [run_eq_ok_iff, outcome_bind] at h
  rcases hx : x.outcome fs with ⟨e | b, fs₁⟩
  · rw [hx] at h
    cases h
  · rw [hx] at h
    exact ⟨b, fs₁, run_eq_ok_iff.2 hx, run_eq_ok_iff.2 h⟩

theorem pure_inj {b c : β} (h : (pure b : Build α β) = pure c) : b = c := by
  have houtcome : ((.ok b, .empty) : Except BuildError β × Forwards α) = (.ok c, .empty) :=
    congrArg (outcome · .empty) h
  cases houtcome
  rfl

end Build

/-! ## Stores of cells -/

namespace Forwards

theorem get?_of_size_le (h : fs.cells.size ≤ cell) : fs.get? cell = none := by
  simp [Forwards.get?, h]

@[simp] theorem size_push (fs : Forwards α) : fs.push.cells.size = fs.cells.size + 1 := by
  simp [push]

@[simp] theorem size_set (fs : Forwards α) (cell : Nat) (p : Program α) :
    (fs.set cell p).cells.size = fs.cells.size := by
  simp [set]

/-- The store after a program was offered to a cell, which takes it if it has none. -/
def offer (fs : Forwards α) (cell : Nat) (p : Program α) : Forwards α :=
  match fs.get? cell with
  | some _ => fs
  | none => fs.set cell p

theorem offer_of_some {q : Program α} (h : fs.get? cell = some q) (p : Program α) :
    fs.offer cell p = fs := by
  rw [offer, h]

theorem offer_of_none (h : fs.get? cell = none) (p : Program α) :
    fs.offer cell p = fs.set cell p := by
  rw [offer, h]

@[simp] theorem size_offer (fs : Forwards α) (cell : Nat) (p : Program α) :
    (fs.offer cell p).cells.size = fs.cells.size := by
  rw [offer]
  split <;> simp

/-- A cell that is there takes the program unless it has one. -/
theorem get?_offer_self (h : cell < fs.cells.size) (p : Program α) :
    (fs.offer cell p).get? cell = (fs.get? cell).or (some p) := by
  cases hc : fs.get? cell with
  | some q => rw [offer_of_some hc, hc, Option.some_or]
  | none => rw [offer_of_none hc, get?_set_self p h, Option.none_or]

theorem get?_offer_ne {other : Nat} (p : Program α) (h : cell ≠ other) :
    (fs.offer cell p).get? other = fs.get? other := by
  rw [offer]
  split
  · rfl
  · exact get?_set_ne p h

/-- No cell is gone, and no program in one. -/
structure Extends (fs fs' : Forwards α) : Prop where
  size : fs.cells.size ≤ fs'.cells.size
  holds : ∀ c q, fs.get? c = some q → fs'.get? c = some q

theorem Extends.refl (fs : Forwards α) : fs.Extends fs := ⟨Nat.le_refl _, fun _ _ h => h⟩

theorem Extends.trans {fs₁ fs₂ fs₃ : Forwards α} (h : fs₁.Extends fs₂)
    (h' : fs₂.Extends fs₃) : fs₁.Extends fs₃ :=
  ⟨Nat.le_trans h.size h'.size, fun c q hc => h'.holds c q (h.holds c q hc)⟩

theorem extends_set (h : fs.get? cell = none) (p : Program α) : fs.Extends (fs.set cell p) := by
  refine ⟨Nat.le_of_eq (size_set fs cell p).symm, fun d q hd => ?_⟩
  rw [get?_set_ne p]
  · exact hd
  · rintro rfl
    cases h.symm.trans hd

end Forwards

/-! ## Operations on cells -/

namespace Forward

theorem new_outcome (fs : Forwards α) :
    (new : Build α Nat).outcome fs = (.ok fs.cells.size, fs.push) := rfl

/-- A cell that holds a program is not defined again, and nothing changes. -/
theorem define_outcome (cell : Nat) (p : Program α) (fs : Forwards α) :
    (define cell p).outcome fs =
      (if (fs.get? cell).isSome then .error .forwardAlreadyDefined else .ok (),
        fs.offer cell p) := by
  rw [define, Build.outcome_get_bind, Forwards.offer]
  cases fs.get? cell <;> rfl

/-- A cell that holds a program is left alone. -/
theorem bind_outcome (cell : Nat) (p : Program α) (fs : Forwards α) :
    (bind cell p).outcome fs = (.ok (), fs.offer cell p) := by
  rw [bind, Build.outcome_get_bind, Forwards.offer]
  cases fs.get? cell <;> rfl

/-- An undefined cell can be defined. -/
theorem define_run (h : fs.get? cell = none) (p : Program α) :
    (define cell p).run fs = .ok ((), fs.set cell p) := by
  rw [Build.run_eq_ok_iff, define_outcome, Forwards.offer_of_none h, h]
  rfl

/-- A cell that has been defined was undefined before. -/
theorem define_ok {p : Program α} {u : Unit} (h : (define cell p).run fs = .ok (u, fs')) :
    fs.get? cell = none ∧ fs' = fs.set cell p := by
  rw [Build.run_eq_ok_iff, define_outcome] at h
  cases hc : fs.get? cell with
  | some q =>
    rw [hc] at h
    cases h
  | none =>
    rw [hc, Forwards.offer_of_none hc] at h
    cases h
    exact ⟨rfl, rfl⟩

/-- New cells are consecutive and undefined, and nothing else changes. -/
theorem news_run (n : Nat) (fs : Forwards α) :
    ∃ fs', (news n).run fs = .ok (List.range' fs.cells.size n, fs') ∧
      fs'.cells.size = fs.cells.size + n ∧ ∀ c, fs'.get? c = fs.get? c := by
  induction n generalizing fs with
  | zero => exact ⟨fs, rfl, rfl, fun _ => rfl⟩
  | succ n ih =>
    obtain ⟨fs', hrun, hsize, hget⟩ := ih fs.push
    rw [Forwards.size_push] at hrun hsize
    refine ⟨fs', ?_, by omega, fun c => (hget c).trans (Forwards.get?_push fs c)⟩
    rw [news, Build.run_bind (Build.run_eq_ok_iff.2 (new_outcome fs)), Build.run_bind hrun]
    rfl

end Forward

end GrammarMachine
