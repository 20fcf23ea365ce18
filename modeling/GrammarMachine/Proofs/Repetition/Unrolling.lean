import GrammarMachine.Callback

/-!
# Unrolled repetitions

What a repetition does, without the machine: it iterates until an iteration fails, until there are
as many as allowed, or until one ends where it began. Then it keeps some of them.

* `Unrolls It max k o a its`: `its` are the iterations from offset `o` under attribute `a` on, where
  `k` were made before.
* `Admissible min k o its n`: the first `n` of them may be kept.
* `Keeps T min k o its n e`: they are kept, as what follows them matches up to offset `e`, and after
  more iterations it does not match.
-/

namespace GrammarMachine

variable {α : Type}

/-- An iteration that ended well. -/
structure Iteration (α : Type) where
  /-- What it records. -/
  found : Match α
  /-- The offset after it. -/
  stop : Nat
  /-- The attribute after it. -/
  attr : Option α

/-- What an iteration from an offset under an attribute comes to. -/
abbrev IterationVerdicts (α : Type) := Nat → Option α → Option (Iteration α) → Prop

/-- The iterations of a repetition, all that are attempted and end well if each is kept. -/
inductive Unrolls (It : IterationVerdicts α) (max : Option Nat) :
    Nat → Nat → Option α → List (Iteration α) → Prop
  | fails {k o a} : It o a none → Unrolls It max k o a []
  | last {k o a it} : It o a (some it) → max = some (k + 1) ∨ it.stop = o →
      Unrolls It max k o a [it]
  | more {k o a it its} : It o a (some it) → max ≠ some (k + 1) → it.stop ≠ o →
      Unrolls It max (k + 1) it.stop it.attr its → Unrolls It max k o a (it :: its)

/-- The offset after `n` iterations. -/
def offsetAfter (o : Nat) : List (Iteration α) → Nat → Nat
  | _, 0 => o
  | [], _ + 1 => o
  | it :: its, n + 1 => offsetAfter it.stop its n

/-- The attribute threaded through `n` iterations. -/
def threadedAttr (a : Option α) : List (Iteration α) → Nat → Option α
  | _, 0 => a
  | [], _ + 1 => a
  | it :: its, n + 1 => threadedAttr it.attr its n

/-- The first `n` iterations may be kept: they are enough, or all of them, the last one empty. -/
def Admissible (min k o : Nat) (its : List (Iteration α)) (n : Nat) : Prop :=
  n ≤ its.length ∧
    (min ≤ k + n ∨ n = its.length ∧ 0 < n ∧ offsetAfter o its n = offsetAfter o its (n - 1))

/-- The first `n` iterations are kept, and what follows them ends at `e`. -/
structure Keeps (T : Nat → Option Nat → Prop) (min k o : Nat) (its : List (Iteration α))
    (n e : Nat) : Prop where
  admissible : Admissible min k o its n
  follows : T (offsetAfter o its n) (some e)
  most : ∀ n', n < n' → Admissible min k o its n' → T (offsetAfter o its n') none

variable {It : IterationVerdicts α} {max : Option Nat} {min k o n e : Nat} {a : Option α}
  {it : Iteration α} {its its' : List (Iteration α)} {T : Nat → Option Nat → Prop}

@[simp] theorem offsetAfter_zero : offsetAfter o its 0 = o := by cases its <;> rfl

@[simp] theorem offsetAfter_succ :
    offsetAfter o (it :: its) (n + 1) = offsetAfter it.stop its n := rfl

@[simp] theorem threadedAttr_zero : threadedAttr a its 0 = a := by cases its <;> rfl

@[simp] theorem threadedAttr_nil : threadedAttr a [] n = a := by cases n <;> rfl

@[simp] theorem threadedAttr_succ :
    threadedAttr a (it :: its) (n + 1) = threadedAttr it.attr its n := rfl

/-- There is at most one sequence of iterations. -/
theorem Unrolls.unique (hIt : ∀ o a r r', It o a r → It o a r' → r = r')
    (h : Unrolls It max k o a its) (h' : Unrolls It max k o a its') : its = its' := by
  induction h generalizing its' with
  | fails h =>
    cases h' with
    | fails h' => rfl
    | last h' _ | more h' _ _ _ => cases hIt _ _ _ _ h h'
  | last h hlast =>
    cases h' with
    | fails h' => cases hIt _ _ _ _ h h'
    | last h' _ =>
      cases hIt _ _ _ _ h h'
      rfl
    | more h' hmax hstop _ =>
      cases hIt _ _ _ _ h h'
      exact (hlast.elim hmax hstop).elim
  | more h hmax hstop _ ih =>
    cases h' with
    | fails h' => cases hIt _ _ _ _ h h'
    | last h' hlast =>
      cases hIt _ _ _ _ h h'
      exact (hlast.elim hmax hstop).elim
    | more h' _ _ hrest =>
      cases hIt _ _ _ _ h h'
      rw [ih hrest]

/-- What holds of every iteration that ends well holds of all of them. -/
theorem Unrolls.forall_mem {P : Iteration α → Prop} (hP : ∀ o a it, It o a (some it) → P it)
    (h : Unrolls It max k o a its) : ∀ it ∈ its, P it := by
  induction h with
  | fails => simp
  | last hit => simpa using hP _ _ _ hit
  | more hit _ _ _ ih => exact List.forall_mem_cons.2 ⟨hP _ _ _ hit, ih⟩

/-- Nothing but the first iteration can be kept if there is no other. -/
theorem Admissible.of_singleton (h : Admissible min k o [it] n) (hn : 0 < n) : n = 1 :=
  Nat.le_antisymm h.1 hn

theorem admissible_zero_iff : Admissible min k o its 0 ↔ min ≤ k := by
  simp [Admissible]

theorem admissible_last (h : min ≤ k + 1 ∨ it.stop = o) : Admissible min k o [it] 1 :=
  ⟨Nat.le_refl _, h.imp_right fun h => ⟨rfl, Nat.one_pos, by simpa using h⟩⟩

/-- Behind an iteration that is not empty the others may be kept as if they were all. -/
theorem admissible_cons_iff (h : it.stop ≠ o) :
    Admissible min k o (it :: its) (n + 1) ↔ Admissible min (k + 1) it.stop its n := by
  cases n with
  | zero =>
    cases its with
    | nil => simp [Admissible, h]
    | cons => simp [Admissible]
  | succ n => simp [Admissible, Nat.add_assoc, Nat.add_comm 1]

theorem Keeps.cons (h : it.stop ≠ o) (hk : Keeps T min (k + 1) it.stop its n e) :
    Keeps T min k o (it :: its) (n + 1) e where
  admissible := (admissible_cons_iff h).2 hk.admissible
  follows := hk.follows
  most n' hn ha := by
    obtain ⟨n', rfl⟩ : ∃ m, n' = m + 1 := ⟨n' - 1, by omega⟩
    exact hk.most n' (by omega) ((admissible_cons_iff h).1 ha)

theorem Keeps.last (hf : T it.stop (some e)) (h : min ≤ k + 1 ∨ it.stop = o) :
    Keeps T min k o [it] 1 e where
  admissible := admissible_last h
  follows := hf
  most _ hn ha := absurd ha.1 (Nat.not_le.2 hn)

/-- No iteration is kept if after one or more of them what follows never matches. -/
theorem Keeps.none (hf : T o (some e)) (hm : min ≤ k)
    (hno : ∀ n, 0 < n → Admissible min k o its n → T (offsetAfter o its n) .none) :
    Keeps T min k o its 0 e where
  admissible := admissible_zero_iff.2 hm
  follows := by rwa [offsetAfter_zero]
  most := hno

/-- At most one number of iterations is kept. -/
theorem Keeps.unique {n' e' : Nat} (hT : ∀ o r r', T o r → T o r' → r = r')
    (h : Keeps T min k o its n e) (h' : Keeps T min k o its n' e') : n = n' ∧ e = e' := by
  rcases Nat.lt_trichotomy n n' with hn | rfl | hn
  · cases hT _ _ _ (h.most n' hn h'.admissible) h'.follows
  · cases hT _ _ _ h.follows h'.follows
    exact ⟨rfl, rfl⟩
  · cases hT _ _ _ (h'.most n hn h.admissible) h.follows

/-- Iterations that always come to an answer and move on through the text come to an end. -/
theorem exists_unrolls {P : Nat → Prop} {bound : Nat} (hb : ∀ o, P o → o ≤ bound)
    (h : ∀ o a, P o → ∃ r, It o a r ∧ ∀ it ∈ r, P it.stop ∧ o ≤ it.stop) (k : Nat) (ho : P o)
    (a : Option α) : ∃ its, Unrolls It max k o a its := by
  -- Each further iteration brings the offset nearer to the bound.
  induction hd : bound - o using Nat.strongRecOn generalizing k o a with
  | ind d ih =>
    obtain ⟨r, hr, hr'⟩ := h o a ho
    cases r with
    | none => exact ⟨[], .fails hr⟩
    | some it =>
      obtain ⟨hit, hle⟩ := hr' it rfl
      by_cases hlast : max = some (k + 1) ∨ it.stop = o
      · exact ⟨[it], .last hr hlast⟩
      · simp only [not_or] at hlast
        have := hb _ hit
        obtain ⟨its, hits⟩ := ih (bound - it.stop) (by omega) (k + 1) hit it.attr rfl
        exact ⟨it :: its, .more hr hlast.1 hlast.2 hits⟩

end GrammarMachine
