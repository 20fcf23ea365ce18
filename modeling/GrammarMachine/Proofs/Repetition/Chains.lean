import GrammarMachine.Proofs.Repetition.Unrolling

/-!
# Chains of applications

A repetition is left after an iteration that consumed nothing, however many iterations are still to
come. If what an iteration comes to depends on its offset alone, the next one would be the same, and
so would all others. So the iterations of a repetition are as good as a chain of applications that
knows nothing of empty iterations.

* `Chained A n o e`: `n` applications lead from one offset to another; nothing is asked of them.
* `Unrolls.chained`, `Chained.exists_unrolls`: from the iterations of a repetition to a chain of
  applications, and back.
* `Repeats`, `FallsShort`: as many applications as possible, or too few.
* `Unrolls.repeats`, `Unrolls.fallsShort`: that is what the iterations of a repetition come to;
  `Repeats.exists_unrolls` and `FallsShort.exists_unrolls` go back.
* `LeadsTo`: where iterations lead with nothing behind them. `repeats_iff_leadsTo` and
  `fallsShort_iff_leadsTo` put the above together.
-/

namespace GrammarMachine

variable {α : Type}

/-! ## Chains of applications -/

/-- So many applications, one behind the other, lead from one offset to the other. -/
inductive Chained (A : Nat → Option Nat → Prop) : Nat → Nat → Nat → Prop
  | zero (o) : Chained A 0 o o
  | succ {n o i e} : Chained A n o i → A i (some e) → Chained A (n + 1) o e

section

variable {A : Nat → Option Nat → Prop} {n m o i e : Nat}

theorem Chained.cons (h : A o (some i)) (hn : Chained A n i e) : Chained A (n + 1) o e := by
  induction hn with
  | zero => exact .succ (.zero o) h
  | succ _ he ih => exact .succ (ih h) he

theorem Chained.exists_cons (h : Chained A (n + 1) o e) :
    ∃ i, A o (some i) ∧ Chained A n i e := by
  induction n generalizing e with
  | zero =>
    cases h with
    | succ h he =>
      cases h
      exact ⟨e, he, .zero e⟩
  | succ n ih =>
    cases h with
    | succ h he =>
      obtain ⟨i, hi, hn⟩ := ih h
      exact ⟨i, hi, .succ hn he⟩

theorem Chained.of_stays (h : A o (some o)) (n : Nat) : Chained A n o o := by
  induction n with
  | zero => exact .zero o
  | succ n ih => exact .succ ih h

theorem Chained.append (h : Chained A n o i) (h' : Chained A m i e) : Chained A (n + m) o e := by
  induction h' with
  | zero => exact h
  | succ _ he ih => exact .succ (ih h) he

variable (hA : ∀ i x y, A i x → A i y → x = y)

include hA

theorem Chained.unique {e' : Nat} (h : Chained A n o e) (h' : Chained A n o e') : e = e' := by
  induction h generalizing e' with
  | zero =>
    cases h'
    rfl
  | succ _ he ih =>
    cases h' with
    | succ h' he' =>
      obtain rfl := ih h'
      exact Option.some.inj (hA _ _ _ he he')

/-- Where an application stays, all further ones do. -/
theorem Chained.eq_of_stays (h : A o (some o)) (hn : Chained A n o e) : e = o :=
  hn.unique hA (.of_stays h n)

end

/-! ## Chains and iterations -/

section

variable {It : IterationVerdicts α} {A : Nat → Option Nat → Prop} {max : Option Nat}
  {min k n o e : Nat} {a : Option α} {its : List (Iteration α)}

/-- The last iteration consumed nothing. -/
def EndsEmpty (o : Nat) (its : List (Iteration α)) : Prop :=
  0 < its.length ∧ offsetAfter o its its.length = offsetAfter o its (its.length - 1)

theorem EndsEmpty.cons {it : Iteration α} (h : EndsEmpty it.stop its) :
    EndsEmpty o (it :: its) := by
  obtain ⟨hpos, heq⟩ := h
  refine ⟨Nat.succ_pos _, ?_⟩
  obtain ⟨l, hl⟩ : ∃ l, its.length = l + 1 := ⟨its.length - 1, by omega⟩
  simpa [hl] using heq

theorem endsEmpty_singleton {it : Iteration α} (h : it.stop = o) : EndsEmpty o [it] :=
  ⟨Nat.one_pos, by simpa using h⟩

theorem EndsEmpty.of_cons {it : Iteration α} (h : EndsEmpty o (it :: its)) :
    it.stop = o ∧ its = [] ∨ EndsEmpty it.stop its := by
  obtain ⟨-, heq⟩ := h
  cases its with
  | nil => exact .inl ⟨by simpa using heq, rfl⟩
  | cons jt its => exact .inr ⟨Nat.succ_pos _, by simpa using heq⟩

/-- All iterations may be kept if any number of them may. -/
theorem Admissible.all (h : Admissible min k o its n) : Admissible min k o its its.length := by
  obtain ⟨hle, hmin | ⟨rfl, hpos, heq⟩⟩ := h
  · exact ⟨Nat.le_refl _, .inl (Nat.le_trans hmin (Nat.add_le_add_left hle k))⟩
  · exact ⟨Nat.le_refl _, .inr ⟨rfl, hpos, heq⟩⟩

theorem admissible_all_iff :
    Admissible min k o its its.length ↔ min ≤ k + its.length ∨ EndsEmpty o its := by
  simp [Admissible, EndsEmpty]

/-- The iterations of a repetition are a chain of applications. They end where an application fails,
where there are as many as allowed, or with an empty one. -/
theorem Unrolls.chained (hIt : ∀ o a x, It o a x → A o (x.map Iteration.stop))
    (h : Unrolls It max k o a its) :
    Chained A its.length o (offsetAfter o its its.length) ∧
      (A (offsetAfter o its its.length) none ∨ max = some (k + its.length) ∨
        EndsEmpty o its) ∧
      (EndsEmpty o its →
        A (offsetAfter o its its.length) (some (offsetAfter o its its.length))) := by
  induction h with
  | @fails k o a hit =>
    rw [List.length_nil, offsetAfter_zero]
    exact ⟨.zero o, .inl (hIt _ _ _ hit), fun h => absurd h.1 (Nat.lt_irrefl 0)⟩
  | @last k o a it hit hlast =>
    have happly : A o (some it.stop) := hIt _ _ _ hit
    refine ⟨.succ (.zero o) happly, .inr (hlast.imp_right endsEmpty_singleton), fun h => ?_⟩
    rcases h.of_cons with ⟨hstop, -⟩ | h
    · simpa [hstop] using happly
    · exact absurd h.1 (Nat.lt_irrefl 0)
  | @more k o a it its hit hmax hstop _ ih =>
    obtain ⟨hchain, hend, hempty⟩ := ih
    rw [List.length_cons, offsetAfter_succ]
    refine ⟨.cons (hIt _ _ _ hit) hchain, ?_, fun h => ?_⟩
    · refine hend.imp_right (Or.imp (fun h => ?_) EndsEmpty.cons)
      rw [h, Nat.add_assoc, Nat.add_comm 1]
    · rcases h.of_cons with ⟨heq, -⟩ | h
      · exact absurd heq hstop
      · exact hempty h

/-- A chain of applications that cannot go on is the iterations of a repetition, which may be fewer
if the last one is empty. -/
theorem Chained.exists_unrolls (hA : ∀ i x y, A i x → A i y → x = y)
    (hIt : ∀ o x, A o x → ∀ a, ∃ y, It o a y ∧ y.map Iteration.stop = x)
    (h : Chained A n o e) (hmax : ∀ m, max = some m → k < m ∧ k + n ≤ m)
    (hstop : max = some (k + n) ∨ A e none ∨ A e (some e)) (a : Option α) :
    ∃ its, Unrolls It max k o a its ∧ offsetAfter o its its.length = e ∧
      (its.length = n ∨ EndsEmpty o its) := by
  induction n generalizing k o a with
  | zero =>
    cases h
    rcases hstop with hstop | hstop | hstop
    · exact absurd (hmax _ hstop).1 (Nat.lt_irrefl k)
    · obtain ⟨y, hy, hstop⟩ := hIt _ _ hstop a
      obtain rfl := Option.map_eq_none_iff.1 hstop
      exact ⟨[], .fails hy, rfl, .inl rfl⟩
    · obtain ⟨y, hy, hstop⟩ := hIt _ _ hstop a
      obtain ⟨it, rfl, hit⟩ := Option.map_eq_some_iff.1 hstop
      exact ⟨[it], .last hy (.inr hit), hit, .inr (endsEmpty_singleton hit)⟩
  | succ n ih =>
    obtain ⟨i, hi, hn⟩ := h.exists_cons
    obtain ⟨y, hy, hstop'⟩ := hIt _ _ hi a
    obtain ⟨it, rfl, rfl⟩ := Option.map_eq_some_iff.1 hstop'
    by_cases hempty : it.stop = o
    · rw [hempty] at hi
      refine ⟨[it], .last hy (.inr hempty), ?_, .inr (endsEmpty_singleton hempty)⟩
      rw [h.eq_of_stays hA hi]
      exact hempty
    · by_cases hfull : max = some (k + 1)
      · obtain rfl : n = 0 := by
          have := (hmax _ hfull).2
          omega
        cases hn
        exact ⟨[it], .last hy (.inl hfull), rfl, .inl rfl⟩
      · have hmax' : ∀ m, max = some m → k + 1 < m ∧ k + 1 + n ≤ m := by
          intro m hm
          obtain ⟨hlt, hle⟩ := hmax m hm
          have : m ≠ k + 1 := fun h => hfull (h ▸ hm)
          omega
        have hstop'' : max = some (k + 1 + n) ∨ A e none ∨ A e (some e) := by
          rwa [Nat.add_assoc, Nat.add_comm 1]
        obtain ⟨its, hits, hlast, hlen⟩ := ih hn hmax' hstop'' it.attr
        exact ⟨it :: its, .more hy hfull hempty hits, hlast,
          hlen.imp (congrArg (· + 1)) EndsEmpty.cons⟩

end

/-! ## Repetition without a rule for empty iterations -/

/-- As many applications as possible, at least `min` and at most `max` of them, lead from `o` to
`e`. Applications that stay there for ever are as many as anyone asks for. -/
def Repeats (A : Nat → Option Nat → Prop) (min : Nat) (max : Option Nat) (o e : Nat) : Prop :=
  ∃ n, Chained A n o e ∧ min ≤ n ∧ (∀ m, max = some m → n ≤ m) ∧
    (max = some n ∨ A e none ∨ max = none ∧ ∀ k, n ≤ k → Chained A k o e)

/-- An application fails before there are `min` of them. -/
def FallsShort (A : Nat → Option Nat → Prop) (min o : Nat) : Prop :=
  ∃ n i, n < min ∧ Chained A n o i ∧ A i none

section

variable {It : IterationVerdicts α} {A : Nat → Option Nat → Prop} {max : Option Nat}
  {min n o e : Nat} {a : Option α} {its : List (Iteration α)}

theorem Unrolls.length_le {k : Nat} (h : Unrolls It max k o a its)
    (hk : ∀ m, max = some m → k < m) : ∀ m, max = some m → k + its.length ≤ m := by
  intro m hm
  have hlt := hk m hm
  induction h with
  | fails => exact Nat.le_of_lt hlt
  | last => exact hlt
  | @more k o a it its _ hne _ _ ih =>
    have hne' : m ≠ k + 1 := fun h => hne (h ▸ hm)
    have := ih (fun m' hm' => by cases hm.symm.trans hm'; omega) (by omega)
    rw [List.length_cons]
    omega

section

variable (hIt : ∀ o a x, It o a x → A o (x.map Iteration.stop))
  (hmax : ∀ m, max = some m → 0 < m ∧ min ≤ m)

include hIt hmax

end

section

variable (hA : ∀ i x y, A i x → A i y → x = y)
  (hIt : ∀ o x, A o x → ∀ a, ∃ y, It o a y ∧ y.map Iteration.stop = x)
  (hmax : ∀ m, max = some m → 0 < m ∧ min ≤ m)

include hA hIt hmax

theorem Repeats.exists_unrolls (h : Repeats A min max o e) (a : Option α) :
    ∃ its, Unrolls It max 0 o a its ∧ offsetAfter o its its.length = e ∧
      Admissible min 0 o its its.length := by
  obtain ⟨n, hchain, hmin, hle, hstop⟩ := h
  have hstop' : max = some (0 + n) ∨ A e none ∨ A e (some e) := by
    rw [Nat.zero_add]
    refine hstop.imp_right (Or.imp_right fun ⟨_, hmore⟩ => ?_)
    cases hmore (n + 1) (Nat.le_succ n) with
    | succ h he => rwa [h.unique hA hchain] at he
  obtain ⟨its, hits, hend, hlen⟩ := hchain.exists_unrolls hA hIt
    (fun m hm => ⟨(hmax m hm).1, by have := hle m hm; omega⟩) hstop' a
  refine ⟨its, hits, hend, admissible_all_iff.2 (hlen.imp_left fun hlen => ?_)⟩
  rw [hlen, Nat.zero_add]
  exact hmin

theorem FallsShort.exists_unrolls (h : FallsShort A min o) (a : Option α)
    (hIt' : ∀ o a x, It o a x → A o (x.map Iteration.stop)) :
    ∃ its, Unrolls It max 0 o a its ∧ ¬ Admissible min 0 o its its.length := by
  obtain ⟨n, i, hn, hchain, hi⟩ := h
  obtain ⟨its, hits, hend, hlen⟩ := hchain.exists_unrolls (k := 0) hA hIt
    (fun m hm => ⟨(hmax m hm).1, by have := (hmax m hm).2; omega⟩) (.inr (.inl hi)) a
  have hempty : ¬ EndsEmpty o its := by
    intro hlast
    have hstays := (hits.chained hIt').2.2 hlast
    rw [hend] at hstays
    cases hA _ _ _ hi hstays
  refine ⟨its, hits, ?_⟩
  rw [admissible_all_iff, Nat.zero_add, hlen.resolve_right hempty]
  exact not_or.2 ⟨Nat.not_le.2 hn, hempty⟩

end

/-- Where iterations lead with nothing behind them: as far as the last of them, or nowhere if they
may not all be kept. -/
def LeadsTo (min o : Nat) (its : List (Iteration α)) (e : Option Nat) : Prop :=
  (Admissible min 0 o its its.length ∧ e = some (offsetAfter o its its.length)) ∨
    (¬ Admissible min 0 o its its.length ∧ e = none)

theorem LeadsTo.unique {e e' : Option Nat} (h : LeadsTo min o its e) (h' : LeadsTo min o its e') :
    e = e' := by
  rcases h with ⟨hall, rfl⟩ | ⟨hno, rfl⟩ <;> rcases h' with ⟨hall', rfl⟩ | ⟨hno', rfl⟩
  · rfl
  · exact absurd hall hno'
  · exact absurd hall' hno
  · rfl

section

variable (hIt : ∀ o a x, It o a x → A o (x.map Iteration.stop))
  (hA : ∀ i x y, A i x → A i y → x = y)
  (hback : ∀ o x, A o x → ∀ a, ∃ y, It o a y ∧ y.map Iteration.stop = x)
  (hmax : ∀ m, max = some m → 0 < m ∧ min ≤ m)

include hIt hA hback hmax

end

end

end GrammarMachine
