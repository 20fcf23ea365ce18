import GrammarMachine.Proofs.Repetition.Extent

/-!
# Repetitions that iterate alike

Two repetitions, of two programs on two texts maybe, whose iterations stop at corresponding offsets
keep equally many of them. What a single iteration records and computes may differ.

* `OneToOne`: offsets correspond one to one.
* `Paired R S`: two lists of iterations stop at offsets that correspond by `R`, and each iteration is
  related by `S` to the other one.
* `Unrolls.exists_paired`: a repetition unrolls in step with another one.
* `Loop.Within.finished_alike`: a call at a repetition ends where the call at the other one does.
* `Program.Answers.of_alike`: programs answer alike if their runs end alike.
-/

namespace GrammarMachine

variable {α : Type}

/-- Offsets that correspond are equal on the one side where they are on the other. -/
def OneToOne (R : Nat → Nat → Prop) : Prop :=
  ∀ i j i' j', R i i' → R j j' → (i = j ↔ i' = j')

theorem oneToOne_eq : OneToOne (· = ·) := by
  rintro i j _ _ rfl rfl
  rfl

/-- The iterations of two repetitions, from under two attributes on, stop at corresponding offsets
and are related one by one. -/
inductive Paired (R : Nat → Nat → Prop)
    (S : Option α → Option α → Iteration α → Iteration α → Prop) :
    Option α → Option α → List (Iteration α) → List (Iteration α) → Prop
  | nil {a b} : Paired R S a b [] []
  | cons {a b it it' its its'} : R it.stop it'.stop → S a b it it' →
      Paired R S it.attr it'.attr its its' → Paired R S a b (it :: its) (it' :: its')

section

variable {R : Nat → Nat → Prop} {S : Option α → Option α → Iteration α → Iteration α → Prop}
  {a b : Option α} {its its' : List (Iteration α)} {min k o o' n : Nat}

theorem Paired.length_eq (h : Paired R S a b its its') : its'.length = its.length := by
  induction h with
  | nil => rfl
  | cons _ _ _ ih => simp [ih]

theorem Paired.offsetAfter (h : Paired R S a b its its') (ho : R o o') (n : Nat) :
    R (offsetAfter o its n) (offsetAfter o' its' n) := by
  induction h generalizing o o' n with
  | nil => cases n <;> exact ho
  | cons hstop _ _ ih =>
    cases n with
    | zero => exact ho
    | succ n => exact ih hstop n

/-- The same numbers of iterations may be kept. -/
theorem Paired.admissible_iff (hR : OneToOne R) (h : Paired R S a b its its') (ho : R o o') :
    Admissible min k o' its' n ↔ Admissible min k o its n := by
  simp only [Admissible, h.length_eq,
    hR _ _ _ _ (h.offsetAfter ho n) (h.offsetAfter ho (n - 1))]

theorem Paired.swap (h : Paired R S a b its its') :
    Paired (fun i' i => R i i') (fun b a it' it => S a b it it') b a its' its := by
  induction h with
  | nil => exact .nil
  | cons hstop hS _ ih => exact .cons hstop hS ih

theorem Paired.rfl (hR : ∀ i, R i i) (hS : ∀ a it, S a a it it) : Paired R S a a its its := by
  induction its generalizing a with
  | nil => exact .nil
  | cons it its ih => exact .cons (hR _) (hS a it) ih

/-- Iterations that leave the same attributes thread the same attribute. -/
theorem Paired.threadedAttr_eq (h : Paired R (fun _ _ it it' => it'.attr = it.attr) a b its its')
    (hab : b = a) (n : Nat) : threadedAttr b its' n = threadedAttr a its n := by
  induction h generalizing n with
  | nil => rw [hab]
  | cons _ hattr _ ih =>
    cases n with
    | zero => simpa using hab
    | succ n => exact ih hattr n

/-- A repetition unrolls in step with another one, as long as each of its iterations comes with one
of the other. -/
theorem Unrolls.exists_paired {It It' : IterationVerdicts α} {P : Nat → Option α → Option α → Prop}
    (hR : OneToOne R)
    (hstep : ∀ o o' a b r, R o o' → P o a b → It o a r → ∃ r', It' o' b r' ∧
      Option.Rel (fun it it' => R it.stop it'.stop ∧ S a b it it' ∧ P it.stop it.attr it'.attr) r r')
    {max : Option Nat} (hu : Unrolls It max k o a its) (ho : R o o') (hP : P o a b) :
    ∃ its', Unrolls It' max k o' b its' ∧ Paired R S a b its its' := by
  induction hu generalizing o' b with
  | fails hit =>
    obtain ⟨r', hr', hrel⟩ := hstep _ _ _ _ _ ho hP hit
    cases hrel with
    | none => exact ⟨[], .fails hr', .nil⟩
  | last hit hlast =>
    obtain ⟨r', hr', hrel⟩ := hstep _ _ _ _ _ ho hP hit
    cases hrel with
    | some h =>
      obtain ⟨hstop, hS, -⟩ := h
      exact ⟨_, .last hr' (hlast.imp_right (hR _ _ _ _ hstop ho).1), .cons hstop hS .nil⟩
  | more hit hmax hne _ ih =>
    obtain ⟨r', hr', hrel⟩ := hstep _ _ _ _ _ ho hP hit
    cases hrel with
    | some h =>
      obtain ⟨hstop, hS, hP'⟩ := h
      obtain ⟨its', hits', hpaired⟩ := ih hstop hP'
      exact ⟨_, .more hr' hmax (mt (hR _ _ _ _ hstop ho).2 hne) hits', .cons hstop hS hpaired⟩

end

/-! ## Loops that iterate alike -/

namespace Loop

/-- The attribute of a repetition that keeps the first `n` iterations, after `l` was recorded. -/
def attrAfter (L : Loop α) (f : Frame α) (l : List (Match α)) (its : List (Iteration α)) (n : Nat) :
    Option α :=
  if f.count = 0 then
    f.settledAttr (threadedAttr f.attr its n) (l ++ (its.take n).map (·.found)) L.fold L.init
  else threadedAttr f.attr its n

/-- Two loops repeat equally often, and what follows the one ends where what follows the other does,
from corresponding offsets on. -/
structure Alike (R : Nat → Nat → Prop) (L L' : Loop α) : Prop where
  oneToOne : OneToOne R
  min : L'.min = L.min
  max : L'.max = L.max
  follows : ∀ i i' e, R i i' → L.follows i e → ∃ e', L'.follows i' e' ∧ Option.Rel R e e'
  unique : ∀ i e e', L'.follows i e → L'.follows i e' → e = e'

/-- What the call at a loop ends with, and what the call at another one ends with. -/
def EndsAlike (R : Nat → Nat → Prop) (L L' : Loop α) (f f' : Frame α) (l l' : List (Match α))
    (its its' : List (Iteration α)) : Option (Final α) → Option (Final α) → Prop :=
  Option.Rel fun fin fin' => R fin.index fin'.index ∧ ∃ n,
    Keeps L.follows L.min f.count f.index its n fin.index ∧
    fin.attr = L.attrAfter f l its n ∧ fin'.attr = L'.attrAfter f' l' its' n

variable {π π' : Type} {V : Verdicts π α} {V' : Verdicts π' α} {code : Code π α} {code' : Code π' α}
  {text text' : Text} {R : Nat → Nat → Prop} {L L' : Loop α} {f f' : Frame α}
  {l l' : List (Match α)} {its its' : List (Iteration α)}
  {S : Option α → Option α → Iteration α → Iteration α → Prop} {r r' : Option (Final α)}

theorem Alike.of_eq (hmin : L'.min = L.min) (hmax : L'.max = L.max)
    (hfollows : L'.follows = L.follows) (hunique : ∀ i e e', L.follows i e → L.follows i e' → e = e') :
    L.Alike (· = ·) L' where
  oneToOne := oneToOne_eq
  min := hmin
  max := hmax
  follows := by
    rintro i _ e rfl he
    refine ⟨e, hfollows ▸ he, ?_⟩
    cases e with
    | none => exact .none
    | some e => exact .some rfl
  unique := hfollows ▸ hunique

section

variable (hL : L.Alike R L') (hcount : f'.count = f.count) (hindex : R f.index f'.index)
  (hpaired : Paired R S f.attr f'.attr its its')

include hL hindex hpaired

theorem Alike.follows_none (n : Nat) (h : L.follows (offsetAfter f.index its n) none) :
    L'.follows (offsetAfter f'.index its' n) none := by
  obtain ⟨e', he', hrel⟩ := hL.follows _ _ _ (hpaired.offsetAfter hindex n) h
  cases hrel
  exact he'

theorem Alike.follows_some {n e : Nat} (h : L.follows (offsetAfter f.index its n) (some e)) :
    ∃ e', L'.follows (offsetAfter f'.index its' n) (some e') ∧ R e e' := by
  obtain ⟨e', he', hrel⟩ := hL.follows _ _ _ (hpaired.offsetAfter hindex n) h
  cases hrel with
  | some hR => exact ⟨_, he', hR⟩

include hcount

/-- Two loops whose iterations are paired keep equally many of them. -/
theorem Finished.alike (h : L.Finished f l its r) (h' : L'.Finished f' l' its' r') :
    L.EndsAlike R L' f f' l l' its its' r r' := by
  have hadmissible (n : Nat) : Admissible L'.min f'.count f'.index its' n ↔
      Admissible L.min f.count f.index its n := by
    rw [hL.min, hcount]
    exact hpaired.admissible_iff hL.oneToOne hindex
  cases h with
  | fails hno =>
    cases h' with
    | fails => exact .none
    | @ends n fin hk' _ _ =>
      have hnone := hL.follows_none hindex hpaired n (hno n ((hadmissible n).1 hk'.admissible))
      cases hL.unique _ _ _ hk'.follows hnone
  | @ends n fin hk _ hattr =>
    obtain ⟨e', he', hR⟩ := hL.follows_some hindex hpaired hk.follows
    cases h' with
    | fails hno => cases hL.unique _ _ _ (hno n ((hadmissible n).2 hk.admissible)) he'
    | @ends n' fin' hk' _ hattr' =>
      rcases Nat.lt_trichotomy n n' with hlt | rfl | hgt
      · have hnone := hk.most n' hlt ((hadmissible n').1 hk'.admissible)
        cases hL.unique _ _ _ hk'.follows (hL.follows_none hindex hpaired n' hnone)
      · cases hL.unique _ _ _ he' hk'.follows
        exact .some ⟨hR, n, hk, hattr, hattr'⟩
      · cases hL.unique _ _ _ he' (hk'.most n hgt ((hadmissible n).2 hk.admissible))

/-- What follows the second loop comes to an answer wherever it has to. -/
theorem Finished.exists_follows_alike (h : L.Finished f l its r) {n : Nat}
    (hn : Admissible L'.min f'.count f'.index its' n)
    (hmost : ∀ n', n < n' → Admissible L'.min f'.count f'.index its' n' →
      L'.follows (offsetAfter f'.index its' n') none) :
    ∃ e, L'.follows (offsetAfter f'.index its' n) e := by
  simp only [hL.min, hcount, hpaired.admissible_iff hL.oneToOne hindex] at hn hmost
  cases h with
  | fails hno => exact ⟨none, hL.follows_none hindex hpaired n (hno n hn)⟩
  | @ends n₀ fin hk _ _ =>
    obtain ⟨e', he', -⟩ := hL.follows_some hindex hpaired hk.follows
    rcases Nat.lt_trichotomy n n₀ with hlt | rfl | hgt
    · cases hL.unique _ _ _ (hmost n₀ hlt hk.admissible) he'
    · exact ⟨_, he'⟩
    · exact ⟨none, hL.follows_none hindex hpaired n (hk.most n hgt hn)⟩

end

/-- A call at a repetition ends where the call at another one does if they iterate alike. -/
theorem Within.finished_alike (hW : L.Within V code text) (hW' : L'.Within V' code' text')
    (hL : L.Alike R L') (hf : L.Reached f l) (hf' : L'.Reached f' l') (hcount : f'.count = f.count)
    (hindex : R f.index f'.index)
    (hpair : ∀ its, Unrolls L.iterates L.max f.count f.index f.attr its →
      ∃ its', Unrolls L'.iterates L.max f.count f'.index f'.attr its' ∧
        Paired R S f.attr f'.attr its its')
    (h : Exec V code text f r) :
    ∃ r', Exec V' code' text' f' r' ∧ ∃ its its', Paired R S f.attr f'.attr its its' ∧
      Unrolls L.iterates L.max f.count f.index f.attr its ∧
      L.EndsAlike R L' f f' l l' its its' r r' := by
  obtain ⟨its, hits, hfin⟩ := hW.finished hf h
  obtain ⟨its', hits', hpaired⟩ := hpair its hits
  rw [← hL.max, ← hcount] at hits'
  obtain ⟨r', hr', hfin'⟩ := hW'.exists_finished hf' hits'
    fun n hn hno => hfin.exists_follows_alike hL hcount hindex hpaired hn hno
  exact ⟨r', hr', its, its', hpaired, hits, hfin.alike hL hcount hindex hpaired hfin'⟩

end Loop

namespace Grammar

variable {fs : Forwards α} {text : Text} {g : Grammar α} {min : Nat} {max : Option Nat}
  {p : Pattern α} {ts : List Terminal}

/-- Without a fold, the attribute of a repetition is the one threaded through its iterations. -/
theorem attrAfter_threaded (hdrops : g.drops = false) (start o : Nat) (a : Option α)
    (its : List (Iteration α)) (n : Nat) :
    (g.loop fs text min max p none ts).attrAfter (g.loopFrame start o a) [] its n =
      threadedAttr a its n := by
  simp [Loop.attrAfter, loopFrame, Frame.settledAttr, loop, Frame.keep, hdrops]

theorem attrAfter_folding (hdrops : g.drops = false) (action : Action α) (init : Option α)
    (start o : Nat) (a : Option α) (its : List (Iteration α)) (n : Nat) :
    (g.loop fs text min max p (some (action, init)) ts).attrAfter (g.loopFrame start o a) [] its n =
      ((its.take n).map (·.found)).foldl (foldStep false action) (merge a init) := by
  simp [Loop.attrAfter, loopFrame, Frame.settledAttr, loop, Frame.keep, hdrops]

end Grammar

section

variable {fs : Forwards α} {text : Text} {p q : Program α} {start : Nat} {inherited : Option α}
  {r : Option (Match α)}

/-- A program that answers comes with one whose runs end at the same offsets, and whose attributes
are related to its own. -/
theorem Program.Answers.exists_of_alike {R : Nat → Option α → Option α → Prop}
    (hpq : ∀ x, Exec (Pattern.Answers fs text) p text (.initial p.captures start inherited) x →
      ∃ y, Exec (Pattern.Answers fs text) q text (.initial q.captures start inherited) y ∧
        Option.Rel (fun fin fin' => fin'.index = fin.index ∧ R fin.index fin.attr fin'.attr) x y)
    (h : p.Answers fs text start inherited r) :
    ∃ r', q.Answers fs text start inherited r' ∧
      Option.Rel (fun m m' => m' = { m with attr := m'.attr } ∧ R m.lastIndex m.attr m'.attr)
        r r' := by
  obtain ⟨x, hx, rfl⟩ := Program.answers_exec_iff.1 h
  obtain ⟨y, hy, hrel⟩ := hpq x hx
  refine ⟨_, Program.answers_exec_iff.2 ⟨y, hy, rfl⟩, ?_⟩
  cases hrel with
  | none => exact .none
  | @some fin fin' hfin =>
    obtain ⟨hindex, hR⟩ := hfin
    simp only [Option.bind_some, Final.match?, hindex]
    cases text.slice? start fin.index with
    | none => exact .none
    | some t => exact .some ⟨rfl, hR⟩

/-- A program answers as another one does if its runs end as those of the other one. -/
theorem Program.Answers.of_alike
    (hpq : ∀ x, Exec (Pattern.Answers fs text) p text (.initial p.captures start inherited) x →
      ∃ y, Exec (Pattern.Answers fs text) q text (.initial q.captures start inherited) y ∧
        Option.Rel (fun fin fin' => fin'.index = fin.index ∧ fin'.attr = fin.attr) x y)
    (h : p.Answers fs text start inherited r) : q.Answers fs text start inherited r := by
  obtain ⟨r', hr', hrel⟩ := h.exists_of_alike (R := fun _ a a' => a' = a) hpq
  cases hrel with
  | none => exact hr'
  | some hm =>
    obtain ⟨hm', hattr⟩ := hm
    rw [hm', hattr] at hr'
    exact hr'

end

end GrammarMachine
