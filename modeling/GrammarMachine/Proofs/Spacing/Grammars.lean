import GrammarMachine.Proofs.Repetition.Delimited
import GrammarMachine.Proofs.Semantics.Parsing
import GrammarMachine.Proofs.Spacing.Stepping

/-!
# The amount of spacing does not matter

A grammar that skips blanks, and whose words have none, goes through two texts that differ in their
spacing in step: every iteration of a repetition, every terminal and every nested grammar begins and
ends at abreast offsets.

* `Loop.Abreast`: two loops that iterate in step, each in its text, and what follows them too.
* `Program.RunsAbreast`: a program that comes to an answer in both texts alike.
* `Pattern.IsSpaced`: the patterns that are built of words without blanks, over one lexicon.
* `Program.parse_settles_alike`: a program of this kind parses the one text if and only if it parses
  the other one.
-/

namespace GrammarMachine

variable {α : Type} {fs : Forwards α} {blank : Char → Bool} {text text' : Text} {q : Pattern α}

/-! ## Loops -/

/-- From abreast offsets the iterations of two loops, and what follows the loops, come to an answer
in both texts alike. -/
structure Loop.Abreast (blank : Char → Bool) (text text' : Text) (L L' : Loop α) : Prop where
  min : L'.min = L.min
  max : L'.max = L.max
  iterates : ∀ o o' a a', Text.Abreast blank text text' o o' →
    ∃ r r', L.iterates o a r ∧ L'.iterates o' a' r' ∧
      Option.Rel (fun it it' => Text.Onward blank text text' o o' it.stop it'.stop) r r'
  follows : ∀ o o', Text.Abreast blank text text' o o' →
    ∃ e e', L.follows o e ∧ L'.follows o' e' ∧
      Option.Rel (Text.Onward blank text text' o o') e e'
  iterates_unique : ∀ o a r r', L.iterates o a r → L.iterates o a r' → r = r'
  follows_unique : ∀ o e e', L.follows o e → L.follows o e' → e = e'
  follows_unique' : ∀ o e e', L'.follows o e → L'.follows o e' → e = e'

namespace Loop.Abreast

variable {L L' : Loop α} {i i' : Nat}

/-- Abreast offsets correspond one to one, so the loops end alike if their iterations do. -/
theorem alike (h : L.Abreast blank text text' L') :
    L.Alike (Text.Onward blank text text' i i') L' where
  oneToOne _ _ _ _ hi hj := hi.1.eq_iff hj.1
  min := h.min
  max := h.max
  follows o o' e ho he := by
    obtain ⟨e₀, e', he₀, he', hrel⟩ := h.follows o o' ho.1
    obtain rfl := h.follows_unique _ _ _ he he₀
    refine ⟨e', he', ?_⟩
    cases hrel with
    | none => exact .none
    | some hon => exact .some (hon.trans ho.2.1 ho.2.2)
  unique := h.follows_unique'

/-- The iterations of the first loop come to an end. -/
theorem exists_unrolls (h : L.Abreast blank text text' L') (k : Nat)
    (hi : Text.Abreast blank text text' i i') (a : Option α) :
    ∃ its, Unrolls L.iterates L.max k i a its := by
  have hbound : ∀ o, (∃ o', Text.Abreast blank text text' o o') → o ≤ text.byteLength :=
    fun o ⟨_, ho⟩ => ho.le_byteLength.1
  refine GrammarMachine.exists_unrolls hbound (fun o a ⟨o', ho⟩ => ?_) k ⟨i', hi⟩ a
  obtain ⟨r, r', hr, -, hrel⟩ := h.iterates o o' a a ho
  refine ⟨r, hr, ?_⟩
  rintro it rfl
  cases hrel with
  | some hon => exact ⟨⟨_, hon.1⟩, hon.2.1⟩

/-- The other loop unrolls in step. -/
theorem exists_paired (h : L.Abreast blank text text' L') {k : Nat} {a : Option α} (a' : Option α)
    {its : List (Iteration α)} (hi : Text.Abreast blank text text' i i')
    (hits : Unrolls L.iterates L.max k i a its) :
    ∃ its', Unrolls L'.iterates L'.max k i' a' its' ∧
      Paired (Text.Onward blank text text' i i') (fun _ _ _ _ => True) a a' its its' := by
  rw [h.max]
  refine hits.exists_paired (P := fun _ _ _ => True) h.alike.oneToOne
    (fun o o' a b r ho _ hr => ?_) ⟨hi, Nat.le_refl _, Nat.le_refl _⟩ trivial
  obtain ⟨r₀, r', hr₀, hr', hrel⟩ := h.iterates o o' a b ho.1
  obtain rfl := h.iterates_unique _ _ _ _ hr hr₀
  refine ⟨r', hr', ?_⟩
  cases hrel with
  | none => exact .none
  | some hon => exact .some ⟨hon.trans ho.2.1 ho.2.2, trivial, trivial⟩

variable {π π' : Type} {V : Verdicts π α} {V' : Verdicts π' α} {code : Code π α}
  {code' : Code π' α} {f f' : Frame α} {l l' : List (Match α)}

/-- Calls at the loops come to an end in both texts, at abreast offsets or both in a failure. -/
theorem exists_exec (h : L.Abreast blank text text' L') (hW : L.Within V code text)
    (hW' : L'.Within V' code' text') (hf : L.Reached f l) (hf' : L'.Reached f' l')
    (hcount : f'.count = f.count) (hindex : Text.Abreast blank text text' f.index f'.index) :
    ∃ r r', Exec V code text f r ∧ Exec V' code' text' f' r' ∧
      Option.Rel (fun fin fin' => Text.Onward blank text text' f.index f'.index fin.index fin'.index)
        r r' := by
  obtain ⟨its, hits⟩ := h.exists_unrolls f.count hindex f.attr
  obtain ⟨its', hits', hpaired⟩ := h.exists_paired f'.attr hindex hits
  have hon (n : Nat) : Text.Onward blank text text' f.index f'.index
      (offsetAfter f.index its n) (offsetAfter f'.index its' n) :=
    hpaired.offsetAfter ⟨hindex, Nat.le_refl _, Nat.le_refl _⟩ n
  obtain ⟨r, hr, hfin⟩ := hW.exists_finished hf hits fun n _ _ => by
    obtain ⟨e, -, he, -⟩ := h.follows _ _ (hon n).1
    exact ⟨e, he⟩
  rw [← hcount] at hits'
  obtain ⟨r', hr', hfin'⟩ := hW'.exists_finished hf' hits' fun n _ _ => by
    obtain ⟨-, e', -, he', -⟩ := h.follows _ _ (hon n).1
    exact ⟨e', he'⟩
  have hrel := hfin.alike h.alike hcount ⟨hindex, Nat.le_refl _, Nat.le_refl _⟩ hpaired hfin'
  refine ⟨r, r', hr, hr', ?_⟩
  cases hrel with
  | none => exact .none
  | some hend => exact .some hend.1

end Loop.Abreast

/-! ## Iterations and terminals -/

section

variable (hq : q.MatchesBlanks fs blank)

include hq

theorem exists_iterates_abreast {p : Pattern α} (hp : p.StepsAbreast fs blank text text')
    (dropping : Bool) (o o' : Nat) (a a' : Option α) (ho : Text.Abreast blank text text' o o') :
    ∃ r r', Iterates (Pattern.Answers fs text) (some q) dropping p o a r ∧
      Iterates (Pattern.Answers fs text') (some q) dropping p o' a' r' ∧
      Option.Rel (fun it it' => Text.Onward blank text text' o o' it.stop it'.stop) r r' := by
  obtain ⟨r, r', hr, hr', hrel⟩ := hp o o' a a' ho
  cases hrel with
  | none => exact ⟨none, none, .fails hr, .fails hr', .none⟩
  | some hm =>
    obtain ⟨hnear, hle, hle'⟩ := hm
    obtain ⟨j, j', hj, hj', hon⟩ := hnear.exists_skips hq
    exact ⟨_, _, .ends hr (hj _), .ends hr' (hj' _), .some (hon.trans hle hle')⟩

theorem exists_separated_abreast {e d : Pattern α} (he : e.StepsAbreast fs blank text text')
    (hd : d.StepsAbreast fs blank text text') (dropping : Bool) (o o' : Nat) (a a' : Option α)
    (ho : Text.Abreast blank text text' o o') :
    ∃ r r', Separated (Pattern.Answers fs text) (some q) dropping e d o a r ∧
      Separated (Pattern.Answers fs text') (some q) dropping e d o' a' r' ∧
      Option.Rel (fun it it' => Text.Onward blank text text' o o' it.stop it'.stop) r r' := by
  obtain ⟨r, r', hr, hr', hrel⟩ := hd o o' a a' ho
  cases hrel with
  | none => exact ⟨none, none, .fails hr, .fails hr', .none⟩
  | some hm =>
    obtain ⟨hnear, hle, hle'⟩ := hm
    obtain ⟨j, j', hj, hj', hon⟩ := hnear.exists_skips hq
    obtain ⟨r, r', hit, hit', hrel⟩ := exists_iterates_abreast hq he dropping j j' _ _ hon.1
    refine ⟨r, r', .goes hr (hj _) hit, .goes hr' (hj' _) hit', ?_⟩
    cases hrel with
    | none => exact .none
    | some hend =>
      exact .some (hend.trans (Nat.le_trans hle hon.2.1) (Nat.le_trans hle' hon.2.2))

theorem exists_follow_abreast {ts : List Terminal} (hts : ∀ t ∈ ts, t = .endOfInput) (o o' : Nat)
    (ho : Text.Abreast blank text text' o o') :
    ∃ e e', Follow (Pattern.Answers fs text) (some q) ts o e ∧
      Follow (Pattern.Answers fs text') (some q) ts o' e' ∧
      Option.Rel (Text.Onward blank text text' o o') e e' := by
  induction ts generalizing o o' with
  | nil => exact ⟨_, _, .nil, .nil, .some ⟨ho, Nat.le_refl _, Nat.le_refl _⟩⟩
  | cons t ts ih =>
    obtain ⟨rfl, hrest⟩ := List.forall_mem_cons.1 hts
    have hend : (Pattern.endOfInput : Pattern α).StepsAbreast fs blank text text' :=
      Pattern.stepsAbreast_endOfInput
    obtain ⟨r, r', hr, hr', hrel⟩ := hend o o' none none ho
    cases hrel with
    | none => exact ⟨none, none, .fails hr, .fails hr', .none⟩
    | some hm =>
      obtain ⟨hnear, hle, hle'⟩ := hm
      obtain ⟨j, j', hj, hj', hon⟩ := hnear.exists_skips hq
      obtain ⟨e, e', he, he', hrel⟩ := ih hrest j j' hon.1
      refine ⟨e, e', .goes hr (hj _) he, .goes hr' (hj' _) he', ?_⟩
      cases hrel with
      | none => exact .none
      | some hend =>
        exact .some (hend.trans (Nat.le_trans hle hon.2.1) (Nat.le_trans hle' hon.2.2))

end

/-! ## Programs -/

/-- Run from offsets behind which the texts differ in their spacing only, the program matches in both
texts or in none, and ends at abreast offsets. -/
def Program.RunsAbreast (fs : Forwards α) (blank : Char → Bool) (text text' : Text)
    (p : Program α) : Prop :=
  ∀ i i' a a', Text.Near blank text text' i i' →
    ∃ r r', p.Answers fs text i a r ∧ p.Answers fs text' i' a' r' ∧
      Option.Rel (fun m m' => Text.Onward blank text text' i i' m.lastIndex m'.lastIndex) r r'

theorem Program.RunsAbreast.stepsAbreast {p : Program α} (h : p.RunsAbreast fs blank text text') :
    (Pattern.program p).StepsAbreast fs blank text text' := by
  intro i i' a a' hi
  obtain ⟨r, r', hr, hr', hrel⟩ := h i i' a a' hi.near
  refine ⟨r, r', Pattern.answers_program_iff.2 hr, Pattern.answers_program_iff.2 hr', ?_⟩
  cases hrel with
  | none => exact .none
  | some hon => exact .some ⟨hon.1.near, hon.2⟩

/-- What is between near offsets and abreast ones behind them can be sliced out. -/
theorem Program.runsAbreast_of_exec {p : Program α}
    (h : ∀ i i' a a', Text.Near blank text text' i i' →
      ∃ x x', Exec (Pattern.Answers fs text) p text (.initial p.captures i a) x ∧
        Exec (Pattern.Answers fs text') p text' (.initial p.captures i' a') x' ∧
        Option.Rel (fun fin fin' => Text.Onward blank text text' i i' fin.index fin'.index) x x') :
    p.RunsAbreast fs blank text text' := by
  intro i i' a a' hi
  obtain ⟨x, x', hx, hx', hrel⟩ := h i i' a a' hi
  refine ⟨_, _, answers_exec_iff.2 ⟨x, hx, rfl⟩, answers_exec_iff.2 ⟨x', hx', rfl⟩, ?_⟩
  cases hrel with
  | none => exact .none
  | some hon =>
    obtain ⟨v, v', hv, hv', -⟩ := hi
    obtain ⟨⟨w, w', hw, hw', -⟩, hle, hle'⟩ := id hon
    obtain ⟨t, ht, -⟩ := Text.exists_slice?_of_from? hv hw hle
    obtain ⟨t', ht', -⟩ := Text.exists_slice?_of_from? hv' hw' hle'
    simp only [Option.bind_some, Final.match?, ht, ht', Option.map_some]
    exact .some hon

namespace Grammar

variable {g : Grammar α} {p e d : Pattern α} {fold : Option (Action α × Option α)}
  {ts : List Terminal}

theorem RunsAbreast.program (h : g.RunsAbreast fs blank text text') :
    g.program.RunsAbreast fs blank text text' := by
  refine Program.runsAbreast_of_exec fun i i' a a' hi => ?_
  rcases h i i' a a' hi with ⟨o, b, o', b', hlead, hlead', hon⟩ | ⟨hno, hno'⟩
  · exact ⟨_, _, hlead, hlead', .some hon⟩
  · exact ⟨none, none, hno, hno', .none⟩

section

variable (hl : g.lexicon.ignore = some q) (hq : q.MatchesBlanks fs blank)
  (hts : ∀ t ∈ ts, t = .endOfInput)

include hl hq hts

theorem abreast_loop {min : Nat} {max : Option Nat} (hp : p.StepsAbreast fs blank text text') :
    (g.loop fs text min max p fold ts).Abreast blank text text'
      (g.loop fs text' min max p fold ts) where
  min := rfl
  max := rfl
  iterates := by
    simp only [loop, hl]
    exact exists_iterates_abreast hq hp g.drops
  follows := by
    simp only [loop, hl]
    exact exists_follow_abreast hq hts
  iterates_unique := Iterates.unique Pattern.answers_unique
  follows_unique _ _ _ := Follow.unique
  follows_unique' _ _ _ := Follow.unique

theorem abreast_delimitedLoop (he : e.StepsAbreast fs blank text text')
    (hd : d.StepsAbreast fs blank text text') :
    (g.delimitedLoop fs text e d fold ts).Abreast blank text text'
      (g.delimitedLoop fs text' e d fold ts) where
  min := rfl
  max := rfl
  iterates := by
    simp only [delimitedLoop, hl]
    exact exists_separated_abreast hq he hd g.drops
  follows := by
    simp only [delimitedLoop, hl]
    exact exists_follow_abreast hq hts
  iterates_unique := Separated.unique Pattern.answers_unique
  follows_unique _ _ _ := Follow.unique
  follows_unique' _ _ _ := Follow.unique

variable (hg : g.IsOpen) (h : g.RunsAbreast fs blank text text')

include hg h

theorem RunsAbreast.repetition {min : Nat} {max : Option Nat} (hb : checkBounds min max = .ok ())
    (hp : p.StepsAbreast fs blank text text') :
    (g.repetition min max p fold ts).program.RunsAbreast fs blank text text' := by
  refine Program.runsAbreast_of_exec fun i i' a a' hi => ?_
  rw [show (g.repetition min max p fold ts).program.captures = 1 from rfl]
  rcases h i i' a a' hi with ⟨o, b, o', b', hlead, hlead', ho, hle, hle'⟩ | ⟨hno, hno'⟩
  · obtain ⟨r, r', hr, hr', hrel⟩ := (abreast_loop hl hq hts hp).exists_exec
      (loop_within hb (hl ▸ hq.skipsAlike text)) (loop_within hb (hl ▸ hq.skipsAlike text'))
      (loop_reached hb i o b) (loop_reached hb i' o' b') rfl ho
    refine ⟨r, r', exec_repetition_of_loop hg hlead hr, exec_repetition_of_loop hg hlead' hr', ?_⟩
    cases hrel with
    | none => exact .none
    | some hon => exact .some (hon.trans hle hle')
  · exact ⟨none, none, (exec_repetition_iff hg).2 (.inr ⟨hno, rfl⟩),
      (exec_repetition_iff hg).2 (.inr ⟨hno', rfl⟩), .none⟩

theorem RunsAbreast.delimitedRepetition (he : e.StepsAbreast fs blank text text')
    (hd : d.StepsAbreast fs blank text text') :
    (g.delimitedRepetition e d fold ts).program.RunsAbreast fs blank text text' := by
  refine Program.runsAbreast_of_exec fun i i' a a' hi => ?_
  rw [show (g.delimitedRepetition e d fold ts).program.captures = 1 from rfl]
  rcases h i i' a a' hi with ⟨o, b, o', b', hlead, hlead', ho, hle, hle'⟩ | ⟨hno, hno'⟩
  · obtain ⟨r, r', hr, hr', hrel⟩ := he o o' b b' ho
    cases hrel with
    | none =>
      exact ⟨none, none, (exec_delimited_iff hg).2 (.inr ⟨hlead.token_fails hg hr, rfl⟩),
        (exec_delimited_iff hg).2 (.inr ⟨hlead'.token_fails hg hr', rfl⟩), .none⟩
    | some hm =>
      obtain ⟨hnear, hlm, hlm'⟩ := hm
      obtain ⟨j, j', hj, hj', hon⟩ := hnear.exists_skips hq
      obtain ⟨x, x', hx, hx', hrel⟩ := (abreast_delimitedLoop hl hq hts he hd).exists_exec
        (delimitedLoop_within (hl ▸ hq.skipsAlike text))
        (delimitedLoop_within (hl ▸ hq.skipsAlike text'))
        (delimitedLoop_reached i j b _ _) (delimitedLoop_reached i' j' b' _ _) rfl hon.1
      rw [← hl] at hj hj'
      refine ⟨x, x',
        (exec_delimited_iff hg).2 (.inl ⟨o, b, _, j, hlead, hr, hj _, hx⟩),
        (exec_delimited_iff hg).2 (.inl ⟨o', b', _, j', hlead', hr', hj' _, hx'⟩), ?_⟩
      cases hrel with
      | none => exact .none
      | some hend =>
        exact .some (hend.trans (Nat.le_trans hle (Nat.le_trans hlm hon.2.1))
          (Nat.le_trans hle' (Nat.le_trans hlm' hon.2.2)))
  · exact ⟨none, none, (exec_delimited_iff hg).2 (.inr ⟨hno.append hg _, rfl⟩),
      (exec_delimited_iff hg).2 (.inr ⟨hno'.append hg _, rfl⟩), .none⟩

end

end Grammar

/-! ## Grammars over one lexicon -/

/-- Whether the bounds of the repetition are in order. -/
def Seal.IsBounded : Seal α → Prop
  | times min max _ => checkBounds min max = .ok ()
  | delimited _ _ => True

/-- The patterns that are repeated. -/
def Seal.patterns : Seal α → List (Pattern α)
  | times _ _ p => [p]
  | delimited element delimiter => [element, delimiter]

/-- Whether nothing but the end of the input may follow a repetition. -/
def Ending.IsSpaced : Ending α → Prop
  | chain => True
  | sealed s _ ts => s.IsBounded ∧ ∀ t ∈ ts, t = .endOfInput

def Ending.patterns : Ending α → List (Pattern α)
  | chain => []
  | sealed s _ _ => s.patterns

/-- A pattern that is built of words without blanks and of the end of the input, by grammars over one
lexicon. -/
inductive Pattern.IsSpaced (l : Lexicon α) (blank : Char → Bool) : Pattern α → Prop
  | literal {t : Text} : (∀ c ∈ t, blank c = false) → IsSpaced l blank (.literal t)
  | endOfInput : IsSpaced l blank .endOfInput
  | grammar {ss : List (Link α)} {e : Ending α} : (∀ s ∈ ss, s.Tests) →
      (∀ s ∈ ss, ∀ p ∈ s.patterns, IsSpaced l blank p) →
      e.IsSpaced → (∀ p ∈ e.patterns, IsSpaced l blank p) →
      IsSpaced l blank (.program (e.close (l.chain ss)))

section

variable {l : Lexicon α} (hl : l.ignore = some q) (hq : q.MatchesBlanks fs blank)

include hl hq

theorem Ending.runsAbreast_close {ss : List (Link α)} {e : Ending α} (hss : ∀ s ∈ ss, s.Tests)
    (hp : ∀ s ∈ ss, ∀ p ∈ s.patterns, p.StepsAbreast fs blank text text') (he : e.IsSpaced)
    (hpe : ∀ p ∈ e.patterns, p.StepsAbreast fs blank text text') :
    (e.close (l.chain ss)).RunsAbreast fs blank text text' := by
  have hrun := Grammar.runsAbreast_chain hl hq hss hp
  have hopen := (Grammar.retains_chain (l := l) hss).isOpen
  have hl' : (l.chain ss).lexicon.ignore = some q := Lexicon.chain_lexicon ▸ hl
  cases e with
  | chain => exact hrun.program
  | sealed s fold ts =>
    cases s with
    | times min max p => exact hrun.repetition hl' hq he.2 hopen he.1 (hpe p List.mem_cons_self)
    | delimited element delimiter =>
      exact hrun.delimitedRepetition hl' hq he.2 hopen (hpe element List.mem_cons_self)
        (hpe delimiter (List.mem_cons_of_mem _ List.mem_cons_self))

theorem Pattern.IsSpaced.stepsAbreast {p : Pattern α} (h : p.IsSpaced l blank) :
    p.StepsAbreast fs blank text text' := by
  induction h with
  | literal ht => exact stepsAbreast_literal ht
  | endOfInput => exact stepsAbreast_endOfInput
  | grammar hss _ he _ ih ihe => exact (Ending.runsAbreast_close hl hq hss ih he ihe).stepsAbreast

theorem Pattern.IsSpaced.runsAbreast {p : Program α} (h : (Pattern.program p).IsSpaced l blank) :
    p.RunsAbreast fs blank text text' := by
  cases h with
  | grammar hss hp he hpe =>
    exact Ending.runsAbreast_close hl hq hss (fun s hs p hp' => (hp s hs p hp').stepsAbreast hl hq)
      he fun p hp' => (hpe p hp').stepsAbreast hl hq

/-- On texts that differ in their spacing only, a grammar of words without blanks comes to an answer
alike: parsing from the start it matches in both texts or in none and ends at corresponding offsets,
and it parses the one text as a whole if and only if it parses the other one. -/
theorem Program.parse_settles_alike {p : Program α} (hp : (Pattern.program p).IsSpaced l blank)
    (h : Text.SameUpToSpacing blank text text') (a a' : Option α) :
    (∃ r r', Trial.Settles (fun fuel => p.parse ⟨fs, fuel⟩ text a) (some r) ∧
      Trial.Settles (fun fuel => p.parse ⟨fs, fuel⟩ text' a') (some r') ∧
      (r.isSome ↔ r'.isSome)) ∧
    ∃ s s', Trial.Settles (fun fuel => p.parseStart ⟨fs, fuel⟩ text 0 a) (some s) ∧
      Trial.Settles (fun fuel => p.parseStart ⟨fs, fuel⟩ text' 0 a') (some s') ∧
      Option.Rel (fun m m' => Text.Corresponds blank text text' m.lastIndex m'.lastIndex) s s' := by
  obtain ⟨r, r', hr, hr', hrel⟩ := hp.runsAbreast hl hq 0 0 a a' h.near
  refine ⟨⟨_, _, parse_settles hr, parse_settles hr', ?_⟩,
    _, _, parseStart_settles hr, parseStart_settles hr', ?_⟩
  · cases hrel with
    | none => rfl
    | some hon =>
      obtain ⟨hle, hle'⟩ := hon.1.le_byteLength
      have hend := hon.1.byteLength_le
      have hend' := hon.1.symm.byteLength_le
      simp only [Option.map_some, Option.filter_some]
      split <;> split <;> simp_all
      all_goals omega
  · cases hrel with
    | none => exact .none
    | some hon => exact .some (hon.1.corresponds h)

end

/-- The elements of a list may be far from each other, and from the ends of the text. -/
theorem Program.parse_settles_alike_list :
    let blanks : Pattern Nat := .regex ⟨.standard, "\\A(?: +)".toList, .run (.single ' ') 1⟩
    let p : Program Nat := Ending.close
      (Lexicon.chain { ignore := some blanks } [.token (.literal ['(']) none])
      (.sealed (.delimited (.literal ['a']) (.literal [','])) none [.endOfInput])
    Text.SameUpToSpacing (CharSet.single ' ').contains "( a ,a".toList "  (  a  ,a ".toList ∧
    (∃ r, Trial.Settles (fun fuel => p.parse ⟨.empty, fuel⟩ "  (  a  ,a ".toList none)
      (some (some r))) ∧
    ∃ s s', Trial.Settles (fun fuel => p.parseStart ⟨.empty, fuel⟩ "( a ,a".toList 0 none) (some s) ∧
      Trial.Settles (fun fuel => p.parseStart ⟨.empty, fuel⟩ "  (  a  ,a ".toList 0 none) (some s') ∧
      Option.Rel (fun m m' => Text.Corresponds (CharSet.single ' ').contains "( a ,a".toList
        "  (  a  ,a ".toList m.lastIndex m'.lastIndex) s s' := by
  intro blanks p
  have hliteral {c : Char} (hc : (CharSet.single ' ').contains c = false) :
      Pattern.IsSpaced { ignore := some blanks } (CharSet.single ' ').contains (.literal [c]) :=
    .literal (by simpa using hc)
  have hp : (Pattern.program p).IsSpaced { ignore := some blanks } (CharSet.single ' ').contains :=
    .grammar (by simp [Link.Tests]) (by simpa [Link.patterns] using hliteral (by decide))
      ⟨trivial, by simp⟩
      (by simpa [Ending.patterns, Seal.patterns] using
        And.intro (hliteral (c := 'a') (by decide)) (hliteral (c := ',') (by decide)))
  have hspacing : Text.SameUpToSpacing (CharSet.single ' ').contains "( a ,a".toList
      "  (  a  ,a ".toList := by
    refine ⟨[], "( a ,a".toList, [], [' ', ' '], "(  a  ,a".toList, [' '], rfl, rfl, ?_, by decide,
      by decide, by decide, by decide⟩
    have hrun {t t' : Text} (h : Text.Respaced (CharSet.single ' ').contains t t') :
        Text.Respaced (CharSet.single ' ').contains ([' '] ++ t) ([' ', ' '] ++ t') :=
      .run (by decide) (by decide) (by decide) (by decide) h
    exact .char (by decide) (hrun (.char (by decide) (hrun
      (.char (by decide) (.char (by decide) .nil)))))
  have hblanks : blanks.MatchesBlanks .empty (CharSet.single ' ').contains :=
    Pattern.matchesBlanks_run _ _
  obtain ⟨⟨r, r', hr, hr', hsome⟩, hstart⟩ := parse_settles_alike rfl hblanks hp hspacing none none
  have hfew : p.Answers .empty "( a ,a".toList 0 none (some ⟨"( a ,a".toList, 6, none, []⟩) :=
    Pattern.answers_program_iff.1 (Pattern.answers_of_outcome? 16 (by decide +kernel))
  have hparse := parse_settles hfew
  obtain rfl := Option.some.inj (hparse.unique hr)
  obtain ⟨m, rfl⟩ := Option.isSome_iff_exists.1 (hsome.1 rfl)
  exact ⟨hspacing, ⟨m, hr'⟩, hstart⟩

end GrammarMachine
