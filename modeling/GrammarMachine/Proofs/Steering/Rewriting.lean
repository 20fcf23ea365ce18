import GrammarMachine.Proofs.Inheritance.Relation
import GrammarMachine.Proofs.Nesting.Moving

/-!
# Rewriting what computes attributes

Programs that ask nothing about attributes, and programs that differ in what is done to attributes
alone.

* `Pattern.IsBlind`: no condition is asked, and no matching function looks at the attribute to
  decide whether it matches and up to where.
* `Instr.Rewrites`, `Instr.Chains`: other functions and values stand in an instruction; in a chain
  of steps attributes may also be dropped elsewhere.
* `Pattern.Rewrites`: the same for all programs in the pattern.
* `Pattern.IsBlind.rewrites_self`, `Pattern.IsBlind.symm`: rewriting goes both ways, and what is
  rewritten stays blind.
* `Ending.rewrites_close`, `Ending.rewrites_dropAttributes`: the programs that chains of calls
  build.
-/

namespace GrammarMachine

variable {π α : Type}

/-! ## Blind programs -/

/-- No condition is asked in the pattern. Whether its matching functions match, and where a match of
theirs ends, does not depend on the attribute. -/
inductive Pattern.IsBlind : Pattern α → Prop
  | literal (t : Text) : IsBlind (.literal t)
  | regex (r : Regex) : IsBlind (.regex r)
  | forward (cell : Nat) : IsBlind (.forward cell)
  | lineBreak : IsBlind .lineBreak
  | endOfInput : IsBlind .endOfInput
  | custom {f : Matcher α} : (∀ text i a b, (f.apply text i a).map Match.lastIndex =
      (f.apply text i b).map Match.lastIndex) → IsBlind (.custom f)
  | wordEnd {ignore : Option (Pattern α)} {words : Option Keywords} :
      (∀ p, ignore = some p → p.IsBlind) → IsBlind (.wordEnd ignore words)
  | program {code : Program α} : (∀ c, .guard c ∉ code.instrs) →
      (∀ x ∈ code.instrs, ∀ p ∈ x.patterns, p.IsBlind) →
      (∀ p, code.ignore = some p → p.IsBlind) → IsBlind (.program code)

/-- No condition is asked in the program, and its patterns are blind. -/
structure Program.IsBlind (code : Program α) : Prop where
  guards : ∀ c, .guard c ∉ code.instrs
  patterns : ∀ x ∈ code.instrs, ∀ p ∈ x.patterns, p.IsBlind
  ignore : ∀ p, code.ignore = some p → p.IsBlind

theorem Pattern.isBlind_program_iff {code : Program α} :
    (Pattern.program code).IsBlind ↔ code.IsBlind :=
  ⟨fun | .program hg hp hi => ⟨hg, hp, hi⟩, fun h => .program h.guards h.patterns h.ignore⟩

/-- The programs that cells hold are blind. -/
def Forwards.IsBlind (fs : Forwards α) : Prop :=
  ∀ cell code, fs.get? cell = some code → code.IsBlind

/-! ## Rewriting -/

/-- The second instruction has other functions and values that compute attributes, and tests
patterns that are related. -/
inductive Instr.Rewrites (R : π → π → Prop) : Instr π α → Instr π α → Prop
  | consume {p q action action'} (capture : Option Nat) (skips : Bool) : R p q →
      Rewrites R (.consume p action capture skips) (.consume q action' capture skips)
  | loopStart (capture : Nat) : Rewrites R (.loopStart capture) (.loopStart capture)
  | loopTry {fold fold' init init'} (capture min exit : Nat) :
      Rewrites R (.loopTry capture min exit fold init) (.loopTry capture min exit fold' init')
  | loopBack (back : Nat) (max : Option Nat) : Rewrites R (.loopBack back max) (.loopBack back max)
  | choice {ps qs} : List.Forall₂ R ps qs → Rewrites R (.choice ps) (.choice qs)
  | ahead {p q} (positive : Bool) : R p q → Rewrites R (.ahead p positive) (.ahead q positive)
  | guard (c : Condition α) : Rewrites R (.guard c) (.guard c)
  | assign (v v' : α) : Rewrites R (.assign v) (.assign v')
  | transform (t t' : Transform α) : Rewrites R (.transform t) (.transform t')
  | dropAttributes : Rewrites R .dropAttributes .dropAttributes
  | skip : Rewrites R .skip .skip
  | keyword (words : Keywords) (word : Text) :
      Rewrites R (.keyword words word) (.keyword words word)

/-- Two chains of steps, rewritten one by one, but that attributes may be dropped anywhere in either
of them. -/
inductive Instr.Chains (R : π → π → Prop) : List (Instr π α) → List (Instr π α) → Prop
  | nil : Chains R [] []
  | cons {x y xs ys} : x.IsInLine → Rewrites R x y → Chains R xs ys → Chains R (x :: xs) (y :: ys)
  | left {xs ys} : Chains R xs ys → Chains R (.dropAttributes :: xs) ys
  | right {xs ys} : Chains R xs ys → Chains R xs (.dropAttributes :: ys)

/-- No end of an iteration leads back into the `n` instructions in front. -/
def Instr.StaysBehind (n : Nat) (is : List (Instr π α)) : Prop :=
  ∀ (k : Nat) back max, is[k]? = some (.loopBack back max) → back ≤ k ∨ n + k < back

/-- A chain of steps is rewritten, and what follows it instruction by instruction. -/
inductive Code.Rewrites (R : π → π → Prop) : Code π α → Code π α → Prop
  | intro {lead lead' rest rest' ignore ignore'} (captures : Nat) :
      Instr.Chains R lead lead' → List.Forall₂ (Instr.Rewrites R) rest rest' →
      Instr.StaysBehind lead.length rest → Instr.StaysBehind lead'.length rest' →
      Option.Rel R ignore ignore' →
      Rewrites R ⟨lead ++ rest, ignore, captures⟩ ⟨lead' ++ rest', ignore', captures⟩

/-- The programs in the pattern are rewritten. -/
inductive Pattern.Rewrites : Pattern α → Pattern α → Prop
  | literal (t : Text) : Rewrites (.literal t) (.literal t)
  | regex (r : Regex) : Rewrites (.regex r) (.regex r)
  | forward (cell : Nat) : Rewrites (.forward cell) (.forward cell)
  | lineBreak : Rewrites .lineBreak .lineBreak
  | endOfInput : Rewrites .endOfInput .endOfInput
  | custom (f : Matcher α) : Rewrites (.custom f) (.custom f)
  | wordEnd {ignore ignore'} (words : Option Keywords) : Option.Rel Rewrites ignore ignore' →
      Rewrites (.wordEnd ignore words) (.wordEnd ignore' words)
  | program {code code' : Program α} : Code.Rewrites Rewrites code code' →
      Rewrites (.program code) (.program code')

/-- The second program has other functions and values that compute attributes, and drops attributes
elsewhere; so have the programs in it. -/
abbrev Program.Rewrites (p q : Program α) : Prop := Code.Rewrites Pattern.Rewrites p q

/-- The programs that cells hold are rewritten. -/
def Forwards.Rewrites (fs fs' : Forwards α) : Prop :=
  ∀ cell, Option.Rel Program.Rewrites (fs.get? cell) (fs'.get? cell)

/-! ## Related lists -/

section

variable {β γ : Type} {R : β → γ → Prop} {xs : List β} {ys : List γ}

theorem forall₂_back {S : γ → β → Prop} (h : List.Forall₂ R xs ys)
    (hRS : ∀ x ∈ xs, ∀ y, R x y → S y x) : List.Forall₂ S ys xs := by
  induction h with
  | nil => exact .nil
  | cons hxy _ ih =>
    exact .cons (hRS _ List.mem_cons_self _ hxy) (ih fun x hx => hRS x (List.mem_cons_of_mem _ hx))

theorem forall₂_exists_left (h : List.Forall₂ R xs ys) {y : γ} (hy : y ∈ ys) :
    ∃ x ∈ xs, R x y := by
  induction h with
  | nil => cases hy
  | cons hxy _ ih =>
    rcases List.mem_cons.1 hy with rfl | hy
    · exact ⟨_, List.mem_cons_self, hxy⟩
    · obtain ⟨x, hx, hxy⟩ := ih hy
      exact ⟨x, List.mem_cons_of_mem _ hx, hxy⟩

theorem forall₂_getElem? (h : List.Forall₂ R xs ys) (k : Nat) : Option.Rel R xs[k]? ys[k]? := by
  induction h generalizing k with
  | nil => exact .none
  | cons hxy _ ih =>
    cases k with
    | zero => exact .some hxy
    | succ k => exact ih k

theorem rel_back {S : γ → β → Prop} {o : Option β} {o' : Option γ} (h : Option.Rel R o o')
    (hRS : ∀ x, o = some x → ∀ y, R x y → S y x) : Option.Rel S o' o := by
  cases h with
  | none => exact .none
  | some hxy => exact .some (hRS _ rfl _ hxy)

theorem rel_exists_left {o : Option β} {o' : Option γ} (h : Option.Rel R o o') {y : γ}
    (hy : o' = some y) : ∃ x, o = some x ∧ R x y := by
  subst hy
  cases h with
  | some hxy => exact ⟨_, rfl, hxy⟩

theorem rel_exists_right {o : Option β} {o' : Option γ} (h : Option.Rel R o o') {x : β}
    (hx : o = some x) : ∃ y, o' = some y ∧ R x y := by
  subst hx
  cases h with
  | some hxy => exact ⟨_, rfl, hxy⟩

theorem rel_isSome {o : Option β} {o' : Option γ} (h : Option.Rel R o o') :
    o.isSome = o'.isSome := by
  cases h <;> rfl

theorem rel_of_map_eq {δ : Type} {f : β → δ} {g : γ → δ} {o : Option β} {o' : Option γ}
    (h : o.map f = o'.map g) : Option.Rel (fun x y => f x = g y) o o' := by
  cases o <;> cases o'
  · exact .none
  · cases h
  · cases h
  · exact .some (Option.some.inj h)

theorem rel_self {R : β → β → Prop} {o : Option β} (h : ∀ x, o = some x → R x x) :
    Option.Rel R o o := by
  cases o with
  | none => exact .none
  | some x => exact .some (h x rfl)

end

/-! ## Rewriting back -/

section

variable {R S : π → π → Prop} {x y : Instr π α} {xs ys : List (Instr π α)} {code code' : Code π α}

theorem Instr.Rewrites.isInLine (h : Rewrites R x y) (hx : x.IsInLine) : y.IsInLine := by
  cases h <;> exact hx

theorem Instr.Rewrites.exists_pattern (h : Rewrites R x y) {q : π} (hq : q ∈ y.patterns) :
    ∃ p ∈ x.patterns, R p q := by
  cases h with
  | consume _ _ hp | ahead _ hp =>
    obtain rfl := List.mem_singleton.1 hq
    exact ⟨_, List.mem_cons_self, hp⟩
  | choice h => exact forall₂_exists_left h hq
  | _ => cases hq

theorem Instr.Rewrites.back (h : Rewrites R x y)
    (hRS : ∀ p ∈ x.patterns, ∀ q, R p q → S q p) : Rewrites S y x := by
  cases h with
  | consume capture skips hp => exact .consume capture skips (hRS _ List.mem_cons_self _ hp)
  | loopStart capture => exact .loopStart capture
  | loopTry capture min exit => exact .loopTry capture min exit
  | loopBack back max => exact .loopBack back max
  | choice h => exact .choice (forall₂_back h hRS)
  | ahead positive hp => exact .ahead positive (hRS _ List.mem_cons_self _ hp)
  | guard c => exact .guard c
  | assign v v' => exact .assign v' v
  | transform t t' => exact .transform t' t
  | dropAttributes => exact .dropAttributes
  | skip => exact .skip
  | keyword words word => exact .keyword words word

theorem Instr.Chains.exists_instr (h : Chains R xs ys) {y : Instr π α} (hy : y ∈ ys) :
    y = .dropAttributes ∨ ∃ x ∈ xs, Rewrites R x y := by
  induction h with
  | nil => cases hy
  | cons _ hxy _ ih =>
    rcases List.mem_cons.1 hy with rfl | hy
    · exact .inr ⟨_, List.mem_cons_self, hxy⟩
    · exact (ih hy).imp_right fun ⟨x, hx, hxy⟩ => ⟨x, List.mem_cons_of_mem _ hx, hxy⟩
  | left _ ih => exact (ih hy).imp_right fun ⟨x, hx, hxy⟩ => ⟨x, List.mem_cons_of_mem _ hx, hxy⟩
  | right _ ih =>
    rcases List.mem_cons.1 hy with rfl | hy
    · exact .inl rfl
    · exact ih hy

theorem Instr.Chains.back (h : Chains R xs ys)
    (hRS : ∀ x ∈ xs, ∀ p ∈ x.patterns, ∀ q, R p q → S q p) : Chains S ys xs := by
  induction h with
  | nil => exact .nil
  | cons hx hxy _ ih =>
    exact .cons (hxy.isInLine hx) (hxy.back (hRS _ List.mem_cons_self))
      (ih fun x hx => hRS x (List.mem_cons_of_mem _ hx))
  | left _ ih => exact .right (ih fun x hx => hRS x (List.mem_cons_of_mem _ hx))
  | right _ ih => exact .left (ih hRS)

theorem Code.Rewrites.exists_instr (h : Rewrites R code code') {y : Instr π α}
    (hy : y ∈ code'.instrs) : y = .dropAttributes ∨ ∃ x ∈ code.instrs, x.Rewrites R y := by
  cases h with
  | intro _ hlead hrest =>
    rcases List.mem_append.1 hy with hy | hy
    · exact (hlead.exists_instr hy).imp_right fun ⟨x, hx, hxy⟩ =>
        ⟨x, List.mem_append_left _ hx, hxy⟩
    · obtain ⟨x, hx, hxy⟩ := forall₂_exists_left hrest hy
      exact .inr ⟨x, List.mem_append_right _ hx, hxy⟩

theorem Code.Rewrites.ignore (h : Rewrites R code code') :
    Option.Rel R code.ignore code'.ignore := by
  cases h with
  | intro _ _ _ _ _ hignore => exact hignore

theorem Code.Rewrites.back (h : Rewrites R code code')
    (hRS : ∀ x ∈ code.instrs, ∀ p ∈ x.patterns, ∀ q, R p q → S q p)
    (hignore : ∀ p, code.ignore = some p → ∀ q, R p q → S q p) : Rewrites S code' code := by
  cases h with
  | intro captures hlead hrest hstays hstays' hrel =>
    exact .intro captures (hlead.back fun x hx => hRS x (List.mem_append_left _ hx))
      (forall₂_back hrest fun x hx y hxy => hxy.back (hRS x (List.mem_append_right _ hx)))
      hstays' hstays (rel_back hrel hignore)

theorem Instr.rewrites_self (hR : ∀ p ∈ x.patterns, R p p) : x.Rewrites R x := by
  cases x with
  | consume p a c skips => exact .consume c skips (hR p List.mem_cons_self)
  | loopStart c => exact .loopStart c
  | loopTry c min exit => exact .loopTry c min exit
  | loopBack back max => exact .loopBack back max
  | choice ps => exact .choice (List.forall₂_same.2 hR)
  | ahead p positive => exact .ahead positive (hR p List.mem_cons_self)
  | guard c => exact .guard c
  | assign v => exact .assign v v
  | transform t => exact .transform t t
  | dropAttributes => exact .dropAttributes
  | skip => exact .skip
  | keyword words word => exact .keyword words word

theorem Instr.chains_self (hxs : ∀ x ∈ xs, x.IsInLine)
    (hR : ∀ x ∈ xs, ∀ p ∈ x.patterns, R p p) : Chains R xs xs := by
  induction xs with
  | nil => exact .nil
  | cons x xs ih =>
    exact .cons (hxs x List.mem_cons_self) (rewrites_self (hR x List.mem_cons_self))
      (ih (fun y hy => hxs y (List.mem_cons_of_mem x hy))
        fun y hy => hR y (List.mem_cons_of_mem x hy))

theorem Instr.Chains.append {us vs : List (Instr π α)} (h : Chains R xs ys)
    (h' : Chains R us vs) : Chains R (xs ++ us) (ys ++ vs) := by
  induction h with
  | nil => exact h'
  | cons hx hxy _ ih => exact .cons hx hxy ih
  | left _ ih => exact .left ih
  | right _ ih => exact .right ih

/-- Instruction by instruction, code is rewritten to itself. -/
theorem Code.rewrites_self (hR : ∀ x ∈ code.instrs, ∀ p ∈ x.patterns, R p p)
    (hignore : ∀ p, code.ignore = some p → R p p) : Rewrites R code code := by
  have hstays : Instr.StaysBehind 0 code.instrs := fun k back _ _ => by omega
  exact @Rewrites.intro π α R [] [] _ _ _ _ code.captures .nil
    (List.forall₂_same.2 fun x hx => Instr.rewrites_self (hR x hx)) hstays hstays
    (rel_self hignore)

end

namespace Pattern.IsBlind

theorem rewrites_self {p : Pattern α} (h : p.IsBlind) : p.Rewrites p := by
  induction h with
  | literal t => exact .literal t
  | regex r => exact .regex r
  | forward cell => exact .forward cell
  | lineBreak => exact .lineBreak
  | endOfInput => exact .endOfInput
  | custom _ => exact .custom _
  | wordEnd _ ih => exact .wordEnd _ (rel_self ih)
  | program _ _ _ ihp ihi => exact .program (Code.rewrites_self ihp ihi)

/-- What a blind pattern is rewritten to is blind, and can be rewritten back. -/
theorem symm {p q : Pattern α} (h : p.IsBlind) (hpq : p.Rewrites q) :
    q.IsBlind ∧ q.Rewrites p := by
  induction h generalizing q with
  | literal t => cases hpq; exact ⟨.literal t, .literal t⟩
  | regex r => cases hpq; exact ⟨.regex r, .regex r⟩
  | forward cell => cases hpq; exact ⟨.forward cell, .forward cell⟩
  | lineBreak => cases hpq; exact ⟨.lineBreak, .lineBreak⟩
  | endOfInput => cases hpq; exact ⟨.endOfInput, .endOfInput⟩
  | custom hf => cases hpq; exact ⟨.custom hf, .custom _⟩
  | @wordEnd ignore words _ ih =>
    cases hpq with
    | wordEnd _ hrel =>
      refine ⟨.wordEnd fun q hq => ?_,
        .wordEnd words (rel_back hrel fun p hp q hpq => (ih p hp hpq).2)⟩
      obtain ⟨p, hp, hpq⟩ := rel_exists_left hrel hq
      exact (ih p hp hpq).1
  | program hguards _ _ ihp ihi =>
    cases hpq with
    | program hcode =>
      refine ⟨.program (fun c hc => ?_) (fun y hy q hq => ?_) (fun q hq => ?_),
        .program (hcode.back (fun x hx p hp q hpq => (ihp x hx p hp hpq).2)
          fun p hp q hpq => (ihi p hp hpq).2)⟩
      · rcases hcode.exists_instr hc with h | ⟨x, hx, hxc⟩
        · cases h
        · cases hxc
          exact hguards c hx
      · rcases hcode.exists_instr hy with rfl | ⟨x, hx, hxy⟩
        · cases hq
        · obtain ⟨p, hp, hpq⟩ := hxy.exists_pattern hq
          exact (ihp x hx p hp hpq).1
      · obtain ⟨p, hp, hpq⟩ := rel_exists_left hcode.ignore hq
        exact (ihi p hp hpq).1

end Pattern.IsBlind

namespace Program.IsBlind

variable {p q : Program α}

theorem rewrites_self (h : p.IsBlind) : p.Rewrites p :=
  Code.rewrites_self (fun x hx q hq => (h.patterns x hx q hq).rewrites_self)
    fun q hq => (h.ignore q hq).rewrites_self

theorem symm (h : p.IsBlind) (hpq : p.Rewrites q) : q.IsBlind ∧ q.Rewrites p := by
  obtain ⟨hq, hqp⟩ := (Pattern.isBlind_program_iff.2 h).symm (.program hpq)
  cases hqp with
  | program hqp => exact ⟨Pattern.isBlind_program_iff.1 hq, hqp⟩

end Program.IsBlind

namespace Forwards.IsBlind

variable {fs fs' : Forwards α}

theorem rewrites_self (h : fs.IsBlind) : fs.Rewrites fs :=
  fun cell => rel_self fun p hp => (h cell p hp).rewrites_self

theorem symm (h : fs.IsBlind) (hfs : fs.Rewrites fs') : fs'.IsBlind ∧ fs'.Rewrites fs := by
  refine ⟨fun cell q hq => ?_, fun cell => ?_⟩
  · obtain ⟨p, hp, hpq⟩ := rel_exists_left (hfs cell) hq
    exact ((h cell p hp).symm hpq).1
  · exact rel_back (hfs cell) fun p hp q hpq => ((h cell p hp).symm hpq).2

end Forwards.IsBlind

/-! ## Chains of calls -/

namespace Ending

variable {l : Lexicon α} {g g' : Grammar α} {e e' : Ending α}

theorem staysBehind (e : Ending α) (n : Nat) : Instr.StaysBehind n e.instrs := by
  obtain ⟨inside, hloops, -⟩ := @Ending.loops α e [] nofun
  exact fun k back max hk => .inl (hloops.back k back max hk).1

/-- The program of a chain of steps, rewritten step by step. -/
theorem rewrites_close (hsteps : Instr.Chains Pattern.Rewrites g.instrs g'.instrs)
    (hend : List.Forall₂ (Instr.Rewrites Pattern.Rewrites) e.instrs e'.instrs)
    (hignore : Option.Rel Pattern.Rewrites g.lexicon.ignore g'.lexicon.ignore) :
    (e.close g).Rewrites (e'.close g') := by
  have hcaptures : e.captures = e'.captures := by
    cases e <;> cases e' <;> first | rfl | cases hend
  rw [close_eq, close_eq, ← hcaptures]
  exact .intro _ hsteps hend (e.staysBehind _) (e'.staysBehind _) hignore

/-- Attributes may be dropped between any two steps. -/
theorem rewrites_dropAttributes {ss ts : List (Link α)}
    (h : (e.close (l.chain (ss ++ ts))).IsBlind) :
    (e.close (l.chain (ss ++ ts))).Rewrites
      (e.close (l.chain (ss ++ .dropAttributes :: ts))) := by
  have hself : ∀ x ∈ (e.close (l.chain (ss ++ ts))).instrs, ∀ p ∈ x.patterns, p.Rewrites p :=
    fun x hx p hp => (h.patterns x hx p hp).rewrites_self
  have hignore := h.rewrites_self.ignore
  simp only [close_eq, Lexicon.chain_instrs, Lexicon.chain_lexicon, Link.instrsOf,
    List.flatMap_append, List.mem_append] at hself hignore
  refine rewrites_close ?_
    (List.forall₂_same.2 fun x hx => Instr.rewrites_self (hself x (.inr hx)))
    (by simpa only [Lexicon.chain_lexicon] using hignore)
  have hchain {is : List (Instr (Pattern α) α)} (hstraight : ∀ x ∈ is, x.IsStraight)
      (his : ∀ x ∈ is, ∀ p ∈ x.patterns, p.Rewrites p) : Instr.Chains Pattern.Rewrites is is :=
    Instr.chains_self (fun x hx => (hstraight x hx).isInLine) his
  simp only [Lexicon.chain_instrs, Link.instrsOf, List.flatMap_append, List.flatMap_cons]
  refine (hchain (Grammar.isOpen_of_lexicon l) fun x hx => hself x (.inl (.inl hx))).append
    ((hchain Link.isStraight_instrsOf fun x hx => hself x (.inl (.inr (.inl hx)))).append ?_)
  exact .right (hchain Link.isStraight_instrsOf fun x hx => hself x (.inl (.inr (.inr hx))))

end Ending

end GrammarMachine
