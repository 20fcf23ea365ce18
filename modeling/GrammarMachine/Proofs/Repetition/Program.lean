import GrammarMachine.Proofs.Repetition.Loop
import GrammarMachine.Proofs.Semantics.Reach

/-!
# Repetitions of a pattern

The loop of a repetition as a grammar builds it: its body consumes a pattern and then ignorable
text, and line breaks and the end of the input may follow.

* `Repetition.folding`, `Repetition.followedBy`: what may be done to a repetition once it is built.
* `Iterates`, `Follow`: what the body and the terminals come to.
* `Repetition.within`: the repetition has its loop.
-/

namespace GrammarMachine

variable {α : Type}

/-! ## Terminals -/

/-- What may follow a repetition. -/
inductive Terminal where
  | lineBreak
  | endOfInput
deriving Repr, DecidableEq

def Terminal.pattern : Terminal → Pattern α
  | lineBreak => .lineBreak
  | endOfInput => .endOfInput

/-- The terminals in order, and after each one ignorable text. -/
inductive Follow (V : Verdicts (Pattern α) α) (ignore : Option (Pattern α)) :
    List Terminal → Nat → Option Nat → Prop
  | nil {i} : Follow V ignore [] i (some i)
  | fails {t ts i} : V t.pattern i none none → Follow V ignore (t :: ts) i none
  | goes {t ts i m j e} : V t.pattern i none (some m) → Skips V ignore m.lastIndex none j →
      Follow V ignore ts j e → Follow V ignore (t :: ts) i e

/-- The terminals in order, and after each one ignorable text, under an attribute. -/
inductive FollowUnder (V : Verdicts (Pattern α) α) (ignore : Option (Pattern α)) (a : Option α) :
    List Terminal → Nat → Option Nat → Prop
  | nil {i} : FollowUnder V ignore a [] i (some i)
  | fails {t ts i} : V t.pattern i a none → FollowUnder V ignore a (t :: ts) i none
  | goes {t ts i m j e} : V t.pattern i a (some m) → Skips V ignore m.lastIndex a j →
      FollowUnder V ignore a ts j e → FollowUnder V ignore a (t :: ts) i e

/-- What is skipped does not depend on the attribute. -/
def SkipsAlike {π : Type} (V : Verdicts π α) (ignore : Option π) : Prop :=
  ∀ i a b j, Skips V ignore i a j → Skips V ignore i b j

theorem skipsAlike_of_skips {π : Type} {V : Verdicts π α} (hV : V.Unique) {ignore : Option π}
    {f : Nat → Nat} (h : ∀ i a, Skips V ignore i a (f i)) : SkipsAlike V ignore := by
  intro i a b j hj
  rw [hj.unique hV (h i a)]
  exact h i b

theorem skipsAlike_of_ignore_none {π : Type} {V : Verdicts π α} {ignore : Option π}
    (h : ignore = none) : SkipsAlike V ignore := by
  rintro i a b j hj
  subst h
  cases hj
  exact .nothing

theorem follow_nil_iff {V : Verdicts (Pattern α) α} {ignore : Option (Pattern α)} {i : Nat}
    {e : Option Nat} : Follow V ignore [] i e ↔ e = some i := by
  constructor
  · rintro ⟨⟩
    rfl
  · rintro rfl
    exact .nil

namespace Repetition

/-- Attaches a fold, if there is one. -/
def folding (r : Repetition α) : Option (Action α × Option α) → Repetition α
  | none => r
  | some (a, init) => r.withFold a init

/-- Appends terminals. -/
def followedBy (r : Repetition α) : List Terminal → Repetition α
  | [] => r
  | .lineBreak :: ts => r.lineBreak.followedBy ts
  | .endOfInput :: ts => r.endOfInput.followedBy ts

theorem followedBy_eq (r : Repetition α) (ts : List Terminal) :
    r.followedBy ts = { r with trail := r.trail ++ ts.map fun t => .token t.pattern } := by
  induction ts generalizing r with
  | nil => simp [followedBy]
  | cons t ts ih => cases t <;> simp [followedBy, ih, lineBreak, endOfInput, Terminal.pattern]

end Repetition

section

variable {fs : Forwards α} {text : Text}

/-- A terminal looks at no attribute and synthesizes none. -/
theorem Terminal.answers {t : Terminal} {i : Nat} {a : Option α} {r : Option (Match α)}
    (h : t.pattern.Answers fs text i a r) :
    (∀ b, t.pattern.Answers fs text i b r) ∧ ∀ m, r = some m → m.attr = none := by
  rw [Pattern.answers_iff] at h
  cases t with
  | lineBreak =>
    obtain rfl : r = lineBreakAt text i := h
    refine ⟨fun b => Pattern.answers_iff.2 rfl, fun m hm => ?_⟩
    obtain ⟨stop, -, hm⟩ := Option.bind_eq_some_iff.1 hm
    obtain ⟨t, -, rfl⟩ := Option.map_eq_some_iff.1 hm
    rfl
  | endOfInput =>
    obtain rfl : r = if text.byteLength ≤ i then _ else _ := h
    refine ⟨fun b => Pattern.answers_iff.2 rfl, fun m hm => ?_⟩
    split at hm
    · obtain rfl := Option.some.inj hm
      rfl
    · cases hm

/-- If what is skipped does not depend on the attribute, terminals do not either. -/
theorem followUnder_iff {ignore : Option (Pattern α)}
    (hskip : SkipsAlike (Pattern.Answers fs text) ignore) {a : Option α} {ts : List Terminal}
    {i : Nat} {e : Option Nat} :
    FollowUnder (Pattern.Answers fs text) ignore a ts i e ↔
      Follow (Pattern.Answers fs text) ignore ts i e := by
  constructor
  · intro h
    induction h with
    | nil => exact .nil
    | fails hp => exact .fails ((Terminal.answers hp).1 none)
    | goes hp hs _ ih => exact .goes ((Terminal.answers hp).1 none) (hskip _ _ _ _ hs) ih
  · intro h
    induction h with
    | nil => exact .nil
    | fails hp => exact .fails ((Terminal.answers hp).1 a)
    | goes hp hs _ ih => exact .goes ((Terminal.answers hp).1 a) (hskip _ _ _ _ hs) ih

/-- Behind a repetition a call runs through the terminals, which leave attribute and captures. -/
theorem exec_terminals_under {code : Program α} {ts : List Terminal} {f : Frame α}
    {r : Option (Final α)} (hf : f.IsClean)
    (hts : code.instrs.drop f.pc = ts.map fun t => .token t.pattern) :
    Exec (Pattern.Answers fs text) code text f r ↔
      ∃ e, FollowUnder (Pattern.Answers fs text) code.ignore f.attr ts f.index e ∧
        r = e.map fun e => ⟨e, f.attr, f.captures⟩ := by
  induction ts generalizing f with
  | nil =>
    have hi : code.instrs[f.pc]? = none := List.getElem?_eq_none_iff.2 (List.drop_eq_nil_iff.1 hts)
    constructor
    · intro h
      exact ⟨_, .nil, h.unique (.halt hi)⟩
    · rintro ⟨e, he, rfl⟩
      cases he
      exact .halt hi
  | cons t ts ih =>
    have hi : code.instrs[f.pc]? = some (.token t.pattern) := by
      rw [← List.head?_drop, hts]
      rfl
    have hrest (i : Nat) : code.instrs.drop (f.next i f.attr).pc =
        ts.map fun t => .token t.pattern := by
      rw [show (f.next i f.attr).pc = f.pc + 1 from rfl, ← List.tail_drop, hts]
      rfl
    have hattr {m : Match α} (hm : m.attr = none) : f.matchAttr none m = f.attr := by
      rw [Frame.matchAttr, hm]
      exact hf
    constructor
    · intro h
      rcases h.of_consume hi with ⟨hp, rfl⟩ | ⟨m, i, hp, hs, h⟩
      · exact ⟨none, .fails hp, rfl⟩
      · rw [hattr ((Terminal.answers hp).2 m rfl)] at hs h
        obtain ⟨e, he, rfl⟩ := (ih (f := f.next i f.attr) hf (hrest i)).1 h
        exact ⟨e, .goes hp hs he, rfl⟩
    · rintro ⟨e, he, rfl⟩
      cases he with
      | fails hp => exact .fail (.consumeFails hi hp)
      | @goes _ _ _ m i _ hp hs he =>
        have hm := hattr ((Terminal.answers hp).2 m rfl)
        refine .step (.consume (i := i) hi hp (hm.symm ▸ hs)) ?_
        rw [hm]
        exact (ih (f := f.next i f.attr) hf (hrest i)).2 ⟨e, he, rfl⟩

theorem exec_terminals {code : Program α} (hskip : SkipsAlike (Pattern.Answers fs text) code.ignore)
    {ts : List Terminal} {f : Frame α} {r : Option (Final α)} (hf : f.IsClean)
    (hts : code.instrs.drop f.pc = ts.map fun t => .token t.pattern) :
    Exec (Pattern.Answers fs text) code text f r ↔
      ∃ e, Follow (Pattern.Answers fs text) code.ignore ts f.index e ∧
        r = e.map fun e => ⟨e, f.attr, f.captures⟩ := by
  simp only [exec_terminals_under hf hts, followUnder_iff hskip]

end

/-! ## The body -/

/-- One iteration: the pattern and ignorable text after it. The attribute that the pattern
synthesizes replaces the inherited one, if attributes are not dropped. -/
inductive Iterates {π : Type} (V : Verdicts π α) (ignore : Option π) (dropping : Bool) (p : π) :
    IterationVerdicts α
  | fails {o a} : V p o a none → Iterates V ignore dropping p o a none
  | ends {o a m stop} : V p o a (some m) →
      Skips V ignore m.lastIndex (if dropping then none else merge a m.attr) stop →
      Iterates V ignore dropping p o a
        (some ⟨m, stop, if dropping then none else merge a m.attr⟩)

theorem Iterates.unique {π : Type} {V : Verdicts π α} (hV : V.Unique) {ignore : Option π}
    {dropping : Bool} {p : π} (o : Nat) (a : Option α) (r r' : Option (Iteration α))
    (h : Iterates V ignore dropping p o a r) (h' : Iterates V ignore dropping p o a r') :
    r = r' := by
  cases h with
  | fails h =>
    cases h' with
    | fails h' => rfl
    | ends h' _ => cases hV _ _ _ _ _ h h'
  | ends h hs =>
    cases h' with
    | fails h' => cases hV _ _ _ _ _ h h'
    | ends h' hs' =>
      cases hV _ _ _ _ _ h h'
      rw [hs.unique hV hs']

section

variable {π : Type} {V : Verdicts π α} {code : Code π α} {text : Text} {f : Frame α} {p : π}
  {ignore : Option π} {dropping : Bool}

theorem Frame.matchAttr_none (hd : f.dropping = dropping) (m : Match α) :
    f.matchAttr none m = if dropping then none else merge f.attr m.attr := by
  rw [Frame.matchAttr, Frame.keep, hd]

/-- The instruction that records what it consumes runs through one iteration. -/
theorem ExecIn.of_iterated (hig : code.ignore = ignore) {n : Nat} {r : Option (Final α)}
    (hi : code.instrs[f.pc]? = some (.consume p none (some loopCapture) true))
    (hd : f.dropping = dropping) (h : ExecIn V code text n f r) :
    (Iterates V ignore dropping p f.index f.attr none ∧ r = none) ∨
      ∃ it m, Iterates V ignore dropping p f.index f.attr (some it) ∧ m < n ∧
        ExecIn V code text m (f.behind (f.pc + 1) it) r := by
  subst hig
  rcases h.of_consume hi with ⟨hp, rfl⟩ | ⟨m, i, n', hp, hs, hn', h⟩
  · exact .inl ⟨.fails hp, rfl⟩
  · rw [if_pos rfl, Frame.matchAttr_none hd] at hs
    rw [Frame.matchAttr_none hd] at h
    exact .inr ⟨_, n', .ends hp hs, hn', h⟩

theorem Exec.of_iterates_none
    (hi : code.instrs[f.pc]? = some (.consume p none (some loopCapture) true))
    (h : Iterates V ignore dropping p f.index f.attr none) : Exec V code text f none := by
  cases h with
  | fails hp => exact .fail (.consumeFails hi hp)

theorem Exec.of_iterates (hig : code.ignore = ignore)
    (hi : code.instrs[f.pc]? = some (.consume p none (some loopCapture) true))
    (hd : f.dropping = dropping) {it : Iteration α} {r : Option (Final α)}
    (h : Iterates V ignore dropping p f.index f.attr (some it))
    (hr : Exec V code text (f.behind (f.pc + 1) it) r) : Exec V code text f r := by
  subst hig
  cases h with
  | @ends _ _ m stop hp hs =>
    rw [← Frame.matchAttr_none hd] at hs hr
    exact .step (.consume hi hp (by rwa [if_pos rfl])) hr

/-- An iteration merges the attribute that it inherits, unless attributes are dropped. -/
theorem Iterates.carries {o : Nat} {a : Option α} {it : Iteration α}
    (h : Iterates V ignore dropping p o a (some it)) :
    (if dropping then none else merge a it.attr) = it.attr := by
  cases h with
  | ends => cases dropping <;> simp [merge, Option.or_assoc]

end

/-! ## The loop -/

namespace Grammar

variable {fs : Forwards α} {text : Text}

/-- The grammar with a pattern repeated behind it, and terminals behind that. -/
def repetition (g : Grammar α) (min : Nat) (max : Option Nat) (p : Pattern α)
    (fold : Option (Action α × Option α)) (ts : List Terminal) : Repetition α :=
  ((g.repeated min max p).folding fold).followedBy ts

/-- The loop of a repetition. -/
def loop (g : Grammar α) (fs : Forwards α) (text : Text) (min : Nat) (max : Option Nat)
    (p : Pattern α) (fold : Option (Action α × Option α)) (ts : List Terminal) : Loop α where
  address := g.instrs.length + 1
  length := 1
  min := min
  max := max
  fold := fold.map (·.1)
  init := fold.bind (·.2)
  dropping := g.drops
  iterates := Iterates (Pattern.Answers fs text) g.lexicon.ignore g.drops p
  follows := Follow (Pattern.Answers fs text) g.lexicon.ignore ts

variable {g : Grammar α} {min : Nat} {max : Option Nat} {p : Pattern α}
  {fold : Option (Action α × Option α)} {ts : List Terminal}

theorem repetition_program : (g.repetition min max p fold ts).program =
    ⟨g.instrs ++ .loopStart loopCapture ::
      .loopTry loopCapture min 3 (fold.map (·.1)) (fold.bind (·.2)) ::
      .consume p none (some loopCapture) true :: .loopBack 2 max ::
      ts.map fun t => .token t.pattern, g.lexicon.ignore, 1⟩ := by
  cases fold <;> simp [repetition, Repetition.followedBy_eq, Repetition.folding, repeated,
    Repetition.withFold, Repetition.program]

/-- The instructions of a repetition behind its grammar. -/
theorem repetition_instrs_drop (i : Nat) :
    (g.repetition min max p fold ts).program.instrs.drop (g.instrs.length + i) =
      (.loopStart loopCapture ::
        .loopTry loopCapture min 3 (fold.map (·.1)) (fold.bind (·.2)) ::
        .consume p none (some loopCapture) true :: .loopBack 2 max ::
        ts.map fun t => .token t.pattern).drop i := by
  rw [repetition_program, ← List.drop_drop, List.drop_left]

theorem repetition_instrs_get? {pc : Nat} (i : Nat) (hpc : pc = g.instrs.length + i) :
    (g.repetition min max p fold ts).program.instrs[pc]? =
      (.loopStart loopCapture ::
        .loopTry loopCapture min 3 (fold.map (·.1)) (fold.bind (·.2)) ::
        .consume p none (some loopCapture) true :: .loopBack 2 max ::
        ts.map fun t => .token t.pattern)[i]? := by
  rw [hpc, ← List.head?_drop, repetition_instrs_drop, List.head?_drop]

theorem le_of_checkBounds (hb : checkBounds min max = .ok ()) {m : Nat} (hm : max = some m) :
    0 < m ∧ min ≤ m := by
  subst hm
  simp only [checkBounds] at hb
  split at hb
  · cases hb
  · omega

theorem tokenTimes_eq_ok {r : Repetition α} (h : g.tokenTimes min max p = .ok r) :
    checkBounds min max = .ok () ∧ r = g.repeated min max p := by
  simp only [tokenTimes, bind, Except.bind] at h
  split at h
  · cases h
  · exact ⟨‹_›, (Except.ok.inj h).symm⟩

theorem repetition_ignore :
    (g.repetition min max p fold ts).program.ignore = g.lexicon.ignore := by
  rw [repetition_program]

theorem loop_within (hb : checkBounds min max = .ok ())
    (hskip : SkipsAlike (Pattern.Answers fs text) g.lexicon.ignore) :
    (g.loop fs text min max p fold ts).Within (Pattern.Answers fs text)
      (g.repetition min max p fold ts).program text where
  attempt := repetition_instrs_get? 1 rfl
  back := repetition_instrs_get? 3 rfl
  bounds m hm := (le_of_checkBounds hb hm).2
  body_sound {n f r} hpc hd h :=
    hpc ▸ h.of_iterated repetition_ignore (repetition_instrs_get? 2 hpc) hd
  body_fails hpc _ h := .of_iterates_none (repetition_instrs_get? 2 hpc) h
  body_ends hpc hd h hr :=
    .of_iterates repetition_ignore (repetition_instrs_get? 2 hpc) hd h (hpc.symm ▸ hr)
  carries h := h.carries
  trail {f r} hpc hd hf := by
    have hts : (g.repetition min max p fold ts).program.instrs.drop f.pc =
        ts.map fun t => .token t.pattern :=
      (congrArg (List.drop · _) hpc).trans (repetition_instrs_drop 4)
    have h := exec_terminals (r := r) (repetition_ignore.symm ▸ hskip) hf hts
    rwa [repetition_ignore] at h

/-! ## The way to the loop -/

/-- The frame in which the loop is reached. -/
def loopFrame (g : Grammar α) (start o : Nat) (a : Option α) : Frame α :=
  ⟨start, g.instrs.length + 1, o, a, 0, g.drops, a, (Captures.closed 1).start loopCapture⟩

theorem loop_reached (hb : checkBounds min max = .ok ()) (start o : Nat) (a : Option α) :
    (g.loop fs text min max p fold ts).Reached (g.loopFrame start o a) [] where
  pc := rfl
  dropping := rfl
  captures := rfl
  below _ hm := (le_of_checkBounds hb hm).1
  clean h := absurd h (Nat.lt_irrefl 0)

/-- A call of a repetition runs through the grammar to the loop. -/
theorem exec_repetition_iff (hg : g.IsOpen) {start : Nat} {inherited : Option α}
    {r : Option (Final α)} :
    Exec (Pattern.Answers fs text) (g.repetition min max p fold ts).program text
        (.initial 1 start inherited) r ↔
      (∃ o a, g.Reaches fs text start inherited o a ∧
        Exec (Pattern.Answers fs text) (g.repetition min max p fold ts).program text
          (g.loopFrame start o a) r) ∨
      (g.Fails fs text start inherited ∧ r = none) := by
  have hi : (g.repetition min max p fold ts).program.instrs[g.instrs.length]? =
      some (.loopStart loopCapture) := repetition_instrs_get? 0 rfl
  have hstart (o : Nat) (a : Option α) :
      Exec (Pattern.Answers fs text) (g.repetition min max p fold ts).program text
          (g.frontFrame 1 start o a) r ↔
        Exec (Pattern.Answers fs text) (g.repetition min max p fold ts).program text
          (g.loopFrame start o a) r :=
    ⟨fun h => h.of_loopStart hi, fun h => .step (.loopStart hi Nat.one_pos) h⟩
  simp only [← hstart]
  rw [repetition_program]
  exact exec_front_iff hg

theorem exec_repetition (hg : g.IsOpen) {start : Nat} {inherited : Option α} {r : Option (Final α)}
    (h : Exec (Pattern.Answers fs text) (g.repetition min max p fold ts).program text
      (.initial 1 start inherited) r) :
    (∃ o a, g.Reaches fs text start inherited o a ∧
      Exec (Pattern.Answers fs text) (g.repetition min max p fold ts).program text
        (g.loopFrame start o a) r) ∨ r = none :=
  ((exec_repetition_iff hg).1 h).imp_right And.right

/-- What the loop comes to, the repetition comes to from the start of the grammar. -/
theorem exec_repetition_of_loop (hg : g.IsOpen) {start o : Nat} {inherited a : Option α}
    {r : Option (Final α)} (hlead : g.Reaches fs text start inherited o a)
    (h : Exec (Pattern.Answers fs text) (g.repetition min max p fold ts).program text
      (g.loopFrame start o a) r) :
    Exec (Pattern.Answers fs text) (g.repetition min max p fold ts).program text
      (.initial 1 start inherited) r :=
  (exec_repetition_iff hg).2 (.inl ⟨o, a, hlead, h⟩)

end Grammar

end GrammarMachine
