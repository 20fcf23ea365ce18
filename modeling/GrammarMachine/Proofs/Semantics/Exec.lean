import GrammarMachine.Machine

/-!
# Runs as derivations

The machine again, without fuel and without a journal: `Step` is one instruction, `Exec` a call to
its end, `Runs` a program. All three are relative to `Verdicts`, which say what testing a pattern
comes to, and absence of a result is a failure to match. A run that does not end has no derivation.

* `Step`: a constructor for each instruction and outcome, the attempt of an iteration apart.
* `Exec`: steps to the end or to a failure; the attempt of an iteration is a nested call, which is
  kept if it ends well. Otherwise the repetition goes on to its exit, or fails if it is too short.
* `Step.mono`, `Exec.mono`, `Runs.mono`: more verdicts, more runs.
-/

namespace GrammarMachine

/-- What testing a pattern at an offset under an inherited attribute comes to: a match or none. -/
abbrev Verdicts (π α : Type) := π → Nat → Option α → Option (Match α) → Prop

/-- A pattern tested at one place has at most one verdict. -/
def Verdicts.Unique {π α : Type} (V : Verdicts π α) : Prop :=
  ∀ p i a r r', V p i a r → V p i a r' → r = r'

variable {π α : Type}

/-! ## Attributes -/

/-- The attribute after a match. -/
def Frame.matchAttr (f : Frame α) (action : Option (Action α)) (m : Match α) : Option α :=
  f.keep <| merge f.attr <|
    match action with
    | some a => a.apply ⟨m.matched, m.attr, f.attr, m.extra⟩
    | none => m.attr

/-- The accumulator after one more iteration is folded in. -/
def foldStep (dropping : Bool) (a : Action α) (acc : Option α) (m : Match α) : Option α :=
  if dropping then none else merge acc (a.apply ⟨m.matched, m.attr, acc, m.extra⟩)

/-- The attribute of a repetition that is over. -/
def Frame.settledAttr (f : Frame α) (attr : Option α) (iterations : List (Match α))
    (fold : Option (Action α)) (init : Option α) : Option α :=
  match fold with
  | some a => iterations.foldl (foldStep f.dropping a) (f.keep (merge f.seed init))
  | none => f.keep attr

/-- What a call ends with whose attempt of an iteration ended with `r`. -/
def Frame.afterIteration (f : Frame α) (capture : Nat) (fold : Option (Action α))
    (init : Option α) (r : Final α) : Final α :=
  let attr := f.keep (merge f.attr r.attr)
  ⟨r.index, if f.count = 0 then f.settledAttr attr (r.captures.recorded capture) fold init else attr,
    r.captures⟩

/-- The frame past a repetition that attempts no further iteration. -/
def Frame.leaveLoop (f : Frame α) (capture exit : Nat) (fold : Option (Action α))
    (init : Option α) : Frame α :=
  { f with
    pc := f.pc + exit
    attr := if f.count = 0 then f.settledAttr f.attr (f.captures.recorded capture) fold init
      else f.attr }

/-- The captures after a match. -/
def Frame.capturesAfter (f : Frame α) (capture : Option Nat) (m : Match α) : Captures α :=
  match capture with
  | some id => f.captures.record id m
  | none => f.captures

/-! ## Testing several patterns -/

/-- The verdict of the first pattern that matches. -/
inductive FirstMatch (V : Verdicts π α) (index : Nat) (inherited : Option α) :
    List π → Option (Match α) → Prop
  | nil : FirstMatch V index inherited [] none
  | here {p ps m} : V p index inherited (some m) → FirstMatch V index inherited (p :: ps) (some m)
  | later {p ps r} : V p index inherited none → FirstMatch V index inherited ps r →
      FirstMatch V index inherited (p :: ps) r

/-- The offset after ignorable text. -/
inductive Skips (V : Verdicts π α) : Option π → Nat → Option α → Nat → Prop
  | nothing {i a} : Skips V none i a i
  | moves {p i a m} : V p i a (some m) → Skips V (some p) i a m.lastIndex
  | stays {p i a} : V p i a none → Skips V (some p) i a i

/-! ## Steps and calls -/

/-- One instruction other than the attempt of an iteration, to the next frame or to a failure. -/
inductive Step (V : Verdicts π α) (code : Code π α) (text : Text) (f : Frame α) :
    Option (Frame α) → Prop
  | consume {p action capture skips m i} :
      code.instrs[f.pc]? = some (.consume p action capture skips) →
      V p f.index f.attr (some m) →
      Skips V (if skips then code.ignore else none) m.lastIndex (f.matchAttr action m) i →
      Step V code text f
        (some { f.next i (f.matchAttr action m) with captures := f.capturesAfter capture m })
  | consumeFails {p action capture skips} :
      code.instrs[f.pc]? = some (.consume p action capture skips) →
      V p f.index f.attr none → Step V code text f none
  | loopStart {capture} : code.instrs[f.pc]? = some (.loopStart capture) →
      capture < f.captures.length →
      Step V code text f
        (some { f.next f.index f.attr with seed := f.attr, captures := f.captures.start capture })
  | loopEnds {back max} : code.instrs[f.pc]? = some (.loopBack back max) →
      max.any (· ≤ f.count) ∨ f.index = f.start →
      Step V code text f (some (f.next f.index f.attr))
  | loopAgain {back max} : code.instrs[f.pc]? = some (.loopBack back max) →
      ¬ max.any (· ≤ f.count) → f.index ≠ f.start → back ≤ f.pc →
      Step V code text f (some { f with pc := f.pc - back })
  | choice {branches m i} : code.instrs[f.pc]? = some (.choice branches) →
      FirstMatch V f.index f.attr branches (some m) →
      Skips V code.ignore m.lastIndex (f.keep (merge f.attr m.attr)) i →
      Step V code text f (some (f.next i (f.keep (merge f.attr m.attr))))
  | choiceFails {branches} : code.instrs[f.pc]? = some (.choice branches) →
      FirstMatch V f.index f.attr branches none → Step V code text f none
  | ahead {p positive r} : code.instrs[f.pc]? = some (.ahead p positive) →
      V p f.index f.attr r → r.isSome = positive →
      Step V code text f (some (f.next f.index f.attr))
  | aheadFails {p positive r} : code.instrs[f.pc]? = some (.ahead p positive) →
      V p f.index f.attr r → r.isSome ≠ positive → Step V code text f none
  | guard {condition} : code.instrs[f.pc]? = some (.guard condition) →
      condition.apply f.attr → Step V code text f (some (f.next f.index f.attr))
  | guardFails {condition} : code.instrs[f.pc]? = some (.guard condition) →
      ¬ condition.apply f.attr → Step V code text f none
  | assign {value} : code.instrs[f.pc]? = some (.assign value) →
      Step V code text f (some (f.next f.index (f.keep (some value))))
  | transform {t} : code.instrs[f.pc]? = some (.transform t) →
      Step V code text f (some (f.next f.index (f.keep (merge f.attr (t.apply f.attr)))))
  | dropAttributes : code.instrs[f.pc]? = some .dropAttributes →
      Step V code text f (some { f.next f.index f.attr with dropping := true })
  | skip {i} : code.instrs[f.pc]? = some .skip → Skips V code.ignore f.index f.attr i →
      Step V code text f (some (f.next i f.attr))
  | keyword {words word found i} : code.instrs[f.pc]? = some (.keyword words word) →
      words.search text f.index = some found → found.matched = word →
      Skips V code.ignore found.lastIndex f.attr i → Step V code text f (some (f.next i f.attr))
  | keywordFails {words word} : code.instrs[f.pc]? = some (.keyword words word) →
      (∀ found, words.search text f.index = some found → found.matched ≠ word) →
      Step V code text f none

/-- A call to its end, or to a failure. -/
inductive Exec (V : Verdicts π α) (code : Code π α) (text : Text) :
    Frame α → Option (Final α) → Prop
  | halt {f} : code.instrs[f.pc]? = none → Exec V code text f (some ⟨f.index, f.attr, f.captures⟩)
  | step {f f' r} : Step V code text f (some f') → Exec V code text f' r → Exec V code text f r
  | fail {f} : Step V code text f none → Exec V code text f none
  | kept {f capture min exit fold init r} :
      code.instrs[f.pc]? = some (.loopTry capture min exit fold init) →
      Exec V code text f.enterIteration (some r) →
      Exec V code text f (some (f.afterIteration capture fold init r))
  | tooFew {f capture min exit fold init} :
      code.instrs[f.pc]? = some (.loopTry capture min exit fold init) →
      Exec V code text f.enterIteration none → f.count < min → Exec V code text f none
  | left {f capture min exit fold init r} :
      code.instrs[f.pc]? = some (.loopTry capture min exit fold init) →
      Exec V code text f.enterIteration none → min ≤ f.count →
      Exec V code text (f.leaveLoop capture exit fold init) r → Exec V code text f r

/-- A program from an offset: its match is the text from there to where it ends. -/
inductive Runs (V : Verdicts π α) (code : Code π α) (text : Text) (start : Nat)
    (inherited : Option α) : Option (Match α) → Prop
  | matched {r t} : Exec V code text (.initial code.captures start inherited) (some r) →
      text.slice? start r.index = some t →
      Runs V code text start inherited (some ⟨t, r.index, r.attr, []⟩)
  | unsliced {r} : Exec V code text (.initial code.captures start inherited) (some r) →
      text.slice? start r.index = none → Runs V code text start inherited none
  | failed : Exec V code text (.initial code.captures start inherited) none →
      Runs V code text start inherited none

section

variable {V V' : Verdicts π α} {code : Code π α} {text : Text}

/-! ## More verdicts -/

theorem FirstMatch.mono (hV : ∀ p i a r, V p i a r → V' p i a r) {i : Nat} {a : Option α}
    {ps : List π} {r : Option (Match α)} (h : FirstMatch V i a ps r) : FirstMatch V' i a ps r := by
  induction h with
  | nil => exact .nil
  | here h => exact .here (hV _ _ _ _ h)
  | later h _ ih => exact .later (hV _ _ _ _ h) ih

theorem Skips.mono (hV : ∀ p i a r, V p i a r → V' p i a r) {p : Option π} {i i' : Nat}
    {a : Option α} (h : Skips V p i a i') : Skips V' p i a i' := by
  cases h with
  | nothing => exact .nothing
  | moves h => exact .moves (hV _ _ _ _ h)
  | stays h => exact .stays (hV _ _ _ _ h)

theorem Step.mono (hV : ∀ p i a r, V p i a r → V' p i a r) {f : Frame α} {o : Option (Frame α)}
    (h : Step V code text f o) : Step V' code text f o := by
  cases h with
  | consume hi h hs => exact .consume hi (hV _ _ _ _ h) (hs.mono hV)
  | consumeFails hi h => exact .consumeFails hi (hV _ _ _ _ h)
  | loopStart hi hc => exact .loopStart hi hc
  | loopEnds hi h => exact .loopEnds hi h
  | loopAgain hi h h' hb => exact .loopAgain hi h h' hb
  | choice hi h hs => exact .choice hi (h.mono hV) (hs.mono hV)
  | choiceFails hi h => exact .choiceFails hi (h.mono hV)
  | ahead hi h hp => exact .ahead hi (hV _ _ _ _ h) hp
  | aheadFails hi h hp => exact .aheadFails hi (hV _ _ _ _ h) hp
  | guard hi h => exact .guard hi h
  | guardFails hi h => exact .guardFails hi h
  | assign hi => exact .assign hi
  | transform hi => exact .transform hi
  | dropAttributes hi => exact .dropAttributes hi
  | skip hi hs => exact .skip hi (hs.mono hV)
  | keyword hi h hw hs => exact .keyword hi h hw (hs.mono hV)
  | keywordFails hi h => exact .keywordFails hi h

theorem Exec.mono (hV : ∀ p i a r, V p i a r → V' p i a r) {f : Frame α} {r : Option (Final α)}
    (h : Exec V code text f r) : Exec V' code text f r := by
  induction h with
  | halt hi => exact .halt hi
  | step hs _ ih => exact .step (hs.mono hV) ih
  | fail hs => exact .fail (hs.mono hV)
  | kept hi _ ih => exact .kept hi ih
  | tooFew hi _ hm ih => exact .tooFew hi ih hm
  | left hi _ hm _ ih ih' => exact .left hi ih hm ih'

theorem Runs.mono (hV : ∀ p i a r, V p i a r → V' p i a r) {i : Nat} {a : Option α}
    {r : Option (Match α)} (h : Runs V code text i a r) : Runs V' code text i a r := by
  cases h with
  | matched h ht => exact .matched (h.mono hV) ht
  | unsliced h ht => exact .unsliced (h.mono hV) ht
  | failed h => exact .failed (h.mono hV)

/-! ## At most one result -/

theorem Skips.unique (hV : V.Unique) {p : Option π} {i i₁ i₂ : Nat} {a : Option α}
    (h : Skips V p i a i₁) (h' : Skips V p i a i₂) : i₁ = i₂ := by
  cases h with
  | nothing => cases h'; rfl
  | moves h =>
    cases h' with
    | moves h' => cases hV _ _ _ _ _ h h'; rfl
    | stays h' => cases hV _ _ _ _ _ h h'
  | stays h =>
    cases h' with
    | moves h' => cases hV _ _ _ _ _ h h'
    | stays h' => rfl

end

/-! ## Some result -/

/-- Where ignorable text is skipped its pattern has come to an answer. -/
theorem Skips.exists_answer {V : Verdicts π α} {ignore : Option π} {i j : Nat} {a : Option α}
    {p : π} (h : Skips V ignore i a j) (hp : ignore = some p) : ∃ r, V p i a r := by
  cases h with
  | nothing => cases hp
  | moves h =>
    cases hp
    exact ⟨_, h⟩
  | stays h =>
    cases hp
    exact ⟨_, h⟩

theorem exists_skips {V : Verdicts π α} {ignore : Option π} {i : Nat} {a : Option α}
    (h : ∀ p, ignore = some p → ∃ r, V p i a r) : ∃ j, Skips V ignore i a j := by
  cases ignore with
  | none => exact ⟨i, .nothing⟩
  | some p =>
    obtain ⟨r, hr⟩ := h p rfl
    cases r with
    | none => exact ⟨i, .stays hr⟩
    | some m => exact ⟨m.lastIndex, .moves hr⟩

theorem exists_firstMatch {V : Verdicts π α} {i : Nat} {a : Option α} {ps : List π}
    (h : ∀ p ∈ ps, ∃ r, V p i a r) : ∃ r, FirstMatch V i a ps r := by
  induction ps with
  | nil => exact ⟨none, .nil⟩
  | cons p ps ih =>
    obtain ⟨r, hr⟩ := h p List.mem_cons_self
    cases r with
    | some m => exact ⟨some m, .here hr⟩
    | none =>
      obtain ⟨r, hrest⟩ := ih fun q hq => h q (List.mem_cons_of_mem p hq)
      exact ⟨r, .later hr hrest⟩

/-! ## Height of a derivation -/

/-- `Exec` by a derivation of height at most `n`. -/
inductive ExecIn (V : Verdicts π α) (code : Code π α) (text : Text) :
    Nat → Frame α → Option (Final α) → Prop
  | halt {n f} : code.instrs[f.pc]? = none →
      ExecIn V code text n f (some ⟨f.index, f.attr, f.captures⟩)
  | step {n n' f f' r} : n' < n → Step V code text f (some f') → ExecIn V code text n' f' r →
      ExecIn V code text n f r
  | fail {n f} : Step V code text f none → ExecIn V code text n f none
  | kept {n n' f capture min exit fold init r} : n' < n →
      code.instrs[f.pc]? = some (.loopTry capture min exit fold init) →
      ExecIn V code text n' f.enterIteration (some r) →
      ExecIn V code text n f (some (f.afterIteration capture fold init r))
  | tooFew {n n' f capture min exit fold init} : n' < n →
      code.instrs[f.pc]? = some (.loopTry capture min exit fold init) →
      ExecIn V code text n' f.enterIteration none → f.count < min → ExecIn V code text n f none
  | left {n n' f capture min exit fold init r} : n' < n →
      code.instrs[f.pc]? = some (.loopTry capture min exit fold init) →
      ExecIn V code text n' f.enterIteration none → min ≤ f.count →
      Exec V code text (f.leaveLoop capture exit fold init) r → ExecIn V code text n f r

section

variable {V : Verdicts π α} {code : Code π α} {text : Text}

theorem ExecIn.exec {n : Nat} {f : Frame α} {r : Option (Final α)}
    (h : ExecIn V code text n f r) : Exec V code text f r := by
  induction h with
  | halt hi => exact .halt hi
  | step _ hs _ ih => exact .step hs ih
  | fail hs => exact .fail hs
  | kept _ hi _ ih => exact .kept hi ih
  | tooFew _ hi _ hm ih => exact .tooFew hi ih hm
  | left _ hi _ hm hr ih => exact .left hi ih hm hr

theorem Exec.height {f : Frame α} {r : Option (Final α)} (h : Exec V code text f r) :
    ∃ n, ExecIn V code text n f r := by
  induction h with
  | halt hi => exact ⟨0, .halt hi⟩
  | step hs _ ih =>
    obtain ⟨n, hn⟩ := ih
    exact ⟨n + 1, .step (Nat.lt_succ_self n) hs hn⟩
  | fail hs => exact ⟨0, .fail hs⟩
  | kept hi _ ih =>
    obtain ⟨n, hn⟩ := ih
    exact ⟨n + 1, .kept (Nat.lt_succ_self n) hi hn⟩
  | tooFew hi _ hm ih =>
    obtain ⟨n, hn⟩ := ih
    exact ⟨n + 1, .tooFew (Nat.lt_succ_self n) hi hn hm⟩
  | left hi _ hm hr ih _ =>
    obtain ⟨n, hn⟩ := ih
    exact ⟨n + 1, .left (Nat.lt_succ_self n) hi hn hm hr⟩

/-! ## Calls at an instruction that tests patterns -/

theorem Step.of_consume {f : Frame α} {p : π} {action : Option (Action α)} {capture : Option Nat}
    {skips : Bool} {o : Option (Frame α)}
    (hi : code.instrs[f.pc]? = some (.consume p action capture skips))
    (h : Step V code text f o) :
    (V p f.index f.attr none ∧ o = none) ∨
      ∃ m i, V p f.index f.attr (some m) ∧
        Skips V (if skips then code.ignore else none) m.lastIndex (f.matchAttr action m) i ∧
        o = some { f.next i (f.matchAttr action m) with captures := f.capturesAfter capture m } := by
  cases h with
  | consume hj hp hs =>
    cases hi.symm.trans hj
    exact .inr ⟨_, _, hp, hs, rfl⟩
  | consumeFails hj hp =>
    cases hi.symm.trans hj
    exact .inl ⟨hp, rfl⟩
  | loopStart hj | loopEnds hj | loopAgain hj | choice hj | choiceFails hj | ahead hj
  | aheadFails hj | guard hj | guardFails hj | assign hj | transform hj | dropAttributes hj
  | skip hj | keyword hj | keywordFails hj => cases hi.symm.trans hj

theorem ExecIn.of_consume {n : Nat} {f : Frame α} {p : π} {action : Option (Action α)}
    {capture : Option Nat} {skips : Bool} {r : Option (Final α)}
    (hi : code.instrs[f.pc]? = some (.consume p action capture skips))
    (h : ExecIn V code text n f r) :
    (V p f.index f.attr none ∧ r = none) ∨
      ∃ m i n', V p f.index f.attr (some m) ∧
        Skips V (if skips then code.ignore else none) m.lastIndex (f.matchAttr action m) i ∧
        n' < n ∧ ExecIn V code text n'
          { f.next i (f.matchAttr action m) with captures := f.capturesAfter capture m } r := by
  cases h with
  | halt hj => cases hi.symm.trans hj
  | step hlt hs h =>
    rcases hs.of_consume hi with ⟨-, ho⟩ | ⟨m, i, hp, hsk, ho⟩
    · cases ho
    · cases ho
      exact .inr ⟨m, i, _, hp, hsk, hlt, h⟩
  | fail hs =>
    rcases hs.of_consume hi with ⟨hp, -⟩ | ⟨m, i, hp, hsk, ho⟩
    · exact .inl ⟨hp, rfl⟩
    · cases ho
  | kept _ hj | tooFew _ hj | left _ hj => cases hi.symm.trans hj

theorem Exec.of_consume {f : Frame α} {p : π} {action : Option (Action α)}
    {capture : Option Nat} {skips : Bool} {r : Option (Final α)}
    (hi : code.instrs[f.pc]? = some (.consume p action capture skips))
    (h : Exec V code text f r) :
    (V p f.index f.attr none ∧ r = none) ∨
      ∃ m i, V p f.index f.attr (some m) ∧
        Skips V (if skips then code.ignore else none) m.lastIndex (f.matchAttr action m) i ∧
        Exec V code text
          { f.next i (f.matchAttr action m) with captures := f.capturesAfter capture m } r := by
  obtain ⟨n, hn⟩ := h.height
  rcases hn.of_consume hi with hfail | ⟨m, i, n', hp, hs, -, h⟩
  · exact .inl hfail
  · exact .inr ⟨m, i, hp, hs, h.exec⟩

/-- A call at a choice tests its branches. -/
theorem Exec.firstMatch {f : Frame α} {ps : List π} {r : Option (Final α)}
    (hi : code.instrs[f.pc]? = some (.choice ps)) (h : Exec V code text f r) :
    ∃ o, FirstMatch V f.index f.attr ps o := by
  have hstep {o : Option (Frame α)} (h : Step V code text f o) :
      ∃ o, FirstMatch V f.index f.attr ps o := by
    cases h with
    | choice hj hfirst | choiceFails hj hfirst =>
      cases hi.symm.trans hj
      exact ⟨_, hfirst⟩
    | consume hj | consumeFails hj | loopStart hj | loopEnds hj | loopAgain hj | ahead hj
    | aheadFails hj | guard hj | guardFails hj | assign hj | transform hj | dropAttributes hj
    | skip hj | keyword hj | keywordFails hj => cases hi.symm.trans hj
  cases h with
  | halt hj | kept hj | tooFew hj | left hj => cases hi.symm.trans hj
  | step hs | fail hs => exact hstep hs

end

end GrammarMachine
