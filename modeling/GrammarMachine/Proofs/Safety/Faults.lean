import GrammarMachine.Proofs.Inheritance.Relation
import GrammarMachine.Proofs.Safety.Layout

/-!
# No faults

A run that has no fault matches, fails to match or runs out of fuel. The one pattern that could have
a fault is the end of a word, which slices the text where it is tested; it stands behind a literal,
and where a literal ends a character begins.

* `Trial.Ensures t Q`: `t` has no fault, and what it matches with satisfies `Q`.
* `Program.IsSound`: the code is well formed, and ends of words are tested behind literals alone.
* `Pattern.IsSound`: so are all programs in the pattern.
* `exec_ensures`: the machine has no fault where its probe has none.
* `Pattern.find_ensures`: testing a sound pattern has no fault, wherever it is tested.
-/

namespace GrammarMachine

variable {π α β γ : Type}

namespace Trial

/-- From every journal the trial comes to no fault, and what it matches with satisfies `Q`. -/
def Ensures (t : Trial π α β) (Q : β → Prop) : Prop :=
  ∀ j, match t j with
    | .ok b _ => Q b
    | .error e _ => e = .mismatch ∨ e = .outOfFuel

/-- From every journal the trial comes to no fault. -/
abbrev Faultless (t : Trial π α β) : Prop := t.Ensures fun _ => True

variable {t : Trial π α β} {k : β → Trial π α γ} {Q Q' : β → Prop} {R : γ → Prop}

theorem Ensures.pure {b : β} (h : Q b) : (Pure.pure b : Trial π α β).Ensures Q := fun _ => h

theorem Ensures.mismatch : (Trial.mismatch : Trial π α β).Ensures Q := fun _ => .inl rfl

theorem Ensures.outOfFuel : (Trial.outOfFuel : Trial π α β).Ensures Q := fun _ => .inr rfl

theorem Ensures.mono (h : t.Ensures Q) (hQ : ∀ b, Q b → Q' b) : t.Ensures Q' := by
  intro j
  have hj := h j
  cases ht : t j with
  | ok b j' =>
    rw [ht] at hj
    exact hQ b hj
  | error e j' =>
    rw [ht] at hj
    exact hj

theorem Ensures.faultless (h : t.Ensures Q) : t.Faultless := h.mono fun _ _ => trivial

theorem Ensures.bind (h : t.Ensures Q) (hk : ∀ b, Q b → (k b).Ensures R) :
    (t >>= k).Ensures R := by
  intro j
  have hj := h j
  simp only [Bind.bind, EStateM.bind]
  cases ht : t j with
  | ok b j' =>
    rw [ht] at hj
    exact hk b hj j'
  | error e j' =>
    rw [ht] at hj
    exact hj

/-- An attempt is left with what it came to. -/
theorem Ensures.attempt_bind {k : Option β → Trial π α γ} (h : t.Ensures Q)
    (hsome : ∀ b, Q b → (k (some b)).Ensures R) (hnone : (k none).Ensures R) :
    (t.attempt >>= k).Ensures R := by
  refine Ensures.bind (Q := fun o => ∀ b, o = some b → Q b) (fun j => ?_) fun o ho => ?_
  · have hj := h j
    rw [attempt]
    cases ht : t j with
    | ok b j' =>
      rw [ht] at hj
      rintro _ ⟨⟩
      exact hj
    | error e j' =>
      rw [ht] at hj
      rcases hj with rfl | rfl
      · rintro _ ⟨⟩
      · exact .inr rfl
  · cases o with
    | none => exact hnone
    | some b => exact hsome b (ho b rfl)

theorem Ensures.ofOption {o : Option β} (h : ∀ b, o = some b → Q b) :
    (Trial.ofOption o : Trial π α β).Ensures Q := by
  cases o with
  | none => exact .mismatch
  | some b => exact .pure (h b rfl)

theorem Ensures.note_bind {e : Event π α} {k : Unit → Trial π α γ} (h : (k ()).Ensures R) :
    (Trial.note e >>= k).Ensures R := fun j => h (j.note e)

theorem Gives.ensures {b : β} (h : t.Gives (some b)) : t.Ensures (· = b) := by
  intro j
  obtain ⟨j', hj⟩ := h j
  rw [ends_some_iff.1 hj]

end Trial

open Trial (Ensures Faultless)

/-! ## What can be tested where -/

/-- The patterns that are only tested behind a literal. -/
def Pattern.IsWordEnd : Pattern α → Prop
  | .wordEnd _ _ => True
  | _ => False

/-- Consumes a literal, without the ignorable text behind it. -/
def Instr.IsWord : Instr (Pattern α) α → Prop
  | .consume (.literal _) none none false => True
  | _ => False

theorem Instr.IsWord.exists_literal {i : Instr (Pattern α) α} (h : i.IsWord) :
    ∃ t, i = .consume (.literal t) none none false := by
  unfold IsWord at h
  split at h
  · exact ⟨_, rfl⟩
  · exact h.elim

/-- The ends of words that are tested stand right behind words. -/
def Instr.PlacesWordEnds (is : List (Instr (Pattern α) α)) : Prop :=
  ∀ (k : Nat) x p, is[k]? = some x → p ∈ x.patterns → p.IsWordEnd →
    (∃ positive, x = .ahead p positive) ∧
      ∃ (j : Nat) (y : Instr (Pattern α) α), k = j + 1 ∧ is[j]? = some y ∧ y.IsWord

/-- The code is well formed, and the ends of words that it tests stand right behind words. -/
structure Program.IsSound (code : Program α) : Prop where
  wellFormed : code.WellFormed
  behindWord : Instr.PlacesWordEnds code.instrs

/-- All programs in the pattern are sound, and the pattern is no end of a word. -/
inductive Pattern.IsSound : Pattern α → Prop
  | literal (t : Text) : IsSound (.literal t)
  | regex (r : Regex) : IsSound (.regex r)
  | forward (cell : Nat) : IsSound (.forward cell)
  | custom (f : Matcher α) : IsSound (.custom f)
  | lineBreak : IsSound .lineBreak
  | endOfInput : IsSound .endOfInput
  | program {code : Program α} : Program.IsSound code →
      (∀ x ∈ code.instrs, ∀ p ∈ x.patterns, ¬ p.IsWordEnd → IsSound p) →
      (∀ x ∈ code.instrs, ∀ ignore words, .wordEnd ignore words ∈ x.patterns →
        ∀ p, ignore = some p → IsSound p) →
      (∀ p, code.ignore = some p → IsSound p) → IsSound (.program code)

/-- What a match of a pattern may be relied on for: a literal ends where a character begins. -/
def Pattern.EndsAt (text : Text) : Pattern α → Match α → Prop
  | .literal _, m => text.isBoundary m.lastIndex
  | _, _ => True

/-- The frame has a place for every capture, and is where a character begins if the end of a word is
to be tested. -/
structure Frame.IsReady (code : Program α) (text : Text) (f : Frame α) : Prop where
  captures : f.captures.length = code.captures
  boundary : ∀ p positive, code.instrs[f.pc]? = some (.ahead p positive) → p.IsWordEnd →
    text.isBoundary f.index

section

variable {code : Program α} {text : Text} {f : Frame α}

/-- Behind any other instruction than a word the next frame is ready wherever it is. -/
theorem Program.IsSound.ready_of_succ (hc : code.IsSound) {g : Frame α} {k : Nat}
    {x : Instr (Pattern α) α} (hcaptures : g.captures.length = code.captures)
    (hpc : g.pc = k + 1) (hx : code.instrs[k]? = some x)
    (hword : x.IsWord → text.isBoundary g.index) : g.IsReady code text := by
  refine ⟨hcaptures, fun p positive hp hend => ?_⟩
  obtain ⟨-, j, y, hj, hy, hyword⟩ := hc.behindWord _ _ p hp List.mem_cons_self hend
  obtain rfl : j = k := by omega
  obtain rfl := Option.some.inj (hy.symm.trans hx)
  exact hword hyword

theorem Program.IsSound.ready_initial (hc : code.IsSound) (start : Nat) (inherited : Option α) :
    (Frame.initial code.captures start inherited).IsReady code text := by
  refine ⟨List.length_replicate, fun p positive hp hend => ?_⟩
  obtain ⟨-, j, y, hj, -⟩ := hc.behindWord _ _ p hp List.mem_cons_self hend
  exact absurd hj (Nat.succ_ne_zero j).symm

end

/-! ## The machine -/

section

variable {probe : Probe (Pattern α) α} {code : Program α} {text : Text}

theorem attrAfter_faultless (f : Frame α) (action : Option (Action α)) (m : Match α) :
    (attrAfter f action m : Trial π α (Option α)).Faultless :=
  (attrAfter_gives f action m).ensures.faultless

theorem settle_faultless (f : Frame α) (attr : Option α) (iterations : List (Match α))
    (fold : Option (Action α)) (init : Option α) :
    (settle f attr iterations fold init : Trial π α (Option α)).Faultless :=
  (settle_gives f attr iterations fold init).ensures.faultless

theorem firstMatch_faultless {index : Nat} {inherited : Option α} {ps : List (Pattern α)}
    (h : ∀ p ∈ ps, (probe p index inherited).Faultless) :
    (firstMatch probe index inherited ps).Faultless := by
  induction ps with
  | nil => exact .mismatch
  | cons p ps ih =>
    exact (h p List.mem_cons_self).attempt_bind (fun m _ => .pure trivial)
      (ih fun q hq => h q (List.mem_cons_of_mem p hq))

theorem skipIgnored_faultless {ignore : Option (Pattern α)} {index : Nat} {inherited : Option α}
    (h : ∀ p, ignore = some p → (probe p index inherited).Faultless) :
    (skipIgnored probe ignore index inherited).Faultless := by
  cases ignore with
  | none => exact .pure trivial
  | some p => exact (h p rfl).attempt_bind (fun m _ => .pure trivial) (.pure trivial)

/-- The machine has no fault in code that is sound, if its probe has none. -/
theorem exec_faultless (hc : code.IsSound)
    (hignore : ∀ p, code.ignore = some p → ∀ i a, (probe p i a).Faultless)
    (hprobe : ∀ x ∈ code.instrs, ∀ p ∈ x.patterns, ∀ i a,
      (p.IsWordEnd → text.isBoundary i) → (probe p i a).Ensures (p.EndsAt text))
    {fuel : Nat} {f : Frame α} (hf : f.IsReady code text) :
    (exec probe code text fuel f).Faultless := by
  have hskip (i : Nat) (a : Option α) : (skipIgnored probe code.ignore i a).Faultless :=
    skipIgnored_faultless fun p hp => hignore p hp i a
  induction fuel generalizing f with
  | zero => exact .outOfFuel
  | succ fuel ih =>
    rw [exec]
    split
    · exact .pure trivial
    rename_i x hi
    refine .note_bind ?_
    -- Behind most instructions the next frame is ready because there is no word.
    have hnext {g : Frame α} (hword : ¬ x.IsWord) (hg : g.captures.length = f.captures.length)
        (hpc : g.pc = f.pc + 1) : (exec probe code text fuel g).Faultless :=
      ih (hc.ready_of_succ (hg.trans hf.captures) hpc hi fun h => absurd h hword)
    have hat (p : Pattern α) (hp : p ∈ x.patterns) (hend : ¬ p.IsWordEnd) (i : Nat)
        (a : Option α) : (probe p i a).Ensures (p.EndsAt text) :=
      hprobe x (List.mem_of_getElem? hi) p hp i a fun h => absurd h hend
    have hplain {p : Pattern α} (hp : p ∈ x.patterns) (hx : ∀ positive, x ≠ .ahead p positive) :
        ¬ p.IsWordEnd := fun hend => by
      obtain ⟨⟨positive, h⟩, -⟩ := hc.behindWord _ _ p hi hp hend
      exact hx positive h
    cases x with
    | consume p action capture skips =>
      have hp := hplain (p := p) List.mem_cons_self (by simp)
      refine (hat p List.mem_cons_self hp _ _).bind fun m hm => ?_
      refine (attrAfter_faultless f action m).bind fun attr _ => ?_
      have hcaptures := (f.length_capturesAfter capture m).trans hf.captures
      cases skips with
      | true =>
        exact (hskip _ _).bind fun i _ => ih <| hc.ready_of_succ hcaptures rfl hi fun h => by
          obtain ⟨t, ht⟩ := h.exists_literal
          cases ht
      | false =>
        refine ih (hc.ready_of_succ hcaptures rfl hi fun h => ?_)
        obtain ⟨t, ht⟩ := h.exists_literal
        cases ht
        exact hm
    | loopStart capture =>
      dsimp only
      rw [if_pos (hf.captures ▸ hc.wellFormed.captures _ _ capture hi rfl)]
      exact hnext id (List.length_modify ..) rfl
    | loopTry capture min exit fold init =>
      have hleave {attr : Option α} :
          (exec probe code text fuel { f with pc := f.pc + exit, attr := attr }).Faultless := by
        obtain ⟨j, back, max, hj, -, hexit⟩ := hc.wellFormed.exit _ _ _ _ _ _ hi
        exact ih (hc.ready_of_succ hf.captures hexit hj False.elim)
      have hin : (exec probe code text fuel f.enterIteration).Faultless := hnext id rfl rfl
      refine hin.attempt_bind (fun fin _ => ?_) ?_
      · dsimp only
        split
        · exact (settle_faultless _ _ _ _ _).bind fun _ _ => .pure trivial
        · exact .pure trivial
      · dsimp only
        split
        · exact .mismatch
        split
        · exact (settle_faultless _ _ _ _ _).bind fun _ _ => hleave
        · exact hleave
    | loopBack back max =>
      dsimp only
      obtain ⟨i, c, min, exit, fold, init, hattempt, hback⟩ := hc.wellFormed.back _ _ _ hi
      split
      · exact hnext id rfl rfl
      split
      · exact .note_bind (hnext id rfl rfl)
      rw [if_pos (by omega)]
      refine ih ⟨hf.captures, fun p positive hp => ?_⟩
      rw [show f.pc - back = i by omega] at hp
      cases hattempt.symm.trans hp
    | choice ps =>
      refine (firstMatch_faultless fun p hp =>
        (hat p hp (hplain hp (by simp)) _ _).faultless).bind fun m _ => ?_
      exact (hskip _ _).bind fun i _ => hnext id rfl rfl
    | ahead p positive =>
      have hp : (probe p f.index f.attr).Faultless :=
        (hprobe _ (List.mem_of_getElem? hi) p List.mem_cons_self _ _
          (hf.boundary p positive hi)).faultless
      refine hp.attempt_bind (fun m _ => ?_) ?_
      all_goals
        split
        · exact hnext id rfl rfl
        · exact .mismatch
    | guard condition =>
      refine .note_bind ?_
      split
      · exact hnext id rfl rfl
      · exact .mismatch
    | assign | dropAttributes => exact hnext id rfl rfl
    | transform => exact .note_bind (hnext id rfl rfl)
    | skip => exact (hskip _ _).bind fun i _ => hnext id rfl rfl
    | keyword words word =>
      refine (Ensures.ofOption (Q := fun _ => True) fun _ _ => trivial).bind fun found _ => ?_
      split
      · exact (hskip _ _).bind fun i _ => hnext id rfl rfl
      · exact .mismatch

end

/-! ## Patterns -/

section

variable {text : Text}

theorem Trial.Ensures.span {start stop : Nat} {m : Match α} {Q : Match α → Prop}
    (h : Match.span? text start stop = some m) (hm : Q m) :
    (Trial.span text start stop : Trial π α (Match α)).Ensures Q :=
  (Trial.Gives.span h).ensures.mono fun _ h => h ▸ hm

/-- An empty stretch can be sliced where a character begins. -/
theorem Match.exists_span?_self {i : Nat} (h : text.isBoundary i) :
    ∃ m : Match α, Match.span? text i i = some m := by
  obtain ⟨t, ht⟩ := Text.exists_slice? h h (Nat.le_refl i)
  exact ⟨_, congrArg (Option.map _) ht⟩

theorem Code.run_faultless {probe : Probe π α} {fuel : Nat} {code : Code π α} {start : Nat}
    {inherited : Option α}
    (h : (exec probe code text fuel (.initial code.captures start inherited)).Faultless) :
    (code.run probe fuel text start inherited).Faultless :=
  h.bind fun _ _ => (Ensures.ofOption (Q := fun _ => True) fun _ _ => trivial).bind
    fun _ _ => .pure trivial

/-- Testing a sound pattern has no fault, and neither has testing the end of a word where a
character begins. -/
theorem Pattern.find_ensures {fs : Forwards α}
    (hfs : ∀ cell code, fs.get? cell = some code → IsSound (.program code)) (fuel : Nat) :
    (∀ p : Pattern α, p.IsSound → ∀ i a, (find fs text fuel p i a).Ensures (p.EndsAt text)) ∧
      ∀ ignore words i a, (∀ p : Pattern α, ignore = some p → p.IsSound) → text.isBoundary i →
        (find fs text fuel (.wordEnd ignore words) i a).Faultless := by
  induction fuel with
  | zero => exact ⟨fun p _ i a => .outOfFuel, fun _ _ i a _ _ => .outOfFuel⟩
  | succ fuel ih =>
    obtain ⟨ih, ihend⟩ := ih
    have hrun {code : Program α} (hp : IsSound (.program code)) (i : Nat) (a : Option α) :
        (code.run (find fs text fuel) fuel text i a).Faultless := by
      cases hp with
      | program hc hplain hends hignore =>
        have hskip : ∀ p, code.ignore = some p → ∀ i a, (find fs text fuel p i a).Faultless :=
          fun p hp i a => (ih p (hignore p hp) i a).faultless
        refine Code.run_faultless
          (exec_faultless hc hskip (fun x hx p hp i a hi => ?_) (hc.ready_initial i a))
        by_cases hend : p.IsWordEnd
        · cases p with
          | wordEnd ignore words =>
            exact (ihend ignore words i a (hends x hx ignore words hp) (hi hend)).mono
              fun _ _ => trivial
          | _ => exact hend.elim
        · exact ih p (hplain x hx p hp hend) i a
    refine ⟨fun p hp i a => ?_, fun ignore words i a hignore hi => ?_⟩
    · cases p with
      | literal t =>
        rw [find]
        refine (Ensures.ofOption fun stop hstop => hstop).bind fun stop hstop => ?_
        obtain ⟨u, v, rfl, rfl, rfl⟩ := literalEnd?_eq_some hstop
        refine .span (Match.span?_append u t v) ?_
        exact Text.isBoundary_of_from? (Text.from?_add (Text.from?_append u _))
      | regex r =>
        rw [find]
        exact .ofOption fun _ _ => trivial
      | program code =>
        rw [find]
        exact (hrun hp i a).mono fun _ _ => trivial
      | forward cell =>
        rw [find]
        cases hcell : fs.get? cell with
        | some code => exact (hrun (hfs cell code hcell) i a).mono fun _ _ => trivial
        | none => exact .note_bind .mismatch
      | custom f =>
        rw [find]
        exact .note_bind (.ofOption fun _ _ => trivial)
      | lineBreak =>
        rw [find]
        refine (Ensures.ofOption fun stop hstop => hstop).bind fun stop hstop => ?_
        obtain ⟨u, t, v, rfl, rfl, rfl⟩ := lineBreakEnd?_eq_some hstop
        exact .span (Match.span?_append u t v) trivial
      | endOfInput =>
        rw [find]
        split
        · exact .span (Match.span?_byteLength text) trivial
        · exact .mismatch
      | wordEnd => cases hp
    · rw [find]
      obtain ⟨m, hm⟩ := Match.exists_span?_self (α := α) hi
      split
      · exact .span hm trivial
      have hlast {b : Bool} : (if b || find.startsKeyword text words i then Trial.span text i i
          else Trial.mismatch : Trial (Pattern α) α (Match α)).Faultless := by
        split
        · exact .span hm trivial
        · exact .mismatch
      cases ignore with
      | none => exact hlast
      | some p =>
        simp only [map_eq_pure_bind, bind_assoc, pure_bind]
        exact (ih p (hignore p rfl) i a).attempt_bind (fun m _ => hlast) hlast

end

end GrammarMachine
