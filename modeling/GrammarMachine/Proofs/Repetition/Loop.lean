import GrammarMachine.Grammar.Basic
import GrammarMachine.Proofs.Repetition.Unrolling
import GrammarMachine.Proofs.Semantics.Exec

/-!
# The loop of a repetition

An attempt of an iteration is a nested call that runs the iteration, the later iterations and all
that follows the repetition. A failure anywhere in it undoes the iteration, and the repetition is
left from before it, so the nested calls keep the most iterations after which the rest matches.

A `Loop` says where a repetition stands in a program and what its iteration and what follows it come
to, and `Loop.Within` that it does so. `Loop.Sound` says no more than that it does nothing else.

* `Loop.Sound.finished`: a call at the repetition keeps iterations of the unrolled repetition, the
  most that it may, or fails if none may be kept.
* `Loop.Within.exists_finished`: it comes to an end if the repetition unrolls and what follows comes
  to one.
-/

namespace GrammarMachine

variable {π α : Type}

/-! ## Calls at the instructions of a loop -/

section

variable {V : Verdicts π α} {code : Code π α} {text : Text} {f : Frame α}

theorem Step.ne_loopTry {capture min exit : Nat} {fold : Option (Action α)} {init : Option α}
    {o : Option (Frame α)} (hi : code.instrs[f.pc]? = some (.loopTry capture min exit fold init)) :
    ¬ Step V code text f o := by
  intro h
  cases h with
  | consume hj | consumeFails hj | loopStart hj | loopEnds hj | loopAgain hj | choice hj
  | choiceFails hj | ahead hj | aheadFails hj | guard hj | guardFails hj | assign hj | transform hj
  | dropAttributes hj | skip hj | keyword hj | keywordFails hj => cases hi.symm.trans hj

/-- The start of a repetition keeps the attribute as its seed. -/
theorem Step.of_loopStart {capture : Nat} {o : Option (Frame α)}
    (hi : code.instrs[f.pc]? = some (.loopStart capture)) (h : Step V code text f o) :
    o = some { f.next f.index f.attr with
      seed := f.attr, captures := f.captures.start capture } := by
  cases h with
  | loopStart hj =>
    cases hi.symm.trans hj
    rfl
  | consume hj | consumeFails hj | loopEnds hj | loopAgain hj | choice hj | choiceFails hj
  | ahead hj | aheadFails hj | guard hj | guardFails hj | assign hj | transform hj
  | dropAttributes hj | skip hj | keyword hj | keywordFails hj => cases hi.symm.trans hj

theorem Exec.of_loopStart {capture : Nat} {r : Option (Final α)}
    (hi : code.instrs[f.pc]? = some (.loopStart capture)) (h : Exec V code text f r) :
    Exec V code text
      { f.next f.index f.attr with seed := f.attr, captures := f.captures.start capture } r := by
  cases h with
  | halt hj => cases hi.symm.trans hj
  | step hs h =>
    cases hs.of_loopStart hi
    exact h
  | fail hs => cases hs.of_loopStart hi
  | kept hj | tooFew hj | left hj => cases hi.symm.trans hj

/-- The end of an iteration leads out of the loop or back to its start. -/
theorem Step.of_loopBack {back : Nat} {max : Option Nat} {o : Option (Frame α)}
    (hi : code.instrs[f.pc]? = some (.loopBack back max)) (h : Step V code text f o) :
    ((max.any (· ≤ f.count) ∨ f.index = f.start) ∧ o = some (f.next f.index f.attr)) ∨
      (¬ max.any (· ≤ f.count) ∧ f.index ≠ f.start ∧ o = some { f with pc := f.pc - back }) := by
  cases h with
  | loopEnds hj hc =>
    cases hi.symm.trans hj
    exact .inl ⟨hc, rfl⟩
  | loopAgain hj hc hs _ =>
    cases hi.symm.trans hj
    exact .inr ⟨hc, hs, rfl⟩
  | consume hj | consumeFails hj | loopStart hj | choice hj
  | choiceFails hj | ahead hj | aheadFails hj | guard hj | guardFails hj | assign hj | transform hj
  | dropAttributes hj | skip hj | keyword hj | keywordFails hj => cases hi.symm.trans hj

theorem ExecIn.of_loopBack {n back : Nat} {max : Option Nat} {r : Option (Final α)}
    (hi : code.instrs[f.pc]? = some (.loopBack back max)) (h : ExecIn V code text n f r) :
    ∃ m, m < n ∧
      (((max.any (· ≤ f.count) ∨ f.index = f.start) ∧
          ExecIn V code text m (f.next f.index f.attr) r) ∨
        (¬ max.any (· ≤ f.count) ∧ f.index ≠ f.start ∧
          ExecIn V code text m { f with pc := f.pc - back } r)) := by
  cases h with
  | halt hj => cases hi.symm.trans hj
  | step hlt hs h =>
    refine ⟨_, hlt, ?_⟩
    rcases hs.of_loopBack hi with ⟨hc, ho⟩ | ⟨hc, hne, ho⟩
    · cases ho
      exact .inl ⟨hc, h⟩
    · cases ho
      exact .inr ⟨hc, hne, h⟩
  | fail hs => rcases hs.of_loopBack hi with ⟨-, ho⟩ | ⟨-, -, ho⟩ <;> cases ho
  | kept _ hj | tooFew _ hj | left _ hj => cases hi.symm.trans hj

/-- A call at the attempt of an iteration: the attempt is kept, or the repetition fails or is
left. -/
theorem ExecIn.of_loopTry {n capture min exit : Nat} {fold : Option (Action α)} {init : Option α}
    {r : Option (Final α)}
    (hi : code.instrs[f.pc]? = some (.loopTry capture min exit fold init))
    (h : ExecIn V code text n f r) :
    ∃ m r', m < n ∧ ExecIn V code text m f.enterIteration r' ∧
      ((∃ fin, r' = some fin ∧ r = some (f.afterIteration capture fold init fin)) ∨
        (r' = none ∧ f.count < min ∧ r = none) ∨
        (r' = none ∧ min ≤ f.count ∧ Exec V code text (f.leaveLoop capture exit fold init) r)) := by
  cases h with
  | halt hj => cases hi.symm.trans hj
  | step _ hs | fail hs => exact (hs.ne_loopTry hi).elim
  | kept hlt hj h =>
    cases hi.symm.trans hj
    exact ⟨_, _, hlt, h, .inl ⟨_, rfl, rfl⟩⟩
  | tooFew hlt hj h hm =>
    cases hi.symm.trans hj
    exact ⟨_, _, hlt, h, .inr (.inl ⟨rfl, hm, rfl⟩)⟩
  | left hlt hj h hm hout =>
    cases hi.symm.trans hj
    exact ⟨_, _, hlt, h, .inr (.inr ⟨rfl, hm, hout⟩)⟩

end

/-! ## The loop -/

/-- A repetition in a program. -/
structure Loop (α : Type) where
  /-- The address at which an iteration is attempted. -/
  address : Nat
  /-- The number of instructions of the body. -/
  length : Nat
  min : Nat
  max : Option Nat
  fold : Option (Action α)
  init : Option α
  dropping : Bool
  /-- What an iteration comes to. -/
  iterates : IterationVerdicts α
  /-- Where what follows the repetition ends. -/
  follows : Nat → Option Nat → Prop

/-- The frame at an address behind an iteration. -/
def Frame.behind (f : Frame α) (pc : Nat) (it : Iteration α) : Frame α :=
  { f with
    pc := pc
    index := it.stop
    attr := it.attr
    captures := f.captures.record loopCapture it.found }

/-- A frame without an attribute that ought to have been dropped. -/
def Frame.IsClean (f : Frame α) : Prop := f.keep f.attr = f.attr

namespace Loop

/-- The program has the repetition, and its parts come to what they are said to. -/
structure Within (L : Loop α) (V : Verdicts π α) (code : Code π α) (text : Text) : Prop where
  attempt : code.instrs[L.address]? =
    some (.loopTry loopCapture L.min (L.length + 2) L.fold L.init)
  back : code.instrs[L.address + 1 + L.length]? = some (.loopBack (L.length + 1) L.max)
  bounds : ∀ m, L.max = some m → L.min ≤ m
  body_sound : ∀ {n f r}, f.pc = L.address + 1 → f.dropping = L.dropping →
    ExecIn V code text n f r →
    (L.iterates f.index f.attr none ∧ r = none) ∨
      ∃ it m, L.iterates f.index f.attr (some it) ∧ m < n ∧
        ExecIn V code text m (f.behind (L.address + 1 + L.length) it) r
  body_fails : ∀ {f}, f.pc = L.address + 1 → f.dropping = L.dropping →
    L.iterates f.index f.attr none → Exec V code text f none
  body_ends : ∀ {f it r}, f.pc = L.address + 1 → f.dropping = L.dropping →
    L.iterates f.index f.attr (some it) →
    Exec V code text (f.behind (L.address + 1 + L.length) it) r → Exec V code text f r
  carries : ∀ {o a it}, L.iterates o a (some it) →
    (if L.dropping then none else merge a it.attr) = it.attr
  trail : ∀ {f r}, f.pc = L.address + (L.length + 2) → f.dropping = L.dropping → f.IsClean →
    (Exec V code text f r ↔
      ∃ e, L.follows f.index e ∧ r = e.map fun e => ⟨e, f.attr, f.captures⟩)

/-- The program has the repetition, and whatever its parts come to they are said to come to. -/
structure Sound (L : Loop α) (V : Verdicts π α) (code : Code π α) (text : Text) : Prop where
  attempt : code.instrs[L.address]? =
    some (.loopTry loopCapture L.min (L.length + 2) L.fold L.init)
  back : code.instrs[L.address + 1 + L.length]? = some (.loopBack (L.length + 1) L.max)
  bounds : ∀ m, L.max = some m → L.min ≤ m
  body : ∀ {n f r}, f.pc = L.address + 1 → f.dropping = L.dropping →
    ExecIn V code text n f r →
    (L.iterates f.index f.attr none ∧ r = none) ∨
      ∃ it m, L.iterates f.index f.attr (some it) ∧ m < n ∧
        ExecIn V code text m (f.behind (L.address + 1 + L.length) it) r
  carries : ∀ {o a it}, L.iterates o a (some it) →
    (if L.dropping then none else merge a it.attr) = it.attr
  trail : ∀ {f r}, f.pc = L.address + (L.length + 2) → f.dropping = L.dropping → f.IsClean →
    Exec V code text f r →
      ∃ e, L.follows f.index e ∧ r = e.map fun e => ⟨e, f.attr, f.captures⟩

/-- A frame before the attempt of an iteration, with `l` recorded so far. -/
structure Reached (L : Loop α) (f : Frame α) (l : List (Match α)) : Prop where
  pc : f.pc = L.address
  dropping : f.dropping = L.dropping
  captures : f.captures[loopCapture]? = some (some l)
  below : ∀ m, L.max = some m → f.count < m
  clean : 0 < f.count → f.IsClean

/-- What the attempt of an iteration comes to. -/
inductive Attempted (L : Loop α) (f : Frame α) (l : List (Match α)) (its : List (Iteration α)) :
    Option (Final α) → Prop
  | fails : (∀ n, 0 < n → Admissible L.min f.count f.index its n →
      L.follows (offsetAfter f.index its n) none) → Attempted L f l its none
  | ends {n fin} : 0 < n → Keeps L.follows L.min f.count f.index its n fin.index →
      fin.captures.recorded loopCapture = l ++ (its.take n).map (·.found) →
      fin.attr = threadedAttr f.attr its n → Attempted L f l its (some fin)

/-- What a repetition comes to. -/
inductive Finished (L : Loop α) (f : Frame α) (l : List (Match α)) (its : List (Iteration α)) :
    Option (Final α) → Prop
  | fails : (∀ n, Admissible L.min f.count f.index its n →
      L.follows (offsetAfter f.index its n) none) → Finished L f l its none
  | ends {n fin} : Keeps L.follows L.min f.count f.index its n fin.index →
      fin.captures.recorded loopCapture = l ++ (its.take n).map (·.found) →
      (fin.attr = if f.count = 0 then
        f.settledAttr (threadedAttr f.attr its n) (l ++ (its.take n).map (·.found)) L.fold L.init
        else threadedAttr f.attr its n) → Finished L f l its (some fin)

section

variable {L : Loop α} {V : Verdicts π α} {code : Code π α} {text : Text} {f : Frame α}
  {l : List (Match α)} {its : List (Iteration α)}

theorem Within.sound (hL : L.Within V code text) : L.Sound V code text where
  attempt := hL.attempt
  back := hL.back
  bounds := hL.bounds
  body := hL.body_sound
  carries := hL.carries
  trail hpc hd hf h := (hL.trail hpc hd hf).1 h

/-- Every iteration merges the attribute that it inherits, unless attributes are dropped. -/
theorem Sound.carries_threaded (hL : L.Sound V code text) {k o n : Nat} {a : Option α}
    (h : Unrolls L.iterates L.max k o a its) (hn : 0 < n) (hle : n ≤ its.length) :
    (if L.dropping then none else merge a (threadedAttr a its n)) = threadedAttr a its n := by
  induction h generalizing n with
  | fails _ => exact absurd hn (Nat.not_lt.2 hle)
  | last hit _ =>
    obtain rfl : n = 1 := Nat.le_antisymm hle hn
    exact hL.carries hit
  | @more k o a it its hit _ _ _ ih =>
    have hc := hL.carries hit
    obtain ⟨n, rfl⟩ : ∃ m, n = m + 1 := ⟨n - 1, by omega⟩
    rw [threadedAttr_succ]
    rcases Nat.eq_zero_or_pos n with rfl | hpos
    · rwa [threadedAttr_zero]
    have hrest := ih hpos (Nat.le_of_succ_le_succ hle)
    cases hd : L.dropping with
    | true => simpa [hd] using hrest
    | false =>
      simp only [hd, Bool.false_eq_true, if_false] at hrest hc ⊢
      rw [← hrest, ← hc]
      simp only [merge, Option.or_assoc, Option.or_self]

theorem Sound.keep_merge_threaded (hL : L.Sound V code text) (hd : f.dropping = L.dropping)
    {n : Nat} (h : Unrolls L.iterates L.max f.count f.index f.attr its) (hn : 0 < n)
    (hle : n ≤ its.length) :
    f.keep (merge f.attr (threadedAttr f.attr its n)) = threadedAttr f.attr its n := by
  rw [Frame.keep, hd]
  exact hL.carries_threaded h hn hle

/-- Once it is settled, an attribute that ought to have been dropped is gone. -/
theorem keep_settledAttr (f : Frame α) (a : Option α) (ms : List (Match α))
    (fold : Option (Action α)) (init : Option α) :
    f.keep (f.settledAttr a ms fold init) = f.settledAttr a ms fold init := by
  cases hd : f.dropping with
  | false => simp [Frame.keep, hd]
  | true =>
    cases fold with
    | none => simp [Frame.keep, Frame.settledAttr, hd]
    | some action =>
      have h : ∀ ms, List.foldl (foldStep true action) none ms = none := by
        intro ms
        induction ms with
        | nil => rfl
        | cons m ms ih => simpa [foldStep] using ih
      simp [Frame.keep, Frame.settledAttr, hd, h]

theorem Reached.leaveLoop_clean (hf : L.Reached f l) :
    (f.leaveLoop loopCapture (L.length + 2) L.fold L.init).IsClean := by
  unfold Frame.IsClean Frame.leaveLoop
  split
  · exact keep_settledAttr f _ _ _ _
  · exact hf.clean (Nat.pos_of_ne_zero ‹_›)

theorem Reached.recorded (hf : L.Reached f l) : f.captures.recorded loopCapture = l := by
  simp [Captures.recorded, hf.captures]

theorem Sound.clean_of_iterates (hL : L.Sound V code text) {o : Nat} {a : Option α}
    {it : Iteration α} (h : L.iterates o a (some it)) (hf : f.dropping = L.dropping)
    (hattr : f.attr = it.attr) : f.IsClean := by
  have hc := hL.carries h
  rw [Frame.IsClean, Frame.keep, hattr, hf]
  cases hd : L.dropping with
  | true => simpa [hd] using hc
  | false => simp

/-- The frame past the repetition, behind its last iteration. -/
def past (L : Loop α) (f : Frame α) (it : Iteration α) : Frame α :=
  { f.enterIteration.behind (L.address + 1 + L.length) it with
    pc := L.address + 1 + L.length + 1 }

theorem past_pc (it : Iteration α) : (L.past f it).pc = L.address + (L.length + 2) := by
  simp only [past]
  omega

theorem Sound.trail_past (hL : L.Sound V code text) (hf : L.Reached f l) {it : Iteration α}
    (hit : L.iterates f.index f.attr (some it)) {r : Option (Final α)}
    (h : Exec V code text (L.past f it) r) :
    ∃ e, L.follows it.stop e ∧
      r = e.map fun e => ⟨e, it.attr, f.captures.record loopCapture it.found⟩ :=
  hL.trail (past_pc it) hf.dropping (hL.clean_of_iterates hit hf.dropping rfl) h

theorem Within.trail_past (hL : L.Within V code text) (hf : L.Reached f l) {it : Iteration α}
    (hit : L.iterates f.index f.attr (some it)) {r : Option (Final α)} :
    Exec V code text (L.past f it) r ↔ ∃ e, L.follows it.stop e ∧
      r = e.map fun e => ⟨e, it.attr, f.captures.record loopCapture it.found⟩ :=
  hL.trail (f := L.past f it) (past_pc it) hf.dropping
    (hL.sound.clean_of_iterates hit hf.dropping rfl)

theorem Sound.trail_leaveLoop (hL : L.Sound V code text) (hf : L.Reached f l)
    {r : Option (Final α)}
    (h : Exec V code text (f.leaveLoop loopCapture (L.length + 2) L.fold L.init) r) :
    ∃ e, L.follows f.index e ∧ r = e.map fun e =>
      ⟨e, (f.leaveLoop loopCapture (L.length + 2) L.fold L.init).attr, f.captures⟩ :=
  hL.trail (f := f.leaveLoop loopCapture (L.length + 2) L.fold L.init) (congrArg (· + _) hf.pc)
    hf.dropping hf.leaveLoop_clean h

theorem Within.trail_leaveLoop (hL : L.Within V code text) (hf : L.Reached f l)
    {r : Option (Final α)} :
    Exec V code text (f.leaveLoop loopCapture (L.length + 2) L.fold L.init) r ↔
      ∃ e, L.follows f.index e ∧ r = e.map fun e =>
        ⟨e, (f.leaveLoop loopCapture (L.length + 2) L.fold L.init).attr, f.captures⟩ :=
  hL.trail (f := f.leaveLoop loopCapture (L.length + 2) L.fold L.init) (congrArg (· + _) hf.pc)
    hf.dropping hf.leaveLoop_clean

/-- The repetition goes as the attempt of its next iteration does. -/
theorem Sound.finished_of_attempted (hL : L.Sound V code text) (hf : L.Reached f l)
    (hits : Unrolls L.iterates L.max f.count f.index f.attr its) {r r' : Option (Final α)}
    (hr' : L.Attempted f l its r')
    (h : (∃ fin, r' = some fin ∧ r = some (f.afterIteration loopCapture L.fold L.init fin)) ∨
      (r' = none ∧ f.count < L.min ∧ r = none) ∨
      (r' = none ∧ L.min ≤ f.count ∧
        Exec V code text (f.leaveLoop loopCapture (L.length + 2) L.fold L.init) r)) :
    L.Finished f l its r := by
  rcases h with ⟨fin, rfl, rfl⟩ | ⟨rfl, hlt, rfl⟩ | ⟨rfl, hle, hout⟩
  · cases hr' with
    | @ends n _ hn hk hrec hattr =>
      refine .ends (n := n) hk hrec ?_
      have hm := hL.keep_merge_threaded hf.dropping hits hn hk.admissible.1
      simp only [Frame.afterIteration, hattr, hm, hrec]
  · cases hr' with
    | fails hno =>
      refine .fails fun n hn => ?_
      rcases Nat.eq_zero_or_pos n with rfl | hpos
      · exact absurd (admissible_zero_iff.1 hn) (Nat.not_le.2 hlt)
      · exact hno n hpos hn
  · cases hr' with
    | fails hno =>
      obtain ⟨e, he, rfl⟩ := hL.trail_leaveLoop hf hout
      cases e with
      | none =>
        refine .fails fun n hn => ?_
        rcases Nat.eq_zero_or_pos n with rfl | hpos
        · rw [offsetAfter_zero]
          exact he
        · exact hno n hpos hn
      | some e =>
        refine .ends (n := 0) (.none he hle hno) ?_ ?_
        · simpa [Frame.leaveLoop] using hf.recorded
        · simp [Frame.leaveLoop, hf.recorded]

/-- The frame back at the attempt of an iteration, behind an iteration. -/
def again (L : Loop α) (f : Frame α) (it : Iteration α) : Frame α :=
  { f.enterIteration.behind (L.address + 1 + L.length) it with
    pc := L.address + 1 + L.length - (L.length + 1) }

theorem Sound.reached_again (hL : L.Sound V code text) (hf : L.Reached f l) {it : Iteration α}
    (hit : L.iterates f.index f.attr (some it)) (hmax : L.max ≠ some (f.count + 1)) :
    L.Reached (L.again f it) (l ++ [it.found]) where
  pc := by
    show L.address + 1 + L.length - (L.length + 1) = L.address
    omega
  dropping := hf.dropping
  captures := by
    simp [again, Frame.behind, Frame.enterIteration, Captures.record, hf.captures]
  below m hm := by
    have := hf.below m hm
    have : m ≠ f.count + 1 := fun h => hmax (h ▸ hm)
    exact Nat.lt_of_le_of_ne ‹f.count < m› (Ne.symm this)
  clean _ := hL.clean_of_iterates hit hf.dropping rfl

/-- The attempt of an iteration is kept with the later iterations that are kept. -/
theorem Finished.attempted {it : Iteration α} {r : Option (Final α)} (hstop : it.stop ≠ f.index)
    (h : L.Finished (L.again f it) (l ++ [it.found]) its r) : L.Attempted f l (it :: its) r := by
  cases h with
  | fails hno =>
    refine .fails fun n hn ha => ?_
    obtain ⟨n, rfl⟩ : ∃ m, n = m + 1 := ⟨n - 1, by omega⟩
    exact hno n ((admissible_cons_iff hstop).1 ha)
  | @ends n fin hk hrec hattr =>
    refine .ends (Nat.succ_pos n) (hk.cons hstop) (by simpa using hrec) ?_
    rw [hattr, if_neg (show (L.again f it).count ≠ 0 from Nat.succ_ne_zero _)]
    rfl

/-- Whether the iteration just ended is the last one, as the machine asks it. -/
theorem Reached.last_iff (hf : L.Reached f l) (it : Iteration α) :
    (L.max.any (· ≤ f.count + 1) ∨ it.stop = f.index) ↔
      (L.max = some (f.count + 1) ∨ it.stop = f.index) := by
  refine or_congr_left ?_
  cases hm : L.max with
  | none => simp
  | some m =>
    have := hf.below m hm
    simp only [Option.any_some, decide_eq_true_eq, Option.some.injEq]
    omega

/-- The last iteration ends with what follows the repetition. -/
theorem Reached.attempted_last (hf : L.Reached f l) {it : Iteration α} {e : Option Nat}
    (he : L.follows it.stop e) (hmin : L.min ≤ f.count + 1 ∨ it.stop = f.index) :
    L.Attempted f l [it]
      (e.map fun e => ⟨e, it.attr, f.captures.record loopCapture it.found⟩) := by
  cases e with
  | none =>
    refine .fails fun n hn ha => ?_
    obtain rfl := ha.of_singleton hn
    exact he
  | some e =>
    refine .ends Nat.one_pos (.last he hmin) ?_ rfl
    exact (Captures.recorded_record_self hf.captures _).trans (by simp [hf.recorded])

/-- The attempt of an iteration runs through the unrolled repetition. -/
theorem Sound.attempted (hL : L.Sound V code text) {n : Nat} {r : Option (Final α)}
    (hf : L.Reached f l) (h : ExecIn V code text n f.enterIteration r) :
    ∃ its, Unrolls L.iterates L.max f.count f.index f.attr its ∧ L.Attempted f l its r := by
  -- An iteration that is not the last one ends in a smaller call at the next attempt.
  induction n using Nat.strongRecOn generalizing f l r with
  | ind n ih =>
    rcases hL.body (f := f.enterIteration) (congrArg (· + 1) hf.pc) hf.dropping h with
      ⟨hit, rfl⟩ | ⟨it, m, hit, hm, hrest⟩
    · exact ⟨[], .fails hit, .fails fun n hn ha => absurd ha.1 (Nat.not_le.2 hn)⟩
    obtain ⟨m', hm', ⟨hc, hend⟩ | ⟨hc, hne, hagain⟩⟩ := hrest.of_loopBack hL.back
    · have hlast := (hf.last_iff it).1 hc
      have hmin : L.min ≤ f.count + 1 ∨ it.stop = f.index := hlast.imp_left (hL.bounds _)
      obtain ⟨e, he, rfl⟩ := hL.trail_past hf hit hend.exec
      exact ⟨[it], .last hit hlast, hf.attempted_last he hmin⟩
    · have hlast := not_or.1 (mt (hf.last_iff it).2 (not_or.2 ⟨hc, hne⟩))
      have hg := hL.reached_again hf hit hlast.1
      obtain ⟨m'', r', hm'', hin, hr'⟩ :=
        (show ExecIn V code text m' (L.again f it) r from hagain).of_loopTry
          (hg.pc ▸ hL.attempt)
      obtain ⟨its, hits, hatt⟩ := ih m'' (by omega) hg hin
      exact ⟨it :: its, .more hit hlast.1 hlast.2 hits,
        (hL.finished_of_attempted hg hits hatt hr').attempted hlast.2⟩

/-- A call at the repetition keeps the most iterations of the unrolled repetition that it may. -/
theorem Sound.finished (hL : L.Sound V code text) {r : Option (Final α)} (hf : L.Reached f l)
    (h : Exec V code text f r) :
    ∃ its, Unrolls L.iterates L.max f.count f.index f.attr its ∧ L.Finished f l its r := by
  obtain ⟨n, hn⟩ := h.height
  obtain ⟨m, r', -, hin, hr'⟩ := hn.of_loopTry (hf.pc ▸ hL.attempt)
  obtain ⟨its, hits, hatt⟩ := hL.attempted hf hin
  exact ⟨its, hits, hL.finished_of_attempted hf hits hatt hr'⟩

theorem Within.finished (hL : L.Within V code text) {r : Option (Final α)} (hf : L.Reached f l)
    (h : Exec V code text f r) :
    ∃ its, Unrolls L.iterates L.max f.count f.index f.attr its ∧ L.Finished f l its r :=
  hL.sound.finished hf h

/-! ## The call comes to an end -/

/-- An attempt that came to an end lets the repetition come to an end, if what follows does where no
further iteration can be kept. -/
theorem Within.exists_finished_of_attempted (hL : L.Within V code text) (hf : L.Reached f l)
    (hits : Unrolls L.iterates L.max f.count f.index f.attr its)
    (hT : ∀ n, Admissible L.min f.count f.index its n →
      (∀ n', n < n' → Admissible L.min f.count f.index its n' →
        L.follows (offsetAfter f.index its n') none) →
      ∃ e, L.follows (offsetAfter f.index its n) e)
    (h : ∃ r, Exec V code text f.enterIteration r ∧ L.Attempted f l its r) :
    ∃ r, Exec V code text f r ∧ L.Finished f l its r := by
  have hi := hf.pc ▸ hL.attempt
  obtain ⟨r, hr, hatt⟩ := h
  cases r with
  | some fin =>
    exact ⟨_, .kept hi hr, hL.sound.finished_of_attempted hf hits hatt (.inl ⟨fin, rfl, rfl⟩)⟩
  | none =>
    rcases Nat.lt_or_ge f.count L.min with hlt | hge
    · exact ⟨_, .tooFew hi hr hlt,
        hL.sound.finished_of_attempted hf hits hatt (.inr (.inl ⟨rfl, hlt, rfl⟩))⟩
    · obtain ⟨e, he⟩ : ∃ e, L.follows f.index e := by
        cases hatt with
        | fails hno => simpa using hT 0 (admissible_zero_iff.2 hge) hno
      have hout := (hL.trail_leaveLoop hf).2 ⟨e, he, rfl⟩
      exact ⟨_, .left hi hr hge hout,
        hL.sound.finished_of_attempted hf hits hatt (.inr (.inr ⟨rfl, hge, hout⟩))⟩

/-- The call at a repetition that unrolls comes to an end if what follows does after every number of
iterations that may be kept and is not passed over for more of them. -/
theorem Within.exists_finished (hL : L.Within V code text) (hf : L.Reached f l)
    (hits : Unrolls L.iterates L.max f.count f.index f.attr its)
    (hT : ∀ n, Admissible L.min f.count f.index its n →
      (∀ n', n < n' → Admissible L.min f.count f.index its n' →
        L.follows (offsetAfter f.index its n') none) →
      ∃ e, L.follows (offsetAfter f.index its n) e) :
    ∃ r, Exec V code text f r ∧ L.Finished f l its r := by
  refine hL.exists_finished_of_attempted hf hits hT ?_
  have hbody : f.enterIteration.pc = L.address + 1 := congrArg (· + 1) hf.pc
  generalize hk : f.count = k, ho : f.index = o, ha : f.attr = a at hits
  induction hits generalizing f l with
  | fails hit =>
    subst hk ho ha
    exact ⟨_, hL.body_fails hbody hf.dropping hit,
      .fails fun n hn had => absurd had.1 (Nat.not_le.2 hn)⟩
  | @last k o a it hit hlast =>
    subst hk ho ha
    have hmin : L.min ≤ f.count + 1 ∨ it.stop = f.index := hlast.imp_left (hL.bounds _)
    obtain ⟨e, he⟩ := hT 1 (admissible_last hmin) fun n' hn had => absurd had.1 (Nat.not_le.2 hn)
    refine ⟨_, hL.body_ends hbody hf.dropping hit <|
      .step (.loopEnds hL.back ((hf.last_iff it).2 hlast)) <|
        (hL.trail_past hf hit).2 ⟨e, he, rfl⟩, ?_⟩
    exact hf.attempted_last he hmin
  | @more k o a it its hit hmax hstop hrest ih =>
    subst hk ho ha
    have hc := not_or.1 (mt (hf.last_iff it).1 (not_or.2 ⟨hmax, hstop⟩))
    have hg := hL.sound.reached_again hf hit hmax
    have hTg : ∀ n, Admissible L.min (L.again f it).count (L.again f it).index its n →
        (∀ n', n < n' → Admissible L.min (L.again f it).count (L.again f it).index its n' →
          L.follows (offsetAfter (L.again f it).index its n') none) →
        ∃ e, L.follows (offsetAfter (L.again f it).index its n) e := by
      intro n hn hno
      refine hT (n + 1) ((admissible_cons_iff hstop).2 hn) fun n' hn' had => ?_
      obtain ⟨n', rfl⟩ : ∃ m, n' = m + 1 := ⟨n' - 1, by omega⟩
      exact hno n' (by omega) ((admissible_cons_iff hstop).1 had)
    obtain ⟨r, hr, hfin⟩ := hL.exists_finished_of_attempted hg hrest hTg
      (ih hg hTg (congrArg (· + 1) hg.pc) rfl rfl rfl)
    have hback : L.length + 1 ≤ L.address + 1 + L.length := by omega
    exact ⟨r, hL.body_ends hbody hf.dropping hit
      (.step (.loopAgain hL.back hc.1 hc.2 hback) hr), hfin.attempted hstop⟩

/-- The call at a repetition that unrolls comes to an end if what follows does after as many
iterations as may be kept. -/
theorem Within.exists_exec (hL : L.Within V code text) (hf : L.Reached f l)
    (hits : Unrolls L.iterates L.max f.count f.index f.attr its)
    (hT : ∀ n, Admissible L.min f.count f.index its n →
      ∃ e, L.follows (offsetAfter f.index its n) e) : ∃ r, Exec V code text f r := by
  obtain ⟨r, hr, -⟩ := hL.exists_finished hf hits fun n hn _ => hT n hn
  exact ⟨r, hr⟩

end

end Loop

end GrammarMachine
