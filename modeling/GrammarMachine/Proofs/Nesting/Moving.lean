import GrammarMachine.Proofs.Nesting.Links

/-!
# Moving code

Jumps are relative, so code does the same behind any other code. An offset at which a call began is
looked at inside a loop alone, where it is that of the iteration.

* `Loops`: the jumps of the code lead to the code again, and one loop is entered and left by them.
* `Exec.moved`: a call of code that stands elsewhere ends as the call does.
* `Ending.loops`: the instructions of a grammar behind the first skip are such code.
-/

namespace GrammarMachine

variable {π α : Type}

/-- The jumps of the code `is` stay in it. Its loop covers the addresses `inside`. -/
structure Loops (is : List (Instr π α)) (inside : Nat → Prop) : Prop where
  /-- An iteration ends inside the loop. -/
  back : ∀ k n max, is[k]? = some (.loopBack n max) → n ≤ k ∧ inside k
  /-- The loop is entered by the attempt of an iteration alone. -/
  entered : ∀ k i, is[k]? = some i → (∀ c min exit fold init, i ≠ .loopTry c min exit fold init) →
    inside (k + 1) → inside k
  /-- The exit of an attempt leads out of the loop. -/
  left : ∀ k c min exit fold init, is[k]? = some (.loopTry c min exit fold init) →
    ¬ inside (k + exit)

section

variable {V : Verdicts π α} {text : Text} {p q is : List (Instr π α)} {ignore : Option π}
  {n m k s : Nat} {inside : Nat → Prop} {f : Frame α}

theorem getElem?_moved {pc : Nat} {i : Option (Instr π α)} (hpc : pc = p.length + k)
    (h : (p ++ is)[pc]? = i) : is[k]? = i ∧ (q ++ is)[q.length + k]? = i := by
  have hat (p : List (Instr π α)) : (p ++ is)[p.length + k]? = is[k]? := by
    rw [List.getElem?_append_right (Nat.le_add_right _ _), Nat.add_sub_cancel_left]
  rw [hpc, hat] at h
  exact ⟨h, (hat q).trans h⟩

/-- A step leads to the same address of the code, wherever that stands. -/
theorem Step.moved (hl : Loops is inside) {f' : Frame α}
    (h : Step V ⟨p ++ is, ignore, n⟩ text f (some f')) (hpc : f.pc = p.length + k)
    (hs : inside k → s = f.start) :
    ∃ k', f'.pc = p.length + k' ∧ (inside k' → s = f'.start) ∧
      Step V ⟨q ++ is, ignore, m⟩ text { f with pc := q.length + k, start := s }
        (some { f' with pc := q.length + k', start := s }) := by
  have hsucc : f.pc + 1 = p.length + (k + 1) := by rw [hpc, Nat.add_assoc]
  have hinside {i : Instr π α} (hi : (p ++ is)[f.pc]? = some i)
      (hne : ∀ c min exit fold init, i ≠ .loopTry c min exit fold init) :
      inside (k + 1) → s = f.start :=
    fun hin => hs (hl.entered k i (getElem?_moved (q := q) hpc hi).1 hne hin)
  cases h with
  | consume hi hm hk =>
    exact ⟨k + 1, hsucc, hinside hi nofun, .consume (getElem?_moved hpc hi).2 hm hk⟩
  | loopStart hi hc =>
    exact ⟨k + 1, hsucc, hinside hi nofun, .loopStart (getElem?_moved hpc hi).2 hc⟩
  | @loopEnds back max hi hc =>
    have hin := (hl.back k back max (getElem?_moved (q := q) hpc hi).1).2
    refine ⟨k + 1, hsucc, hinside hi nofun, .loopEnds (getElem?_moved hpc hi).2 ?_⟩
    rwa [hs hin]
  | @loopAgain back max hi hm hx _ =>
    obtain ⟨hle, hin⟩ := hl.back k back max (getElem?_moved (q := q) hpc hi).1
    obtain rfl := hs hin
    refine ⟨k - back, by dsimp only; omega, fun _ => rfl, ?_⟩
    have hstep : Step V ⟨q ++ is, ignore, m⟩ text { f with pc := q.length + k, start := f.start }
        (some { f with pc := q.length + k - back, start := f.start }) :=
      .loopAgain (getElem?_moved hpc hi).2 hm hx (by dsimp only; omega)
    rwa [Nat.add_sub_assoc hle] at hstep
  | choice hi hm hk =>
    exact ⟨k + 1, hsucc, hinside hi nofun, .choice (getElem?_moved hpc hi).2 hm hk⟩
  | ahead hi hm ho =>
    exact ⟨k + 1, hsucc, hinside hi nofun, .ahead (getElem?_moved hpc hi).2 hm ho⟩
  | guard hi hc =>
    exact ⟨k + 1, hsucc, hinside hi nofun, .guard (getElem?_moved hpc hi).2 hc⟩
  | assign hi => exact ⟨k + 1, hsucc, hinside hi nofun, .assign (getElem?_moved hpc hi).2⟩
  | transform hi => exact ⟨k + 1, hsucc, hinside hi nofun, .transform (getElem?_moved hpc hi).2⟩
  | dropAttributes hi =>
    exact ⟨k + 1, hsucc, hinside hi nofun, .dropAttributes (getElem?_moved hpc hi).2⟩
  | skip hi hk => exact ⟨k + 1, hsucc, hinside hi nofun, .skip (getElem?_moved hpc hi).2 hk⟩
  | keyword hi hf hw hk =>
    exact ⟨k + 1, hsucc, hinside hi nofun, .keyword (getElem?_moved hpc hi).2 hf hw hk⟩

theorem Step.moved_none (h : Step V ⟨p ++ is, ignore, n⟩ text f none)
    (hpc : f.pc = p.length + k) :
    Step V ⟨q ++ is, ignore, m⟩ text { f with pc := q.length + k, start := s } none := by
  cases h with
  | consumeFails hi hm => exact .consumeFails (getElem?_moved hpc hi).2 hm
  | choiceFails hi hm => exact .choiceFails (getElem?_moved hpc hi).2 hm
  | aheadFails hi hm ho => exact .aheadFails (getElem?_moved hpc hi).2 hm ho
  | guardFails hi hc => exact .guardFails (getElem?_moved hpc hi).2 hc
  | keywordFails hi hf => exact .keywordFails (getElem?_moved hpc hi).2 hf

/-- Behind other code, a call ends as it does here. -/
theorem Exec.moved (hl : Loops is inside) {r : Option (Final α)}
    (h : Exec V ⟨p ++ is, ignore, n⟩ text f r) (hpc : f.pc = p.length + k)
    (hs : inside k → s = f.start) :
    Exec V ⟨q ++ is, ignore, m⟩ text { f with pc := q.length + k, start := s } r := by
  have henter {f : Frame α} {k : Nat} (hpc : f.pc = p.length + k) :
      f.enterIteration.pc = p.length + (k + 1) := by
    rw [Frame.enterIteration, hpc, Nat.add_assoc]
  induction h generalizing k s with
  | @halt f hi => exact .halt (getElem?_moved hpc hi).2
  | step hstep _ ih =>
    obtain ⟨k', hpc', hs', hsteq⟩ := hstep.moved (q := q) (m := m) hl hpc hs
    exact .step hsteq (ih hpc' hs')
  | fail hstep => exact .fail (hstep.moved_none hpc)
  | @kept f capture min exit fold init r hi _ ih =>
    -- An iteration begins where the call is, so inside the loop both calls began at one offset.
    have hin := ih (s := f.index) (henter hpc) fun _ => rfl
    exact .kept (getElem?_moved hpc hi).2 hin
  | @tooFew f capture min exit fold init hi _ hm ih =>
    exact .tooFew (getElem?_moved hpc hi).2 (ih (s := f.index) (henter hpc) fun _ => rfl) hm
  | @left f capture min exit fold init r hi _ hm _ ih ih' =>
    have hi' := getElem?_moved (q := q) hpc hi
    have hout := ih' (k := k + exit) (s := s) (by rw [Frame.leaveLoop, hpc, Nat.add_assoc])
      fun hin => absurd hin (hl.left k capture min exit fold init hi'.1)
    refine .left hi'.2 (ih (s := f.index) (henter hpc) fun _ => rfl) hm ?_
    rw [← Nat.add_assoc] at hout
    exact hout

end

/-! ## Grammars -/

/-- Where only one instruction of some kind is found. -/
theorem eq_of_getElem?_append {β : Type} (P : β → Prop) (xs : List β) {ys : List β} {x y : β}
    {k : Nat}
    (h : (xs ++ x :: ys)[k]? = some y) (hy : P y) (hxs : ∀ z ∈ xs, ¬ P z) (hys : ∀ z ∈ ys, ¬ P z) :
    k = xs.length ∧ y = x := by
  rcases Nat.lt_trichotomy k xs.length with hlt | rfl | hgt
  · rw [List.getElem?_append_left hlt] at h
    exact absurd hy (hxs _ (List.mem_of_getElem? h))
  · rw [List.getElem?_append_right (Nat.le_refl _), Nat.sub_self] at h
    exact ⟨rfl, (Option.some.inj h).symm⟩
  · obtain ⟨j, rfl⟩ := Nat.exists_eq_add_of_lt hgt
    rw [List.getElem?_append_right (by omega),
      show xs.length + j + 1 - xs.length = j + 1 by omega] at h
    exact absurd hy (hys _ (List.mem_of_getElem? h))

/-- Whether the instruction attempts an iteration. -/
def Instr.Attempts : Instr π α → Prop
  | .loopTry _ _ _ _ _ => True
  | _ => False

/-- Whether the instruction ends an iteration. -/
def Instr.Returns : Instr π α → Prop
  | .loopBack _ _ => True
  | _ => False

/-- Whether the instruction is none of a loop's own. -/
def Instr.IsInLine : Instr π α → Prop
  | .loopStart _ | .loopTry _ _ _ _ _ | .loopBack _ _ => False
  | _ => True

theorem Instr.IsInLine.no_jump {i : Instr π α} (h : i.IsInLine) : ¬ i.Attempts ∧ ¬ i.Returns := by
  cases i <;> simp_all [IsInLine, Attempts, Returns]

theorem Instr.IsStraight.isInLine {i : Instr π α} (h : i.IsStraight) : i.IsInLine := by
  cases i <;> simp_all [IsStraight, IsInLine]

theorem Instr.IsToken.isInLine {i : Instr (Pattern α) α} (h : i.IsToken) : i.IsInLine := by
  obtain ⟨p, c, -, rfl⟩ := h
  trivial

theorem loops_of_isStraight {is : List (Instr π α)} (h : ∀ i ∈ is, i.IsStraight) :
    Loops is fun _ => False where
  back _ _ _ hi := (h _ (List.mem_of_getElem? hi)).elim
  entered _ _ _ _ hin := hin
  left _ _ _ _ _ _ _ hin := hin

/-- A repetition with no loop in its parts. -/
structure Repetition.IsSingle (r : Repetition α) : Prop where
  opening : ∀ i ∈ r.opening, i.IsInLine
  body : ∀ i ∈ r.body, i.IsInLine
  trail : ∀ i ∈ r.trail, i.IsInLine

theorem Repetition.OfTokens.isSingle {r : Repetition α} (hr : r.OfTokens) : r.IsSingle where
  opening i hi := (hr.opening i hi).isInLine
  body i hi := (hr.body i hi).isInLine
  trail i hi := (hr.trail i hi).isInLine

namespace Repetition.IsSingle

variable {r : Repetition α} {is : List (Instr (Pattern α) α)} {k : Nat}

theorem no_jump_front (hr : r.IsSingle) (h : ∀ i ∈ is, i.IsInLine) :
    ∀ i ∈ is ++ .loopStart loopCapture :: r.opening, ¬ i.Attempts ∧ ¬ i.Returns := by
  intro i hi
  rcases List.mem_append.1 hi with hi | hi
  · exact (h i hi).no_jump
  · rcases List.mem_cons.1 hi with rfl | hi
    · exact ⟨id, id⟩
    · exact (hr.opening i hi).no_jump

theorem length_front (r : Repetition α) (is : List (Instr (Pattern α) α)) :
    (is ++ .loopStart loopCapture :: r.opening).length = is.length + r.opening.length + 1 := by
  simp only [List.length_append, List.length_cons]
  omega

theorem getElem?_loopTry (r : Repetition α) (is : List (Instr (Pattern α) α)) :
    (is ++ r.loopInstrs)[is.length + r.opening.length + 1]? =
      some (.loopTry loopCapture r.min (r.body.length + 2) r.fold r.init) := by
  rw [← length_front]
  simp [loopInstrs]

theorem getElem?_loopBack (r : Repetition α) (is : List (Instr (Pattern α) α)) :
    (is ++ r.loopInstrs)[is.length + r.opening.length + 1 + (r.body.length + 1)]? =
      some (.loopBack (r.body.length + 1) r.max) := by
  have hat (xs : List (Instr (Pattern α) α)) (x : Instr (Pattern α) α) :
      (xs ++ x :: r.trail)[xs.length]? = some x := by simp
  have hback := hat ((is ++ .loopStart loopCapture :: r.opening) ++
    .loopTry loopCapture r.min (r.body.length + 2) r.fold r.init :: r.body)
    (.loopBack (r.body.length + 1) r.max)
  rw [List.length_append, length_front, List.length_cons] at hback
  rw [← hback, loopInstrs]
  simp only [List.append_assoc, List.cons_append]

/-- Iterations are attempted behind what precedes the first one. -/
theorem of_attempts (hr : r.IsSingle) (h : ∀ i ∈ is, i.IsInLine) {i : Instr (Pattern α) α}
    (hi : (is ++ r.loopInstrs)[k]? = some i) (ha : i.Attempts) :
    k = is.length + r.opening.length + 1 ∧
      i = .loopTry loopCapture r.min (r.body.length + 2) r.fold r.init := by
  rw [← length_front r is]
  have hsplit : ((is ++ .loopStart loopCapture :: r.opening) ++
      .loopTry loopCapture r.min (r.body.length + 2) r.fold r.init ::
        (r.body ++ .loopBack (r.body.length + 1) r.max :: r.trail))[k]? = some i := by
    simpa [loopInstrs] using hi
  refine eq_of_getElem?_append Instr.Attempts _ hsplit ha
    (fun z hz => (hr.no_jump_front h z hz).1) fun z hz => ?_
  rcases List.mem_append.1 hz with hz | hz
  · exact (hr.body z hz).no_jump.1
  · rcases List.mem_cons.1 hz with rfl | hz
    · exact id
    · exact (hr.trail z hz).no_jump.1

/-- Iterations end behind their bodies. -/
theorem of_returns (hr : r.IsSingle) (h : ∀ i ∈ is, i.IsInLine) {i : Instr (Pattern α) α}
    (hi : (is ++ r.loopInstrs)[k]? = some i) (hb : i.Returns) :
    k = is.length + r.opening.length + 1 + (r.body.length + 1) ∧
      i = .loopBack (r.body.length + 1) r.max := by
  have hsplit : (((is ++ .loopStart loopCapture :: r.opening) ++
      .loopTry loopCapture r.min (r.body.length + 2) r.fold r.init :: r.body) ++
        .loopBack (r.body.length + 1) r.max :: r.trail)[k]? = some i := by
    simpa [loopInstrs] using hi
  have hat := eq_of_getElem?_append Instr.Returns _ hsplit hb (fun z hz => ?_)
    fun z hz => (hr.trail z hz).no_jump.2
  · rwa [List.length_append, length_front, List.length_cons] at hat
  · rcases List.mem_append.1 hz with hz | hz
    · exact (hr.no_jump_front h z hz).2
    · rcases List.mem_cons.1 hz with rfl | hz
      · exact id
      · exact (hr.body z hz).no_jump.2

/-- The loop behind straight code goes from the first instruction of an iteration to the last. -/
theorem loops (hr : r.IsSingle) (h : ∀ i ∈ is, i.IsInLine) :
    Loops (is ++ r.loopInstrs) fun k =>
      is.length + r.opening.length + 1 < k ∧
        k ≤ is.length + r.opening.length + 1 + (r.body.length + 1) where
  back k n max hi := by
    obtain ⟨rfl, he⟩ := hr.of_returns h hi trivial
    cases he
    omega
  entered k i hi hne hin := by
    have htop : k ≠ is.length + r.opening.length + 1 := by
      rintro rfl
      exact hne _ _ _ _ _ (Option.some.inj (hi.symm.trans (getElem?_loopTry r is)))
    omega
  left k c min exit fold init hi hin := by
    obtain ⟨rfl, he⟩ := hr.of_attempts h hi trivial
    cases he
    omega

end Repetition.IsSingle

theorem Seal.isSingle (s : Seal α) (g : Grammar α) (fold : Option (Action α × Option α))
    (ts : List Terminal) : (((s.repetition g).folding fold).followedBy ts).IsSingle := by
  cases s <;> cases fold <;> constructor <;>
    simp [Seal.repetition, Repetition.folding, Repetition.followedBy_eq, Repetition.withFold,
      Grammar.repeated, Grammar.tokenDelimited, Instr.token, Instr.IsInLine]

/-- The loop of a grammar does not begin with the first instruction behind the first skip. -/
theorem Ending.loops (e : Ending α) {is : List (Instr (Pattern α) α)}
    (h : ∀ i ∈ is, i.IsStraight) :
    ∃ inside : Nat → Prop, Loops (is ++ e.instrs) inside ∧ ¬ inside 0 := by
  cases e with
  | chain => exact ⟨_, by simpa [instrs] using loops_of_isStraight h, id⟩
  | sealed s fold ts =>
    refine ⟨_, (s.isSingle Grammar.empty fold ts).loops fun i hi => (h i hi).isInLine, ?_⟩
    exact fun hin => Nat.not_lt_zero _ hin.1

end GrammarMachine
