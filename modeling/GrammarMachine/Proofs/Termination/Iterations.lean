import GrammarMachine.Proofs.Safety.Parts

/-!
# How many iterations a repetition completes

An iteration is completed where the jump at its end is executed, be it in an attempt that is
abandoned later. Every iteration is attempted in a call of its own, in which all further ones are
nested, and which one of them is the last is known only inside. So what is counted is how many may
still follow an offset: another one follows only further ahead. The patterns of a repetition are
found only where a character begins, so nothing needs to be known about where the run begins.

* `CompletesWithin`: the events of a run with at most one repetition, which completes no more
  iterations than there are bytes behind its beginning, and one more.
* `exec_walk`: instructions in a row. `exec_iterations`: the attempt of an iteration.
* `Program.LoopsAt`: the addresses of a repetition. `Repetition.IsComposed.loopsAt`: they are there.
* `Piece.Built.iterations_bounded`: a run and all that it comes by, without forward references.
-/

namespace GrammarMachine

variable {π α β γ : Type}

/-! ## Counting -/

namespace Event

/-- Whether a repetition begins. -/
def beginsLoop : Event π α → Bool
  | .executed _ _ (.loopStart _) => true
  | _ => false

/-- Whether an iteration is completed: the jump at its end is executed. -/
def endsIteration : Event π α → Bool
  | .executed _ _ (.loopBack _ _) => true
  | _ => false

/-- The event tells of neither. -/
def IsQuiet (ev : Event π α) : Prop := ev.beginsLoop = false ∧ ev.endsIteration = false

theorem isQuiet_of_isExecution {ev : Event π α} (h : ev.isExecution = false) : ev.IsQuiet := by
  cases ev with
  | executed => cases h
  | _ => exact ⟨rfl, rfl⟩

theorem isQuiet_of_isAside {ev : Event π α} (h : ev.isAside) : ev.IsQuiet :=
  isQuiet_of_isExecution (isAside_iff.1 h).1

theorem isQuiet_executed {x : Instr π α} (hs : ¬ x.Starts) (hr : ¬ x.Returns) (pc o : Nat) :
    (executed pc o x).IsQuiet := by
  cases x with
  | loopStart => exact absurd trivial hs
  | loopBack => exact absurd trivial hr
  | _ => exact ⟨rfl, rfl⟩

end Event

/-- No repetition begins in the events, and at most `n` iterations are completed. -/
structure CompletesAtMost (n : Nat) (es : List (Event π α)) : Prop where
  begins : es.countP Event.beginsLoop = 0
  ends : es.countP Event.endsIteration ≤ n

/-- The events of a run in which at most one repetition begins. It completes at most as many
iterations as there are bytes behind the offset where it begins, and one more; without a repetition
no iteration is completed. -/
inductive CompletesWithin (text : Text) : List (Event π α) → Prop
  | without {es} : (∀ ev ∈ es, ev.IsQuiet) → CompletesWithin text es
  | within {es es' pc o capture} : (∀ ev ∈ es, ev.IsQuiet) →
      CompletesAtMost (text.byteLength - o + 1) es' →
      CompletesWithin text (es ++ .executed pc o (.loopStart capture) :: es')

namespace CompletesAtMost

variable {n n' : Nat} {es es' : List (Event π α)}

theorem mono (h : CompletesAtMost n es) (hn : n ≤ n') : CompletesAtMost n' es :=
  ⟨h.begins, Nat.le_trans h.ends hn⟩

theorem of_quiet (h : ∀ ev ∈ es, ev.IsQuiet) : CompletesAtMost 0 es where
  begins := List.countP_eq_zero.2 fun ev hev => by simp [(h ev hev).1]
  ends := Nat.le_of_eq (List.countP_eq_zero.2 fun ev hev => by simp [(h ev hev).2])

theorem append (h : CompletesAtMost n es) (h' : CompletesAtMost n' es') :
    CompletesAtMost (n + n') (es ++ es') where
  begins := by rw [List.countP_append, h.begins, h'.begins]
  ends := by
    rw [List.countP_append]
    exact Nat.add_le_add h.ends h'.ends

theorem quiet_append (hes : ∀ ev ∈ es, ev.IsQuiet) (h : CompletesAtMost n es') :
    CompletesAtMost n (es ++ es') := (of_quiet hes).append h |>.mono (Nat.le_of_eq (Nat.zero_add n))

theorem append_quiet (h : CompletesAtMost n es) (hes : ∀ ev ∈ es', ev.IsQuiet) :
    CompletesAtMost n (es ++ es') := h.append (of_quiet hes)

theorem quiet_cons {ev : Event π α} (hev : ev.IsQuiet) (h : CompletesAtMost n es) :
    CompletesAtMost n (ev :: es) := quiet_append (List.forall_mem_singleton.2 hev) h

theorem loopBack_cons {pc o back : Nat} {max : Option Nat} (h : CompletesAtMost n es) :
    CompletesAtMost (n + 1) (.executed pc o (.loopBack back max) :: es) where
  begins := h.begins
  ends := by
    rw [List.countP_cons_of_pos rfl]
    exact Nat.succ_le_succ h.ends

end CompletesAtMost

/-! ## Instructions in a row -/

section

variable {probe : Probe π α} {code : Code π α} {text : Text} {f : Frame α}
  (hprobe : ∀ p i a, ∃ r, (probe p i a).Writes r [])

include hprobe

/-- With a silent probe an instruction writes its execution and quiet events. -/
theorem exec_step_quiet {x : Instr π α} (hi : code.instrs[f.pc]? = some x) (hx : ¬ x.Attempts)
    (text : Text) (fuel : Nat) :
    ∃ es : List (Event π α), (∀ ev ∈ es, ev.IsQuiet) ∧
      ((∃ r, (exec probe code text (fuel + 1) f).Writes r (.executed f.pc f.index x :: es)) ∨
      ∃ g, Step probe.verdicts code text f (some g) ∧
        ∀ r es', (exec probe code text fuel g).Writes r es' →
          (exec probe code text (fuel + 1) f).Writes r
            (.executed f.pc f.index x :: (es ++ es'))) := by
  obtain ⟨es, hes, h⟩ := exec_step_writes
    (fun p i a => (hprobe p i a).imp fun _ hr => ⟨[], hr⟩) hi hx text fuel
  exact ⟨es, fun ev hev => Event.isQuiet_of_isAside ((hes ev hev).isAside hprobe),
    h.imp_left fun ⟨e, he⟩ => ⟨_, he⟩⟩

variable (code text) in
/-- Instructions in a row are quiet. The call stops on the way, or it comes to the end of the row,
with an invariant `P` that steps within the row keep. -/
theorem exec_walk {k : Nat} {P : Frame α → Prop}
    (hin : ∀ j x, f.pc ≤ j → j < k → code.instrs[j]? = some x → x.IsInLine)
    (hP : ∀ g h : Frame α, f.pc ≤ g.pc → g.pc < k → P g →
      Step probe.verdicts code text g (some h) → P h)
    (hf : P f) (hle : f.pc ≤ k) (fuel : Nat) :
    ∃ es : List (Event π α), (∀ ev ∈ es, ev.IsQuiet) ∧
      ((∃ r, (exec probe code text fuel f).Writes r es) ∨
      ∃ g fuel', fuel' ≤ fuel ∧ g.pc = k ∧ P g ∧
        ∀ r es', (exec probe code text fuel' g).Writes r es' →
          (exec probe code text fuel f).Writes r (es ++ es')) := by
  induction fuel generalizing f with
  | zero =>
    rcases Nat.eq_or_lt_of_le hle with hpc | -
    · exact ⟨[], List.forall_mem_nil _, .inr ⟨f, 0, Nat.le_refl 0, hpc, hf, fun r es' h => h⟩⟩
    · exact ⟨[], List.forall_mem_nil _, .inl ⟨_, .throw _⟩⟩
  | succ fuel ih =>
    rcases Nat.eq_or_lt_of_le hle with hpc | hlt
    · exact ⟨[], List.forall_mem_nil _, .inr ⟨f, _, Nat.le_refl _, hpc, hf, fun r es' h => h⟩⟩
    cases hi : code.instrs[f.pc]? with
    | none =>
      refine ⟨[], List.forall_mem_nil _, .inl ⟨.ok ⟨f.index, f.attr, f.captures⟩, ?_⟩⟩
      rw [exec, hi]
      exact .pure _
    | some x =>
      have hx := hin f.pc x (Nat.le_refl _) hlt hi
      have hhere : (Event.executed f.pc f.index x : Event π α).IsQuiet :=
        Event.isQuiet_executed hx.not_starts hx.no_jump.2 _ _
      obtain ⟨es, hes, hstop | ⟨g, hs, hon⟩⟩ := exec_step_quiet hprobe hi hx.no_jump.1 text fuel
      · exact ⟨_, List.forall_mem_cons.2 ⟨hhere, hes⟩, .inl hstop⟩
      obtain ⟨-, -, -, ⟨hpc, -⟩ | ⟨back, max, hback, -⟩⟩ := hs.pc_captures
      · obtain ⟨es', hes', hgo⟩ := ih (f := g) (fun j y hj => hin j y (by omega))
          (fun g' h hg' => hP g' h (by omega)) (hP f g (Nat.le_refl _) hlt hf hs) (by omega)
        refine ⟨.executed f.pc f.index x :: (es ++ es'), List.forall_mem_cons.2 ⟨hhere,
          fun ev hev => (List.mem_append.1 hev).elim (hes ev) (hes' ev)⟩, ?_⟩
        rcases hgo with ⟨r, hr⟩ | ⟨h, fuel', hfuel, hh, hPh, hgo⟩
        · exact .inl ⟨r, hon r es' hr⟩
        · refine .inr ⟨h, fuel', by omega, hh, hPh, fun r es'' hr => ?_⟩
          rw [List.cons_append, List.append_assoc]
          exact hon r _ (hgo r es'' hr)
      · exact absurd trivial ((hin f.pc _ (Nat.le_refl _) hlt hback).no_jump.2)

variable (code text) in
/-- Behind a repetition a call is quiet. -/
theorem exec_behind (hin : ∀ j x, f.pc ≤ j → code.instrs[j]? = some x → x.IsInLine) (fuel : Nat) :
    ∃ r es, (exec probe code text fuel f).Writes r es ∧ ∀ ev ∈ es, ev.IsQuiet := by
  obtain ⟨es, hes, ⟨r, hr⟩ | ⟨g, fuel', -, hpc, -, hon⟩⟩ :=
    exec_walk code text hprobe (k := f.pc + code.instrs.length) (P := fun _ => True)
      (fun j x hj _ => hin j x hj) (fun _ _ _ _ _ _ => trivial) trivial (Nat.le_add_right _ _) fuel
  · exact ⟨r, es, hr, hes⟩
  · obtain ⟨r, hr⟩ : ∃ r, (exec probe code text fuel' g).Writes r [] := by
      cases fuel' with
      | zero => exact ⟨_, .throw _⟩
      | succ fuel' =>
        have hend : code.instrs[g.pc]? = none := List.getElem?_eq_none (by omega)
        rw [exec, hend]
        exact ⟨_, .pure _⟩
    exact ⟨r, _, hon r [] hr, by simpa using hes⟩

end

/-! ## The addresses of a repetition -/

/-- The code has its repetition at these addresses: it begins at `a`, iterations are attempted at
`t` and end at `b`. Its parts consume patterns that are found only where a character begins. -/
structure Program.LoopsAt (code : Program α) (a t b : Nat) : Prop where
  begin_lt : a < t
  attempt_lt : t < b
  start : ∃ c, code.instrs[a]? = some (.loopStart c)
  attempt : ∃ c min fold init, code.instrs[t]? = some (.loopTry c min (b + 1 - t) fold init)
  back : ∃ max, code.instrs[b]? = some (.loopBack (b - t) max)
  inLine : ∀ (k : Nat) x, k ≠ a → k ≠ t → k ≠ b → code.instrs[k]? = some x → x.IsInLine
  parts : ∀ (k : Nat) x, a < k → k < b → k ≠ t → code.instrs[k]? = some x →
    ∃ p c, x = .consume p none c true ∧ p.IsPlain ∧ p ≠ .endOfInput
  ignore : ∀ p, code.ignore = some p → p.IsPlain

theorem mem_of_getElem?_between {u v w : List β} {k : Nat} {x : β}
    (h : (u ++ (v ++ w))[k]? = some x) (hle : u.length ≤ k) (hlt : k < u.length + v.length) :
    x ∈ v := by
  rw [List.getElem?_append_right hle, List.getElem?_append_left (by omega)] at h
  exact List.mem_of_getElem? h

/-- Between the beginning of a repetition and the end of an iteration there are its parts, but for
the attempt. -/
theorem Repetition.mem_parts {r : Repetition α} {k : Nat} {x : Instr (Pattern α) α}
    (hx : r.program.instrs[k]? = some x) (hlt : r.lead.length < k)
    (hlt' : k < r.lead.length + r.opening.length + 1 + (r.body.length + 1))
    (hne : k ≠ r.lead.length + r.opening.length + 1) : x ∈ r.opening ++ r.body := by
  rw [program_eq] at hx
  rcases Nat.lt_or_gt_of_ne hne with hbefore | hbehind
  · refine List.mem_append_left _ (mem_of_getElem?_between (k := k)
      (u := r.lead ++ [.loopStart loopCapture]) (w := r.loopInstrs.drop (r.opening.length + 1))
      ?_ (by rw [List.length_append]; exact hlt)
      (by simp only [List.length_append, List.length_singleton]; omega))
    simpa [loopInstrs] using hx
  · refine List.mem_append_right _ (mem_of_getElem?_between (k := k)
      (u := r.lead ++ .loopStart loopCapture :: r.opening ++
        [.loopTry loopCapture r.min (r.body.length + 2) r.fold r.init])
      (w := .loopBack (r.body.length + 1) r.max :: r.trail) ?_ ?_ ?_)
    · simpa [loopInstrs] using hx
    · simp only [List.length_append, List.length_cons, List.length_nil]
      omega
    · simp only [List.length_append, List.length_cons, List.length_nil]
      omega

/-- A repetition that is built is laid out so. -/
theorem Repetition.IsComposed.loopsAt {r : Repetition α} (h : r.IsComposed) (hr : r.IsSound)
    (hg : Program.IsGrounded r.program) :
    r.program.LoopsAt r.lead.length (r.lead.length + r.opening.length + 1)
      (r.lead.length + r.opening.length + 1 + (r.body.length + 1)) := by
  have hlead : ∀ x ∈ r.lead, x.IsInLine := fun x hx => (hr.straight x hx).isInLine
  have hinstrs : r.program.instrs = r.lead ++ r.loopInstrs := by rw [program_eq]
  refine ⟨by omega, by omega, ?_, ?_, ?_, fun k x ha ht hb hx => ?_,
    fun k x hak hkb hkt hx => ?_, hg.isPlain.ignore⟩
  · exact ⟨loopCapture, by simp [program]⟩
  · rw [hinstrs]
    refine ⟨loopCapture, r.min, r.fold, r.init, ?_⟩
    have hexit : r.lead.length + r.opening.length + 1 + (r.body.length + 1) + 1 -
        (r.lead.length + r.opening.length + 1) = r.body.length + 2 := by omega
    rw [IsSingle.getElem?_loopTry, hexit]
  · rw [hinstrs]
    refine ⟨r.max, ?_⟩
    rw [IsSingle.getElem?_loopBack, Nat.add_sub_cancel_left]
  · rw [hinstrs] at hx
    cases x with
    | loopStart => exact absurd (hr.isSingle.of_starts hlead hx trivial) ha
    | loopTry => exact absurd (hr.isSingle.of_attempts hlead hx trivial).1 ht
    | loopBack => exact absurd (hr.isSingle.of_returns hlead hx trivial).1 hb
    | _ => trivial
  · have hmem := Repetition.mem_parts hx hak hkb hkt
    obtain ⟨p, c, rfl, hp⟩ := h.parts x hmem
    have hplain : p.IsPlain :=
      (hg.patterns _ (List.mem_of_getElem? hx) p List.mem_cons_self).isPlain
    refine ⟨p, c, rfl, hplain, ?_⟩
    rintro rfl
    cases hp

/-! ## The attempt of an iteration -/

/-- In the same call, the frame `g` is at the offset of the frame `e`, or at a boundary behind
it. -/
structure Frame.IsBehind (text : Text) (e g : Frame α) : Prop where
  start : g.start = e.start
  le : e.index ≤ g.index
  boundary : g.index = e.index ∨ text.isBoundary g.index

theorem Frame.IsBehind.rfl {text : Text} {e : Frame α} : e.IsBehind text e :=
  ⟨Eq.refl _, Nat.le_refl _, .inl (Eq.refl _)⟩

namespace Program.LoopsAt

variable {fs : Forwards α} {text : Text} {code : Program α} {a t b : Nat} {e f g : Frame α}

/-- A part of the repetition leads from a boundary to a boundary that is not before it. -/
theorem isBehind_step (h : code.LoopsAt a t b) (hlt : a < f.pc) (hlt' : f.pc < b) (hne : f.pc ≠ t)
    (hf : e.IsBehind text f) (hs : Step (Pattern.Answers fs text) code text f (some g)) :
    e.IsBehind text g := by
  obtain ⟨x, hx⟩ := hs.exists_instr
  obtain ⟨p, c, rfl, hp, hend⟩ := h.parts f.pc x hlt hlt' hne hx
  rcases hs.of_consume hx with ⟨-, hno⟩ | ⟨m, j, hm, hskip, hg⟩
  · cases hno
  cases hg
  obtain ⟨hj, hle⟩ := ((hm.ahead hp).trans (hskip.ahead (by simpa using h.ignore)))
    (hm.isBoundary_index hp hend)
  exact ⟨hf.start, Nat.le_trans hf.le hle, .inr hj⟩

variable {probe : Probe (Pattern α) α} (hprobe : ∀ p i a, ∃ r, (probe p i a).Writes r [])
  (hV : ∀ p i a o, probe.verdicts p i a o → p.Answers fs text i a o)

include hprobe

/-- Past the repetition a call is quiet. -/
theorem exec_past (h : code.LoopsAt a t b) (hf : b < f.pc) (text : Text) (fuel : Nat) :
    ∃ r es, (exec probe code text fuel f).Writes r es ∧ ∀ ev ∈ es, ev.IsQuiet := by
  have hab := h.begin_lt
  have htb := h.attempt_lt
  exact exec_behind code text hprobe
    (fun j x hj => h.inLine j x (by omega) (by omega) (by omega)) fuel

include hV

/-- One iteration and all that are nested in it. -/
theorem exec_iteration (h : code.LoopsAt a t b) (fuel : Nat)
    (hnext : ∀ n < fuel, ∀ g : Frame α, g.pc = t → ∃ r es,
      (exec probe code text n g).Writes r es ∧ CompletesAtMost (text.byteLength - g.index + 1) es)
    (hpc : e.pc = t + 1) (hstart : e.start = e.index) :
    ∃ r es, (exec probe code text fuel e).Writes r es ∧
      CompletesAtMost (text.byteLength - e.index + 1) es := by
  have hab := h.begin_lt
  have htb := h.attempt_lt
  obtain ⟨es, hes, ⟨r, hr⟩ | ⟨g, n, hn, hg, hbehind, hon⟩⟩ :=
    exec_walk code text hprobe (k := b) (P := e.IsBehind text) (f := e)
      (fun j x hj hjb => h.inLine j x (by omega) (by omega) (by omega))
      (fun g g' hg hgb hbehind hs =>
        h.isBehind_step (by omega) hgb (by omega) hbehind (hs.mono hV)) .rfl (by omega) fuel
  · exact ⟨r, es, hr, (CompletesAtMost.of_quiet hes).mono (Nat.zero_le _)⟩
  cases n with
  | zero => exact ⟨_, _, hon _ _ (.throw _), (CompletesAtMost.of_quiet (by simpa using hes)).mono
      (Nat.zero_le _)⟩
  | succ n =>
    obtain ⟨max, hback⟩ := h.back
    rw [← hg] at hback
    obtain ⟨es', hes', ⟨r, hr⟩ | ⟨g', hs, hon'⟩⟩ := exec_step_quiet hprobe hback id text n
    · refine ⟨r, _, hon r _ hr, .quiet_append hes (.mono (n := 1) ?_ (Nat.le_add_left _ _))⟩
      exact .loopBack_cons (.of_quiet hes')
    rcases hs.of_loopBack hback with ⟨-, hg'⟩ | ⟨-, hne, hg'⟩
    · -- The iteration is the last one.
      have hpast : b < g'.pc := by
        cases hg'
        exact Nat.lt_succ_of_le (Nat.le_of_eq hg.symm)
      obtain ⟨r, es'', hr, hquiet⟩ := h.exec_past hprobe hpast text n
      refine ⟨r, _, hon r _ (hon' r _ hr), .quiet_append hes (.mono (n := 1) ?_
        (Nat.le_add_left _ _))⟩
      exact .loopBack_cons (.quiet_append hes' (.of_quiet hquiet))
    · -- It has come further ahead, so fewer iterations are left.
      obtain ⟨hpc', hindex⟩ : g'.pc = t ∧ g'.index = g.index := by
        cases hg'
        exact ⟨by simp only; omega, rfl⟩
      obtain ⟨r, es'', hr, hcount⟩ := hnext n hn g' hpc'
      have hlt : e.index < g.index := by
        have := hbehind.le
        have := hbehind.start
        omega
      have hle : g.index ≤ text.byteLength :=
        Text.le_byteLength_of_isBoundary (hbehind.boundary.resolve_left (by omega))
      refine ⟨r, _, hon r _ (hon' r _ hr), .quiet_append hes (.mono ?_ (?_ :
        text.byteLength - g'.index + 1 + 1 ≤ _))⟩
      · exact .loopBack_cons (.quiet_append hes' hcount)
      · omega

/-- The attempt of an iteration completes at most as many as there are bytes behind it, and one
more. -/
theorem exec_iterations (h : code.LoopsAt a t b) (hf : f.pc = t) (fuel : Nat) :
    ∃ r es, (exec probe code text fuel f).Writes r es ∧
      CompletesAtMost (text.byteLength - f.index + 1) es := by
  induction fuel using Nat.strongRecOn generalizing f with
  | ind fuel ih =>
    cases fuel with
    | zero => exact ⟨_, [], .throw _, .mono (.of_quiet (List.forall_mem_nil _)) (Nat.zero_le _)⟩
    | succ fuel =>
      obtain ⟨c, min, fold, init, hi⟩ := h.attempt
      have hab := h.begin_lt
      have htb := h.attempt_lt
      rw [← hf] at hi
      obtain ⟨r, es, hes, hcount⟩ := h.exec_iteration hprobe hV fuel (e := f.enterIteration)
        (fun n hn g hg => ih n (by omega) hg) (by rw [← hf]; rfl) rfl
      have htry : (Event.executed f.pc f.index (.loopTry c min (b + 1 - f.pc) fold init) :
          Event (Pattern α) α).IsQuiet := ⟨rfl, rfl⟩
      obtain ⟨ss, hss, ⟨s, hs⟩ | hon⟩ := exec_loopTry_writes hi hes
      · exact ⟨s, _, hs, .quiet_cons htry
          (.append_quiet hcount fun ev hev => Event.isQuiet_of_isExecution (hss ev hev))⟩
      · have hpast : b < (f.leaveLoop c (b + 1 - f.pc) fold init).pc := by
          have hexit : b < f.pc + (b + 1 - f.pc) := by omega
          exact hexit
        obtain ⟨s, es', hes', hquiet⟩ := h.exec_past hprobe hpast text fuel
        refine ⟨s, _, hon s es' hes', .quiet_cons htry (.append_quiet hcount fun ev hev => ?_)⟩
        exact (List.mem_append.1 hev).elim
          (fun h => Event.isQuiet_of_isExecution (hss ev h)) (hquiet ev)

/-- From the start of a program with a repetition. -/
theorem exec_completes (h : code.LoopsAt a t b) (hf : f.pc = 0) (fuel : Nat) :
    ∃ r es, (exec probe code text fuel f).Writes r es ∧ CompletesWithin text es := by
  have hab := h.begin_lt
  have htb := h.attempt_lt
  obtain ⟨es, hes, ⟨r, hr⟩ | ⟨g, n, -, hg, -, hon⟩⟩ :=
    exec_walk code text hprobe (k := a) (P := fun _ => True) (f := f)
      (fun j x hj hja => h.inLine j x (by omega) (by omega) (by omega))
      (fun _ _ _ _ _ _ => trivial) trivial (by omega) fuel
  · exact ⟨r, es, hr, .without hes⟩
  cases n with
  | zero => exact ⟨_, _, hon _ _ (.throw _), .without (by simpa using hes)⟩
  | succ n =>
    obtain ⟨c, hstart⟩ := h.start
    rw [← hg] at hstart
    obtain ⟨es', hes', ⟨r, hr⟩ | ⟨g', hs, hon'⟩⟩ := exec_step_quiet hprobe hstart id text n
    · exact ⟨r, _, hon r _ hr, .within hes (.mono (.of_quiet hes') (Nat.zero_le _))⟩
    cases hs.of_loopStart hstart
    let e : Frame α := { g.next g.index g.attr with
      seed := g.attr, captures := g.captures.start c }
    have he : e.pc = a + 1 := congrArg (· + 1) hg
    obtain ⟨es'', hes'', ⟨r, hr⟩ | ⟨g', n', -, hg', hbehind, hon''⟩⟩ :=
      exec_walk code text hprobe (k := t) (P := e.IsBehind text) (f := e)
        (fun j x hj hjt => h.inLine j x (by omega) (by omega) (by omega))
        (fun g g' hg hgt hbehind hs =>
          h.isBehind_step (by omega) (by omega) (by omega) hbehind (hs.mono hV)) .rfl (by omega) n
    · refine ⟨r, _, hon r _ (hon' r _ hr), .within hes ?_⟩
      exact .quiet_append hes' ((CompletesAtMost.of_quiet hes'').mono (Nat.zero_le _))
    · obtain ⟨r, es₃, hr, hcount⟩ := h.exec_iterations hprobe hV hg' n'
      have hle : text.byteLength - g'.index + 1 ≤ text.byteLength - g.index + 1 := by
        have : g.index ≤ g'.index := hbehind.le
        omega
      refine ⟨r, _, hon r _ (hon' r _ (hon'' r _ hr)), .within hes ?_⟩
      exact .quiet_append hes' (.quiet_append hes'' (hcount.mono hle))

end Program.LoopsAt

/-! ## Programs -/

namespace Piece

section

variable {fs : Forwards α} {text : Text} {p : Program α}

/-- Without forward references and functions of the user the run of a program that is built comes to
an end. -/
theorem Built.exists_answers (h : Built (.program p)) (hg : p.IsGrounded) (i : Nat)
    (a : Option α) : ∃ r, p.Answers fs text i a r := by
  have hgrounded : Pattern.IsGrounded (.program p) := .program hg.patterns hg.ignore
  exact (hgrounded.exists_answers h.isSound i a).imp fun _ => Pattern.answers_program_iff.1

/-- A program that is built has at most one repetition, at the addresses of one. -/
theorem Built.exec_completes (h : Built (.program p)) (hg : p.IsGrounded)
    {probe : Probe (Pattern α) α} (hprobe : ∀ t i a, ∃ r, (probe t i a).Writes r [])
    (hV : ∀ t i a o, probe.verdicts t i a o → t.Answers fs text i a o) (fuel i : Nat)
    (a : Option α) :
    ∃ r es, (exec probe p text fuel (.initial p.captures i a)).Writes r es ∧
      CompletesWithin text es := by
  cases h with
  | @buildGrammar g hgrammar =>
    have hsound : g.IsSound := hgrammar.isSound
    obtain ⟨r, es, hes, hquiet⟩ := exec_behind g.program text hprobe
      (f := .initial g.program.captures i a)
      (fun j x _ hx => (hsound.straight x (List.mem_of_getElem? hx)).isInLine) fuel
    exact ⟨r, es, hes, .without hquiet⟩
  | @buildRepetition r hrepetition =>
    have hloops := Repetition.IsComposed.loopsAt hrepetition.isComposed hrepetition.isSound hg
    exact hloops.exec_completes hprobe hV rfl fuel

end

/-- A program that is built without forward references and functions of the user, from any offset of
any text. Its run comes to an end, and so does the run of every program that it comes by in a
pattern, from wherever that begins. What such a run writes itself, among what the tests of patterns
write, tells of at most one repetition. It completes no more iterations than there are bytes behind
the offset where it begins, and one more: those in attempts that are abandoned count as well. The
first element of a delimited repetition stands before its iterations. -/
theorem Built.iterations_bounded {p : Program α} (h : Built (.program p)) (hg : p.IsGrounded)
    (fs : Forwards α) (text : Text) (start : Nat) (inherited : Option α) :
    (∃ r, p.Answers fs text start inherited r) ∧
    ∀ is q i a,
      p.Path fs text (.initial p.captures start inherited) is q (.initial q.captures i a) →
      (∃ r, q.Answers fs text i a r) ∧
      ∀ fuel, let probe := Pattern.find fs text fuel
        ∃ r own all,
          (exec probe.silent q text fuel (.initial q.captures i a)).Writes r own ∧
          CompletesWithin text own ∧ Woven probe.Notes own all ∧
          (exec probe q text fuel (.initial q.captures i a)).Writes r all := by
  refine ⟨h.exists_answers hg start inherited, fun is q i a hpath => ?_⟩
  obtain ⟨hq, hqg⟩ := hpath.isBuilt h hg
  refine ⟨hq.exists_answers hqg i a, fun fuel => ?_⟩
  intro probe
  have hwrites : ∀ t i a, ∃ r es, (probe t i a).Writes r es := Pattern.find_writes fs text fuel
  have hsilent (t : Pattern α) (i : Nat) (a : Option α) :
      ∃ r, (probe.silent t i a).Writes r [] := by
    obtain ⟨r, es, hes⟩ := hwrites t i a
    exact ⟨r, Probe.silent_writes hes⟩
  obtain ⟨r, own, hown, hwithin⟩ := hq.exec_completes hqg hsilent
    (fun t i a o h => Pattern.answers_of_find (Probe.verdicts_of_silent hwrites h)) fuel i a
  obtain ⟨s, all, own', hall, hown', hwoven⟩ :=
    exec_weaves (Probe.weaves_silent hwrites) q text fuel (.initial q.captures i a)
  obtain ⟨rfl, rfl⟩ := hown.unique hown'
  exact ⟨r, own, all, hown, hwithin, hwoven, hall⟩

/-- Letters, each of which may be missing, again and again: the last iteration consumes nothing. -/
theorem Built.iterations_bounded_empty :
    let inner : Program Nat := (Grammar.empty.tokenMaybe (.literal ['a'])).program
    let p : Program Nat := (Grammar.empty.tokenZeroOrMore (.program inner)).program
    Built (.program p) ∧ p.IsGrounded ∧
      (∃ r, p.Answers .empty ['a', 'a', 'b'] 0 none r) ∧
      ∃ r own, (exec (Pattern.find .empty ['a', 'a', 'b'] 40).silent p ['a', 'a', 'b'] 40
        (.initial 1 0 none)).Writes r own ∧ CompletesWithin ['a', 'a', 'b'] own := by
  intro inner p
  have hinner : Built (.program inner) :=
    .buildRepetition (.tokenMaybe (.grammar .noLexicon) (.literal _))
  have hp : Built (.program p) :=
    .buildRepetition (.tokenZeroOrMore (.grammar .noLexicon) (.ofProgram hinner))
  have hgrounded : Pattern.IsGrounded (.program inner) := by
    refine .program ?_ (by rintro _ ⟨⟩)
    have hletter : (Pattern.literal ['a'] : Pattern Nat).IsGrounded := .literal _
    simpa [inner, Repetition.program, Grammar.tokenMaybe, Grammar.repeated, Grammar.empty,
      Lexicon.grammar, Lexicon.empty, Instr.patterns] using hletter
  have hg : p.IsGrounded := by
    refine ⟨?_, by rintro _ ⟨⟩⟩
    simpa [p, Repetition.program, Grammar.tokenZeroOrMore, Grammar.tokenAtLeast, Grammar.repeated,
      Grammar.empty, Lexicon.grammar, Lexicon.empty, Instr.patterns] using hgrounded
  obtain ⟨hends, hruns⟩ := hp.iterations_bounded hg .empty ['a', 'a', 'b'] 0 none
  obtain ⟨-, hbounded⟩ := hruns [] p 0 none .here
  obtain ⟨r, own, -, hown, hwithin, -⟩ := hbounded 40
  exact ⟨hp, hg, hends, r, own, hown, hwithin⟩

end Piece

end GrammarMachine
