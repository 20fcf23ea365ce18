import GrammarMachine.Proofs.Semantics.Instructions

/-!
# Where a call settles its repetition

A repetition is settled by the call that attempts its first iteration, and by no other: calls nested
in it have entered iterations, and behind the repetition there is none left. So a call settles at
most once, and it does so if it ends well. The probe keeps silent here, so all that is written is
the machine's own.

* `Trial.Tells`: a trial that writes just so many events of a `settlement`.
* `exec_step`, `exec_front`: one instruction settles nothing, nor do those in front of a repetition.
* `exec_quiet`: nor does a call that has entered an iteration, or that is behind the repetition.
* `exec_attempt`: the call at the first attempt settles once if it ends well.
-/

namespace GrammarMachine

variable {π α β : Type}

/-! ## Telling of settlements -/

@[simp] theorem filter_settlement (dropping : Bool) (fold : Option (Action α)) (acc : Option α)
    (ms : List (Match α)) :
    (settlement dropping fold acc ms : List (Event π α)).filter Event.isSettlement =
      settlement dropping fold acc ms := by
  rw [List.filter_eq_self]
  cases fold <;> simp [settlement, Event.isSettlement]

/-- The trial comes to `r`, and among the events that it writes those that tell of repetitions are
`ss`. -/
def Trial.Tells (t : Trial π α β) (r : Except Stop β) (ss : List (Event π α)) : Prop :=
  ∃ es, t.Writes r es ∧ es.filter Event.isSettlement = ss

theorem Trial.Tells.pure (b : β) : (Pure.pure b : Trial π α β).Tells (.ok b) [] :=
  ⟨[], .pure b, rfl⟩

theorem Trial.Tells.throw (e : Stop) :
    (MonadExcept.throw e : Trial π α β).Tells (.error e) [] := ⟨[], .throw e, rfl⟩

/-! ## One instruction -/

section

variable {probe : Probe π α} {code : Code π α} {text : Text} {f : Frame α}
  (hprobe : ∀ p i a, ∃ r, (probe p i a).Writes r [])

include hprobe

/-- An instruction that attempts no iteration settles nothing: the call stops, or goes on in the
next frame. -/
theorem exec_step {x : Instr π α} (hi : code.instrs[f.pc]? = some x) (hx : ¬ x.Attempts)
    (text : Text) (fuel : Nat) :
    (∃ e, (exec probe code text (fuel + 1) f).Tells (.error e) []) ∨
      ∃ g, Step probe.verdicts code text f (some g) ∧
        ∀ r ss, (exec probe code text fuel g).Tells r ss →
          (exec probe code text (fuel + 1) f).Tells r ss := by
  obtain ⟨es, hes, h⟩ := exec_step_writes
    (fun p i a => (hprobe p i a).imp fun _ hr => ⟨[], hr⟩) hi hx text fuel
  have hquiet : (Event.executed f.pc f.index x :: es).filter Event.isSettlement = [] := by
    simpa [Event.isSettlement] using fun ev hev => (Event.isAside_iff.1 ((hes ev hev).isAside hprobe)).2
  rcases h with ⟨e, he⟩ | ⟨g, hs, hgo⟩
  · exact .inl ⟨e, _, he, hquiet⟩
  · refine .inr ⟨g, hs, fun r ss ⟨es', hes', hss⟩ => ⟨_, hgo r es' hes', ?_⟩⟩
    rw [← List.cons_append, List.filter_append, hquiet, hss, List.nil_append]

theorem exec_next {x : Instr π α} (hi : code.instrs[f.pc]? = some x) (hx : ¬ x.Attempts)
    (text : Text) (fuel : Nat) :
    (∃ e, (exec probe code text fuel f).Tells (.error e) []) ∨
      ∃ g fuel', Step probe.verdicts code text f (some g) ∧
        ∀ r ss, (exec probe code text fuel' g).Tells r ss →
          (exec probe code text fuel f).Tells r ss := by
  cases fuel with
  | zero => exact .inl ⟨_, .throw _⟩
  | succ fuel =>
    exact (exec_step hprobe hi hx text fuel).imp_right fun ⟨g, hs, hgo⟩ => ⟨g, fuel, hs, hgo⟩

/-! ## Calls that settle nothing -/

/-- A call that has entered an iteration settles nothing, and one behind the repetition neither. -/
theorem exec_quiet (hf : 0 < f.count ∨
      ∀ k x, f.pc ≤ k → code.instrs[k]? = some x → x.IsStraight) (text : Text) (fuel : Nat) :
    ∃ r, (exec probe code text fuel f).Tells r [] := by
  induction fuel generalizing f with
  | zero => exact ⟨_, .throw _⟩
  | succ fuel ih =>
    cases hi : code.instrs[f.pc]? with
    | none =>
      rw [exec, hi]
      exact ⟨_, .pure _⟩
    | some x =>
      by_cases hx : x.Attempts
      · cases x with
        | loopTry capture min exit fold init =>
          have hcount : 0 < f.count :=
            hf.resolve_right fun h => h f.pc _ (Nat.le_refl _) hi
          have hsettle (cs : Captures α) :
              (f.settling capture fold init cs : List (Event π α)) = [] :=
            if_neg (Nat.ne_of_gt hcount)
          obtain ⟨r, es, hes, hquiet⟩ := ih (f := f.enterIteration) (.inl (Nat.succ_pos _))
          obtain ⟨r', es', hes', hquiet'⟩ :=
            ih (f := f.leaveLoop capture exit fold init) (.inl hcount)
          cases r with
          | ok fin =>
            exact ⟨_, _, exec_kept_writes hi hes, by simp [hsettle, hquiet, Event.isSettlement]⟩
          | error e =>
            by_cases he : e = .mismatch → f.count < min
            · exact ⟨_, _, exec_stopped_writes hi hes he, by simp [hquiet, Event.isSettlement]⟩
            · obtain ⟨rfl, hmin⟩ := Classical.not_imp.1 he
              exact ⟨r', _, exec_left_writes hi hes hmin hes',
                by simp [hsettle, hquiet, hquiet', Event.isSettlement]⟩
        | _ => exact hx.elim
      · rcases exec_step hprobe hi hx text fuel with ⟨e, he⟩ | ⟨g, hs, hgo⟩
        · exact ⟨_, he⟩
        · have hg : 0 < g.count ∨ ∀ k x, g.pc ≤ k → code.instrs[k]? = some x → x.IsStraight := by
            obtain ⟨-, -, hcount, hpc⟩ := hs.pc_captures
            refine hf.imp (fun h => hcount ▸ h) fun h => ?_
            rcases hpc with ⟨hpc, -⟩ | ⟨back, max, hback, -⟩
            · exact fun k y hk => h k y (by omega)
            · exact (h f.pc _ (Nat.le_refl _) hback).elim
          obtain ⟨r, hr⟩ := ih hg
          exact ⟨r, hgo r [] hr⟩

/-! ## The front of a program -/

/-- In front of its repetition a call stops, or it comes to the end of the front. -/
theorem exec_front {is : List (Instr π α)} (hs : ∀ i ∈ is, i.IsStraight)
    (rest : List (Instr π α)) (ignore : Option π) (n n' : Nat) {g : Frame α}
    (hle : g.pc ≤ is.length) (hfg : g.Agrees f) (hpc : f.pc = g.pc) (text : Text) (fuel : Nat) :
    (∃ e, (exec probe ⟨is ++ rest, ignore, n'⟩ text fuel g).Tells (.error e) []) ∨
      ∃ fin fuel', Exec probe.verdicts ⟨is, ignore, n⟩ text f (some fin) ∧
        ∀ r ss, (exec probe ⟨is ++ rest, ignore, n'⟩ text fuel' (g.past is fin)).Tells r ss →
          (exec probe ⟨is ++ rest, ignore, n'⟩ text fuel g).Tells r ss := by
  induction fuel generalizing f g with
  | zero => exact .inl ⟨_, .throw _⟩
  | succ fuel ih =>
    rcases Nat.lt_or_eq_of_le hle with hlt | hend
    · have hmem := hs _ (List.getElem_mem hlt)
      have hi : (is ++ rest)[g.pc]? = some is[g.pc] := by
        rw [List.getElem?_append_left hlt, List.getElem?_eq_getElem hlt]
      have hi' : is[f.pc]? = some is[g.pc] := by rw [hpc, List.getElem?_eq_getElem hlt]
      have hfront : (⟨is ++ rest, ignore, n'⟩ : Code π α).instrs[g.pc]? = some is[g.pc] := hi
      rcases exec_step hprobe hfront (Instr.IsStraight.isInLine hmem).no_jump.1 text fuel with
        he | ⟨g', hstep, hgo⟩
      · exact .inl he
      · obtain ⟨hg', hd⟩ := hstep.eq_follow hmem hi
        have hpast (fin : Final α) : g'.past is fin = g.past is fin := by
          rw [hg', Frame.past_follow (List.getElem?_eq_getElem hlt) ⟨rfl, rfl, rfl⟩ rfl hd]
        have hpc' : g'.pc = g.pc + 1 := by rw [hg']; rfl
        rcases ih (g := g') (by omega) (f := f.follow g') ⟨rfl, rfl, rfl⟩
          (by rw [hpc', ← hpc]; rfl) with ⟨e, he⟩ | ⟨fin, fuel', hfin, hon⟩
        · exact .inl ⟨e, hgo _ _ he⟩
        · refine .inr ⟨fin, fuel', .step (hstep.transfer ⟨is, ignore, n⟩ hmem hi hi' rfl hfg) hfin,
            fun r ss h => hgo r ss (hon r ss ?_)⟩
          rwa [hpast]
    · refine .inr ⟨⟨f.index, f.attr, f.captures⟩, fuel + 1,
        .halt (List.getElem?_eq_none_iff.2 (Nat.le_of_eq (hpc.trans hend).symm)),
        fun r ss h => ?_⟩
      rwa [hfg.index, hfg.attr, Frame.past_end hend] at h

/-! ## The call that settles -/

/-- The call that attempts the first iteration settles once if it ends well, with what is recorded
at its end. Otherwise it may settle with what was recorded before. -/
theorem exec_attempt {capture min exit : Nat} {fold : Option (Action α)} {init : Option α}
    (hi : code.instrs[f.pc]? = some (.loopTry capture min exit fold init)) (hf : f.count = 0)
    (hbehind : ∀ k x, f.pc + exit ≤ k → code.instrs[k]? = some x → x.IsStraight) (text : Text)
    (fuel : Nat) :
    (∃ fin, (exec probe code text fuel f).Tells (.ok fin)
      (settlement f.dropping fold (f.keep (merge f.seed init)) (fin.captures.recorded capture))) ∨
    ∃ e, (exec probe code text fuel f).Tells (.error e) [] ∨
      (exec probe code text fuel f).Tells (.error e)
        (settlement f.dropping fold (f.keep (merge f.seed init)) (f.captures.recorded capture)) := by
  cases fuel with
  | zero => exact .inr ⟨_, .inl (.throw _)⟩
  | succ fuel =>
    obtain ⟨r, es, hes, hquiet⟩ : ∃ r, (exec probe code text fuel f.enterIteration).Tells r [] :=
      exec_quiet hprobe (.inl (Nat.succ_pos _)) text fuel
    have hsettle (cs : Captures α) : (f.settling capture fold init cs : List (Event π α)) =
        settlement f.dropping fold (f.keep (merge f.seed init)) (cs.recorded capture) := if_pos hf
    cases r with
    | ok fin =>
      exact .inl ⟨_, _, exec_kept_writes hi hes,
        by simp [hsettle, hquiet, Event.isSettlement, Frame.afterIteration]⟩
    | error e =>
      by_cases he : e = .mismatch → f.count < min
      · exact .inr ⟨e, .inl ⟨_, exec_stopped_writes hi hes he,
          by simp [hquiet, Event.isSettlement]⟩⟩
      · -- The repetition is settled before what follows it is known to match.
        obtain ⟨rfl, hmin⟩ := Classical.not_imp.1 he
        obtain ⟨s, es', hes', hquiet'⟩ := exec_quiet hprobe
          (f := f.leaveLoop capture exit fold init) (.inr hbehind) text fuel
        have hall : (exec probe code text (fuel + 1) f).Tells s
            (settlement f.dropping fold (f.keep (merge f.seed init))
              (f.captures.recorded capture)) :=
          ⟨_, exec_left_writes hi hes hmin hes',
            by simp [hsettle, hquiet, hquiet', Event.isSettlement]⟩
        cases s with
        | ok fin =>
          have hms : fin.captures.recorded capture = f.captures.recorded capture := by
            rw [Exec.captures_of_straight hbehind (exec_sound (hes'.ends .empty)) fin rfl]
            rfl
          exact .inl ⟨fin, hms ▸ hall⟩
        | error e => exact .inr ⟨e, .inr hall⟩

end

end GrammarMachine
