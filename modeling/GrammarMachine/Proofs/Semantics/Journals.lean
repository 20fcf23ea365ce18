import GrammarMachine.Proofs.Semantics.Answers

/-!
# What a run writes

A trial writes to the journal and never looks at it, so what it comes to and what it writes are the
same for every journal. The machine writes events of its own, and between them the tests of patterns
write theirs. With a probe that keeps silent the machine writes its own events alone.

* `Trial.Writes t r es`: the trial `t` comes to `r` and writes `es`.
* `Woven N own all`: the events `own`, with stretches between them that satisfy `N`.
* `Trial.Weaves`: two trials come to the same, and the first writes what the second does and such
  stretches.
* `exec_weaves`, `Code.run_weaves`: the machine with two probes.
* `Pattern.find_writes`: testing a pattern writes the same whatever the journal.
* `Probe.silent`, `Probe.weaves_silent`: the probe that writes nothing, with which the events of the
  machine are its own.
-/

namespace GrammarMachine

variable {π α β γ : Type}

/-! ## Writing -/

/-- The journal with some more events. -/
def Journal.noteAll (j : Journal π α) (es : List (Event π α)) : Journal π α :=
  es.foldl Journal.note j

theorem Journal.noteAll_append (j : Journal π α) (es es' : List (Event π α)) :
    j.noteAll (es ++ es') = (j.noteAll es).noteAll es' := List.foldl_append

@[simp] theorem Journal.events_noteAll (j : Journal π α) (es : List (Event π α)) :
    (j.noteAll es).events = j.events ++ es := by
  induction es generalizing j with
  | nil => simp [noteAll]
  | cons e es ih => exact (ih (j.note e)).trans (by simp)

/-- What a trial ends with that comes to `r` with this journal. -/
def Trial.ending (r : Except Stop β) (j : Journal π α) : EStateM.Result Stop (Journal π α) β :=
  match r with
  | .ok b => .ok b j
  | .error e => .error e j

/-- From every journal the trial comes to `r` and writes the events `es`. -/
def Trial.Writes (t : Trial π α β) (r : Except Stop β) (es : List (Event π α)) : Prop :=
  ∀ j, t j = Trial.ending r (j.noteAll es)

/-- What an attempt comes to. -/
def Trial.attempted : Except Stop β → Except Stop (Option β)
  | .ok b => .ok (some b)
  | .error .mismatch => .ok none
  | .error e => .error e

namespace Trial

variable {t : Trial π α β} {k : β → Trial π α γ} {r : Except Stop β} {s : Except Stop γ} {b : β}
  {e : Stop} {es es' : List (Event π α)}

theorem Writes.pure (b : β) : (Pure.pure b : Trial π α β).Writes (.ok b) [] := fun _ => rfl

theorem Writes.throw (e : Stop) :
    (MonadExcept.throw e : Trial π α β).Writes (.error e) [] := fun _ => rfl

theorem Writes.note_bind {ev : Event π α} {k : Unit → Trial π α γ} (h : (k ()).Writes s es) :
    (note ev >>= k).Writes s (ev :: es) := fun j => h (j.note ev)

theorem Writes.bind (h : t.Writes (.ok b) es) (hk : (k b).Writes s es') :
    (t >>= k).Writes s (es ++ es') := by
  intro j
  simp only [Bind.bind, EStateM.bind, h j, ending, Journal.noteAll_append]
  exact hk _

theorem Writes.silent_bind (h : t.Writes (.ok b) []) (hk : (k b).Writes s es) :
    (t >>= k).Writes s es := h.bind hk

theorem Writes.bind_error (h : t.Writes (.error e) es) : (t >>= k).Writes (.error e) es := by
  intro j
  simp only [Bind.bind, EStateM.bind, h j, ending]

theorem Writes.attempt (h : t.Writes r es) : t.attempt.Writes (attempted r) es := by
  intro j
  rw [Trial.attempt, h j]
  cases r with
  | ok b => rfl
  | error e => cases e <;> rfl

theorem Writes.ofOption {o : Option β} (ho : o = some b) :
    (Trial.ofOption o : Trial π α β).Writes (.ok b) [] := by
  subst ho
  exact .pure b

/-- A trial comes to one result, and writes it down in one way. -/
theorem Writes.unique {r' : Except Stop β} (h : t.Writes r es) (h' : t.Writes r' es') :
    r = r' ∧ es = es' := by
  have hends : ending r (Journal.empty.noteAll es) = ending r' (Journal.empty.noteAll es') :=
    (h .empty).symm.trans (h' .empty)
  have hevents {j j' : Journal π α} (hj : j = j') : j.events = j'.events := congrArg _ hj
  cases r <;> cases r' <;> simp only [ending, reduceCtorEq, EStateM.Result.ok.injEq,
    EStateM.Result.error.injEq] at hends
  all_goals
    obtain ⟨rfl, hj⟩ := hends
    exact ⟨rfl, by simpa using hevents hj⟩

theorem Writes.ends (h : t.Writes (.ok b) es) (j : Journal π α) :
    t.Ends j (some b) (j.noteAll es) := ends_some_iff.2 (h j)

theorem Writes.ends_none (h : t.Writes (.error .mismatch) es) (j : Journal π α) :
    t.Ends j none (j.noteAll es) := ends_none_iff.2 (h j)

end Trial

/-! ## Weaving -/

/-- The events `all` are the events `own` with stretches between them that satisfy `N`. -/
inductive Woven (N : List (Event π α) → Prop) : List (Event π α) → List (Event π α) → Prop
  | nil : Woven N [] []
  | own (e) {es all} : Woven N es all → Woven N (e :: es) (e :: all)
  | stretch {ev es all} : N ev → Woven N es all → Woven N es (ev ++ all)

section

variable {N : List (Event π α) → Prop} {es es' all all' : List (Event π α)}

theorem Woven.append (h : Woven N es all) (h' : Woven N es' all') :
    Woven N (es ++ es') (all ++ all') := by
  induction h with
  | nil => exact h'
  | own e _ ih => exact .own e ih
  | stretch hev _ ih =>
    rw [List.append_assoc]
    exact .stretch hev ih

theorem Woven.refl (es : List (Event π α)) : Woven N es es := by
  induction es with
  | nil => exact .nil
  | cons e es ih => exact .own e ih

end

/-- Both trials come to the same, and the first writes what the second does, with stretches between
that satisfy `N`. -/
def Trial.Weaves (N : List (Event π α) → Prop) (t t' : Trial π α β) : Prop :=
  ∃ r all own, t.Writes r all ∧ t'.Writes r own ∧ Woven N own all

namespace Trial.Weaves

variable {N : List (Event π α) → Prop} {t t' : Trial π α β}

theorem of_writes {r : Except Stop β} {es : List (Event π α)} (h : t.Writes r es) :
    Weaves N t t := ⟨r, es, es, h, h, .refl es⟩

theorem pure (b : β) : Weaves N (Pure.pure b : Trial π α β) (Pure.pure b) := .of_writes (.pure b)

theorem throw (e : Stop) :
    Weaves N (MonadExcept.throw e : Trial π α β) (MonadExcept.throw e) := .of_writes (.throw e)

theorem ofOption (o : Option β) : Weaves N (Trial.ofOption o : Trial π α β) (Trial.ofOption o) := by
  cases o with
  | none => exact .throw _
  | some b => exact .pure b

theorem bind {k k' : β → Trial π α γ} (h : Weaves N t t') (hk : ∀ b, Weaves N (k b) (k' b)) :
    Weaves N (t >>= k) (t' >>= k') := by
  obtain ⟨r, all, own, ht, ht', hwoven⟩ := h
  cases r with
  | ok b =>
    obtain ⟨s, all', own', hs, hs', hwoven'⟩ := hk b
    exact ⟨s, _, _, ht.bind hs, ht'.bind hs', hwoven.append hwoven'⟩
  | error e => exact ⟨_, _, _, ht.bind_error, ht'.bind_error, hwoven⟩

theorem note_bind {e : Event π α} {k k' : Unit → Trial π α γ} (h : Weaves N (k ()) (k' ())) :
    Weaves N (note e >>= k) (note e >>= k') := by
  obtain ⟨s, all, own, hs, hs', hwoven⟩ := h
  exact ⟨s, _, _, hs.note_bind, hs'.note_bind, .own e hwoven⟩

theorem attempt (h : Weaves N t t') : Weaves N t.attempt t'.attempt := by
  obtain ⟨r, all, own, ht, ht', hwoven⟩ := h
  exact ⟨_, all, own, ht.attempt, ht'.attempt, hwoven⟩

theorem ite {P : Prop} [Decidable P] {e e' : Trial π α β} (h : Weaves N t t')
    (he : Weaves N e e') : Weaves N (if P then t else e) (if P then t' else e') := by
  by_cases hP : P
  · rwa [if_pos hP, if_pos hP]
  · rwa [if_neg hP, if_neg hP]

end Trial.Weaves

/-! ## The machine -/

/-- The calls of a fold for iterations in order, each with the accumulator as it is then. -/
def foldCalls (dropping : Bool) (a : Action α) : Option α → List (Match α) → List (ActionCall α)
  | _, [] => []
  | acc, m :: ms =>
    ⟨m.matched, m.attr, acc, m.extra⟩ :: foldCalls dropping a (foldStep dropping a acc m) ms

/-- The events of a repetition that is over: it has so many iterations, and a fold is called for
each one, in order. -/
def settlement (dropping : Bool) (fold : Option (Action α)) (acc : Option α)
    (iterations : List (Match α)) : List (Event π α) :=
  .repetitionFinished iterations.length fold.isSome ::
    match fold with
    | some a => (foldCalls dropping a acc iterations).map (.foldCalled a.tag)
    | none => []

theorem foldIterations_writes (dropping : Bool) (a : Action α) (acc : Option α)
    (ms : List (Match α)) : (foldIterations dropping a acc ms : Trial π α (Option α)).Writes
      (.ok (ms.foldl (foldStep dropping a) acc))
      ((foldCalls dropping a acc ms).map (.foldCalled a.tag)) := by
  induction ms generalizing acc with
  | nil => exact .pure acc
  | cons m ms ih =>
    have hcall : (callFold a ⟨m.matched, m.attr, acc, m.extra⟩ : Trial π α _).Writes
        (.ok (a.apply ⟨m.matched, m.attr, acc, m.extra⟩))
        [.foldCalled a.tag ⟨m.matched, m.attr, acc, m.extra⟩] := .note_bind (.pure _)
    exact hcall.bind (ih _)

theorem settle_writes (f : Frame α) (attr : Option α) (iterations : List (Match α))
    (fold : Option (Action α)) (init : Option α) :
    (settle f attr iterations fold init : Trial π α (Option α)).Writes
      (.ok (f.settledAttr attr iterations fold init))
      (settlement f.dropping fold (f.keep (merge f.seed init)) iterations) := by
  cases fold with
  | none => exact .note_bind (.pure _)
  | some a => exact .note_bind (foldIterations_writes f.dropping a _ iterations)

theorem attrAfter_writes (f : Frame α) (action : Option (Action α)) (m : Match α) :
    (attrAfter f action m : Trial π α (Option α)).Writes (.ok (f.matchAttr action m))
      (action.toList.map fun a => .actionCalled a.tag ⟨m.matched, m.attr, f.attr, m.extra⟩) := by
  cases action with
  | none => exact .pure _
  | some a =>
    have hcall : (callAction a ⟨m.matched, m.attr, f.attr, m.extra⟩ : Trial π α _).Writes
        (.ok (a.apply ⟨m.matched, m.attr, f.attr, m.extra⟩))
        [.actionCalled a.tag ⟨m.matched, m.attr, f.attr, m.extra⟩] := .note_bind (.pure _)
    exact hcall.bind (.pure _)

section

variable {N : List (Event π α) → Prop} {probe probe' : Probe π α}
  (hprobe : ∀ p i a, Trial.Weaves N (probe p i a) (probe' p i a))

include hprobe

theorem firstMatch_weaves (i : Nat) (a : Option α) (ps : List π) :
    Trial.Weaves N (firstMatch probe i a ps) (firstMatch probe' i a ps) := by
  induction ps with
  | nil => exact .throw _
  | cons p ps ih =>
    refine (hprobe p i a).attempt.bind fun o => ?_
    cases o with
    | some m => exact .pure m
    | none => exact ih

theorem skipIgnored_weaves (ignore : Option π) (i : Nat) (a : Option α) :
    Trial.Weaves N (skipIgnored probe ignore i a) (skipIgnored probe' ignore i a) := by
  cases ignore with
  | none => exact .pure i
  | some p =>
    refine (hprobe p i a).attempt.bind fun o => ?_
    cases o <;> exact .pure _

/-- Two calls whose probes come to the same come to the same. -/
theorem exec_weaves (code : Code π α) (text : Text) (fuel : Nat) (f : Frame α) :
    Trial.Weaves N (exec probe code text fuel f) (exec probe' code text fuel f) := by
  have hskip := skipIgnored_weaves hprobe code.ignore
  have hsettle (f : Frame α) (attr : Option α) (ms : List (Match α)) (fold : Option (Action α))
      (init : Option α) : Trial.Weaves N (settle f attr ms fold init : Trial π α (Option α)) _ :=
    .of_writes (settle_writes f attr ms fold init)
  induction fuel generalizing f with
  | zero => exact .throw _
  | succ fuel ih =>
    rw [exec, exec]
    cases hi : code.instrs[f.pc]? with
    | none => exact .pure _
    | some x =>
      refine .note_bind ?_
      cases x with
      | consume p action capture skips =>
        refine (hprobe p _ _).bind fun m => ?_
        refine (Trial.Weaves.of_writes (attrAfter_writes f action m)).bind fun attr => ?_
        cases skips with
        | true => exact (hskip _ _).bind fun i => ih _
        | false => exact ih _
      | loopStart => exact .ite (ih _) (.throw _)
      | loopTry capture min exit fold init =>
        refine (ih f.enterIteration).attempt.bind fun o => ?_
        cases o with
        | some r => exact .ite ((hsettle ..).bind fun _ => .pure _) (.pure _)
        | none => exact .ite (.throw _) (.ite ((hsettle ..).bind fun _ => ih _) (ih _))
      | loopBack back max =>
        exact .ite (ih _) (.ite (.note_bind (ih _)) (.ite (ih _) (.throw _)))
      | choice ps =>
        exact (firstMatch_weaves hprobe _ _ ps).bind fun m => (hskip _ _).bind fun i => ih _
      | ahead p positive => exact (hprobe p _ _).attempt.bind fun o => .ite (ih _) (.throw _)
      | guard => exact .note_bind (.ite (ih _) (.throw _))
      | assign | dropAttributes => exact ih _
      | transform => exact .note_bind (ih _)
      | skip => exact (hskip _ _).bind fun i => ih _
      | keyword words word =>
        exact (Trial.Weaves.ofOption _).bind fun found =>
          .ite ((hskip _ _).bind fun i => ih _) (.throw _)

theorem Code.run_weaves (code : Code π α) (fuel : Nat) (text : Text) (start : Nat)
    (inherited : Option α) :
    Trial.Weaves N (code.run probe fuel text start inherited)
      (code.run probe' fuel text start inherited) :=
  (exec_weaves hprobe code text fuel _).bind fun _ =>
    (Trial.Weaves.ofOption _).bind fun _ => .pure _

end

/-- What a run comes to whose call ends so: the text from its start to there is what it matched, if
that can be sliced out. -/
def Final.toMatch (text : Text) (start : Nat) (fin : Final α) : Except Stop (Match α) :=
  match text.slice? start fin.index with
  | some t => .ok ⟨t, fin.index, fin.attr, []⟩
  | none => .error .mismatch

/-- A run writes what its call writes. -/
theorem Code.run_writes {probe : Probe π α} {code : Code π α} {text : Text} {fuel start : Nat}
    {inherited : Option α} {r : Except Stop (Final α)} {es : List (Event π α)}
    (h : (exec probe code text fuel (.initial code.captures start inherited)).Writes r es) :
    (code.run probe fuel text start inherited).Writes (r.bind (Final.toMatch text start)) es := by
  cases r with
  | error e => exact h.bind_error
  | ok fin =>
    rw [← List.append_nil es]
    refine h.bind ?_
    rw [Except.bind, Final.toMatch]
    cases text.slice? start fin.index with
    | none => exact Trial.Writes.bind_error (.throw _)
    | some t => exact .silent_bind (.ofOption rfl) (.pure _)

/-! ## Patterns -/

theorem Trial.Weaves.span {N : List (Event π α) → Prop} (text : Text) (start stop : Nat) :
    Trial.Weaves N (Trial.span text start stop : Trial π α (Match α))
      (Trial.span text start stop) := by
  rw [Trial.span]
  cases Match.span? text start stop with
  | none => exact .throw _
  | some m => exact .pure m

/-- Testing a pattern comes to the same from every journal, and writes the same. -/
theorem Pattern.find_writes (fs : Forwards α) (text : Text) (fuel : Nat) (p : Pattern α) (i : Nat)
    (a : Option α) : ∃ r es, (find fs text fuel p i a).Writes r es := by
  suffices h : ∀ p i a, Trial.Weaves (fun _ => False) (find fs text fuel p i a)
      (find fs text fuel p i a) by
    obtain ⟨r, es, -, hes, -⟩ := h p i a
    exact ⟨r, es, hes⟩
  induction fuel with
  | zero => exact fun p i a => .throw _
  | succ fuel ih =>
    intro p i a
    cases p with
    | literal | lineBreak =>
      rw [find]
      exact (Trial.Weaves.ofOption _).bind fun _ => .span ..
    | regex =>
      rw [find]
      exact .ofOption _
    | program code =>
      rw [find]
      exact code.run_weaves ih ..
    | forward cell =>
      rw [find]
      cases fs.get? cell with
      | none => exact .note_bind (.throw _)
      | some code => exact code.run_weaves ih ..
    | custom f =>
      rw [find]
      exact .note_bind (.ofOption _)
    | endOfInput =>
      rw [find]
      exact .ite (.span ..) (.throw _)
    | wordEnd ignore words =>
      rw [find]
      refine .ite (.span ..) ?_
      cases ignore with
      | none => exact .ite (.span ..) (.throw _)
      | some q =>
        simp only [map_eq_pure_bind, bind_assoc, pure_bind]
        exact (ih q i a).attempt.bind fun o => .ite (.span ..) (.throw _)

/-! ## Silence -/

namespace Probe

variable {probe : Probe π α}

/-- The probe that comes to the same and writes nothing. -/
def silent (probe : Probe π α) : Probe π α := fun p i a j =>
  match probe p i a j with
  | .ok m _ => .ok m j
  | .error e _ => .error e j

/-- What some test of a pattern writes. -/
def Notes (probe : Probe π α) (es : List (Event π α)) : Prop :=
  ∃ p i a r, (probe p i a).Writes r es

theorem silent_writes {p : π} {i : Nat} {a : Option α} {r : Except Stop (Match α)}
    {es : List (Event π α)} (h : (probe p i a).Writes r es) :
    (probe.silent p i a).Writes r [] := by
  intro j
  rw [silent, h j]
  cases r <;> rfl

theorem weaves_silent (h : ∀ p i a, ∃ r es, (probe p i a).Writes r es) (p : π) (i : Nat)
    (a : Option α) : Trial.Weaves probe.Notes (probe p i a) (probe.silent p i a) := by
  obtain ⟨r, es, hes⟩ := h p i a
  refine ⟨r, es, [], hes, silent_writes hes, ?_⟩
  rw [← List.append_nil es]
  exact .stretch ⟨p, i, a, r, hes⟩ .nil

/-- The silent probe has the verdicts of the probe. -/
theorem verdicts_of_silent (h : ∀ p i a, ∃ r es, (probe p i a).Writes r es) {p : π} {i : Nat}
    {a : Option α} {o : Option (Match α)} (ho : probe.silent.verdicts p i a o) :
    probe.verdicts p i a o := by
  obtain ⟨j, j', ho⟩ := ho
  obtain ⟨r, es, hes⟩ := h p i a
  have hsilent := silent_writes hes j
  cases o with
  | none =>
    rw [Trial.ends_none_iff, hsilent] at ho
    cases r with
    | ok => cases ho
    | error e =>
      cases ho
      exact ⟨j, _, hes.ends_none j⟩
  | some m =>
    rw [Trial.ends_some_iff, hsilent] at ho
    cases r with
    | ok =>
      cases ho
      exact ⟨j, _, hes.ends j⟩
    | error => cases ho

end Probe

end GrammarMachine
