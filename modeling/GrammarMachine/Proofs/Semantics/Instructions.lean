import GrammarMachine.Proofs.Inheritance.Relation
import GrammarMachine.Proofs.Safety.Layout
import GrammarMachine.Proofs.Semantics.Journals

/-!
# What one instruction writes

At an instruction a call writes down that it executes it, and then what it calls and notes there,
with what the tests of patterns write in between. So the events of a call are those of its
instructions, one after the other, and those of the call nested in an attempt stand in one piece
behind the attempt.

* `Event.isExecution`, `Event.isSettlement`, `Event.isAside`: three kinds of events.
* `Code.Tests`: what is tested at a frame, and where. `Code.NotesAt`: what may be written there.
* `exec_step_writes`: an instruction that attempts no iteration.
* `exec_kept_writes`, `exec_stopped_writes`, `exec_left_writes`: the attempt of an iteration, by
  what the nested call comes to; `exec_loopTry_writes` puts them together.
-/

namespace GrammarMachine

variable {π α β γ : Type}

/-! ## Kinds of events -/

namespace Event

/-- Whether the event tells of an instruction that is executed. -/
def isExecution : Event π α → Bool
  | .executed _ _ _ => true
  | _ => false

/-- Whether the event tells of a repetition that is over, or of its fold. -/
def isSettlement : Event π α → Bool
  | .repetitionFinished _ _ | .foldCalled _ _ => true
  | _ => false

/-- Whether the event tells of something else that happens at an instruction. -/
def isAside (e : Event π α) : Bool := !e.isExecution && !e.isSettlement

theorem isAside_iff {e : Event π α} :
    e.isAside ↔ e.isExecution = false ∧ e.isSettlement = false := by
  rw [isAside, Bool.and_eq_true, Bool.not_eq_true', Bool.not_eq_true']

end Event

theorem isSettlement_of_mem {dropping : Bool} {fold : Option (Action α)} {acc : Option α}
    {ms : List (Match α)} {e : Event π α} (he : e ∈ settlement dropping fold acc ms) :
    e.isSettlement := by
  rcases List.mem_cons.1 he with rfl | he
  · rfl
  · cases fold with
    | none => cases he
    | some a =>
      obtain ⟨call, -, rfl⟩ := List.mem_map.1 he
      rfl

theorem Event.isExecution_of_isSettlement {e : Event π α} (h : e.isSettlement) :
    e.isExecution = false := by
  cases e <;> first | rfl | cases h

/-! ## Where patterns are tested -/

/-- At the frame, a call tests a pattern at an offset under an attribute. On the way there it comes
by the offsets listed. Whether a branch of a choice is come to is left open. -/
inductive Code.Tests (V : Verdicts π α) (code : Code π α) (text : Text) (f : Frame α) :
    List Nat → π → Nat → Option α → Prop
  | here {x p} : code.instrs[f.pc]? = some x → p ∈ x.patterns →
      Tests V code text f [] p f.index f.attr
  | skip {q} : code.instrs[f.pc]? = some .skip → code.ignore = some q →
      Tests V code text f [] q f.index f.attr
  | afterConsume {p action capture m q} :
      code.instrs[f.pc]? = some (.consume p action capture true) →
      V p f.index f.attr (some m) → code.ignore = some q →
      Tests V code text f [m.lastIndex] q m.lastIndex (f.matchAttr action m)
  | afterChoice {ps m q} : code.instrs[f.pc]? = some (.choice ps) →
      FirstMatch V f.index f.attr ps (some m) → code.ignore = some q →
      Tests V code text f [m.lastIndex] q m.lastIndex (f.keep (merge f.attr m.attr))
  | afterKeyword {words word found q} : code.instrs[f.pc]? = some (.keyword words word) →
      words.search text f.index = some found → found.matched = word → code.ignore = some q →
      Tests V code text f [found.lastIndex] q found.lastIndex f.attr

/-- Testing the pattern at the place writes the event. -/
def Probe.NotesAt (probe : Probe π α) (p : π) (i : Nat) (a : Option α) (ev : Event π α) : Prop :=
  ∃ r es, (probe p i a).Writes r es ∧ ev ∈ es

/-- At the frame, a call writes the event beside the execution of its instruction: it is an aside,
or a test of a pattern writes it. -/
def Code.NotesAt (probe : Probe π α) (code : Code π α) (text : Text) (f : Frame α)
    (ev : Event π α) : Prop :=
  ev.isAside ∨ ∃ js p i a, code.Tests probe.verdicts text f js p i a ∧ probe.NotesAt p i a ev

/-- A pattern that is attempted gets its verdict. -/
theorem Probe.verdicts_of_attempt {probe : Probe π α} {p : π} {i : Nat} {a : Option α}
    {o : Option (Match α)} {es : List (Event π α)}
    (h : (probe p i a).attempt.Writes (.ok o) es) : probe.verdicts p i a o := by
  have hempty := h .empty
  rw [Trial.attempt] at hempty
  split at hempty
  · rename_i m j hm
    cases hempty
    exact ⟨_, _, Trial.ends_some_iff.2 hm⟩
  · rename_i j hm
    cases hempty
    exact ⟨_, _, Trial.ends_none_iff.2 hm⟩
  · cases hempty

section

variable {probe : Probe π α} {code : Code π α} {text : Text} {f : Frame α}
  (hprobe : ∀ p i a, ∃ r es, (probe p i a).Writes r es)

include hprobe

theorem firstMatch_writes (i : Nat) (a : Option α) (ps : List π) :
    ∃ es, (∀ ev ∈ es, ∃ p ∈ ps, probe.NotesAt p i a ev) ∧
      ((∃ e, (firstMatch probe i a ps).Writes (.error e) es) ∨
        ∃ m, FirstMatch probe.verdicts i a ps (some m) ∧
          (firstMatch probe i a ps).Writes (.ok m) es) := by
  obtain ⟨r, es, hes, hall⟩ : ∃ r es, (firstMatch probe i a ps).Writes r es ∧
      ∀ ev ∈ es, ∃ p ∈ ps, probe.NotesAt p i a ev := by
    induction ps with
    | nil => exact ⟨_, [], .throw _, List.forall_mem_nil _⟩
    | cons p ps ih =>
      obtain ⟨r, es, hes⟩ := hprobe p i a
      obtain ⟨r', es', hes', hall⟩ := ih
      have hhead (ev : Event π α) (hev : ev ∈ es) : ∃ q ∈ p :: ps, probe.NotesAt q i a ev :=
        ⟨p, List.mem_cons_self, r, es, hes, hev⟩
      have hattempt := hes.attempt
      cases ho : Trial.attempted r with
      | error e =>
        rw [ho] at hattempt
        exact ⟨_, es, hattempt.bind_error, hhead⟩
      | ok o =>
        rw [ho] at hattempt
        cases o with
        | some m => exact ⟨.ok m, es ++ [], hattempt.bind (.pure m), by simpa using hhead⟩
        | none =>
          refine ⟨r', es ++ es', hattempt.bind hes', fun ev hev => ?_⟩
          refine (List.mem_append.1 hev).elim (hhead ev) fun hev => ?_
          exact (hall ev hev).imp fun q ⟨hq, h⟩ => ⟨List.mem_cons_of_mem p hq, h⟩
  refine ⟨es, hall, ?_⟩
  cases r with
  | error e => exact .inl ⟨e, hes⟩
  | ok m => exact .inr ⟨m, firstMatch_sound (hes.ends .empty), hes⟩

theorem skipIgnored_writes (ignore : Option π) (i : Nat) (a : Option α) :
    ∃ es, (∀ ev ∈ es, ∃ p, ignore = some p ∧ probe.NotesAt p i a ev) ∧
      ((∃ e, (skipIgnored probe ignore i a).Writes (.error e) es) ∨
        ∃ j, Skips probe.verdicts ignore i a j ∧
          (skipIgnored probe ignore i a).Writes (.ok j) es) := by
  cases ignore with
  | none => exact ⟨[], List.forall_mem_nil _, .inr ⟨i, .nothing, .pure i⟩⟩
  | some p =>
    obtain ⟨r, es, hes⟩ := hprobe p i a
    refine ⟨es, fun ev hev => ⟨p, rfl, r, es, hes, hev⟩, ?_⟩
    have hattempt := hes.attempt
    cases ho : Trial.attempted r with
    | error e =>
      rw [ho] at hattempt
      exact .inl ⟨e, hattempt.bind_error⟩
    | ok o =>
      rw [ho] at hattempt
      have hverdict := Probe.verdicts_of_attempt hattempt
      rw [← List.append_nil es]
      cases o with
      | some m => exact .inr ⟨_, .moves hverdict, hattempt.bind (.pure _)⟩
      | none => exact .inr ⟨_, .stays hverdict, hattempt.bind (.pure _)⟩

/-! ## The machine -/

/-- At an instruction that attempts no iteration the call writes down that it executes it, then
asides and what the tests of patterns there write. Then it stops, or goes on in the next frame. -/
theorem exec_step_writes {x : Instr π α} (hi : code.instrs[f.pc]? = some x) (hx : ¬ x.Attempts)
    (text : Text) (fuel : Nat) :
    ∃ es : List (Event π α), (∀ ev ∈ es, code.NotesAt probe text f ev) ∧
      ((∃ e, (exec probe code text (fuel + 1) f).Writes (.error e)
        (.executed f.pc f.index x :: es)) ∨
      ∃ g, Step probe.verdicts code text f (some g) ∧
        ∀ r es', (exec probe code text fuel g).Writes r es' →
          (exec probe code text (fuel + 1) f).Writes r
            (.executed f.pc f.index x :: (es ++ es'))) := by
  have hskip := skipIgnored_writes hprobe code.ignore
  have hnothing : ∀ ev ∈ ([] : List (Event π α)), code.NotesAt probe text f ev :=
    List.forall_mem_nil _
  rw [exec, hi]
  cases x with
  | consume p action capture skips =>
    obtain ⟨r, ts, hr⟩ := hprobe p f.index f.attr
    have hts (ev : Event π α) (hev : ev ∈ ts) : code.NotesAt probe text f ev :=
      .inr ⟨_, _, _, _, .here hi List.mem_cons_self, r, ts, hr, hev⟩
    cases r with
    | error e => exact ⟨ts, hts, .inl ⟨e, .note_bind hr.bind_error⟩⟩
    | ok m =>
      have hp : probe.verdicts p f.index f.attr (some m) := ⟨_, _, hr.ends .empty⟩
      have hattr := attrAfter_writes (π := π) f action m
      have hcalls : ∀ ev ∈ ts ++ (action.toList.map fun a =>
          .actionCalled a.tag ⟨m.matched, m.attr, f.attr, m.extra⟩ : List (Event π α)),
          code.NotesAt probe text f ev := by
        intro ev hev
        refine (List.mem_append.1 hev).elim (hts ev) fun hev => .inl ?_
        obtain ⟨a, -, rfl⟩ := List.mem_map.1 hev
        rfl
      cases skips with
      | false =>
        refine ⟨_, hcalls, .inr ⟨_, .consume hi hp .nothing, fun r es h => .note_bind ?_⟩⟩
        rw [List.append_assoc]
        exact hr.bind (hattr.bind h)
      | true =>
        obtain ⟨ks, hks, hj⟩ := hskip m.lastIndex (f.matchAttr action m)
        refine ⟨_ ++ ks, fun ev hev => (List.mem_append.1 hev).elim (hcalls ev) fun hev => ?_, ?_⟩
        · obtain ⟨q, hq, hnote⟩ := hks ev hev
          exact .inr ⟨_, q, _, _, .afterConsume hi hp hq, hnote⟩
        simp only [List.append_assoc]
        rcases hj with ⟨e, he⟩ | ⟨j, hs, hj⟩
        · exact .inl ⟨e, .note_bind (hr.bind (hattr.bind he.bind_error))⟩
        · exact .inr ⟨_, .consume hi hp hs,
            fun r es h => .note_bind (hr.bind (hattr.bind (hj.bind h)))⟩
  | loopStart capture =>
    dsimp only
    by_cases hc : capture < f.captures.length
    · rw [if_pos hc]
      exact ⟨[], hnothing, .inr ⟨_, .loopStart hi hc, fun r es h => .note_bind h⟩⟩
    · rw [if_neg hc]
      exact ⟨[], hnothing, .inl ⟨_, .note_bind (.throw _)⟩⟩
  | loopTry => exact absurd trivial hx
  | loopBack back max =>
    dsimp only
    by_cases hmax : max.any (· ≤ f.count)
    · rw [if_pos hmax]
      exact ⟨[], hnothing, .inr ⟨_, .loopEnds hi (.inl hmax), fun r es h => .note_bind h⟩⟩
    rw [if_neg hmax]
    by_cases hempty : f.index = f.start
    · rw [if_pos hempty]
      exact ⟨[.emptyIteration f.pc f.index], List.forall_mem_singleton.2 (.inl rfl),
        .inr ⟨_, .loopEnds hi (.inr hempty), fun r es h => .note_bind (.note_bind h)⟩⟩
    rw [if_neg hempty]
    by_cases hback : back ≤ f.pc
    · rw [if_pos hback]
      exact ⟨[], hnothing, .inr ⟨_, .loopAgain hi hmax hempty hback, fun r es h => .note_bind h⟩⟩
    · rw [if_neg hback]
      exact ⟨[], hnothing, .inl ⟨_, .note_bind (.throw _)⟩⟩
  | choice ps =>
    obtain ⟨ts, hts, hm⟩ := firstMatch_writes hprobe f.index f.attr ps
    have htests (ev : Event π α) (hev : ev ∈ ts) : code.NotesAt probe text f ev := by
      obtain ⟨p, hp, hnote⟩ := hts ev hev
      exact .inr ⟨_, p, _, _, .here hi hp, hnote⟩
    rcases hm with ⟨e, he⟩ | ⟨m, hp, hm⟩
    · exact ⟨ts, htests, .inl ⟨e, .note_bind he.bind_error⟩⟩
    obtain ⟨ks, hks, hj⟩ := hskip m.lastIndex (f.keep (merge f.attr m.attr))
    refine ⟨ts ++ ks, fun ev hev => (List.mem_append.1 hev).elim (htests ev) fun hev => ?_, ?_⟩
    · obtain ⟨q, hq, hnote⟩ := hks ev hev
      exact .inr ⟨_, q, _, _, .afterChoice hi hp hq, hnote⟩
    simp only [List.append_assoc]
    rcases hj with ⟨e, he⟩ | ⟨j, hs, hj⟩
    · exact .inl ⟨e, .note_bind (hm.bind he.bind_error)⟩
    · exact .inr ⟨_, .choice hi hp hs, fun r es h => .note_bind (hm.bind (hj.bind h))⟩
  | ahead p positive =>
    obtain ⟨r, ts, hr⟩ := hprobe p f.index f.attr
    refine ⟨ts, fun ev hev => .inr ⟨_, _, _, _, .here hi List.mem_cons_self, r, ts, hr, hev⟩, ?_⟩
    have hattempt := hr.attempt
    cases ho : Trial.attempted r with
    | error e =>
      rw [ho] at hattempt
      exact .inl ⟨e, .note_bind hattempt.bind_error⟩
    | ok o =>
      -- The assertion looks at whether there is a match alone.
      rw [ho] at hattempt
      by_cases hpos : o.isSome = positive
      · refine .inr ⟨_, .ahead hi (Probe.verdicts_of_attempt hattempt) hpos,
          fun r es h => .note_bind (hattempt.bind ?_)⟩
        rwa [if_pos hpos]
      · refine .inl ⟨.mismatch, .note_bind ?_⟩
        rw [← List.append_nil ts]
        refine hattempt.bind ?_
        rw [if_neg hpos]
        exact .throw _
  | guard c =>
    refine ⟨[.conditionTested c.tag f.attr], List.forall_mem_singleton.2 (.inl rfl), ?_⟩
    dsimp only
    by_cases hc : c.apply f.attr
    · rw [if_pos hc]
      exact .inr ⟨_, .guard hi hc, fun r es h => .note_bind (.note_bind h)⟩
    · rw [if_neg hc]
      exact .inl ⟨_, .note_bind (.note_bind (.throw _))⟩
  | assign v => exact ⟨[], hnothing, .inr ⟨_, .assign hi, fun r es h => .note_bind h⟩⟩
  | transform t =>
    exact ⟨[.transformCalled t.tag f.attr], List.forall_mem_singleton.2 (.inl rfl),
      .inr ⟨_, .transform hi, fun r es h => .note_bind (.note_bind h)⟩⟩
  | dropAttributes => exact ⟨[], hnothing, .inr ⟨_, .dropAttributes hi, fun r es h => .note_bind h⟩⟩
  | skip =>
    obtain ⟨ks, hks, hj⟩ := hskip f.index f.attr
    refine ⟨ks, fun ev hev => ?_, ?_⟩
    · obtain ⟨q, hq, hnote⟩ := hks ev hev
      exact .inr ⟨_, q, _, _, .skip hi hq, hnote⟩
    rcases hj with ⟨e, he⟩ | ⟨j, hs, hj⟩
    · exact .inl ⟨e, .note_bind he.bind_error⟩
    · exact .inr ⟨_, .skip hi hs, fun r es h => .note_bind (hj.bind h)⟩
  | keyword words word =>
    dsimp only
    cases hsearch : words.search text f.index with
    | none => exact ⟨[], hnothing, .inl ⟨.mismatch, .note_bind (Trial.Writes.throw _).bind_error⟩⟩
    | some found =>
      have hfound := Trial.Writes.ofOption (π := π) (α := α) (b := found) (Eq.refl (some found))
      by_cases hword : found.matched = word
      · obtain ⟨ks, hks, hj⟩ := hskip found.lastIndex f.attr
        refine ⟨ks, fun ev hev => ?_, ?_⟩
        · obtain ⟨q, hq, hnote⟩ := hks ev hev
          exact .inr ⟨_, q, _, _, .afterKeyword hi hsearch hword hq, hnote⟩
        rcases hj with ⟨e, he⟩ | ⟨j, hs, hj⟩
        · refine .inl ⟨e, .note_bind (.silent_bind hfound ?_)⟩
          rw [if_pos hword]
          exact he.bind_error
        · refine .inr ⟨_, .keyword hi hsearch hword hs,
            fun r es h => .note_bind (.silent_bind hfound ?_)⟩
          rw [if_pos hword]
          exact hj.bind h
      · refine ⟨[], hnothing, .inl ⟨.mismatch, .note_bind (.silent_bind hfound ?_)⟩⟩
        rw [if_neg hword]
        exact .throw _

end

/-- A probe that keeps silent leaves asides alone. -/
theorem Code.NotesAt.isAside {probe : Probe π α} {code : Code π α} {text : Text} {f : Frame α}
    (hprobe : ∀ p i a, ∃ r, (probe p i a).Writes r []) {ev : Event π α}
    (h : code.NotesAt probe text f ev) : ev.isAside := by
  rcases h with h | ⟨-, p, i, a, -, r, es, hes, hev⟩
  · exact h
  · obtain ⟨r', hr'⟩ := hprobe p i a
    obtain ⟨-, rfl⟩ := hes.unique hr'
    cases hev

/-! ## The attempt of an iteration -/

/-- What a call writes where its repetition is over. The call that attempts the first iteration
settles it. -/
def Frame.settling (f : Frame α) (capture : Nat) (fold : Option (Action α)) (init : Option α)
    (cs : Captures α) : List (Event π α) :=
  if f.count = 0 then settlement f.dropping fold (f.keep (merge f.seed init)) (cs.recorded capture)
  else []

theorem isSettlement_of_mem_settling {f : Frame α} {capture : Nat} {fold : Option (Action α)}
    {init : Option α} {cs : Captures α} {ev : Event π α}
    (h : ev ∈ f.settling capture fold init cs) : ev.isSettlement := by
  rw [Frame.settling] at h
  split at h
  · exact isSettlement_of_mem h
  · cases h

section

variable {probe : Probe π α} {code : Code π α} {text : Text} {f : Frame α} {fuel : Nat}
  {capture min exit : Nat} {fold : Option (Action α)} {init : Option α} {es : List (Event π α)}
  (hi : code.instrs[f.pc]? = some (.loopTry capture min exit fold init))

include hi

/-- The iterations are kept if the call nested in the attempt ends well. -/
theorem exec_kept_writes {fin : Final α}
    (h : (exec probe code text fuel f.enterIteration).Writes (.ok fin) es) :
    (exec probe code text (fuel + 1) f).Writes (.ok (f.afterIteration capture fold init fin))
      (.executed f.pc f.index (.loopTry capture min exit fold init) ::
        (es ++ f.settling capture fold init fin.captures)) := by
  rw [exec, hi]
  refine .note_bind (h.attempt.bind ?_)
  rw [Frame.afterIteration, Frame.settling]
  by_cases hf : f.count = 0
  · simp only [if_pos hf]
    have hsettle := settle_writes (π := π) f (f.keep (merge f.attr fin.attr))
      (fin.captures.recorded capture) fold init
    rw [← List.append_nil (settlement ..)]
    exact hsettle.bind (.pure _)
  · simp only [if_neg hf]
    exact .pure _

/-- The call stops with the nested one, unless it may leave the repetition. -/
theorem exec_stopped_writes {e : Stop}
    (h : (exec probe code text fuel f.enterIteration).Writes (.error e) es)
    (he : e = .mismatch → f.count < min) :
    (exec probe code text (fuel + 1) f).Writes (.error e)
      (.executed f.pc f.index (.loopTry capture min exit fold init) :: es) := by
  rw [exec, hi]
  refine .note_bind ?_
  cases e with
  | mismatch =>
    rw [← List.append_nil es]
    refine h.attempt.bind ?_
    dsimp only
    rw [if_pos (he rfl)]
    exact .throw _
  | outOfFuel | invalidSlice | invalidCapture | invalidJump => exact h.attempt.bind_error

/-- If the nested call does not match and no iteration is missing, the call goes on past the
repetition. -/
theorem exec_left_writes {r : Except Stop (Final α)} {es' : List (Event π α)}
    (h : (exec probe code text fuel f.enterIteration).Writes (.error .mismatch) es)
    (hmin : ¬ f.count < min)
    (hrest : (exec probe code text fuel (f.leaveLoop capture exit fold init)).Writes r es') :
    (exec probe code text (fuel + 1) f).Writes r
      (.executed f.pc f.index (.loopTry capture min exit fold init) ::
        (es ++ (f.settling capture fold init f.captures ++ es'))) := by
  rw [exec, hi]
  refine .note_bind (h.attempt.bind ?_)
  dsimp only
  rw [if_neg hmin, Frame.settling]
  rw [Frame.leaveLoop] at hrest
  by_cases hf : f.count = 0
  · simp only [if_pos hf] at hrest ⊢
    exact (settle_writes f f.attr (f.captures.recorded capture) fold init).bind hrest
  · simp only [if_neg hf] at hrest ⊢
    exact hrest

/-- The attempt of an iteration writes what the nested call does. Behind that no more is executed,
or what follows the repetition. -/
theorem exec_loopTry_writes {r : Except Stop (Final α)}
    (h : (exec probe code text fuel f.enterIteration).Writes r es) :
    ∃ ss : List (Event π α), (∀ ev ∈ ss, ev.isExecution = false) ∧
      ((∃ s, (exec probe code text (fuel + 1) f).Writes s
        (.executed f.pc f.index (.loopTry capture min exit fold init) :: (es ++ ss))) ∨
      ∀ s es', (exec probe code text fuel (f.leaveLoop capture exit fold init)).Writes s es' →
        (exec probe code text (fuel + 1) f).Writes s
          (.executed f.pc f.index (.loopTry capture min exit fold init) ::
            (es ++ (ss ++ es')))) := by
  have hquiet (cs : Captures α) (ev : Event π α) (hev : ev ∈ f.settling capture fold init cs) :
      ev.isExecution = false :=
    Event.isExecution_of_isSettlement (isSettlement_of_mem_settling hev)
  cases r with
  | ok fin => exact ⟨_, hquiet fin.captures, .inl ⟨_, exec_kept_writes hi h⟩⟩
  | error e =>
    by_cases he : e = .mismatch → f.count < min
    · have hstop := exec_stopped_writes hi h he
      rw [← List.append_nil es] at hstop
      exact ⟨[], List.forall_mem_nil _, .inl ⟨_, hstop⟩⟩
    · obtain ⟨rfl, hmin⟩ := Classical.not_imp.1 he
      exact ⟨_, hquiet f.captures, .inr fun s es' => exec_left_writes hi h hmin⟩

end

end GrammarMachine
