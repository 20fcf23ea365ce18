import GrammarMachine.Proofs.Semantics.Instructions

/-!
# Where a run comes by

A run abandons attempts of iterations, tests patterns that do not match, and runs the programs that
patterns hold. A path leads from the beginning of a run to one of the frames that it comes by, in
whatever of these calls that is, and lists the offsets on the way there.

* `Code.Moves`: one instruction, with the offset behind what it consumes and the one behind
  ignorable text. `Pattern.Holds`: the program that runs where a pattern is tested.
* `Program.Path`: one more instruction, iteration or test at the end of a path.
* `Exec.exists_path`: a call that ends well ends where a path from its frame does.
* `exec_onPath`, `Pattern.find_onPath`: all instructions that are executed are executed on paths.
-/

namespace GrammarMachine

variable {π α β γ : Type}

/-! ## One instruction -/

/-- Whether the instruction consumes something and then skips ignorable text. -/
def Instr.Consumes : Instr π α → Prop
  | .consume _ _ _ _ | .choice _ | .keyword _ _ => True
  | _ => False

/-- One instruction other than the attempt of an iteration leads to the next frame. On the way it
comes by the offsets listed. -/
inductive Code.Moves (V : Verdicts π α) (code : Code π α) (text : Text) (f : Frame α) :
    List Nat → Frame α → Prop
  | consume {p action capture skips m i} :
      code.instrs[f.pc]? = some (.consume p action capture skips) →
      V p f.index f.attr (some m) →
      Skips V (if skips then code.ignore else none) m.lastIndex (f.matchAttr action m) i →
      Moves V code text f [m.lastIndex, i]
        { f.next i (f.matchAttr action m) with captures := f.capturesAfter capture m }
  | choice {branches m i} : code.instrs[f.pc]? = some (.choice branches) →
      FirstMatch V f.index f.attr branches (some m) →
      Skips V code.ignore m.lastIndex (f.keep (merge f.attr m.attr)) i →
      Moves V code text f [m.lastIndex, i] (f.next i (f.keep (merge f.attr m.attr)))
  | keyword {words word found i} : code.instrs[f.pc]? = some (.keyword words word) →
      words.search text f.index = some found → found.matched = word →
      Skips V code.ignore found.lastIndex f.attr i →
      Moves V code text f [found.lastIndex, i] (f.next i f.attr)
  | other {x g} : code.instrs[f.pc]? = some x → ¬ x.Consumes → Step V code text f (some g) →
      Moves V code text f [g.index] g

section

variable {V : Verdicts π α} {code : Code π α} {text : Text} {f g : Frame α}

/-- To move is to take a step. -/
theorem Step.iff_exists_moves :
    Step V code text f (some g) ↔ ∃ is, code.Moves V text f is g := by
  constructor
  · intro h
    cases h with
    | consume hi hp hs => exact ⟨_, .consume hi hp hs⟩
    | choice hi hp hs => exact ⟨_, .choice hi hp hs⟩
    | keyword hi hf hw hs => exact ⟨_, .keyword hi hf hw hs⟩
    | loopStart hi hc => exact ⟨_, .other hi id (.loopStart hi hc)⟩
    | loopEnds hi hend => exact ⟨_, .other hi id (.loopEnds hi hend)⟩
    | loopAgain hi hm hne hb => exact ⟨_, .other hi id (.loopAgain hi hm hne hb)⟩
    | ahead hi hp hr => exact ⟨_, .other hi id (.ahead hi hp hr)⟩
    | guard hi hc => exact ⟨_, .other hi id (.guard hi hc)⟩
    | assign hi => exact ⟨_, .other hi id (.assign hi)⟩
    | transform hi => exact ⟨_, .other hi id (.transform hi)⟩
    | dropAttributes hi => exact ⟨_, .other hi id (.dropAttributes hi)⟩
    | skip hi hs => exact ⟨_, .other hi id (.skip hi hs)⟩
  · rintro ⟨is, h⟩
    cases h with
    | consume hi hp hs => exact .consume hi hp hs
    | choice hi hp hs => exact .choice hi hp hs
    | keyword hi hf hw hs => exact .keyword hi hf hw hs
    | other _ _ h => exact h

theorem Code.Tests.mono {V' : Verdicts π α} (hV : ∀ p i a r, V p i a r → V' p i a r) {js : List Nat}
    {p : π} {i : Nat} {a : Option α} (h : code.Tests V text f js p i a) :
    code.Tests V' text f js p i a := by
  cases h with
  | here hi hp => exact .here hi hp
  | skip hi hq => exact .skip hi hq
  | afterConsume hi hp hq => exact .afterConsume hi (hV _ _ _ _ hp) hq
  | afterChoice hi hp hq => exact .afterChoice hi (hp.mono hV) hq
  | afterKeyword hi hf hw hq => exact .afterKeyword hi hf hw hq

/-- What is tested is a pattern of an instruction, or ignorable text. -/
theorem Code.Tests.mem {js : List Nat} {p : π} {i : Nat} {a : Option α}
    (h : code.Tests V text f js p i a) :
    (∃ x ∈ code.instrs, p ∈ x.patterns) ∨ code.ignore = some p := by
  cases h with
  | here hi hp => exact .inl ⟨_, List.mem_of_getElem? hi, hp⟩
  | skip _ hq | afterConsume _ _ hq | afterChoice _ _ hq | afterKeyword _ _ _ hq => exact .inr hq

end

/-! ## Paths -/

/-- The program that runs where the pattern is tested. At the end of a word ignorable text is
tested. -/
inductive Pattern.Holds (fs : Forwards α) : Pattern α → Program α → Prop
  | program (code : Program α) : Holds fs (.program code) code
  | forward {cell code} : fs.get? cell = some code → Holds fs (.forward cell) code
  | wordEnd {p words code} : Holds fs p code → Holds fs (.wordEnd (some p) words) code

/-- A run of the program `p` from the frame `f` may come by another frame, which belongs to a
program of its own if a pattern is tested there. On the way it comes by the offsets listed. -/
inductive Program.Path (fs : Forwards α) (text : Text) (p : Program α) (f : Frame α) :
    List Nat → Program α → Frame α → Prop
  | here : Path fs text p f [] p f
  | step {is q g js h} : Path fs text p f is q g → q.Moves (Pattern.Answers fs text) text g js h →
      Path fs text p f (is ++ js) q h
  | iterate {is q g capture min exit fold init} : Path fs text p f is q g →
      q.instrs[g.pc]? = some (.loopTry capture min exit fold init) →
      Path fs text p f is q g.enterIteration
  | leave {is q g capture min exit fold init} : Path fs text p f is q g →
      q.instrs[g.pc]? = some (.loopTry capture min exit fold init) →
      Path fs text p f is q (g.leaveLoop capture exit fold init)
  | enter {is q g js t i a c} : Path fs text p f is q g →
      q.Tests (Pattern.Answers fs text) text g js t i a → t.Holds fs c →
      Path fs text p f (is ++ js) c (.initial c.captures i a)

section

variable {fs : Forwards α} {text : Text} {p q r : Program α} {f g h : Frame α} {is js : List Nat}

/-- A path that goes on where another one ends. -/
theorem Program.Path.trans (hpq : p.Path fs text f is q g) (hqr : q.Path fs text g js r h) :
    p.Path fs text f (is ++ js) r h := by
  induction hqr with
  | here =>
    rw [List.append_nil]
    exact hpq
  | step _ hmoves ih =>
    rw [← List.append_assoc]
    exact .step ih hmoves
  | iterate _ hi ih => exact .iterate ih hi
  | leave _ hi ih => exact .leave ih hi
  | enter _ ht hc ih =>
    rw [← List.append_assoc]
    exact .enter ih ht hc

/-- A call that ends well ends where a path comes to the end of the code. -/
theorem Exec.exists_path {o : Option (Final α)} (hx : Exec (Pattern.Answers fs text) p text f o) :
    ∀ fin, o = some fin →
      ∃ is g, p.Path fs text f is p g ∧ p.instrs[g.pc]? = none ∧ fin.index = g.index := by
  induction hx with
  | @halt f hi =>
    rintro fin ⟨⟩
    exact ⟨[], f, .here, hi, rfl⟩
  | step hs _ ih =>
    intro fin hfin
    obtain ⟨is, hmoves⟩ := Step.iff_exists_moves.1 hs
    obtain ⟨js, g, hg, hend, hindex⟩ := ih fin hfin
    exact ⟨_, g, (Program.Path.here.step hmoves).trans hg, hend, hindex⟩
  | fail | tooFew => exact fun _ hfin => nomatch hfin
  | kept hi _ ih =>
    rintro fin ⟨⟩
    obtain ⟨is, g, hg, hend, hindex⟩ := ih _ rfl
    exact ⟨_, g, (Program.Path.here.iterate hi).trans hg, hend, hindex⟩
  | left hi _ _ _ _ ih =>
    intro fin hfin
    obtain ⟨is, g, hg, hend, hindex⟩ := ih fin hfin
    exact ⟨_, g, (Program.Path.here.leave hi).trans hg, hend, hindex⟩

end

/-! ## What is written on paths -/

/-- The trial comes to something, and all events that it writes satisfy `P`. -/
def Trial.WritesOnly (P : Event π α → Prop) (t : Trial π α β) : Prop :=
  ∃ r es, t.Writes r es ∧ ∀ ev ∈ es, P ev

namespace Trial.WritesOnly

variable {P Q : Event π α → Prop} {t : Trial π α β} {k : β → Trial π α γ}

theorem imp (h : t.WritesOnly P) (hPQ : ∀ ev, P ev → Q ev) : t.WritesOnly Q := by
  obtain ⟨r, es, hes, hall⟩ := h
  exact ⟨r, es, hes, fun ev hev => hPQ ev (hall ev hev)⟩

theorem pure (b : β) : (Pure.pure b : Trial π α β).WritesOnly P := ⟨_, [], .pure b, nofun⟩

theorem throw (e : Stop) : (MonadExcept.throw e : Trial π α β).WritesOnly P :=
  ⟨_, [], .throw e, nofun⟩

theorem ofOption (o : Option β) : (Trial.ofOption o : Trial π α β).WritesOnly P := by
  cases o with
  | none => exact .throw _
  | some b => exact .pure b

theorem span (text : Text) (start stop : Nat) :
    (Trial.span text start stop : Trial π α (Match α)).WritesOnly P := by
  rw [Trial.span]
  cases Match.span? text start stop with
  | none => exact .throw _
  | some m => exact .pure m

theorem bind (h : t.WritesOnly P) (hk : ∀ b, (k b).WritesOnly P) : (t >>= k).WritesOnly P := by
  obtain ⟨r, es, hes, hall⟩ := h
  cases r with
  | error e => exact ⟨_, es, hes.bind_error, hall⟩
  | ok b =>
    obtain ⟨s, es', hes', hall'⟩ := hk b
    exact ⟨s, _, hes.bind hes', fun ev hev => (List.mem_append.1 hev).elim (hall ev) (hall' ev)⟩

theorem note_bind {ev : Event π α} {k : Unit → Trial π α γ} (hev : P ev)
    (h : (k ()).WritesOnly P) : (note ev >>= k).WritesOnly P := by
  obtain ⟨s, es, hes, hall⟩ := h
  exact ⟨s, _, hes.note_bind, List.forall_mem_cons.2 ⟨hev, hall⟩⟩

theorem attempt (h : t.WritesOnly P) : t.attempt.WritesOnly P := by
  obtain ⟨r, es, hes, hall⟩ := h
  exact ⟨_, es, hes.attempt, hall⟩

theorem ite {C : Prop} [Decidable C] {e : Trial π α β} (h : t.WritesOnly P)
    (he : e.WritesOnly P) : (if C then t else e).WritesOnly P := by
  by_cases hC : C
  · rwa [if_pos hC]
  · rwa [if_neg hC]

end Trial.WritesOnly

section

variable {fs : Forwards α} {text : Text} {p q : Program α} {f g : Frame α}

/-- If the event tells of an instruction that is executed, then a path from the frame leads
there. -/
def Program.OnPath (fs : Forwards α) (text : Text) (p : Program α) (f : Frame α)
    (ev : Event (Pattern α) α) : Prop :=
  ∀ pc o x, ev = .executed pc o x →
    ∃ is q g, p.Path fs text f is q g ∧ g.pc = pc ∧ g.index = o ∧ q.instrs[pc]? = some x

theorem Program.OnPath.of_isExecution {ev : Event (Pattern α) α} (h : ev.isExecution = false) :
    p.OnPath fs text f ev := by
  rintro pc o x rfl
  cases h

theorem Program.OnPath.trans {ev : Event (Pattern α) α} {is : List Nat}
    (hpq : p.Path fs text f is q g) (h : q.OnPath fs text g ev) : p.OnPath fs text f ev := by
  intro pc o x hev
  obtain ⟨js, r, g', hqr, hat⟩ := h pc o x hev
  exact ⟨is ++ js, r, g', hpq.trans hqr, hat⟩

/-- If the event tells of an instruction that is executed, then by a program that runs where the
pattern is tested. -/
def Pattern.OnPath (fs : Forwards α) (text : Text) (t : Pattern α) (i : Nat) (a : Option α)
    (ev : Event (Pattern α) α) : Prop :=
  ev.isExecution = false ∨ ∃ c, t.Holds fs c ∧ c.OnPath fs text (.initial c.captures i a) ev

/-- All that a call executes is executed on paths from its frame, if tests keep to paths. -/
theorem exec_onPath {probe : Probe (Pattern α) α}
    (hprobe : ∀ t i a, (probe t i a).WritesOnly (t.OnPath fs text i a))
    (hV : ∀ t i a o, probe.verdicts t i a o → t.Answers fs text i a o) (fuel : Nat) :
    (exec probe p text fuel f).WritesOnly (p.OnPath fs text f) := by
  have hwrites (t : Pattern α) (i : Nat) (a : Option α) : ∃ r es, (probe t i a).Writes r es := by
    obtain ⟨r, es, hes, -⟩ := hprobe t i a
    exact ⟨r, es, hes⟩
  induction fuel generalizing f with
  | zero => exact .throw _
  | succ fuel ih =>
    cases hi : p.instrs[f.pc]? with
    | none =>
      rw [exec, hi]
      exact .pure _
    | some x =>
      have hhere : p.OnPath fs text f (.executed f.pc f.index x) := by
        rintro pc o y ⟨⟩
        exact ⟨[], p, f, .here, rfl, rfl, hi⟩
      by_cases hx : x.Attempts
      · cases x with
        | loopTry capture min exit fold init =>
          obtain ⟨r, es, hes, hall⟩ := ih (f := f.enterIteration)
          have hin (ev : Event (Pattern α) α) (hev : ev ∈ es) : p.OnPath fs text f ev :=
            .trans (.iterate .here hi) (hall ev hev)
          obtain ⟨ss, hss, hstop | hon⟩ := exec_loopTry_writes hi hes
          · obtain ⟨s, hs⟩ := hstop
            refine ⟨s, _, hs, List.forall_mem_cons.2 ⟨hhere, fun ev hev => ?_⟩⟩
            exact (List.mem_append.1 hev).elim (hin ev) fun h => .of_isExecution (hss ev h)
          · obtain ⟨s, es', hes', hall'⟩ := ih (f := f.leaveLoop capture exit fold init)
            refine ⟨s, _, hon s es' hes', List.forall_mem_cons.2 ⟨hhere, fun ev hev => ?_⟩⟩
            simp only [List.mem_append] at hev
            rcases hev with hev | hev | hev
            · exact hin ev hev
            · exact .of_isExecution (hss ev hev)
            · exact .trans (.leave .here hi) (hall' ev hev)
        | _ => exact hx.elim
      · obtain ⟨es, hes, h⟩ := exec_step_writes hwrites hi hx text fuel
        have hat (ev : Event (Pattern α) α) (hev : ev ∈ es) : p.OnPath fs text f ev := by
          rcases hes ev hev with haside | ⟨js, t, i, a, htests, r, es', hes', hmem⟩
          · exact .of_isExecution (Event.isAside_iff.1 haside).1
          obtain ⟨r', es'', hes'', hall⟩ := hprobe t i a
          obtain ⟨-, rfl⟩ := hes'.unique hes''
          rcases hall ev hmem with hquiet | ⟨c, hc, hon⟩
          · exact .of_isExecution hquiet
          · exact .trans (.enter .here (htests.mono hV) hc) hon
        rcases h with ⟨e, he⟩ | ⟨g, hs, hon⟩
        · exact ⟨_, _, he, List.forall_mem_cons.2 ⟨hhere, hat⟩⟩
        · obtain ⟨is, hmoves⟩ := Step.iff_exists_moves.1 (hs.mono hV)
          obtain ⟨s, es', hes', hall⟩ := ih (f := g)
          refine ⟨s, _, hon s es' hes', List.forall_mem_cons.2 ⟨hhere, fun ev hev => ?_⟩⟩
          exact (List.mem_append.1 hev).elim (hat ev) fun h =>
            .trans (.step .here hmoves) (hall ev h)

theorem Code.run_onPath {probe : Probe (Pattern α) α}
    (hprobe : ∀ t i a, (probe t i a).WritesOnly (t.OnPath fs text i a))
    (hV : ∀ t i a o, probe.verdicts t i a o → t.Answers fs text i a o) (fuel start : Nat)
    (inherited : Option α) :
    (p.run probe fuel text start inherited).WritesOnly
      (p.OnPath fs text (.initial p.captures start inherited)) := by
  obtain ⟨r, es, hes, hall⟩ :=
    exec_onPath hprobe hV fuel (p := p) (f := .initial p.captures start inherited)
  exact ⟨_, es, Code.run_writes hes, hall⟩

/-- All that a test of a pattern executes is executed on paths of the program that runs there. -/
theorem Pattern.find_onPath (fs : Forwards α) (text : Text) (fuel : Nat) (t : Pattern α) (i : Nat)
    (a : Option α) : (find fs text fuel t i a).WritesOnly (t.OnPath fs text i a) := by
  induction fuel generalizing t i a with
  | zero => exact .throw _
  | succ fuel ih =>
    have hrun {t : Pattern α} {c : Program α} (hc : t.Holds fs c) :
        (c.run (find fs text fuel) fuel text i a).WritesOnly (t.OnPath fs text i a) :=
      (Code.run_onPath ih (fun _ _ _ _ => answers_of_find) fuel i a).imp
        fun ev hev => .inr ⟨c, hc, hev⟩
    cases t with
    | literal | lineBreak =>
      rw [find]
      exact (Trial.WritesOnly.ofOption _).bind fun _ => .span ..
    | regex =>
      rw [find]
      exact .ofOption _
    | program code =>
      rw [find]
      exact hrun (.program code)
    | forward cell =>
      rw [find]
      cases hcell : fs.get? cell with
      | none => exact .note_bind (.inl rfl) (.throw _)
      | some code => exact hrun (.forward hcell)
    | custom =>
      rw [find]
      exact .note_bind (.inl rfl) (.ofOption _)
    | endOfInput =>
      rw [find]
      exact .ite (.span ..) (.throw _)
    | wordEnd ignore words =>
      rw [find]
      refine .ite (.span ..) ?_
      cases ignore with
      | none => exact .ite (.span ..) (.throw _)
      | some q =>
        simp only [map_eq_pure_bind, bind_assoc, pure_bind]
        refine Trial.WritesOnly.bind ?_ fun o => .ite (.span ..) (.throw _)
        exact (ih q i a).attempt.imp fun ev hev =>
          hev.imp_right (Exists.imp fun _ => And.imp_left .wordEnd)

end

end GrammarMachine
