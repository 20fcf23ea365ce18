import GrammarMachine.Proofs.Inheritance.Keeping
import GrammarMachine.Proofs.Nesting.Moving
import GrammarMachine.Proofs.Nesting.Resting

/-!
# Nesting a grammar

A grammar that is consumed as a pattern runs as a program of its own: it skips ignorable text once
more, slices what it matched out of the text, and hands its attribute to the grammar around it. None
of this shows: it is as if its steps stood in the place of the pattern.

* `Ending.exec_inline`: a run of the nested program is a run of its steps behind those around it.
* `Lexicon.nesting_transparent`: the grammar with the nested one matches as the grammar with all steps.
-/

namespace GrammarMachine

variable {α : Type} {fs : Forwards α} {text : Text} {l : Lexicon α} {ss ss₁ ss₂ : List (Link α)}
  {e : Ending α}

/-! ## The program of steps and an end -/

namespace Ending

theorem isPlain_close (hss : ∀ s ∈ ss, s.IsPlain) (he : e.IsPlain)
    (hig : ∀ p, l.ignore = some p → p.IsPlain) : (e.close (l.chain ss)).IsPlain := by
  rw [close_chain]
  refine ⟨fun i hi => ?_, hig⟩
  rcases List.mem_append.1 hi with hi | hi
  · rw [Lexicon.grammar] at hi
    split at hi
    · rw [List.mem_singleton.1 hi]
      trivial
    · cases hi
  rcases List.mem_append.1 hi with hi | hi
  · exact Link.isPlain_instrsOf hss i hi
  · refine forall_instrs he (fun i hi => ?_) (fun _ => trivial) (fun _ _ _ _ _ => trivial)
      (fun _ _ => trivial) i hi
    obtain ⟨p, c, hp, rfl⟩ := hi
    exact hp

theorem skipsAfter_close (he : e.IsPlain) : SkipsAfter (e.close (l.chain ss)).instrs := by
  rw [close_eq]
  refine (l.skipsAfter_chain ss).append (skipsAfter_of_forall ?_)
  refine forall_instrs he (fun i hi => ?_) (fun _ _ _ _ => nofun) (fun _ _ _ _ _ _ _ _ => nofun)
    (fun _ _ _ _ _ => nofun)
  obtain ⟨p, c, -, rfl⟩ := hi
  exact fun _ _ _ => nofun

/-- A repetition does not drop attributes, and neither do terminals. -/
theorem drops_instrs (e : Ending α) : ∀ i ∈ e.instrs, i.drops = false := by
  cases e with
  | chain => exact fun _ hi => nomatch hi
  | sealed s fold ts =>
    cases s <;> cases fold <;>
      simp +contextual [instrs, Repetition.loopInstrs, Seal.repetition, Repetition.folding,
        Repetition.followedBy_eq, Repetition.withFold, Grammar.repeated, Grammar.tokenDelimited,
        Instr.token, Instr.drops, or_imp]

/-- Steps that drop no attributes give a program that keeps them. -/
theorem keeps_close (hdrop : .dropAttributes ∉ ss) : (e.close (l.chain ss)).Keeps := by
  have hopen := (l.retains_chain hdrop).isOpen
  rw [close_eq]
  refine ⟨fun i hi => ?_, fun pc c min exit f init hpc => ?_⟩
  · rcases List.mem_append.1 hi with hi | hi
    · exact (l.retains_chain hdrop).keeps.drops i hi
    · exact drops_instrs e i hi
  · cases e with
    | chain =>
      rw [instrs, List.append_nil] at hpc
      exact (hopen _ (List.mem_of_getElem? hpc)).elim
    | sealed s fold ts =>
      obtain ⟨rfl, -⟩ :=
        (s.isSingle Grammar.empty fold ts).of_attempts (fun i hi => (hopen i hi).isInLine) hpc
          trivial
      exact ⟨(l.chain ss).instrs.length, by omega, loopCapture, by
        simp [instrs, Repetition.loopInstrs]⟩

/-- At the start the first skip is due, unless nothing is ignorable. -/
theorem rests_initial (V : Verdicts (Pattern α) α) (n start : Nat) (a : Option α) :
    (Frame.initial n start a).Rests V (e.close (l.chain ss)) := by
  rw [close_chain]
  cases hl : l.ignore with
  | none => exact .inl fun b => .nothing
  | some p => exact .inr (.inl (by simp [Lexicon.grammar, hl, Frame.initial]))

/-- The steps of two grammars in a row. -/
theorem close_append : e.close (l.chain (ss₁ ++ ss₂)) =
    ⟨(l.chain ss₁).instrs ++ (Link.instrsOf l ss₂ ++ e.instrs), l.ignore, e.captures⟩ := by
  rw [close_chain, Lexicon.chain_instrs]
  simp [Link.instrsOf]

end Ending

/-! ## The nested run -/

/-- The frame behind the steps of a grammar is a first frame, but for its address and where the call
began. -/
theorem Grammar.Retains.past_initial {g : Grammar α} (hg : g.Retains) (n start o : Nat)
    (a b : Option α) (cs : Captures α) :
    (Frame.initial n start a).past g.instrs ⟨o, b, cs⟩ =
      { Frame.initial n o b with pc := g.instrs.length, start := start } := by
  have hd : g.instrs.any Instr.drops = false := hg.drops
  simp [Frame.past, Frame.initial, hd]

/-- From a place of rest, a run of a nested program is a run of its steps behind those around it. -/
theorem Ending.exec_inline (hdrop : .dropAttributes ∉ ss₁) {o : Nat}
    {b : Option α} (ho : Rests (Pattern.Answers fs text) l.ignore o) (start : Nat) (a : Option α)
    {r : Option (Final α)} :
    Exec (Pattern.Answers fs text) (e.close (l.chain ss₂)) text (.initial e.captures o b) r ↔
      Exec (Pattern.Answers fs text) (e.close (l.chain (ss₁ ++ ss₂))) text
        ((Frame.initial e.captures start a).past (l.chain ss₁).instrs ⟨o, b, .closed 0⟩) r := by
  have hstraight : ∀ i ∈ Link.instrsOf l ss₂, i.IsStraight := Link.isStraight_instrsOf
  obtain ⟨inside, hloops, hzero⟩ := e.loops hstraight
  have hlex := Grammar.retains_lexicon l
  -- The nested program skips nothing.
  have hskip : Exec (Pattern.Answers fs text) (e.close (l.chain ss₂)) text
      (.initial e.captures o b) r ↔
      Exec (Pattern.Answers fs text) (e.close (l.chain ss₂)) text
        { Frame.initial e.captures o b with pc := l.grammar.instrs.length, start := o } r := by
    have hfront := Grammar.reaches_lexicon l (ho b)
    rw [Ending.close_chain]
    constructor
    · intro h
      rcases h.straight_inv hlex.isOpen (n := 0) (f := .initial 0 o b) (Nat.zero_le _)
        ⟨rfl, rfl, rfl⟩ rfl with ⟨fin, hfin, hgo⟩ | ⟨hno, -⟩
      · obtain rfl := Option.some.inj (hfin.unique hfront)
        rwa [hlex.past_initial] at hgo
      · cases hno.unique hfront
    · intro h
      refine Exec.of_straight (g := .initial e.captures o b) hlex.isOpen hfront (Nat.zero_le _)
        ⟨rfl, rfl, rfl⟩ rfl (fun fin hfin => ?_) (fun h => nomatch h)
      cases hfin
      rwa [hlex.past_initial]
  rw [hskip, Ending.close_chain, Ending.close_append,
    (l.retains_chain hdrop).past_initial e.captures start o a b]
  constructor
  · intro h
    exact h.moved (k := 0) hloops rfl fun hin => absurd hin hzero
  · intro h
    exact h.moved (k := 0) (s := o) hloops rfl fun hin => absurd hin hzero

section

variable (hss : ∀ s ∈ ss, s.IsPlain) (he : e.IsPlain) (hig : ∀ p, l.ignore = some p → p.IsPlain)
  (halike : SkipsAlike (Pattern.Answers fs text) l.ignore)
  (hsat : Saturated (Pattern.Answers fs text) l.ignore)

include hss he hig halike hsat

/-- A grammar that is run from its start ends at a place of rest ahead. -/
theorem Ending.exec_rests {n o : Nat} {b : Option α} {fin : Final α}
    (h : Exec (Pattern.Answers fs text) (e.close (l.chain ss)) text (.initial n o b) (some fin)) :
    Rests (Pattern.Answers fs text) l.ignore fin.index ∧ text.Ahead o fin.index := by
  have hign : (e.close (l.chain ss)).ignore = l.ignore := by rw [close_chain]
  have hrest := h.rests (by rwa [hign]) (by rwa [hign]) (skipsAfter_close he)
    (rests_initial _ n o b) fin rfl
  rw [hign] at hrest
  exact ⟨hrest, h.ahead (isPlain_close hss he hig) fin rfl⟩

end

/-- The attribute that a program ends with replaces the one it inherited. -/
theorem Ending.merge_attr (hdrop : .dropAttributes ∉ ss) {n o : Nat}
    {b : Option α} {fin : Final α}
    (h : Exec (Pattern.Answers fs text) (e.close (l.chain ss)) text (.initial n o b) (some fin)) :
    merge b fin.attr = fin.attr := by
  cases hb : fin.attr with
  | some v => rfl
  | none =>
    cases b with
    | none => rfl
    | some v =>
      have hsome := h.isPresent (keeps_close hdrop)
        ⟨rfl, rfl, fun _ ⟨_, hj, _⟩ => absurd hj (Nat.not_lt_zero _)⟩ fin rfl
      rw [hb] at hsome
      cases hsome

/-! ## The nested run and the run of all steps -/

section

variable (hss : ∀ s ∈ ss₁ ++ ss₂, s.IsPlain) (hig : ∀ p, l.ignore = some p → p.IsPlain)
  (halike : SkipsAlike (Pattern.Answers fs text) l.ignore)
  (hsat : Saturated (Pattern.Answers fs text) l.ignore)

include hss hig halike hsat

/-- The steps of the first grammar come to a place of rest ahead. -/
theorem Lexicon.rests_of_reaches {start o : Nat} {a b : Option α}
    (h : (l.chain ss₁).Reaches fs text start a o b) :
    Rests (Pattern.Answers fs text) l.ignore o ∧ text.Ahead start o := by
  have hplain : ∀ s ∈ ss₁, s.IsPlain := fun s hs => hss s (List.mem_append_left _ hs)
  have hfin : Exec (Pattern.Answers fs text) (Ending.chain.close (l.chain ss₁)) text
      (.initial 0 start a) (some ⟨o, b, .closed 0⟩) := h
  have he : (Ending.chain : Ending α).IsPlain := trivial
  exact Ending.exec_rests hplain he hig halike hsat hfin

variable (hdrop₁ : .dropAttributes ∉ ss₁)

include hdrop₁

/-- All steps run as those of the first grammar and then, from where these end, the second one. -/
theorem Ending.exec_append {start : Nat} {a : Option α} {x : Option (Final α)} :
    Exec (Pattern.Answers fs text) (e.close (l.chain (ss₁ ++ ss₂))) text
        (.initial e.captures start a) x ↔
      (∃ o b, (l.chain ss₁).Reaches fs text start a o b ∧
        Exec (Pattern.Answers fs text) (e.close (l.chain ss₂)) text (.initial e.captures o b) x) ∨
      ((l.chain ss₁).Fails fs text start a ∧ x = none) := by
  have hg := l.retains_chain hdrop₁
  have hfront : (l.chain ss₁).program = ⟨(l.chain ss₁).instrs, l.ignore, 0⟩ := by
    rw [Grammar.program, Lexicon.chain_lexicon]
  have hrest {o : Nat} {b : Option α} (h : (l.chain ss₁).Reaches fs text start a o b) :=
    (Lexicon.rests_of_reaches hss hig halike hsat h).1
  constructor
  · intro h
    have hsplit := h
    rw [close_append] at hsplit
    rcases hsplit.straight_inv hg.isOpen (n := 0) (f := .initial 0 start a) (Nat.zero_le _)
      ⟨rfl, rfl, rfl⟩ rfl with ⟨⟨o, b, cs⟩, hfin, hgo⟩ | ⟨hno, rfl⟩
    · rw [← hfront] at hfin
      obtain rfl : cs = .closed 0 := Grammar.captures_of_isOpen hg.isOpen hfin _ rfl
      rw [← close_append] at hgo
      exact .inl ⟨o, b, hfin, (exec_inline hdrop₁ (hrest hfin) start a).2 hgo⟩
    · rw [← hfront] at hno
      exact .inr ⟨hno, rfl⟩
  · rintro (⟨o, b, hreach, hgo⟩ | ⟨hno, rfl⟩)
    · have hinline := (exec_inline hdrop₁ (hrest hreach) start a).1 hgo
      rw [Grammar.Reaches, hfront] at hreach
      rw [close_append] at hinline ⊢
      refine Exec.of_straight (g := .initial e.captures start a) hg.isOpen hreach (Nat.zero_le _)
        ⟨rfl, rfl, rfl⟩ rfl (fun fin hfin => ?_) (by simp)
      cases hfin
      exact hinline
    · rw [Grammar.Fails, hfront] at hno
      rw [close_append]
      exact Exec.of_straight (g := .initial e.captures start a) hg.isOpen hno (Nat.zero_le _)
        ⟨rfl, rfl, rfl⟩ rfl (by simp) (fun _ => rfl)

/-- Where the grammar with a nested one comes to an answer, so does the one with all steps. -/
theorem Lexicon.exists_inline {start : Nat} {a : Option α} {r : Option (Match α)}
    (h : ((l.chain ss₁).token (.program (e.close (l.chain ss₂)))).program.Answers fs text start a r) :
    ∃ r', (e.close (l.chain (ss₁ ++ ss₂))).Answers fs text start a r' := by
  have hg := l.retains_chain hdrop₁
  have hcaptures (ss : List (Link α)) : (e.close (l.chain ss)).captures = e.captures := by
    rw [Ending.close_chain]
  suffices hx : ∃ x, Exec (Pattern.Answers fs text) (e.close (l.chain (ss₁ ++ ss₂))) text
      (.initial e.captures start a) x by
    obtain ⟨x, hx⟩ := hx
    exact ⟨_, Program.answers_exec_iff.2 ⟨x, by rwa [hcaptures], rfl⟩⟩
  obtain ⟨x, hx, -⟩ := Program.answers_exec_iff.1 h
  rcases Exec.straight_inv (n := 0) hg.isOpen hx (f := .initial 0 start a) (Nat.zero_le _)
    ⟨rfl, rfl, rfl⟩ rfl with ⟨⟨o, b, cs⟩, hfin, hgo⟩ | ⟨hno, -⟩
  · obtain rfl : cs = .closed 0 := Grammar.captures_of_isOpen hg.isOpen hfin _ rfl
    have hat : (Frame.initial 0 start a).past (l.chain ss₁).instrs ⟨o, b, .closed 0⟩ =
        (l.chain ss₁).endFrame start o b := Grammar.past_initial
    obtain ⟨q, hq⟩ : ∃ q, (Pattern.program (e.close (l.chain ss₂))).Answers fs text o b q := by
      rcases (hat ▸ hgo).of_consume (Grammar.append_instr _) with ⟨hq, -⟩ | ⟨m, j, hq, -⟩
      · exact ⟨none, hq⟩
      · exact ⟨some m, hq⟩
    obtain ⟨y, hy, -⟩ := Program.answers_exec_iff.1 (Pattern.answers_program_iff.1 hq)
    rw [hcaptures] at hy
    exact ⟨y, (Ending.exec_append hss hig halike hsat hdrop₁).2 (.inl ⟨o, b, hfin, hy⟩)⟩
  · exact ⟨none, (Ending.exec_append hss hig halike hsat hdrop₁).2 (.inr ⟨hno, rfl⟩)⟩

variable (he : e.IsPlain)

include he

/-- What the grammar with all steps comes to, the one with a nested grammar comes to. -/
theorem Lexicon.nested_of_inline (hdrop₂ : .dropAttributes ∉ ss₂) {start : Nat} {a : Option α}
    {r : Option (Match α)} (h : (e.close (l.chain (ss₁ ++ ss₂))).Answers fs text start a r) :
    ((l.chain ss₁).token (.program (e.close (l.chain ss₂)))).program.Answers fs text start a r := by
  have hg := l.retains_chain hdrop₁
  have hcaptures (ss : List (Link α)) : (e.close (l.chain ss)).captures = e.captures := by
    rw [Ending.close_chain]
  obtain ⟨x, hx, rfl⟩ := Program.answers_exec_iff.1 h
  rw [hcaptures] at hx
  rcases (Ending.exec_append hss hig halike hsat hdrop₁).1 hx with
    ⟨o, b, hreach, hinner⟩ | ⟨hno, rfl⟩
  case inr => exact (hno.append hg.isOpen _).answers
  have hnested := Program.answers_exec_iff.2 ⟨x, by rwa [hcaptures], rfl⟩
  rw [← Pattern.answers_program_iff] at hnested
  obtain ⟨hrest, hahead⟩ := Lexicon.rests_of_reaches hss hig halike hsat hreach
  cases x with
  | none => exact (hreach.token_fails hg.isOpen hnested).answers
  | some fin =>
    obtain ⟨hfin, hon⟩ := Ending.exec_rests (fun s hs => hss s (List.mem_append_right _ hs)) he hig
      halike hsat hinner
    cases hslice : text.slice? o fin.index with
    | none =>
      -- A slice from the start of the nested match is absent only if one from before it is.
      have hwhole : text.slice? start fin.index = none := by
        refine Option.eq_none_iff_forall_ne_some.2 fun t ht => ?_
        obtain ⟨hb, hle⟩ := hahead (Text.isBoundary_of_slice? ht).1
        obtain ⟨hb', hle'⟩ := hon hb
        obtain ⟨u, hu⟩ := Text.exists_slice? hb hb' hle'
        cases hslice.symm.trans hu
      simp only [Option.bind_some, Final.match?, hslice, Option.map_none] at hnested
      rw [Option.bind_some, Final.match?, hwhole]
      exact (hreach.token_fails hg.isOpen hnested).answers
    | some t =>
      simp only [Option.bind_some, Final.match?, hslice, Option.map_some] at hnested
      have hall := hreach.token hg hnested fun c => by
        rw [Lexicon.chain_lexicon]
        exact hfin c
      rw [Ending.merge_attr hdrop₂ hinner] at hall
      exact Program.answers_exec_iff.2 ⟨_, hall, rfl⟩

end

/-- A grammar may be nested or its steps put in its place: both match alike. Neither drops
attributes or consumes a function of the user, and ignorable text is skipped at once, whatever the
attribute. -/
theorem Lexicon.nesting_transparent (hdrop₁ : .dropAttributes ∉ ss₁)
    (hdrop₂ : .dropAttributes ∉ ss₂) (hss : ∀ s ∈ ss₁ ++ ss₂, s.IsPlain) (he : e.IsPlain)
    (hig : ∀ p, l.ignore = some p → p.IsPlain)
    (halike : SkipsAlike (Pattern.Answers fs text) l.ignore)
    (hsat : Saturated (Pattern.Answers fs text) l.ignore) (start : Nat) (a : Option α)
    (r : Option (Match α)) :
    ((l.chain ss₁).token (.program (e.close (l.chain ss₂)))).program.Answers fs text start a r ↔
      (e.close (l.chain (ss₁ ++ ss₂))).Answers fs text start a r := by
  constructor
  · intro h
    obtain ⟨r', hr'⟩ := exists_inline hss hig halike hsat hdrop₁ h
    have hr := nested_of_inline hss hig halike hsat hdrop₁ he hdrop₂ hr'
    rwa [h.unique hr]
  · exact nested_of_inline hss hig halike hsat hdrop₁ he hdrop₂

/-- One or more `b` up to the end of the text, and how many there are. -/
def Ending.counted : Ending Nat :=
  .sealed (.times 1 none (.literal ['b'])) (some (⟨fun c => c.inherited.map (· + 1), none⟩, some 0))
    [.endOfInput]

/-- What an ending counts that is nested behind an `a` and a `(`. -/
theorem Lexicon.nesting_transparent_counted :
    (((Lexicon.empty.withIgnore (some .spaces)).chain [.token (.literal ['a']) none]).token
      (.program (Ending.counted.close ((Lexicon.empty.withIgnore (some .spaces)).chain
        [.token (.literal ['(']) none])))).program.Answers .empty "a (b b".toList 0 none
        (some ⟨"a (b b".toList, 6, some 2, []⟩) := by
  let l : Lexicon Nat := Lexicon.empty.withIgnore (some .spaces)
  have hall : (Ending.counted.close (l.chain ([.token (.literal ['a']) none] ++
      [.token (.literal ['(']) none]))).Answers .empty "a (b b".toList 0 none
        (some ⟨"a (b b".toList, 6, some 2, []⟩) :=
    Pattern.answers_program_iff.1 (Pattern.answers_of_outcome? 16 (by decide +kernel))
  have hcounted : Ending.counted.IsPlain := trivial
  have hspaces : ∀ p, l.ignore = some p → p.IsPlain := by
    rintro p ⟨⟩
    trivial
  exact (nesting_transparent (by simp) (by simp) (by simp [Link.IsPlain, Pattern.IsPlain]) hcounted
    hspaces (Pattern.alike_run _ _ (Nat.zero_le 1)) (Pattern.saturated_run _ _ (Nat.zero_le 1))
    0 none _).2 hall

end GrammarMachine
