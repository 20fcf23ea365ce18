import GrammarMachine.Grammar.Basic
import GrammarMachine.Proofs.Semantics.Exec

/-!
# Straight code

Outside its repetition a program runs straight on: an instruction looks at the offset, the attribute
and whether attributes are dropped, and hands these to the next one. So a straight stretch of code
does in any program what it does as a program of its own.

* `Instr.IsStraight`, `Grammar.IsOpen`: no loop and no recording. The steps of an open grammar keep
  it open.
* `Grammar.Retains`: moreover no attribute is dropped.
* `Exec.of_straight`, `Exec.straight_inv`: a call at the front of a program by the call of the
  front alone.
-/

namespace GrammarMachine

variable {π α : Type}

/-- Whether an instruction neither belongs to a repetition nor records an iteration. -/
def Instr.IsStraight : Instr π α → Prop
  | .consume _ _ (some _) _ | .loopStart _ | .loopTry _ _ _ _ _ | .loopBack _ _ => False
  | _ => True

/-- Whether attributes are dropped from this instruction on. -/
def Instr.drops : Instr π α → Bool
  | .dropAttributes => true
  | _ => false

namespace Frame

/-- The frame after a straight instruction, which leaves what `g` has from `f`. -/
def follow (f g : Frame α) : Frame α :=
  { f with pc := f.pc + 1, index := g.index, attr := g.attr, dropping := g.dropping }

/-- Two frames are in the same place for straight code. -/
structure Agrees (f g : Frame α) : Prop where
  index : g.index = f.index
  attr : g.attr = f.attr
  dropping : g.dropping = f.dropping

end Frame

section

variable {V : Verdicts π α} {code : Code π α} {text : Text} {f g f' : Frame α}
  {instr : Instr π α}

theorem Step.exists_instr {o : Option (Frame α)} (h : Step V code text f o) :
    ∃ instr, code.instrs[f.pc]? = some instr := by
  cases h <;> exact ⟨_, ‹_›⟩

/-- A straight instruction goes to the next address and changes nothing else but the offset, the
attribute and whether attributes are dropped. -/
theorem Step.eq_follow (hs : instr.IsStraight) (hi : code.instrs[f.pc]? = some instr)
    (h : Step V code text f (some f')) :
    f' = f.follow f' ∧ f'.dropping = (f.dropping || instr.drops) := by
  cases h with
  | @consume p action capture skips m i hi' =>
    obtain rfl := Option.some.inj (hi.symm.trans hi')
    cases capture with
    | some id => exact hs.elim
    | none => exact ⟨rfl, by simp [Frame.next, Instr.drops]⟩
  | loopStart hi' => obtain rfl := Option.some.inj (hi.symm.trans hi'); exact hs.elim
  | loopEnds hi' => obtain rfl := Option.some.inj (hi.symm.trans hi'); exact hs.elim
  | loopAgain hi' => obtain rfl := Option.some.inj (hi.symm.trans hi'); exact hs.elim
  | choice hi' | ahead hi' | guard hi' | assign hi' | transform hi' | dropAttributes hi' | skip hi'
  | keyword hi' =>
    obtain rfl := Option.some.inj (hi.symm.trans hi')
    exact ⟨rfl, by simp [Frame.next, Instr.drops]⟩

/-- A straight instruction does the same in every program with the same ignorable text. -/
theorem Step.transfer {o : Option (Frame α)} (code' : Code π α) (h : Step V code text f o)
    (hs : instr.IsStraight)
    (hi : code.instrs[f.pc]? = some instr) (hi' : code'.instrs[g.pc]? = some instr)
    (hig : code'.ignore = code.ignore) (hfg : f.Agrees g) :
    Step V code' text g (o.map g.follow) := by
  obtain ⟨_, _, _, _, _, _, _, _⟩ := f
  obtain ⟨_, _, _, _, _, _, _, _⟩ := g
  obtain ⟨rfl, rfl, rfl⟩ := hfg
  cases h with
  | @consume p action capture skips m i hj hp hk =>
    obtain rfl := Option.some.inj (hi.symm.trans hj)
    cases capture with
    | some id => exact hs.elim
    | none => exact .consume hi' hp (hig ▸ hk)
  | loopStart hj => obtain rfl := Option.some.inj (hi.symm.trans hj); exact hs.elim
  | loopEnds hj => obtain rfl := Option.some.inj (hi.symm.trans hj); exact hs.elim
  | loopAgain hj => obtain rfl := Option.some.inj (hi.symm.trans hj); exact hs.elim
  | choice hj hp hk =>
    obtain rfl := Option.some.inj (hi.symm.trans hj)
    exact .choice hi' hp (hig ▸ hk)
  | choiceFails hj hp =>
    obtain rfl := Option.some.inj (hi.symm.trans hj)
    exact .choiceFails hi' hp
  | consumeFails hj hp =>
    obtain rfl := Option.some.inj (hi.symm.trans hj)
    exact .consumeFails hi' hp
  | ahead hj hp hr =>
    obtain rfl := Option.some.inj (hi.symm.trans hj)
    exact .ahead hi' hp hr
  | aheadFails hj hp hr =>
    obtain rfl := Option.some.inj (hi.symm.trans hj)
    exact .aheadFails hi' hp hr
  | guard hj hc =>
    obtain rfl := Option.some.inj (hi.symm.trans hj)
    exact .guard hi' hc
  | guardFails hj hc =>
    obtain rfl := Option.some.inj (hi.symm.trans hj)
    exact .guardFails hi' hc
  | assign hj =>
    obtain rfl := Option.some.inj (hi.symm.trans hj)
    exact .assign hi'
  | transform hj =>
    obtain rfl := Option.some.inj (hi.symm.trans hj)
    exact .transform hi'
  | dropAttributes hj =>
    obtain rfl := Option.some.inj (hi.symm.trans hj)
    exact .dropAttributes hi'
  | skip hj hk =>
    obtain rfl := Option.some.inj (hi.symm.trans hj)
    exact .skip hi' (hig ▸ hk)
  | keyword hj hp hw hk =>
    obtain rfl := Option.some.inj (hi.symm.trans hj)
    exact .keyword hi' hp hw (hig ▸ hk)
  | keywordFails hj hp =>
    obtain rfl := Option.some.inj (hi.symm.trans hj)
    exact .keywordFails hi' hp

/-- A call at a straight instruction begins with a step. -/
theorem Exec.of_isStraight (hs : instr.IsStraight) (hi : code.instrs[f.pc]? = some instr)
    {r : Option (Final α)} (h : Exec V code text f r) :
    (∃ f', Step V code text f (some f') ∧ Exec V code text f' r) ∨
      (Step V code text f none ∧ r = none) := by
  cases h with
  | halt hj => cases hi.symm.trans hj
  | step hs h => exact .inl ⟨_, hs, h⟩
  | fail hs => exact .inr ⟨hs, rfl⟩
  | kept hj | tooFew hj | left hj =>
    obtain rfl := Option.some.inj (hi.symm.trans hj)
    exact hs.elim

/-- Straight code leaves the captures alone. -/
theorem Exec.captures_of_straight {r : Option (Final α)}
    (hs : ∀ k i, f.pc ≤ k → code.instrs[k]? = some i → i.IsStraight) (h : Exec V code text f r) :
    ∀ fin, r = some fin → fin.captures = f.captures := by
  induction h with
  | halt _ =>
    intro fin hfin
    cases hfin
    rfl
  | @step f f' r hstep _ ih =>
    obtain ⟨instr, hi⟩ := hstep.exists_instr
    obtain ⟨hf', -⟩ := hstep.eq_follow (hs f.pc instr (Nat.le_refl _) hi) hi
    have hpc : f'.pc = f.pc + 1 := by rw [hf']; rfl
    rw [show f.captures = f'.captures by rw [hf']; rfl]
    exact ih fun k i hk => hs k i (by omega)
  | fail _ => exact fun _ h => nomatch h
  | kept hi | tooFew hi | left hi => exact (hs _ _ (Nat.le_refl _) hi).elim

end

/-! ## The front of a program -/

/-- The frame behind the straight code `is`, which ended with `fin` when run alone. -/
def Frame.past (f : Frame α) (is : List (Instr π α)) (fin : Final α) : Frame α :=
  { f with
    pc := is.length
    index := fin.index
    attr := fin.attr
    dropping := f.dropping || (is.drop f.pc).any Instr.drops }

section

variable {V : Verdicts π α} {text : Text} {is rest : List (Instr π α)} {ignore : Option π}
  {n n' : Nat} {f g : Frame α}

theorem Frame.past_follow {instr : Instr π α} (hi : is[f.pc]? = some instr) (hfg : f.Agrees g)
    (hpc : g.pc = f.pc) {f' : Frame α} (hd : f'.dropping = (f.dropping || instr.drops))
    (fin : Final α) : (g.follow f').past is fin = g.past is fin := by
  have hlt : f.pc < is.length := (List.getElem?_eq_some_iff.1 hi).1
  have hdrop : is.drop f.pc = instr :: is.drop (f.pc + 1) := by
    rw [List.drop_eq_getElem_cons hlt, (List.getElem?_eq_some_iff.1 hi).2]
  simp only [Frame.past, Frame.follow, hpc, hd, hdrop, hfg.dropping, List.any_cons, Bool.or_assoc]

/-- At its end the front has nothing left to do. -/
theorem Frame.past_end (hend : g.pc = is.length) (cs : Captures α) :
    g.past is ⟨g.index, g.attr, cs⟩ = g := by
  simp [Frame.past, ← hend, List.drop_eq_nil_of_le (Nat.le_of_eq hend.symm)]

/-- What the front of a program does alone it does in the program, which then goes on behind it. -/
theorem Exec.of_straight (hs : ∀ i ∈ is, i.IsStraight) {o : Option (Final α)}
    (h : Exec V ⟨is, ignore, n⟩ text f o) (hle : f.pc ≤ is.length) (hfg : f.Agrees g)
    (hpc : g.pc = f.pc) {r : Option (Final α)}
    (hr : ∀ fin, o = some fin → Exec V ⟨is ++ rest, ignore, n'⟩ text (g.past is fin) r)
    (hr' : o = none → r = none) : Exec V ⟨is ++ rest, ignore, n'⟩ text g r := by
  induction h generalizing g with
  | @halt f hi =>
    have hend : f.pc = is.length := Nat.le_antisymm hle (List.getElem?_eq_none_iff.1 hi)
    simpa only [← hfg.index, ← hfg.attr, Frame.past_end (hpc.trans hend)] using hr _ rfl
  | @step f f' o hstep _ ih =>
    obtain ⟨instr, hi⟩ := hstep.exists_instr
    have hmem := hs instr (List.mem_of_getElem? hi)
    have hi' : (is ++ rest)[g.pc]? = some instr := by
      rw [hpc, List.getElem?_append_left (List.getElem?_eq_some_iff.1 hi).1]
      exact hi
    obtain ⟨hf', hd⟩ := hstep.eq_follow hmem hi
    have hlt : f.pc < is.length := (List.getElem?_eq_some_iff.1 hi).1
    refine .step (hstep.transfer ⟨is ++ rest, ignore, n'⟩ hmem hi hi' rfl hfg)
      (ih ?_ ⟨rfl, rfl, rfl⟩ ?_ ?_ hr')
    · rw [hf']
      exact hlt
    · rw [hf']
      exact congrArg (· + 1) hpc
    · intro fin hfin
      rw [Frame.past_follow hi hfg hpc hd]
      exact hr fin hfin
  | @fail f hstep =>
    obtain ⟨instr, hi⟩ := hstep.exists_instr
    have hi' : (is ++ rest)[g.pc]? = some instr := by
      rw [hpc, List.getElem?_append_left (List.getElem?_eq_some_iff.1 hi).1]
      exact hi
    rw [hr' rfl]
    exact .fail (hstep.transfer ⟨is ++ rest, ignore, n'⟩
      (hs instr (List.mem_of_getElem? hi)) hi hi' rfl hfg)
  | kept hi | tooFew hi | left hi => exact (hs _ (List.mem_of_getElem? hi)).elim

/-- A call at the front of a program runs the front as if alone, and then goes on behind it. -/
theorem Exec.straight_inv (hs : ∀ i ∈ is, i.IsStraight) {r : Option (Final α)}
    (h : Exec V ⟨is ++ rest, ignore, n'⟩ text g r) (hle : g.pc ≤ is.length) (hfg : g.Agrees f)
    (hpc : f.pc = g.pc) :
    (∃ fin, Exec V ⟨is, ignore, n⟩ text f (some fin) ∧
      Exec V ⟨is ++ rest, ignore, n'⟩ text (g.past is fin) r) ∨
    (Exec V ⟨is, ignore, n⟩ text f none ∧ r = none) := by
  have hend {g f : Frame α} {r : Option (Final α)} (hfg : g.Agrees f) (hpc : f.pc = g.pc)
      (he : g.pc = is.length) (h : Exec V ⟨is ++ rest, ignore, n'⟩ text g r) :
      ∃ fin, Exec V ⟨is, ignore, n⟩ text f (some fin) ∧
        Exec V ⟨is ++ rest, ignore, n'⟩ text (g.past is fin) r := by
    refine ⟨_, .halt (List.getElem?_eq_none_iff.2 (Nat.le_of_eq (hpc.trans he).symm)), ?_⟩
    rw [hfg.index, hfg.attr, Frame.past_end he]
    exact h
  have hat {g : Frame α} (hlt : g.pc < is.length) : (is ++ rest)[g.pc]? = some is[g.pc] := by
    rw [List.getElem?_append_left hlt, List.getElem?_eq_getElem hlt]
  induction h generalizing f with
  | @halt g hj =>
    refine .inl (hend hfg hpc (Nat.le_antisymm hle ?_) (.halt hj))
    have := List.getElem?_eq_none_iff.1 hj
    simp only [List.length_append] at this
    omega
  | @step g g' r hstep hrest ih =>
    rcases Nat.lt_or_eq_of_le hle with hlt | he
    · have hmem := hs _ (List.getElem_mem hlt)
      have hi : is[f.pc]? = some is[g.pc] := by rw [hpc, List.getElem?_eq_getElem hlt]
      obtain ⟨hg', hd⟩ := hstep.eq_follow hmem (hat hlt)
      have hfront := hstep.transfer ⟨is, ignore, n⟩ hmem (hat hlt) hi rfl hfg
      have hpc' : g'.pc = g.pc + 1 := by rw [hg']; rfl
      have hpast (fin : Final α) : g'.past is fin = g.past is fin := by
        rw [hg', Frame.past_follow (List.getElem?_eq_getElem hlt) ⟨rfl, rfl, rfl⟩ rfl hd]
      rcases ih (by omega) (f := f.follow g') ⟨rfl, rfl, rfl⟩ (by rw [hpc', ← hpc]; rfl) with
        ⟨fin, hfin, hgo⟩ | ⟨hno, hr⟩
      · exact .inl ⟨fin, .step hfront hfin, hpast fin ▸ hgo⟩
      · exact .inr ⟨.step hfront hno, hr⟩
    · exact .inl (hend hfg hpc he (.step hstep hrest))
  | @fail g hstep =>
    rcases Nat.lt_or_eq_of_le hle with hlt | he
    · have hmem := hs _ (List.getElem_mem hlt)
      have hi : is[f.pc]? = some is[g.pc] := by rw [hpc, List.getElem?_eq_getElem hlt]
      exact .inr ⟨.fail (hstep.transfer ⟨is, ignore, n⟩ hmem (hat hlt) hi rfl hfg), rfl⟩
    · exact .inl (hend hfg hpc he (.fail hstep))
  | @kept g _ _ _ _ _ _ hj hin =>
    rcases Nat.lt_or_eq_of_le hle with hlt | he
    · exact ((Option.some.inj ((hat hlt).symm.trans hj)) ▸ hs _ (List.getElem_mem hlt)).elim
    · exact .inl (hend hfg hpc he (.kept hj hin))
  | @tooFew g _ _ _ _ _ hj hin hm =>
    rcases Nat.lt_or_eq_of_le hle with hlt | he
    · exact ((Option.some.inj ((hat hlt).symm.trans hj)) ▸ hs _ (List.getElem_mem hlt)).elim
    · exact .inl (hend hfg hpc he (.tooFew hj hin hm))
  | @left g _ _ _ _ _ _ hj hin hm hout =>
    rcases Nat.lt_or_eq_of_le hle with hlt | he
    · exact ((Option.some.inj ((hat hlt).symm.trans hj)) ▸ hs _ (List.getElem_mem hlt)).elim
    · exact .inl (hend hfg hpc he (.left hj hin hm hout))

end

/-! ## Open grammars -/

namespace Grammar

/-- An open grammar is straight code. -/
def IsOpen (g : Grammar α) : Prop := ∀ i ∈ g.instrs, i.IsStraight

/-- Whether a grammar drops attributes from some step on. -/
def drops (g : Grammar α) : Bool := g.instrs.any Instr.drops

theorem IsOpen.append {g : Grammar α} (h : g.IsOpen) {is : List (Instr (Pattern α) α)}
    (his : ∀ i ∈ is, i.IsStraight) : (g.append is).IsOpen := by
  intro i hi
  rcases List.mem_append.1 hi with hi | hi
  · exact h i hi
  · exact his i hi

theorem isOpen_of_lexicon (l : Lexicon α) : l.grammar.IsOpen := by
  intro i hi
  simp only [Lexicon.grammar] at hi
  split at hi
  · obtain rfl := List.mem_singleton.1 hi
    trivial
  · cases hi

/-- An open grammar that nowhere drops attributes. -/
structure Retains (g : Grammar α) : Prop where
  isOpen : g.IsOpen
  drops : g.drops = false

theorem retains_lexicon (l : Lexicon α) : l.grammar.Retains where
  isOpen := isOpen_of_lexicon l
  drops := by
    rw [drops, Lexicon.grammar]
    split <;> rfl

theorem retains_empty : (empty : Grammar α).Retains := retains_lexicon _

section

variable {g : Grammar α}

theorem Retains.append (h : g.Retains) {instr : Instr (Pattern α) α} (hs : instr.IsStraight)
    (hd : instr.drops = false) : (g.append [instr]).Retains where
  isOpen := h.isOpen.append fun i hi => by
    obtain rfl := List.mem_singleton.1 hi
    exact hs
  drops := by
    have := h.drops
    simp_all [Grammar.drops, Grammar.append]

theorem Retains.token (h : g.Retains) (p : Pattern α) : (g.token p).Retains := h.append trivial rfl

theorem Retains.tokenWith (h : g.Retains) (p : Pattern α) (a : Action α) :
    (g.tokenWith p a).Retains := h.append trivial rfl

theorem Retains.choice (h : g.Retains) (ps : List (Pattern α)) : (g.choice ps).Retains :=
  h.append trivial rfl

theorem Retains.keywordIn (h : g.Retains) (word : Text) (words : Keywords) :
    (g.keywordIn word words).Retains := h.append trivial rfl

end

end Grammar

end GrammarMachine
