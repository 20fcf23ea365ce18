import GrammarMachine.Proofs.Nesting.Links
import GrammarMachine.Proofs.Regex.Runs
import GrammarMachine.Proofs.Regex.Spans
import GrammarMachine.Proofs.Repetition.Extent

/-!
# Where a run comes to rest

* `Text.Ahead`: from a boundary to a boundary that is not before it. Plain patterns and runs of
  programs that consume only such patterns go there (`Pattern.Answers.ahead`, `Exec.ahead`).
* `Rests`: an offset at which nothing is left to skip. A program that skips after all it consumes
  ends at such an offset (`Exec.rests`).
-/

namespace GrammarMachine

variable {α : Type} {fs : Forwards α} {text : Text}

/-! ## Going ahead -/

/-- From a boundary, the offset `j` is a boundary, and not before it. -/
def Text.Ahead (text : Text) (i j : Nat) : Prop :=
  text.isBoundary i → text.isBoundary j ∧ i ≤ j

theorem Text.Ahead.rfl {i : Nat} : text.Ahead i i := fun hi => ⟨hi, Nat.le_refl i⟩

theorem Text.Ahead.trans {i j k : Nat} (h : text.Ahead i j) (h' : text.Ahead j k) :
    text.Ahead i k := by
  intro hi
  obtain ⟨hj, hij⟩ := h hi
  obtain ⟨hk, hjk⟩ := h' hj
  exact ⟨hk, Nat.le_trans hij hjk⟩

theorem Keywords.search_ahead {k : Keywords} {i : Nat} {found : Keywords.Found}
    (h : k.search text i = some found) : text.Ahead i found.lastIndex := by
  intro _
  rw [Keywords.search_eq] at h
  obtain ⟨rest, hrest, rfl⟩ := Option.map_eq_some_iff.1 h
  obtain ⟨v, hv⟩ := Keywords.walk_prefix rest k
  rw [← hv] at hrest
  exact ⟨Text.isBoundary_of_from? (Text.from?_add hrest), Nat.le_add_right _ _⟩

theorem Regex.findAt_ahead {r : Regex} {i : Nat} {m : Match α} (h : r.findAt text i = some m) :
    text.Ahead i m.lastIndex := by
  intro _
  obtain ⟨l, u, v, hrest, -, hlast, -⟩ := findAt_eq_some h
  rw [← List.append_assoc] at hrest
  rw [hlast, ← Text.byteLength_append]
  exact ⟨Text.isBoundary_of_from? (Text.from?_add hrest), Nat.le_add_right _ _⟩

/-- What a program matches is a slice of the text. -/
theorem Runs.ahead {V : Verdicts (Pattern α) α} {code : Program α} {i : Nat} {a : Option α}
    {m : Match α} (h : Runs V code text i a (some m)) : text.Ahead i m.lastIndex := by
  intro _
  cases h with
  | matched _ ht => exact ⟨(Text.isBoundary_of_slice? ht).2, Text.le_of_slice? ht⟩

/-- A plain pattern that is tested at a boundary matches up to a boundary. -/
theorem Pattern.Answers.ahead {p : Pattern α} (hp : p.IsPlain) {i : Nat} {a : Option α}
    {m : Match α} (h : p.Answers fs text i a (some m)) : text.Ahead i m.lastIndex := by
  intro hi
  cases p with
  | literal t => exact (literal_advances t).ends i a m hi h
  | lineBreak => exact Terminal.lineBreak.advances.ends i a m hi h
  | endOfInput => exact Terminal.endOfInput.advances.ends i a m hi h
  | regex r =>
    have hm : some m = r.findAt text i := Pattern.answers_iff.1 h
    exact Regex.findAt_ahead hm.symm hi
  | program code =>
    have hm : Runs _ code text i a (some m) := Pattern.answers_iff.1 h
    exact hm.ahead hi
  | forward cell =>
    obtain ⟨p, hc⟩ := h.exists_get?
    exact (Program.answers_iff.1 ((Pattern.answers_forward_iff hc).1 h)).ahead hi
  | custom f => exact hp.elim
  | wordEnd ignore words =>
    rw [Pattern.answers_iff] at h
    simp only [Pattern.Verdict] at h
    have hend {m : Match α} (hm : ∃ m', Match.span? text i i = some m' ∧ some m = some m') :
        text.isBoundary m.lastIndex ∧ i ≤ m.lastIndex := by
      obtain ⟨m', hm', heq⟩ := hm
      obtain ⟨t, -, rfl⟩ := Option.map_eq_some_iff.1 hm'
      cases heq
      exact ⟨hi, Nat.le_refl i⟩
    split at h
    · exact hend h
    · obtain ⟨b, -, hm⟩ := h
      split at hm
      · exact hend hm
      · cases hm

/-- A plain pattern other than the end of the input is found only where a character begins. -/
theorem Pattern.Answers.isBoundary_index {p : Pattern α} (hp : p.IsPlain) (hend : p ≠ .endOfInput)
    {i : Nat} {a : Option α} {m : Match α} (h : p.Answers fs text i a (some m)) :
    text.isBoundary i := by
  have hslice {stop : Nat} {t : Text} (ht : text.slice? i stop = some t) : text.isBoundary i :=
    (Text.isBoundary_of_slice? ht).1
  have hspan (hm : ∃ m', Match.span? text i i = some m' ∧ some m = some m') :
      text.isBoundary i := by
    obtain ⟨m', hm', -⟩ := hm
    obtain ⟨t, ht, -⟩ := Option.map_eq_some_iff.1 hm'
    exact hslice ht
  rw [Pattern.answers_iff] at h
  cases p with
  | literal t =>
    obtain ⟨stop, hstop, -⟩ := Option.map_eq_some_iff.1 (show some m = literalAt t text i from h).symm
    obtain ⟨rest, ht, -⟩ := Option.bind_eq_some_iff.1 hstop
    exact Text.isBoundary_of_from? ht
  | lineBreak =>
    obtain ⟨stop, hstop, -⟩ := Option.bind_eq_some_iff.1 (show some m = lineBreakAt text i from h).symm
    obtain ⟨rest, ht, -⟩ := Option.bind_eq_some_iff.1 hstop
    exact Text.isBoundary_of_from? ht
  | regex r =>
    obtain ⟨rest, ht, -⟩ := Option.bind_eq_some_iff.1 (show some m = r.findAt text i from h).symm
    exact Text.isBoundary_of_from? ht
  | endOfInput => exact absurd rfl hend
  | program code =>
    cases (show Runs _ code text i a (some m) from h) with
    | matched _ ht => exact hslice ht
  | forward cell =>
    simp only [Pattern.Verdict] at h
    split at h
    · cases h with
      | matched _ ht => exact hslice ht
    · cases h
  | custom f => exact hp.elim
  | wordEnd ignore words =>
    simp only [Pattern.Verdict] at h
    split at h
    · exact hspan h
    · obtain ⟨b, -, hm⟩ := h
      split at hm
      · exact hspan hm
      · cases hm

/-- A plain pattern matches up to a boundary, wherever it is tested. -/
theorem Pattern.Answers.isBoundary {p : Pattern α} (hp : p.IsPlain) {i : Nat} {a : Option α}
    {m : Match α} (h : p.Answers fs text i a (some m)) : text.isBoundary m.lastIndex := by
  cases p with
  | endOfInput =>
    have h : some m = if text.byteLength ≤ i then _ else _ := Pattern.answers_iff.1 h
    split at h
    · obtain rfl := Option.some.inj h
      exact Text.isBoundary_byteLength text
    · cases h
  | _ => exact (h.ahead hp (h.isBoundary_index hp (by simp))).1

/-- More iterations lead further ahead. -/
theorem Unrolls.ahead {It : IterationVerdicts α}
    (hIt : ∀ o a it, It o a (some it) → text.Ahead o it.stop) {max : Option Nat} {k o : Nat}
    {a : Option α} {its : List (Iteration α)} (h : Unrolls It max k o a its) {n n' : Nat}
    (hn : n ≤ n') : text.Ahead (offsetAfter o its n) (offsetAfter o its n') := by
  induction h generalizing n n' with
  | fails _ => cases n <;> cases n' <;> exact .rfl
  | last hit _ =>
    rcases n with _ | _ | n <;> rcases n' with _ | _ | n'
    case zero.succ.zero | zero.succ.succ => exact hIt _ _ _ hit
    case succ.zero.zero | succ.succ.zero => exact absurd hn (Nat.not_succ_le_zero _)
    all_goals exact .rfl
  | more hit _ _ _ ih =>
    rcases n with _ | n <;> rcases n' with _ | n'
    case zero.zero => exact .rfl
    case zero.succ =>
      have hrest := ih (Nat.zero_le n')
      rw [offsetAfter_zero] at hrest
      exact (hIt _ _ _ hit).trans hrest
    case succ.zero => exact absurd hn (Nat.not_succ_le_zero _)
    case succ.succ => exact ih (Nat.le_of_succ_le_succ hn)

/-- No function of the user is consumed, nor skipped. -/
structure Code.IsPlain (code : Program α) : Prop where
  instrs : ∀ i ∈ code.instrs, i.IsPlain
  ignore : ∀ p, code.ignore = some p → p.IsPlain

section

variable {code : Program α} {f : Frame α}

theorem Skips.ahead {ignore : Option (Pattern α)} (h : ∀ p, ignore = some p → p.IsPlain)
    {i j : Nat} {a : Option α} (hs : Skips (Pattern.Answers fs text) ignore i a j) :
    text.Ahead i j := by
  cases hs with
  | nothing | stays => exact .rfl
  | moves hm => exact hm.ahead (h _ rfl)

/-- One iteration of a plain pattern goes ahead. -/
theorem Iterates.ahead {ignore : Option (Pattern α)} {dropping : Bool} {p : Pattern α}
    (hp : p.IsPlain) (hig : ∀ q, ignore = some q → q.IsPlain) {o : Nat} {a : Option α}
    {it : Iteration α}
    (h : Iterates (Pattern.Answers fs text) ignore dropping p o a (some it)) :
    text.Ahead o it.stop := by
  cases h with
  | ends hm hs => exact (hm.ahead hp).trans (hs.ahead hig)

theorem FirstMatch.ahead {ps : List (Pattern α)} (h : ∀ p ∈ ps, p.IsPlain) {i : Nat}
    {a : Option α} {r : Option (Match α)} (hp : FirstMatch (Pattern.Answers fs text) i a ps r) :
    ∀ m, r = some m → text.Ahead i m.lastIndex := by
  induction hp with
  | nil => exact fun _ hm => nomatch hm
  | here hp =>
    rintro m ⟨⟩
    exact hp.ahead (h _ List.mem_cons_self)
  | later _ _ ih => exact ih fun p hp => h p (List.mem_cons_of_mem _ hp)

theorem Step.goesAhead (hp : code.IsPlain) {f' : Frame α}
    (h : Step (Pattern.Answers fs text) code text f (some f')) : text.Ahead f.index f'.index := by
  cases h with
  | @consume p action capture skips m i hi hm hs =>
    have hmatch : text.Ahead f.index m.lastIndex := hm.ahead (hp.instrs _ (List.mem_of_getElem? hi))
    refine hmatch.trans (Skips.ahead (fun q hq => ?_) hs)
    split at hq
    · exact hp.ignore q hq
    · cases hq
  | choice hi hm hs =>
    exact (hm.ahead (hp.instrs _ (List.mem_of_getElem? hi)) _ rfl).trans (hs.ahead hp.ignore)
  | skip hi hs => exact hs.ahead hp.ignore
  | keyword hi hf _ hs => exact (Keywords.search_ahead hf).trans (hs.ahead hp.ignore)
  | loopStart | loopEnds | loopAgain | ahead | guard | assign | transform | dropAttributes =>
    exact .rfl

/-- A run from a boundary ends at a boundary. -/
theorem Exec.ahead (hp : code.IsPlain) {r : Option (Final α)}
    (h : Exec (Pattern.Answers fs text) code text f r) :
    ∀ fin, r = some fin → text.Ahead f.index fin.index := by
  induction h with
  | halt =>
    rintro fin ⟨⟩
    exact .rfl
  | step hs _ ih => exact fun fin hfin => (hs.goesAhead hp).trans (ih fin hfin)
  | fail | tooFew => exact fun _ hfin => nomatch hfin
  | kept _ _ ih =>
    rintro fin ⟨⟩
    have hin := ih _ rfl
    exact hin
  | left _ _ _ _ _ ih => exact ih

end

/-! ## Coming to rest -/

/-- Nothing is left to skip at the offset. -/
def Rests {π : Type} (V : Verdicts π α) (ignore : Option π) (i : Nat) : Prop :=
  ∀ a, Skips V ignore i a i

/-- Skipping twice lands where skipping once does. -/
def Saturated {π : Type} (V : Verdicts π α) (ignore : Option π) : Prop :=
  ∀ i a j, Skips V ignore i a j → Skips V ignore j a j

/-- What is skipped to is a place of rest. -/
theorem Skips.rests {π : Type} {V : Verdicts π α} {ignore : Option π} (hsat : Saturated V ignore)
    (halike : SkipsAlike V ignore) {i j : Nat} {a : Option α} (h : Skips V ignore i a j) :
    Rests V ignore j :=
  fun b => halike _ _ b _ (hsat _ _ _ h)

section

variable (source : Text) (s : CharSet) {min : Nat} (hmin : min ≤ 1)

include hmin

/-- Runs of characters are skipped at once. -/
theorem Pattern.saturated_run : Saturated (Pattern.Answers fs text)
    (some (Pattern.regex (α := α) ⟨.standard, source, .run s min⟩)) := by
  intro i a j hj
  obtain rfl := hj.unique Pattern.answers_unique (skips_run source s hmin i a)
  cases hrest : text.from? i with
  | none => simpa [hrest] using hj
  | some rest =>
    have hbehind : text.from? (i + Text.byteLength (rest.takeWhile s.contains)) =
        some (rest.dropWhile s.contains) := by
      rw [← List.takeWhile_append_dropWhile (p := s.contains) (l := rest)] at hrest
      exact Text.from?_add hrest
    have hskip : Skips (Answers fs text) (some (.regex ⟨.standard, source, .run s min⟩)) _ a _ :=
      skips_run source s hmin (i + Text.byteLength (rest.takeWhile s.contains)) a
    rwa [hbehind, Option.getD_some, Text.takeWhile_dropWhile_eq_nil, Text.byteLength_nil,
      Nat.add_zero] at hskip

/-- Runs of characters are skipped whatever the attribute. -/
theorem Pattern.alike_run : SkipsAlike (Pattern.Answers fs text)
    (some (Pattern.regex (α := α) ⟨.standard, source, .run s min⟩)) :=
  skipsAlike_of_skips Pattern.answers_unique (skips_run source s hmin)

end

/-- Whether ignorable text is skipped next, at once or behind an assertion. -/
def SkipsSoon (is : List (Instr (Pattern α) α)) (pc : Nat) : Prop :=
  is[pc]? = some .skip ∨ (∃ p b, is[pc]? = some (.ahead p b)) ∧ is[pc + 1]? = some .skip

/-- Ignorable text is skipped after all that is consumed. -/
def SkipsAfter (is : List (Instr (Pattern α) α)) : Prop :=
  ∀ pc p action capture, is[pc]? = some (.consume p action capture false) → SkipsSoon is (pc + 1)

/-- The run is at a place of rest, or about to skip to one. -/
def Frame.Rests (V : Verdicts (Pattern α) α) (code : Program α) (f : Frame α) : Prop :=
  GrammarMachine.Rests V code.ignore f.index ∨ SkipsSoon code.instrs f.pc

section

variable {V : Verdicts (Pattern α) α} {code : Program α} {f f' : Frame α}

/-- Before an instruction that neither skips nor asserts, the run is at a place of rest. -/
theorem Frame.Rests.rests (h : f.Rests V code) {instr : Option (Instr (Pattern α) α)}
    (hi : code.instrs[f.pc]? = instr) (hskip : instr ≠ some .skip)
    (hahead : ∀ p b, instr ≠ some (.ahead p b)) : GrammarMachine.Rests V code.ignore f.index := by
  rcases h with h | h | ⟨⟨p, b, h⟩, -⟩
  · exact h
  · exact absurd (hi.symm.trans h) hskip
  · exact absurd (hi.symm.trans h) (hahead p b)

theorem Step.rests (hsat : Saturated V code.ignore) (halike : SkipsAlike V code.ignore)
    (hc : SkipsAfter code.instrs) (h : Step V code text f (some f')) (hf : f.Rests V code) :
    f'.Rests V code := by
  cases h with
  | @consume p action capture skips m i hi hm hs =>
    cases skips with
    | false => exact .inr (hc _ _ _ _ hi)
    | true => exact .inl (hs.rests hsat halike)
  | choice _ _ hs | skip _ hs | keyword _ _ _ hs => exact .inl (hs.rests hsat halike)
  | @ahead p positive r hi =>
    rcases hf with h | h | ⟨-, h⟩
    · exact .inl h
    · cases hi.symm.trans h
    · exact .inr (.inl h)
  | loopStart hi | loopEnds hi | loopAgain hi | guard hi | assign hi | transform hi
  | dropAttributes hi => exact .inl (hf.rests hi nofun nofun)

/-- A run ends at a place of rest. -/
theorem Exec.rests (hsat : Saturated V code.ignore) (halike : SkipsAlike V code.ignore)
    (hc : SkipsAfter code.instrs) {r : Option (Final α)} (h : Exec V code text f r)
    (hf : f.Rests V code) : ∀ fin, r = some fin → GrammarMachine.Rests V code.ignore fin.index := by
  induction h with
  | halt hi =>
    rintro fin ⟨⟩
    exact hf.rests hi nofun nofun
  | step hs _ ih => exact ih (hs.rests hsat halike hc hf)
  | fail | tooFew => exact fun _ hfin => nomatch hfin
  | kept hi _ ih =>
    rintro fin ⟨⟩
    have hin := ih (.inl (hf.rests hi nofun nofun)) _ rfl
    exact hin
  | left hi _ _ _ _ ih => exact ih (.inl (hf.rests hi nofun nofun))

end

/-! ## Grammars -/

section

variable {is js : List (Instr (Pattern α) α)}

theorem SkipsSoon.append {pc : Nat} (h : SkipsSoon is pc) (js : List (Instr (Pattern α) α)) :
    SkipsSoon (is ++ js) pc := by
  have hlt {k : Nat} {i : Instr (Pattern α) α} (hk : is[k]? = some i) :
      (is ++ js)[k]? = some i := by
    rw [List.getElem?_append_left (List.getElem?_eq_some_iff.1 hk).1]
    exact hk
  rcases h with h | ⟨⟨p, b, h⟩, h'⟩
  · exact .inl (hlt h)
  · exact .inr ⟨⟨p, b, hlt h⟩, hlt h'⟩

theorem SkipsAfter.append (h : SkipsAfter is) (h' : SkipsAfter js) : SkipsAfter (is ++ js) := by
  intro pc p action capture hpc
  rcases Nat.lt_or_ge pc is.length with hlt | hge
  · rw [List.getElem?_append_left hlt] at hpc
    exact (h pc p action capture hpc).append js
  · obtain ⟨k, rfl⟩ := Nat.exists_eq_add_of_le hge
    have hat (k : Nat) : (is ++ js)[is.length + k]? = js[k]? := by
      rw [List.getElem?_append_right (Nat.le_add_right _ _), Nat.add_sub_cancel_left]
    rw [hat] at hpc
    have hsoon := h' k p action capture hpc
    simpa only [SkipsSoon, Nat.add_assoc, hat] using hsoon

/-- Where all that is consumed skips at once, nothing is left to skip. -/
theorem skipsAfter_of_forall
    (h : ∀ i ∈ is, ∀ p action capture, i ≠ .consume p action capture false) : SkipsAfter is :=
  fun _ p action capture hpc => absurd rfl (h _ (List.mem_of_getElem? hpc) p action capture)

theorem Link.skipsAfter (l : Lexicon α) (s : Link α) : SkipsAfter (s.instrs l) := by
  cases s with
  | word id =>
    intro pc p action capture hpc
    match pc with
    | 0 => exact .inr ⟨⟨_, _, rfl⟩, rfl⟩
    | 1 | 2 => cases hpc
    | pc + 3 => simp [instrs] at hpc
  | _ => exact skipsAfter_of_forall (by simp [instrs])

theorem Link.skipsAfter_instrsOf (l : Lexicon α) (ss : List (Link α)) :
    SkipsAfter (instrsOf l ss) := by
  induction ss with
  | nil => exact skipsAfter_of_forall (by simp [instrsOf])
  | cons s ss ih => exact (s.skipsAfter l).append ih

theorem Lexicon.skipsAfter_grammar (l : Lexicon α) : SkipsAfter l.grammar.instrs := by
  refine skipsAfter_of_forall fun i hi => ?_
  rw [grammar] at hi
  split at hi
  · rw [List.mem_singleton.1 hi]
    exact fun _ _ _ => by simp
  · cases hi

theorem Lexicon.skipsAfter_chain (l : Lexicon α) (ss : List (Link α)) :
    SkipsAfter (l.chain ss).instrs := by
  rw [chain_instrs]
  exact l.skipsAfter_grammar.append (Link.skipsAfter_instrsOf l ss)

end

end GrammarMachine
