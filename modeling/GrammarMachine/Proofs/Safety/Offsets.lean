import GrammarMachine.Proofs.Locality.Suffix
import GrammarMachine.Proofs.Nesting.Resting
import GrammarMachine.Proofs.Semantics.Paths
import Mathlib.Data.List.Chain

/-!
# Where the offsets of a run lie

Patterns of seven kinds move a run on, each by an arithmetic of its own. Without matching functions
all of them lead from a boundary to a boundary that is not before it, and so does what a run makes
of them. What a run has matched is sliced out of the text at the end; there is nothing that this
could fail at.

* `Text.Trail`: offsets in order, at boundaries of the text.
* `Program.Path.trail`: the offsets on the way to any frame that a run comes by.
* `Program.offsets_rise`: paths, calls that return, and the run as a whole.
-/

namespace GrammarMachine

variable {α : Type} {fs : Forwards α} {text : Text}

/-! ## Trails -/

/-- From `start` the offsets listed lead to `last`. None is before the one in front of it, and all
are within the text, where characters begin. -/
structure Text.Trail (text : Text) (start : Nat) (is : List Nat) (last : Nat) : Prop where
  rising : (start :: is).IsChain (· ≤ ·)
  within : ∀ i ∈ start :: is, text.isBoundary i ∧ i ≤ text.byteLength
  ends : (start :: is).getLast? = some last

namespace Text.Trail

variable {start i j k : Nat} {is : List Nat}

theorem refl (h : text.isBoundary start) : text.Trail start [] start where
  rising := .singleton _
  within := List.forall_mem_singleton.2 ⟨h, le_byteLength_of_isBoundary h⟩
  ends := rfl

theorem isBoundary (h : text.Trail start is i) : text.isBoundary i :=
  (h.within i (List.mem_of_getLast? h.ends)).1

theorem ahead (h : text.Trail start is i) (hij : text.Ahead i j) :
    text.Trail start (is ++ [j]) j := by
  obtain ⟨hj, hle⟩ := hij h.isBoundary
  refine ⟨?_, ?_, ?_⟩
  · rw [← List.cons_append]
    refine List.isChain_append.2 ⟨h.rising, .singleton _, fun x hx y hy => ?_⟩
    rw [h.ends] at hx
    cases hx
    cases hy
    exact hle
  · intro k hk
    rw [← List.cons_append] at hk
    rcases List.mem_append.1 hk with hk | hk
    · exact h.within k hk
    · obtain rfl := List.mem_singleton.1 hk
      exact ⟨hj, le_byteLength_of_isBoundary hj⟩
  · rw [← List.cons_append]
    exact List.getLast?_concat

theorem ahead₂ (h : text.Trail start is i) (hij : text.Ahead i j) (hjk : text.Ahead j k) :
    text.Trail start (is ++ [j, k]) k := by
  rw [List.append_cons]
  exact (h.ahead hij).ahead hjk

end Text.Trail

/-! ## Patterns that move ahead -/

theorem Pattern.IsTextual.isPlain {p : Pattern α} (h : p.IsTextual) : p.IsPlain := by
  cases h <;> trivial

theorem Program.IsTextual.isPlain {code : Program α} (h : code.IsTextual) : code.IsPlain where
  instrs x hx := by
    cases x with
    | consume p => exact (h.patterns _ hx p List.mem_cons_self).isPlain
    | choice ps => exact fun p hp => (h.patterns _ hx p hp).isPlain
    | _ => trivial
  ignore p hp := (h.ignore p hp).isPlain

/-- The programs that run where a pattern is tested have no matching functions either. -/
theorem Pattern.Holds.isTextual (hfs : fs.IsTextual) {t : Pattern α} {code : Program α}
    (h : t.Holds fs code) (ht : t.IsTextual) : code.IsTextual := by
  induction h with
  | program code =>
    cases ht with
    | program hpatterns hignore => exact ⟨hpatterns, hignore⟩
  | forward hcell => exact hfs _ _ hcell
  | wordEnd _ ih =>
    cases ht with
    | wordEnd hignore => exact ih (hignore _ rfl)

/-! ## Paths -/

section

variable {code : Program α} {f g : Frame α} {start i : Nat} {is js : List Nat}

theorem Code.Moves.trail (hc : code.IsPlain)
    (h : code.Moves (Pattern.Answers fs text) text f js g) (ht : text.Trail start is f.index) :
    text.Trail start (is ++ js) g.index := by
  cases h with
  | @consume p action capture skips m i hi hm hs =>
    refine ht.ahead₂ (hm.ahead (hc.instrs _ (List.mem_of_getElem? hi)))
      (Skips.ahead (fun q hq => ?_) hs)
    split at hq
    · exact hc.ignore q hq
    · cases hq
  | choice hi hm hs =>
    exact ht.ahead₂ (hm.ahead (hc.instrs _ (List.mem_of_getElem? hi)) _ rfl) (hs.ahead hc.ignore)
  | keyword hi hf _ hs => exact ht.ahead₂ (Keywords.search_ahead hf) (hs.ahead hc.ignore)
  | other _ _ hs => exact ht.ahead (hs.goesAhead hc)

theorem Code.Tests.trail (hc : code.IsPlain) {t : Pattern α} {a : Option α}
    (h : code.Tests (Pattern.Answers fs text) text f js t i a)
    (ht : text.Trail start is f.index) : text.Trail start (is ++ js) i := by
  cases h with
  | here | skip =>
    rw [List.append_nil]
    exact ht
  | afterConsume hi hm => exact ht.ahead (hm.ahead (hc.instrs _ (List.mem_of_getElem? hi)))
  | afterChoice hi hm => exact ht.ahead (hm.ahead (hc.instrs _ (List.mem_of_getElem? hi)) _ rfl)
  | afterKeyword _ hf => exact ht.ahead (Keywords.search_ahead hf)

theorem Code.Tests.isTextual (hc : Program.IsTextual code) {V : Verdicts (Pattern α) α}
    {t : Pattern α} {a : Option α} (h : code.Tests V text f js t i a) : t.IsTextual :=
  h.mem.elim (fun ⟨x, hx, ht⟩ => hc.patterns x hx t ht) (hc.ignore t)

/-- On paths there are no matching functions, and the offsets on the way make a trail. -/
theorem Program.Path.trail (hfs : fs.IsTextual) {p q : Program α} (hp : p.IsTextual)
    (hf : text.isBoundary f.index) (h : p.Path fs text f is q g) :
    q.IsTextual ∧ text.Trail f.index is g.index := by
  induction h with
  | here => exact ⟨hp, .refl hf⟩
  | step _ hmoves ih => exact ⟨ih.1, hmoves.trail ih.1.isPlain ih.2⟩
  | iterate _ _ ih | leave _ _ ih => exact ih
  | enter _ htests hc ih =>
    exact ⟨hc.isTextual hfs (htests.isTextual ih.1), htests.trail ih.1.isPlain ih.2⟩

end

/-- What a call from a boundary has matched can be sliced out of the text. So the run matches if and
only if its call ends well. -/
theorem Code.run_matches_iff {code : Program α} (hc : code.IsPlain) {start fuel : Nat}
    (hstart : text.isBoundary start) (inherited : Option α) (j j' : Journal (Pattern α) α) :
    (∃ m, (code.run (Pattern.find fs text fuel) fuel text start inherited).Ends j (some m) j') ↔
      ∃ fin, (exec (Pattern.find fs text fuel) code text fuel
        (.initial code.captures start inherited)).Ends j (some fin) j' := by
  obtain ⟨r, es, hes, -⟩ := exec_onPath (Pattern.find_onPath fs text fuel)
    (fun _ _ _ _ => Pattern.answers_of_find) fuel (p := code)
    (f := .initial code.captures start inherited)
  have hrun := Code.run_writes hes
  cases r with
  | error e =>
    constructor
    · rintro ⟨m, hm⟩
      cases (hrun j).symm.trans (Trial.ends_some_iff.1 hm)
    · rintro ⟨fin, hfin⟩
      cases (hes j).symm.trans (Trial.ends_some_iff.1 hfin)
  | ok fin =>
    have hexec := (exec_sound (hes.ends .empty)).mono fun _ _ _ _ => Pattern.answers_of_find
    obtain ⟨hb, hle⟩ := hexec.ahead hc fin rfl hstart
    obtain ⟨t, ht⟩ := Text.exists_slice? hstart hb hle
    rw [Except.bind, Final.toMatch, ht] at hrun
    constructor
    · rintro ⟨m, hm⟩
      obtain ⟨-, rfl⟩ := EStateM.Result.ok.inj ((hrun j).symm.trans (Trial.ends_some_iff.1 hm))
      exact ⟨fin, hes.ends j⟩
    · rintro ⟨fin', hfin⟩
      obtain ⟨-, rfl⟩ := EStateM.Result.ok.inj ((hes j).symm.trans (Trial.ends_some_iff.1 hfin))
      exact ⟨_, hrun.ends j⟩

/-- A run without matching functions from a boundary of the text. Wherever it comes by, in itself or
in the program of a pattern that it tests, the offsets on the way there never decrease, and all are
boundaries within the text. A call that returns does so at the last offset of such a way. All
instructions that are executed, in attempts that are abandoned as well, are executed on these ways.
And the run matches if and only if its call ends well. -/
theorem Program.offsets_rise (hfs : fs.IsTextual) {p : Program α} (hp : p.IsTextual) {start : Nat}
    (hstart : text.isBoundary start) (inherited : Option α) :
    let f := Frame.initial p.captures start inherited
    (∀ is q g, p.Path fs text f is q g → text.Trail start is g.index ∧
      ∀ fin, Exec (Pattern.Answers fs text) q text g (some fin) →
        ∃ js h, p.Path fs text f (is ++ js) q h ∧ q.instrs[h.pc]? = none ∧ fin.index = h.index ∧
          text.Trail start (is ++ js) fin.index) ∧
    ∀ fuel,
      (p.match? ⟨fs, fuel⟩ text start inherited).WritesOnly (p.OnPath fs text f) ∧
      ∀ j j', (∃ m, (p.match? ⟨fs, fuel⟩ text start inherited).Ends j (some m) j') ↔
        ∃ fin, (exec (Pattern.find fs text fuel) p text fuel f).Ends j (some fin) j' := by
  intro f
  have htrail {is : List Nat} {q : Program α} {g : Frame α} (h : p.Path fs text f is q g) :
      text.Trail start is g.index := (h.trail hfs hp hstart).2
  refine ⟨fun is q g hpath => ⟨htrail hpath, fun fin hfin => ?_⟩, fun fuel => ⟨?_, fun j j' => ?_⟩⟩
  · obtain ⟨js, h, hgoes, hend, hindex⟩ := hfin.exists_path fin rfl
    refine ⟨js, h, hpath.trans hgoes, hend, hindex, ?_⟩
    rw [hindex]
    exact htrail (hpath.trans hgoes)
  · exact Code.run_onPath (Pattern.find_onPath fs text fuel)
      (fun _ _ _ _ => Pattern.answers_of_find) fuel start inherited
  · exact p.run_matches_iff hp.isPlain hstart inherited j j'

/-- A program that refers to itself, behind a character of two bytes. The inner run
attempts an iteration in vain. -/
theorem Program.offsets_rise_nested :
    let p : Program Nat := ((Lexicon.empty.withIgnore (some (.literal [' ']))).withKeywords [['a']]
      |>.grammar.keyword ['a'] |>.tokenMaybe (.forward 0) |>.lineBreak).program
    let fs := Forwards.empty.push.set 0 p
    let text : Text := "éa a\n\n".toList
    fs.IsTextual ∧ p.IsTextual ∧ text.isBoundary 2 ∧
      (p.match? ⟨fs, 32⟩ text 2 none).WritesOnly (p.OnPath fs text (.initial 1 2 none)) ∧
      ∃ m j, (p.match? ⟨fs, 32⟩ text 2 none).Ends .empty (some m) j := by
  intro p fs text
  have hp : p.IsTextual := by
    refine ⟨?_, ?_⟩
    · have hpatterns : ∀ q ∈ ([.forward 0, .lineBreak] : List (Pattern Nat)), q.IsTextual := by
        simpa using ⟨.forward _, .lineBreak⟩
      simpa [p, Repetition.program, Repetition.lineBreak, Grammar.tokenMaybe, Grammar.repeated,
        Grammar.keyword, Grammar.keywordIn, Grammar.append, Lexicon.grammar, Lexicon.withKeywords,
        Lexicon.withIgnore, Lexicon.empty, Instr.token, Instr.patterns] using hpatterns
    · rintro q ⟨⟩
      exact .literal _
  have hfs : fs.IsTextual := Forwards.isTextual_empty.push.set hp (by decide)
  have hstart : text.isBoundary 2 := by decide
  obtain ⟨-, hruns⟩ := offsets_rise hfs hp hstart none
  obtain ⟨honPath, hiff⟩ := hruns 32
  have hends : (exec (Pattern.find fs text 32) p text 32 (.initial 1 2 none)).outcome? =
      some (some ⟨7, none, [some [⟨"a\n".toList, 6, none, []⟩]]⟩) := by
    decide +kernel
  obtain ⟨j, hj⟩ := Trial.exists_ends_of_outcome? hends
  obtain ⟨m, hm⟩ := (hiff .empty j).2 ⟨_, hj⟩
  exact ⟨hfs, hp, hstart, honPath, m, j, hm⟩

end GrammarMachine
