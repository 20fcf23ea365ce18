import GrammarMachine.Parse
import GrammarMachine.Proofs.Semantics.Answers
import GrammarMachine.Proofs.Text.Offsets

/-!
# What a parse comes to

The entry points for whole texts, by what the program answers.
-/

namespace GrammarMachine.Program

variable {α : Type} {fs : Forwards α} {text : Text} {p : Program α} {a : Option α}
  {r : Option (Match α)}

theorem parseStart_settles {index : Nat} (h : p.Answers fs text index a r) :
    Trial.Settles (fun fuel => p.parseStart ⟨fs, fuel⟩ text index a)
      (some (r.map fun m => ⟨m.matched, m.lastIndex, m.attr, none⟩)) := by
  obtain ⟨n, hn⟩ := h
  exact ⟨n, fun fuel hfuel => (hn fuel hfuel).attempt_bind (.pure _)⟩

/-- The program has an answer where a parse comes to an end. -/
theorem exists_answers_of_ends {fuel index : Nat} {j j' : Journal (Pattern α) α}
    {o : Option (Option (Parsed α))} (h : (p.parseStart ⟨fs, fuel⟩ text index a).Ends j o j') :
    ∃ r, p.Answers fs text index a r := by
  obtain ⟨r, j₁, hr, -⟩ := h.of_attempt_bind
  have hrun : Runs (Probe.verdicts (Pattern.find fs text fuel)) p text index a r :=
    Code.run_sound hr
  exact ⟨r, answers_iff.2 (hrun.mono fun _ _ _ _ => Pattern.answers_of_find)⟩

theorem exists_answers_of_parseStart {index : Nat} {o : Option (Option (Parsed α))}
    (h : Trial.Settles (fun fuel => p.parseStart ⟨fs, fuel⟩ text index a) o) :
    ∃ r, p.Answers fs text index a r := by
  obtain ⟨n, hn⟩ := h
  obtain ⟨j', hj⟩ := hn n (Nat.le_refl _) .empty
  exact exists_answers_of_ends hj

theorem exists_answers_of_parse {o : Option (Option (Parsed α))}
    (h : Trial.Settles (fun fuel => p.parse ⟨fs, fuel⟩ text a) o) :
    ∃ r, p.Answers fs text 0 a r := by
  obtain ⟨n, hn⟩ := h
  obtain ⟨j', hj⟩ := hn n (Nat.le_refl _) .empty
  rcases hj.of_bind with ⟨hstart, -⟩ | ⟨_, _, hstart, -⟩
  · exact exists_answers_of_ends hstart
  · exact exists_answers_of_ends hstart

/-- A match ends at a boundary that is not before its start. -/
theorem bounds_of_parseStart {index : Nat} {m : Parsed α}
    (h : Trial.Settles (fun fuel => p.parseStart ⟨fs, fuel⟩ text index a) (some (some m))) :
    text.isBoundary m.lastIndex ∧ index ≤ m.lastIndex := by
  obtain ⟨r, hr⟩ := exists_answers_of_parseStart h
  have hm := (parseStart_settles hr).unique h
  cases r with
  | none => cases hm
  | some m' =>
    cases hm
    exact ⟨(Text.isBoundary_of_slice? hr.slice?).2, Text.le_of_slice? hr.slice?⟩

/-- A parse of the whole text has the answer at the start, if that ends where the text does. -/
theorem parse_settles (h : p.Answers fs text 0 a r) :
    Trial.Settles (fun fuel => p.parse ⟨fs, fuel⟩ text a)
      (some ((r.map fun m => ⟨m.matched, m.lastIndex, m.attr, none⟩).filter
        fun s => s.lastIndex = text.byteLength)) := by
  obtain ⟨n, hn⟩ := parseStart_settles h
  exact ⟨n, fun fuel hfuel => (hn fuel hfuel).bind (.note_bind (.pure _))⟩

end GrammarMachine.Program
