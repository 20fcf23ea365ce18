import GrammarMachine.Matching
import GrammarMachine.Proofs.Text.Offsets

/-!
# Where matches of regular expressions lie

A match covers whole characters of what was searched, whatever the expression and the engine.

* `Regex.findAt_eq_some`: what a match from an offset on splits the text into.
-/

namespace GrammarMachine.Regex

/-- A match from an offset on: its text, what lies between the offset and its start, and its end. -/
theorem findAt_eq_some {α : Type} {r : Regex} {t : Text} {i : Nat} {m : Match α}
    (h : r.findAt t i = some m) :
    ∃ l u v, t.from? i = some (l ++ (u ++ v)) ∧ m.matched = u ∧
      m.lastIndex = i + (Text.byteLength l + Text.byteLength u) ∧ m.extra.head? = some (some u) ∧
      (r.node.isAnchored → l = []) := by
  obtain ⟨rest, hrest, h⟩ := Option.bind_eq_some_iff.1 h
  obtain ⟨found, hfound, h⟩ := Option.bind_eq_some_iff.1 h
  obtain rfl := Option.some.inj h
  obtain ⟨l, u, v, rfl, hstart, hstop, hgroups⟩ := r.engine.liesIn_of_find hfound
  have hslice : Text.slice? (l ++ (u ++ v)) found.start found.stop = some u := by
    rw [hstop, hstart]
    exact Text.slice?_append l u v
  refine ⟨l, u, v, hrest, ?_, ?_, hgroups, fun hanchored => ?_⟩
  · simp only [hslice, Option.getD_some]
  · simp only [hstop, hstart]
  · exact Text.byteLength_eq_zero.1
      (hstart.symm.trans (r.engine.start_of_isAnchored hanchored hfound))

end GrammarMachine.Regex
