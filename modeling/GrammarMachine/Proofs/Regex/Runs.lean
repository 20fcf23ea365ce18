import GrammarMachine.Proofs.Semantics.Answers
import GrammarMachine.Proofs.Text.Offsets

/-!
# Runs of characters

Expressions such as `[0-9]+` and ` *`, tested where they stand, match the longest run of characters
of their set.

* `Regex.walk_run`: one thread goes through a run and accepts behind each of its characters.
* `Regex.find_run`: what such an expression finds in a text.
* `Pattern.answers_run`, `Pattern.answers_run_none`: the same for the pattern.
* `Pattern.skips_run`: ignorable runs are skipped.
* `Pattern.digits`, `Pattern.spaces`: the patterns of these two sources.
-/

namespace GrammarMachine

theorem contains_digits : CharSet.contains (.range '0' '9') = Char.isDigit := by
  funext c
  have hcontains : CharSet.contains (.range '0' '9') c = (48 ≤ c.toNat && c.toNat ≤ 57) := by
    simp [CharSet.contains, CharSet.range, Interval.contains]
  rw [hcontains, Bool.eq_iff_iff, Char.isDigit]
  simp only [Bool.and_eq_true, decide_eq_true_eq, ge_iff_le, UInt32.le_iff_toNat_le]
  rfl

namespace Regex

/-- The longest run of characters of a set, of at least `min` of them. -/
def Node.run (s : CharSet) (min : Nat) : Node :=
  .seq (.look .textStart) (.loop (.char s) min none true)

/-- The thread that waits for one more character of a run. -/
def Thread.run (s : CharSet) : Thread := ⟨s, [.again (.char s) true], []⟩

/-- Behind a character of a run the thread has accepted, and waits for the next one. -/
theorem exploreRest_again (p : Place) (s : CharSet) :
    (exploreRest p [.again (.char s) true] [] .empty).threads = [.run s] ∧
      (exploreRest p [.again (.char s) true] [] .empty).accepted = some [] := by
  simp [exploreRest, explore, Front.visit, Front.empty, Front.addThread, Thread.run]

/-- At the start of a text the thread waits for a first character; a run that may be empty has been
accepted already. -/
theorem exploreRest_run (offset : Nat) (after : Option Char) (s : CharSet) {min : Nat}
    (hmin : min ≤ 1) :
    (exploreRest ⟨offset, none, after⟩ [.node (.run s min)] [] .empty).threads = [.run s] ∧
      (exploreRest ⟨offset, none, after⟩ [.node (.run s min)] [] .empty).accepted =
        if min = 0 then some [] else none := by
  obtain rfl | rfl : min = 0 ∨ min = 1 := by omega
  · simp [exploreRest, explore, Front.visit, Front.empty, Front.addThread, Thread.run, Node.run,
      Look.holds]
  · simp [exploreRest, explore, Front.visit, Front.empty, Front.addThread, Thread.run, Node.run,
      Look.holds, turns]

theorem walk_nil (start offset : Nat) (best : Option Span) (t : Text) :
    walk start [] best offset t = best := by
  cases t <;> rfl

/-- The thread of a run accepts behind its last character. -/
theorem walk_run (s : CharSet) (start offset : Nat) (best : Option Span) (t : Text) :
    walk start [.run s] best offset t =
      if t.takeWhile s.contains = [] then best
      else some ⟨start, offset + Text.byteLength (t.takeWhile s.contains), []⟩ := by
  induction t generalizing offset best with
  | nil => rfl
  | cons c t ih =>
    rw [walk, if_neg (by simp), List.takeWhile_cons]
    by_cases hc : s.contains c
    · obtain ⟨hthreads, haccepted⟩ := exploreRest_again ⟨offset + c.utf8Size, some c, t.head?⟩ s
      simp only [List.foldl_cons, List.foldl_nil, Thread.run, hc, if_true, haccepted, hthreads,
        List.reverse_singleton, Option.map_some, Option.some_or]
      rw [← Thread.run, ih, if_neg (List.cons_ne_nil _ _), Text.byteLength_cons, ← Nat.add_assoc]
      by_cases hempty : t.takeWhile s.contains = []
      · rw [if_pos hempty, hempty, Text.byteLength_nil, Nat.add_zero]
      · rw [if_neg hempty]
    · simp [Thread.run, hc, Front.empty, walk_nil]

/-- A run is found at the start of a text if it is long enough. -/
theorem find_run (source : Text) (s : CharSet) {min : Nat} (hmin : min ≤ 1) (t : Text) :
    (Regex.mk .standard source (.run s min)).find t =
      if min ≤ (t.takeWhile s.contains).length then
        some ⟨0, Text.byteLength (t.takeWhile s.contains), [some (t.takeWhile s.contains)]⟩
      else none := by
  obtain ⟨hthreads, haccepted⟩ := exploreRest_run 0 t.head? s hmin
  have hslice := Text.slice?_takeWhile s.contains t
  have hgroups : (Node.run s min).groupCount = 0 := rfl
  have hanchored : (Node.run s min).isAnchored = true := rfl
  simp only [find, Engine.standard_find, search, hanchored, if_true, matchAt, hgroups, Nat.mul_zero,
    List.replicate_zero, hthreads, haccepted, List.reverse_singleton, walk_run, Nat.zero_add]
  by_cases hempty : t.takeWhile s.contains = []
  · rw [hempty] at hslice ⊢
    rw [Text.byteLength_nil] at hslice
    obtain rfl | rfl : min = 0 ∨ min = 1 := by omega
    · simp [Span.found, hslice, slotText]
    · simp
  · have hpos : 0 < (t.takeWhile s.contains).length := List.length_pos_iff.2 hempty
    rw [if_neg hempty, if_pos (by omega)]
    simp [Span.found, hslice, slotText]

end Regex

namespace Pattern

variable {α : Type} {fs : Forwards α} {text rest : Text} {i : Nat}

/-- A run matches where it stands. -/
theorem answers_run (source : Text) (s : CharSet) {min : Nat} (hmin : min ≤ 1)
    (h : text.from? i = some rest) (hlen : min ≤ (rest.takeWhile s.contains).length)
    (a : Option α) :
    (Pattern.regex ⟨.standard, source, .run s min⟩).Answers fs text i a
      (some ⟨rest.takeWhile s.contains, i + Text.byteLength (rest.takeWhile s.contains), none,
        [some (rest.takeWhile s.contains)]⟩) := by
  refine Pattern.answers_iff.2 ?_
  simp [Verdict, Regex.findAt, h, Regex.find_run source s hmin, hlen, Text.slice?_takeWhile]

/-- A run does not match where it is too short, or inside a character. -/
theorem answers_run_none (source : Text) (s : CharSet) {min : Nat} (hmin : min ≤ 1)
    (h : ∀ rest, text.from? i = some rest → (rest.takeWhile s.contains).length < min)
    (a : Option α) : (Pattern.regex ⟨.standard, source, .run s min⟩).Answers fs text i a none := by
  refine Pattern.answers_iff.2 ?_
  cases hrest : text.from? i with
  | none => simp [Verdict, Regex.findAt, hrest]
  | some rest =>
    have hlen := Nat.not_le.2 (h rest hrest)
    simp [Verdict, Regex.findAt, hrest, Regex.find_run source s hmin, hlen]

/-- Where a run is ignorable, it is skipped. -/
theorem skips_run (source : Text) (s : CharSet) {min : Nat} (hmin : min ≤ 1) (i : Nat)
    (a : Option α) :
    Skips (Pattern.Answers fs text) (some (.regex ⟨.standard, source, .run s min⟩)) i a
      (i + Text.byteLength (((text.from? i).getD []).takeWhile s.contains)) := by
  cases hrest : text.from? i with
  | none => exact .stays (answers_run_none source s hmin (by simp [hrest]) a)
  | some rest =>
    rw [Option.getD_some]
    by_cases hlen : min ≤ (rest.takeWhile s.contains).length
    · exact .moves (answers_run source s hmin hrest hlen a)
    · have hnil : rest.takeWhile s.contains = [] := List.eq_nil_of_length_eq_zero (by omega)
      rw [hnil]
      refine .stays (answers_run_none source s hmin (fun rest' hrest' => ?_) a)
      obtain rfl := Option.some.inj (hrest.symm.trans hrest')
      omega

/-- One or more digits: `[0-9]+`. -/
def digits : Pattern α := .regex ⟨.standard, "\\A(?:[0-9]+)".toList, .run (.range '0' '9') 1⟩

theorem anchored_digits : anchored .standard "[0-9]+".toList {} = .ok (digits : Pattern α) := rfl

/-- Any number of spaces: ` *`. -/
def spaces : Pattern α := .regex ⟨.standard, "\\A(?: *)".toList, .run (.single ' ') 0⟩

theorem anchored_spaces : anchored .standard " *".toList {} = .ok (spaces : Pattern α) := rfl

end Pattern

end GrammarMachine
