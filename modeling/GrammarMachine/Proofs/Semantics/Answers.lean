import GrammarMachine.Matching
import GrammarMachine.Proofs.Semantics.Adequacy

/-!
# What testing a pattern comes to

`Pattern.Answers fs text p i a r`: tested at offset `i` of the text under the inherited attribute
`a`, the pattern `p` comes to `r` with enough fuel, and `Program.Answers` is the same for a program.
A pattern that recurses for ever has no answer.

* `Pattern.answers_iff`: the answer of a pattern by the answers of the patterns in it.
* `Program.answers_iff`: a program answers as it runs.
* `Pattern.Answers.unique`, `Exec.unique`: there is at most one answer, and one result of a call.
* `Pattern.answers_of_find`: what is found with some amount of fuel is the answer.
-/

namespace GrammarMachine

variable {α : Type}

/-- Tested with enough fuel, the pattern comes to `r`. -/
def Pattern.Answers (fs : Forwards α) (text : Text) : Verdicts (Pattern α) α :=
  Probe.settled (Pattern.find fs text)

/-- Run with enough fuel, the program comes to `r`. -/
def Program.Answers (fs : Forwards α) (text : Text) (p : Program α) (index : Nat)
    (inherited : Option α) (r : Option (Match α)) : Prop :=
  Trial.Settles (fun fuel => p.match? ⟨fs, fuel⟩ text index inherited) r

variable {fs : Forwards α} {text : Text} {index : Nat} {inherited : Option α}

theorem Pattern.Answers.unique {p : Pattern α} {r r' : Option (Match α)}
    (h : p.Answers fs text index inherited r) (h' : p.Answers fs text index inherited r') : r = r' :=
  Trial.Settles.unique h h'

theorem Pattern.answers_unique : (Pattern.Answers fs text).Unique :=
  fun _ _ _ _ _ => Pattern.Answers.unique

theorem Program.Answers.unique {p : Program α} {r r' : Option (Match α)}
    (h : p.Answers fs text index inherited r) (h' : p.Answers fs text index inherited r') : r = r' :=
  Trial.Settles.unique h h'

/-- A call has at most one result. -/
theorem Exec.unique {code : Program α} {f : Frame α} {r r' : Option (Final α)}
    (h : Exec (Pattern.Answers fs text) code text f r)
    (h' : Exec (Pattern.Answers fs text) code text f r') : r = r' := by
  obtain ⟨n, hn⟩ := exec_complete h
  obtain ⟨n', hn'⟩ := exec_complete h'
  exact (hn (max n n') (by omega) (max n n') (by omega)).unique
    (hn' (max n n') (by omega) (max n n') (by omega))

/-! ## Spans

A literal, a line break and the end of the text are found first and sliced out of the text then.
Those slices are there. -/

/-- Tests a literal at an offset. -/
def literalAt (literal text : Text) (index : Nat) : Option (Match α) :=
  (literalEnd? literal text index).map fun stop => ⟨literal, stop, none, []⟩

/-- Tests for a line break at an offset. -/
def lineBreakAt (text : Text) (index : Nat) : Option (Match α) :=
  (lineBreakEnd? text index).bind (Match.span? text index)

theorem literalEnd?_eq_some {t : Text} {stop : Nat} (h : literalEnd? t text index = some stop) :
    ∃ u v, text = u ++ (t ++ v) ∧ u.byteLength = index ∧ stop = index + t.byteLength := by
  obtain ⟨rest, hrest, hstop⟩ := Option.bind_eq_some_iff.1 h
  split at hstop
  · rename_i hpre
    obtain ⟨v, rfl⟩ := List.isPrefixOf_iff_prefix.1 hpre
    obtain ⟨u, rfl, hu⟩ := Text.from?_eq_some_iff.1 hrest
    exact ⟨u, v, rfl, hu, (Option.some.inj hstop).symm⟩
  · cases hstop

theorem lineBreakLength?_eq_some {t : Text} {n : Nat} (h : lineBreakLength? t = some n) :
    ∃ u v, t = u ++ v ∧ Text.byteLength u = n := by
  unfold lineBreakLength? at h
  split at h
  · exact ⟨['\r', '\n'], _, rfl, by cases h; rfl⟩
  · exact ⟨['\r'], _, rfl, by cases h; rfl⟩
  · exact ⟨['\n'], _, rfl, by cases h; rfl⟩
  · cases h

theorem lineBreakEnd?_eq_some {stop : Nat} (h : lineBreakEnd? text index = some stop) :
    ∃ u t v, text = u ++ (t ++ v) ∧ u.byteLength = index ∧ stop = index + t.byteLength := by
  obtain ⟨rest, hrest, hstop⟩ := Option.bind_eq_some_iff.1 h
  obtain ⟨n, hn, hstop⟩ := Option.bind_eq_some_iff.1 hstop
  obtain ⟨t, v, rfl, rfl⟩ := lineBreakLength?_eq_some hn
  obtain ⟨u, rfl, hu⟩ := Text.from?_eq_some_iff.1 hrest
  exact ⟨u, t, v, rfl, hu, (Option.some.inj hstop).symm⟩

theorem Match.span?_append (u t v : Text) :
    (Match.span? (u ++ (t ++ v)) u.byteLength (u.byteLength + t.byteLength) : Option (Match α)) =
      some ⟨t, u.byteLength + t.byteLength, none, []⟩ := by
  rw [Match.span?, Text.slice?_append]
  rfl

theorem literalAt_eq (literal text : Text) (index : Nat) :
    (literalAt literal text index : Option (Match α)) =
      (literalEnd? literal text index).bind (Match.span? text index) := by
  cases h : literalEnd? literal text index with
  | none => simp [literalAt, h]
  | some stop =>
    obtain ⟨u, v, rfl, rfl, rfl⟩ := literalEnd?_eq_some h
    simp [literalAt, h, Match.span?_append]

theorem Match.span?_byteLength (text : Text) :
    (Match.span? text text.byteLength text.byteLength : Option (Match α)) =
      some ⟨[], text.byteLength, none, []⟩ := by
  simpa using Match.span?_append (α := α) text [] []

/-! ## One pattern by those in it -/

/-- Whether ignorable text is found at an offset. -/
inductive FindsIgnored {π : Type} (V : Verdicts π α) : Option π → Nat → Option α → Bool → Prop
  | nothing {i a} : FindsIgnored V none i a false
  | tested {p i a r} : V p i a r → FindsIgnored V (some p) i a r.isSome

/-- The verdict on a pattern where `V` has the verdicts on the patterns in it. -/
def Pattern.Verdict (V : Verdicts (Pattern α) α) (fs : Forwards α) (text : Text) :
    Verdicts (Pattern α) α
  | literal t, i, _, r => r = literalAt t text i
  | regex e, i, _, r => r = e.findAt text i
  | program code, i, a, r => Runs V code text i a r
  | forward cell, i, a, r =>
    match fs.get? cell with
    | some code => Runs V code text i a r
    | none => r = none
  | custom f, i, a, r => r = f.apply text i a
  | lineBreak, i, _, r => r = lineBreakAt text i
  | endOfInput, i, _, r =>
    r = if text.byteLength ≤ i then some ⟨[], text.byteLength, none, []⟩ else none
  | wordEnd ignore words, i, a, r =>
    if text.byteLength ≤ i || (ignore.isNone && words.isNone) then
      ∃ m, Match.span? text i i = some m ∧ r = some m
    else ∃ b, FindsIgnored V ignore i a b ∧
      if b || find.startsKeyword text words i then ∃ m, Match.span? text i i = some m ∧ r = some m
      else r = none

theorem Trial.Settles.of_succ {π β : Type} {t : Nat → Trial π α β} {r : Option β}
    (h : Settles (fun fuel => t (fuel + 1)) r) : Settles t r := by
  obtain ⟨n, hn⟩ := h
  refine ⟨n + 1, fun k hk => ?_⟩
  obtain ⟨k, rfl⟩ : ∃ m, k = m + 1 := ⟨k - 1, by omega⟩
  exact hn k (by omega)

theorem Code.run_settles {code : Program α} {r : Option (Match α)}
    (h : Runs (Pattern.Answers fs text) code text index inherited r) :
    Trial.Settles (fun fuel => code.run (Pattern.find fs text fuel) fuel text index inherited) r := by
  obtain ⟨n, hn⟩ := Code.run_complete h
  exact ⟨n, fun k hk => hn k hk k hk⟩

theorem Trial.Ends.of_span {π : Type} {start stop : Nat} {j j' : Journal π α}
    {r : Option (Match α)} (h : (Trial.span text start stop : Trial π α (Match α)).Ends j r j') :
    ∃ m, Match.span? text start stop = some m ∧ r = some m := by
  rw [Trial.span] at h
  split at h
  · rename_i m hm
    exact ⟨m, hm, h.of_pure⟩
  · exact absurd h Trial.not_ends_invalidSlice

theorem Trial.Gives.span {π : Type} {start stop : Nat} {m : Match α}
    (h : Match.span? text start stop = some m) :
    (Trial.span text start stop : Trial π α (Match α)).Gives (some m) := by
  rw [Trial.span, h]
  exact .pure m

/-- Where it ends is found first, and the text up to there is what is matched. -/
theorem Trial.Ends.of_span_bind {π : Type} {start : Nat} {o : Option Nat} {j j' : Journal π α}
    {r : Option (Match α)}
    (h : (Trial.ofOption o >>= fun stop => Trial.span text start stop : Trial π α (Match α)).Ends
      j r j') : r = o.bind (Match.span? text start) := by
  rcases h.of_bind with ⟨ho, rfl⟩ | ⟨stop, j₁, ho, hs⟩
  · rw [← ho.of_ofOption]
    rfl
  · obtain ⟨m, hm, rfl⟩ := hs.of_span
    rw [← ho.of_ofOption]
    exact hm.symm

theorem Trial.Gives.span_bind {π : Type} {start : Nat} {o : Option Nat}
    (h : ∀ stop, o = some stop → ∃ m : Match α, Match.span? text start stop = some m) :
    (Trial.ofOption o >>= fun stop => Trial.span text start stop : Trial π α (Match α)).Gives
      (o.bind (Match.span? text start)) := by
  cases o with
  | none => exact .ofOption_bind_none rfl
  | some stop =>
    obtain ⟨m, hm⟩ := h stop rfl
    rw [Option.bind_some, hm]
    exact .ofOption_bind rfl (.span hm)

/-- What a pattern comes to with one more unit of fuel, by what those in it come to. -/
theorem Pattern.find_sound {fuel : Nat} {p : Pattern α} {r : Option (Match α)}
    (h : Probe.verdicts (find fs text (fuel + 1)) p index inherited r) :
    Verdict (Probe.verdicts (find fs text fuel)) fs text p index inherited r := by
  obtain ⟨j, j', h⟩ := h
  cases p with
  | literal t =>
    rw [find] at h
    exact h.of_span_bind.trans (literalAt_eq t text index).symm
  | regex e => exact Trial.Ends.of_ofOption (by rwa [find] at h)
  | program code => exact Code.run_sound (by rwa [find] at h)
  | forward cell =>
    rw [find] at h
    simp only [Verdict]
    cases hc : fs.get? cell with
    | some code => exact Code.run_sound (by simpa only [hc] using h)
    | none => exact Trial.Ends.of_mismatch (Trial.Ends.of_note_bind (by simpa only [hc] using h))
  | custom f =>
    rw [find] at h
    exact h.of_note_bind.of_ofOption
  | lineBreak =>
    rw [find] at h
    exact h.of_span_bind
  | endOfInput =>
    rw [find] at h
    simp only [Verdict]
    split at h
    · rename_i hle
      obtain ⟨m, hm, rfl⟩ := h.of_span
      rw [if_pos hle, ← hm, Match.span?_byteLength]
    · rename_i hle
      rw [if_neg hle]
      exact h.of_mismatch
  | wordEnd ignore words =>
    rw [find] at h
    simp only [Verdict]
    split at h
    · rename_i hl
      rw [if_pos hl]
      exact h.of_span
    rename_i hl
    rw [if_neg hl]
    have hends {b : Bool} {j j' : Journal (Pattern α) α}
        (h : (if b || find.startsKeyword text words index then Trial.span text index index
          else Trial.mismatch : Trial (Pattern α) α (Match α)).Ends j r j') :
        if b || find.startsKeyword text words index then
          ∃ m, Match.span? text index index = some m ∧ r = some m else r = none := by
      split at h
      · rename_i hb
        rw [if_pos hb]
        exact h.of_span
      · rename_i hb
        rw [if_neg hb]
        exact h.of_mismatch
    cases ignore with
    | none => exact ⟨false, .nothing, hends h.of_pure_bind⟩
    | some p =>
      simp only [map_eq_pure_bind, bind_assoc, pure_bind] at h
      obtain ⟨o, j₁, hp, h₁⟩ := h.of_attempt_bind
      exact ⟨o.isSome, .tested ⟨_, _, hp⟩, hends h₁⟩

theorem Pattern.find_complete {p : Pattern α} {r : Option (Match α)}
    (h : Verdict (Answers fs text) fs text p index inherited r) :
    p.Answers fs text index inherited r := by
  cases p with
  | literal t =>
    refine .of_succ ⟨0, fun _ _ => ?_⟩
    simp only [find, show r = _ from h, literalAt_eq]
    refine .span_bind fun stop hstop => ?_
    obtain ⟨u, v, rfl, rfl, rfl⟩ := literalEnd?_eq_some hstop
    exact ⟨_, Match.span?_append u t v⟩
  | regex e => exact .of_succ (h ▸ ⟨0, fun _ _ => .ofOption _⟩)
  | program code => exact .of_succ (Code.run_settles h)
  | forward cell =>
    refine .of_succ ?_
    simp only [Verdict] at h
    simp only [find]
    cases hc : fs.get? cell with
    | some code => exact Code.run_settles (by simpa only [hc] using h)
    | none =>
      simp only [hc] at h
      exact h ▸ ⟨0, fun _ _ => .note_bind .mismatch⟩
  | custom f => exact .of_succ (h ▸ ⟨0, fun _ _ => .note_bind (.ofOption _)⟩)
  | lineBreak =>
    refine .of_succ ⟨0, fun _ _ => ?_⟩
    simp only [find, show r = _ from h, lineBreakAt]
    refine .span_bind fun stop hstop => ?_
    obtain ⟨u, t, v, rfl, rfl, rfl⟩ := lineBreakEnd?_eq_some hstop
    exact ⟨_, Match.span?_append u t v⟩
  | endOfInput =>
    refine .of_succ ⟨0, fun _ _ => ?_⟩
    simp only [find, show r = _ from h]
    split
    · exact .span (Match.span?_byteLength text)
    · exact .mismatch
  | wordEnd ignore words =>
    refine .of_succ ?_
    simp only [Verdict] at h
    simp only [find]
    split
    · rename_i hl
      rw [if_pos hl] at h
      obtain ⟨m, hm, rfl⟩ := h
      exact ⟨0, fun _ _ => .span hm⟩
    rename_i hl
    rw [if_neg hl] at h
    obtain ⟨b, hb, hr⟩ := h
    have hgives : (if b || find.startsKeyword text words index then Trial.span text index index
        else Trial.mismatch : Trial (Pattern α) α (Match α)).Gives r := by
      split at hr
      · rename_i hw
        obtain ⟨m, hm, rfl⟩ := hr
        rw [if_pos hw]
        exact .span hm
      · rename_i hw
        rw [if_neg hw, hr]
        exact .mismatch
    cases hb with
    | nothing => exact ⟨0, fun _ _ => hgives⟩
    | tested hp =>
      obtain ⟨n, hn⟩ := hp
      refine ⟨n, fun k hk => ?_⟩
      simp only [map_eq_pure_bind, bind_assoc, pure_bind]
      exact (hn k hk).attempt_bind hgives

theorem FindsIgnored.mono {π : Type} {V V' : Verdicts π α} (hV : ∀ p i a r, V p i a r → V' p i a r)
    {p : Option π} {i : Nat} {a : Option α} {b : Bool} (h : FindsIgnored V p i a b) :
    FindsIgnored V' p i a b := by
  cases h with
  | nothing => exact .nothing
  | tested h => exact .tested (hV _ _ _ _ h)

theorem Pattern.Verdict.mono {V V' : Verdicts (Pattern α) α}
    (hV : ∀ p i a r, V p i a r → V' p i a r) {p : Pattern α} {r : Option (Match α)}
    (h : Verdict V fs text p index inherited r) : Verdict V' fs text p index inherited r := by
  cases p with
  | program code => exact Runs.mono hV h
  | forward cell =>
    simp only [Verdict] at h ⊢
    split at h
    · exact h.mono hV
    · exact h
  | wordEnd ignore words =>
    simp only [Verdict] at h ⊢
    split at h
    · rename_i hl
      rwa [if_pos hl]
    · rename_i hl
      rw [if_neg hl]
      obtain ⟨b, hb, hr⟩ := h
      exact ⟨b, hb.mono hV, hr⟩
  | _ => exact h

/-- What a pattern comes to with some amount of fuel, from some journal, is its answer. -/
theorem Pattern.answers_of_find {fuel : Nat} {p : Pattern α} {r : Option (Match α)}
    (h : Probe.verdicts (find fs text fuel) p index inherited r) :
    p.Answers fs text index inherited r := by
  induction fuel generalizing p index inherited r with
  | zero =>
    obtain ⟨j, j', h⟩ := h
    exact absurd h Trial.not_ends_outOfFuel
  | succ fuel ih => exact find_complete ((find_sound h).mono fun _ _ _ _ => ih)

-- What a run on a concrete text computes is decided.
deriving instance DecidableEq for Match
deriving instance DecidableEq for Final

/-- What a run with some amount of fuel computes is the answer. -/
theorem Pattern.answers_of_outcome? (fuel : Nat) {p : Pattern α} {r : Option (Match α)}
    (h : (find fs text fuel p index inherited).outcome? = some r) :
    p.Answers fs text index inherited r := by
  obtain ⟨j', hj⟩ := Trial.exists_ends_of_outcome? h
  exact answers_of_find ⟨.empty, j', hj⟩

/-- Every answer comes with some amount of fuel. -/
theorem Pattern.Answers.exists_find {p : Pattern α} {r : Option (Match α)}
    (h : p.Answers fs text index inherited r) :
    ∃ fuel, Probe.verdicts (find fs text fuel) p index inherited r := by
  obtain ⟨n, hn⟩ := h
  obtain ⟨j', hj⟩ := hn n (Nat.le_refl _) .empty
  exact ⟨n, .empty, j', hj⟩

/-- The answer of a pattern by the answers of the patterns in it. -/
theorem Pattern.answers_iff {p : Pattern α} {r : Option (Match α)} :
    p.Answers fs text index inherited r ↔
      Verdict (Answers fs text) fs text p index inherited r := by
  refine ⟨fun h => ?_, find_complete⟩
  obtain ⟨fuel, h⟩ := h.exists_find
  cases fuel with
  | zero =>
    obtain ⟨j, j', h⟩ := h
    exact absurd h Trial.not_ends_outOfFuel
  | succ fuel => exact (find_sound h).mono fun _ _ _ _ => answers_of_find

/-- A program answers as it runs. -/
theorem Program.answers_iff {p : Program α} {r : Option (Match α)} :
    p.Answers fs text index inherited r ↔
      Runs (Pattern.Answers fs text) p text index inherited r := by
  refine ⟨fun ⟨n, hn⟩ => ?_, Code.run_settles⟩
  obtain ⟨j', hj⟩ := hn n (Nat.le_refl _) .empty
  exact (Code.run_sound hj).mono fun _ _ _ _ => Pattern.answers_of_find

/-- The match of a program that ended, from where it began; absent if it cannot be sliced out. -/
def Final.match? (text : Text) (start : Nat) (fin : Final α) : Option (Match α) :=
  (text.slice? start fin.index).map fun t => ⟨t, fin.index, fin.attr, []⟩

/-- A program answers with the match of its run. -/
theorem Program.answers_exec_iff {p : Program α} {r : Option (Match α)} :
    p.Answers fs text index inherited r ↔
      ∃ x, Exec (Pattern.Answers fs text) p text (.initial p.captures index inherited) x ∧
        r = x.bind (Final.match? text index) := by
  rw [answers_iff]
  constructor
  · intro h
    cases h with
    | matched hx ht => exact ⟨_, hx, by simp [Final.match?, ht]⟩
    | unsliced hx ht => exact ⟨_, hx, by simp [Final.match?, ht]⟩
    | failed hx => exact ⟨_, hx, rfl⟩
  · rintro ⟨x, hx, rfl⟩
    cases x with
    | none => exact .failed hx
    | some fin =>
      cases ht : text.slice? index fin.index with
      | none =>
        rw [Option.bind_some, Final.match?, ht]
        exact .unsliced hx ht
      | some t =>
        rw [Option.bind_some, Final.match?, ht]
        exact .matched hx ht

/-- What a program matches is the text from where it began to where it ended. -/
theorem Program.Answers.slice? {p : Program α} {m : Match α}
    (h : p.Answers fs text index inherited (some m)) :
    text.slice? index m.lastIndex = some m.matched := by
  cases Program.answers_iff.1 h with
  | matched _ ht => exact ht

theorem Pattern.answers_program_iff {p : Program α} {r : Option (Match α)} :
    (program p).Answers fs text index inherited r ↔ p.Answers fs text index inherited r :=
  Pattern.answers_iff.trans Program.answers_iff.symm

/-- A literal matches where it stands. -/
theorem Pattern.answers_literal_iff {t : Text} {m : Match α} :
    (literal t).Answers fs text index inherited (some m) ↔
      ∃ rest, text.from? index = some (t ++ rest) ∧ m = ⟨t, index + t.byteLength, none, []⟩ := by
  rw [Pattern.answers_iff]
  constructor
  · intro h
    obtain ⟨stop, hstop, rfl⟩ := Option.map_eq_some_iff.1 (Eq.symm h)
    obtain ⟨u, v, rfl, rfl, rfl⟩ := literalEnd?_eq_some hstop
    exact ⟨v, Text.from?_append u _, rfl⟩
  · rintro ⟨rest, hrest, rfl⟩
    simp [Verdict, literalAt, literalEnd?, hrest]

/-- A literal does not match where it does not stand. -/
theorem Pattern.answers_literal_none_iff {t : Text} :
    (literal t).Answers fs text index inherited none ↔
      ∀ rest, text.from? index ≠ some (t ++ rest) := by
  constructor
  · intro h rest hrest
    cases h.unique (Pattern.answers_literal_iff.2 ⟨rest, hrest, rfl⟩)
  · intro hno
    have h : (literal t).Answers fs text index inherited (literalAt t text index) :=
      Pattern.answers_iff.2 rfl
    cases hl : literalAt (α := α) t text index with
    | none => rwa [hl] at h
    | some m =>
      obtain ⟨rest, hrest, -⟩ := Pattern.answers_literal_iff.1 (hl ▸ h)
      exact absurd hrest (hno rest)

/-- A forward reference that matches is defined. -/
theorem Pattern.Answers.exists_get? {cell : Nat} {m : Match α}
    (h : (Pattern.forward cell).Answers fs text index inherited (some m)) :
    ∃ p, fs.get? cell = some p := by
  rw [Pattern.answers_iff] at h
  cases hc : fs.get? cell with
  | some p => exact ⟨p, rfl⟩
  | none =>
    simp only [Pattern.Verdict, hc] at h
    cases h

/-- A forward reference answers as the program that its cell holds. -/
theorem Pattern.answers_forward_iff {cell : Nat} {p : Program α} (hc : fs.get? cell = some p)
    {r : Option (Match α)} :
    (forward cell).Answers fs text index inherited r ↔ p.Answers fs text index inherited r := by
  rw [Pattern.answers_iff, Program.answers_iff]
  simp only [Verdict, hc]

end GrammarMachine
