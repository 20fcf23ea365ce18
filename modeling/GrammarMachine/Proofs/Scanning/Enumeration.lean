import GrammarMachine.Grammar.Basic
import GrammarMachine.Proofs.Semantics.Parsing

/-!
# All matches of a text, from the left

Two walks go through the boundaries of a text. `parsePart` tries them in order and stops at the
first match; `foldMatches` steps from each to the next and jumps past the matches.

* `Program.Enumerates`: the matches that do not overlap, from the left, and nothing else.
* `Program.Enumerates.miss`, `Program.Enumerates.hit`: one step of the scan, back from where it goes
  on.
* `Program.parseAll_enumerates`: where every parse at a boundary comes to an end, the scan does, it
  never slices the text inside a character, and both walks agree.
-/

namespace GrammarMachine

/-- Whether the match begins at an offset, or has it strictly inside. -/
def Parsed.Covers {α : Type} (m : Parsed α) (i : Nat) : Prop :=
  ∃ s, m.startIndex = some s ∧ (i = s ∨ (s < i ∧ i < m.lastIndex))

namespace Program

variable {α β : Type} {fs : Forwards α} {text : Text} {p : Program α}

/-- Parsed at an offset with nothing inherited, the program comes to `r`. -/
def Parses (fs : Forwards α) (text : Text) (p : Program α) (i : Nat) (r : Option (Parsed α)) :
    Prop :=
  Trial.Settles (fun fuel => p.parseStart ⟨fs, fuel⟩ text i none) (some r)

/-- The matches that do not overlap, from the left, where the scan begins at `base`. -/
structure Enumerates (fs : Forwards α) (text : Text) (p : Program α) (base : Nat)
    (ms : List (Parsed α)) : Prop where
  /-- Each is what a parse comes to where it starts, at a boundary. -/
  parsed : ∀ m ∈ ms, ∃ i r, base ≤ i ∧ text.isBoundary i ∧ p.Parses fs text i (some r) ∧
    m = { r with startIndex := some i }
  /-- Each starts after the start, and not before the end, of those before it. -/
  ordered : ms.Pairwise fun m n =>
    ∀ i ∈ m.startIndex, ∀ j ∈ n.startIndex, i < j ∧ m.lastIndex ≤ j
  /-- Nothing matches at a boundary that they do not cover. -/
  complete : ∀ i, base ≤ i → text.isBoundary i → (¬ ∃ m ∈ ms, m.Covers i) →
    p.Parses fs text i none

/-! ## One step of the scan -/

section

variable {i next : Nat} {found : Option (Parsed α)} {ms : List (Parsed α)}

theorem enumerates_past (h : text.byteLength < i) : p.Enumerates fs text i [] where
  parsed := by simp
  ordered := .nil
  complete k hik hk _ := by
    have := Text.le_byteLength_of_isBoundary hk
    omega

/-- No match, on to the next boundary. -/
theorem Enumerates.miss (hi : p.Parses fs text i none) (hlt : i < next)
    (hgap : ∀ k, i < k → k < next → ¬ text.isBoundary k) (h : p.Enumerates fs text next ms) :
    p.Enumerates fs text i ms where
  parsed m hm := by
    obtain ⟨j, r, hj, hm⟩ := h.parsed m hm
    exact ⟨j, r, by omega, hm⟩
  ordered := h.ordered
  complete k hik hk hfree := by
    rcases Nat.eq_or_lt_of_le hik with rfl | hik
    · exact hi
    · have hle : next ≤ k := Nat.le_of_not_lt fun hlt => hgap k hik hlt hk
      exact h.complete k hle hk hfree

/-- A match, on to a boundary past it. -/
theorem Enumerates.hit {r : Parsed α} (hb : text.isBoundary i) (hi : p.Parses fs text i (some r))
    (hlt : i < next) (hle : r.lastIndex ≤ next)
    (hgap : ∀ k, i < k → k < next → text.isBoundary k → k < r.lastIndex)
    (h : p.Enumerates fs text next ms) :
    p.Enumerates fs text i ({ r with startIndex := some i } :: ms) where
  parsed := by
    refine List.forall_mem_cons.2 ⟨⟨i, r, Nat.le_refl i, hb, hi, rfl⟩, fun m hm => ?_⟩
    obtain ⟨j, r', hj, hm⟩ := h.parsed m hm
    exact ⟨j, r', by omega, hm⟩
  ordered := by
    refine List.pairwise_cons.2 ⟨fun n hn j hj k hk => ?_, h.ordered⟩
    obtain ⟨l, r', hl, -, -, rfl⟩ := h.parsed n hn
    cases hj
    cases hk
    dsimp only
    omega
  complete k hik hk hfree := by
    have hki : k ≠ i := fun hki => hfree ⟨_, List.mem_cons_self, i, rfl, .inl hki⟩
    have hnext : next ≤ k := by
      refine Nat.le_of_not_lt fun hkn => hfree ⟨_, List.mem_cons_self, i, rfl, .inr ⟨by omega, ?_⟩⟩
      exact hgap k (by omega) hkn hk
    exact h.complete k hnext hk fun ⟨m, hm, hc⟩ => hfree ⟨m, List.mem_cons_of_mem _ hm, hc⟩

/-- From a boundary the scan goes on at a boundary, unless the text is over. Those it passes over
are strictly inside the match. -/
theorem exists_resume (hb : text.isBoundary i) (h : p.Parses fs text i found) :
    ∃ next, Parsed.resume? text i found = some next ∧
      (next ≤ text.byteLength → text.isBoundary next) ∧
      (∀ r ∈ found, r.lastIndex ≤ next) ∧
      ∀ k, i < k → k < next → text.isBoundary k → ∃ r ∈ found, k < r.lastIndex := by
  obtain ⟨next, hn⟩ := Text.exists_nextBoundary? hb
  cases found with
  | none =>
    refine ⟨next, hn, Text.isBoundary_nextBoundary? hn, by simp, fun k hik hk hkb => ?_⟩
    exact absurd hkb (Text.not_isBoundary_between hn hik hk)
  | some r =>
    obtain ⟨hlast, hle⟩ := bounds_of_parseStart h
    by_cases hlt : i < r.lastIndex
    · refine ⟨r.lastIndex, if_pos hlt, fun _ => hlast, by simp, fun k _ hk _ => ⟨r, rfl, hk⟩⟩
    · refine ⟨next, (if_neg hlt).trans hn, Text.isBoundary_nextBoundary? hn, ?_,
        fun k hik hk hkb => absurd hkb (Text.not_isBoundary_between hn hik hk)⟩
      have := Text.lt_of_nextBoundary? hn
      simp only [Option.mem_some_iff, forall_eq']
      omega

theorem foldMatchesFrom_past {env : Env α} {f : β → Parsed α → β} {acc : β}
    (h : text.byteLength < i) : (p.foldMatchesFrom env text f acc i).Gives (some acc) := by
  rw [foldMatchesFrom, dif_neg (Nat.not_le_of_lt h)]
  exact .pure acc

theorem foldMatchesFrom_gives {env : Env α} {f : β → Parsed α → β} {acc : β} {r : Option β}
    (hi : i ≤ text.byteLength) (hp : (p.parseStart env text i none).Gives (some found))
    (hn : Parsed.resume? text i found = some next)
    (hr : (p.foldMatchesFrom env text f (foldFound f acc i found) next).Gives r) :
    (p.foldMatchesFrom env text f acc i).Gives r := by
  rw [foldMatchesFrom, dif_pos hi]
  refine hp.bind ?_
  split
  · rename_i hnone
    rw [hn] at hnone
    cases hnone
  · rename_i next' hnext
    obtain rfl : next = next' := Option.some.inj (hn.symm.trans hnext)
    exact hr

end

/-! ## Whole scans -/

/-- A scan from a boundary comes to an end. What it folds are the matches that do not overlap. -/
theorem exists_enumerates (h : ∀ i, text.isBoundary i → ∃ r, p.Parses fs text i r) {base : Nat}
    (hbase : base ≤ text.byteLength → text.isBoundary base) :
    ∃ ms, p.Enumerates fs text base ms ∧ ∀ (β : Type) (f : β → Parsed α → β) (acc : β),
      Trial.Settles (fun fuel => p.foldMatchesFrom ⟨fs, fuel⟩ text f acc base)
        (some (ms.foldl f acc)) := by
  -- The scan makes headway: what is left of the text shrinks at every step.
  obtain ⟨n, hn⟩ : ∃ n, text.byteLength < base + n := ⟨text.byteLength + 1, by omega⟩
  induction n generalizing base with
  | zero =>
    exact ⟨[], enumerates_past hn, fun _ _ _ => ⟨0, fun _ _ => foldMatchesFrom_past hn⟩⟩
  | succ n ih =>
    by_cases hle : base ≤ text.byteLength
    case neg =>
      have hpast := Nat.lt_of_not_le hle
      exact ⟨[], enumerates_past hpast, fun _ _ _ => ⟨0, fun _ _ => foldMatchesFrom_past hpast⟩⟩
    obtain ⟨found, hfound⟩ := h base (hbase hle)
    obtain ⟨next, hnext, hbound, hlast, hgap⟩ := exists_resume (hbase hle) hfound
    have hlt := Parsed.lt_of_resume? hnext
    obtain ⟨ms, hms, hfold⟩ := ih hbound (by omega)
    obtain ⟨n₁, hn₁⟩ := hfound
    cases found with
    | none =>
      refine ⟨ms, hms.miss ⟨n₁, hn₁⟩ hlt fun k hik hk hkb => ?_, fun β f acc => ?_⟩
      · obtain ⟨r, hr, -⟩ := hgap k hik hk hkb
        cases hr
      · obtain ⟨n₂, hn₂⟩ := hfold β f acc
        exact ⟨max n₁ n₂, fun fuel hf =>
          foldMatchesFrom_gives hle (hn₁ fuel (by omega)) hnext (hn₂ fuel (by omega))⟩
    | some r =>
      refine ⟨_, hms.hit (hbase hle) ⟨n₁, hn₁⟩ hlt (hlast r rfl) fun k hik hk hkb => ?_,
        fun β f acc => ?_⟩
      · obtain ⟨r', hr', hk⟩ := hgap k hik hk hkb
        cases hr'
        exact hk
      · obtain ⟨n₂, hn₂⟩ := hfold β f (f acc { r with startIndex := some base })
        exact ⟨max n₁ n₂, fun fuel hf =>
          foldMatchesFrom_gives hle (hn₁ fuel (by omega)) hnext (hn₂ fuel (by omega))⟩

/-! ## The first match -/

theorem firstOf_none {is : List Nat} (h : ∀ i ∈ is, p.Parses fs text i none) :
    Trial.Settles (fun fuel => p.firstOf ⟨fs, fuel⟩ text none is) (some none) := by
  induction is with
  | nil => exact ⟨0, fun _ _ => .pure _⟩
  | cons i is ih =>
    obtain ⟨hi, his⟩ := List.forall_mem_cons.1 h
    obtain ⟨n, hn⟩ := hi
    obtain ⟨n', hn'⟩ := ih his
    exact ⟨max n n', fun fuel hf => (hn fuel (by omega)).bind (hn' fuel (by omega))⟩

/-- The offsets before the first match are tried in vain. -/
theorem firstOf_some {is is' : List Nat} {i : Nat} {r : Parsed α}
    (h : ∀ k ∈ is, p.Parses fs text k none) (hi : p.Parses fs text i (some r)) :
    Trial.Settles (fun fuel => p.firstOf ⟨fs, fuel⟩ text none (is ++ i :: is'))
      (some (some { r with startIndex := some i })) := by
  induction is with
  | nil =>
    obtain ⟨n, hn⟩ := hi
    exact ⟨n, fun fuel hf => (hn fuel hf).bind (.pure _)⟩
  | cons k is ih =>
    obtain ⟨hk, his⟩ := List.forall_mem_cons.1 h
    obtain ⟨n, hn⟩ := hk
    obtain ⟨n', hn'⟩ := ih his
    exact ⟨max n n', fun fuel hf => (hn fuel (by omega)).bind (hn' fuel (by omega))⟩

/-- The search for one match finds the first of all matches. -/
theorem Enumerates.parsePart {ms : List (Parsed α)} (h : p.Enumerates fs text 0 ms) :
    Trial.Settles (fun fuel => p.parsePart ⟨fs, fuel⟩ text none) (some ms.head?) := by
  suffices hs : Trial.Settles (fun fuel => p.firstOf ⟨fs, fuel⟩ text none text.boundaries)
      (some ms.head?) by
    obtain ⟨n, hn⟩ := hs
    exact ⟨n, fun fuel hf => (hn fuel hf).bind (.note_bind (.pure _))⟩
  cases ms with
  | nil =>
    refine firstOf_none fun i hi => ?_
    exact h.complete i (Nat.zero_le i) (Text.mem_boundaries.1 hi) (by simp)
  | cons m ms =>
    obtain ⟨i, r, -, hb, hi, rfl⟩ := h.parsed m List.mem_cons_self
    obtain ⟨is, is', hsplit⟩ := List.append_of_mem (Text.mem_boundaries.2 hb)
    rw [hsplit]
    refine firstOf_some (fun k hk => ?_) hi
    have hsorted := text.boundaries_sorted
    rw [hsplit] at hsorted
    have hki : k < i := (List.pairwise_append.1 hsorted).2.2 k hk i List.mem_cons_self
    have hkb : text.isBoundary k := by
      rw [← Text.mem_boundaries, hsplit]
      exact List.mem_append_left _ hk
    -- Every match starts at `i` or after it, so none covers what is before.
    refine h.complete k (Nat.zero_le k) hkb ?_
    rintro ⟨n, hn, s, hs, hcover⟩
    rcases List.mem_cons.1 hn with rfl | hn
    · cases hs
      omega
    · have := ((List.pairwise_cons.1 h.ordered).1 n hn i rfl s hs).1
      omega

/-- Where every parse at a boundary comes to an end, so does the scan. It reports the matches that
do not overlap, from the left; the first of them is what the search for one match finds, and folding
them is folding the list. -/
theorem parseAll_enumerates (h : ∀ i, text.isBoundary i → ∃ r, p.Parses fs text i r) :
    ∃ ms, p.Enumerates fs text 0 ms ∧
      Trial.Settles (fun fuel => p.parseAll ⟨fs, fuel⟩ text) (some ms) ∧
      Trial.Settles (fun fuel => p.parsePart ⟨fs, fuel⟩ text none) (some ms.head?) ∧
      ∀ (β : Type) (init : β) (f : β → Parsed α → β),
        Trial.Settles (fun fuel => p.foldMatches ⟨fs, fuel⟩ text init f)
          (some (ms.foldl f init)) := by
  obtain ⟨ms, hms, hfold⟩ := exists_enumerates h fun _ => Text.isBoundary_zero text
  refine ⟨ms, hms, ?_, hms.parsePart, fun β init f => hfold β f init⟩
  obtain ⟨n, hn⟩ := hfold _ (fun acc m => m :: acc) []
  refine ⟨n, fun fuel hf => ?_⟩
  have hall := hn fuel hf
  rw [List.foldl_flip_cons_eq_append', List.append_nil] at hall
  have hrev : (pure ms.reverse.reverse : Trial (Pattern α) α (List (Parsed α))).Gives (some ms) := by
    rw [List.reverse_reverse]
    exact .pure ms
  exact hall.bind (.note_bind hrev)

/-- Empty matches, one of them right after a match, and a character of two bytes. -/
theorem parseAll_enumerates_letters :
    ∃ ms, ((Grammar.empty.token (.literal ['a'])).zeroOrMore.program : Program Nat).Enumerates .empty
        "aéa".toList 0 ms ∧
      Trial.Settles (fun fuel => (Grammar.empty.token (.literal ['a'])).zeroOrMore.program.parsePart
        ⟨(.empty : Forwards Nat), fuel⟩ "aéa".toList none) (some ms.head?) := by
  let p : Program Nat := (Grammar.empty.token (.literal ['a'])).zeroOrMore.program
  have hends : ∀ i ∈ Text.boundaries "aéa".toList,
      (Pattern.find .empty "aéa".toList 12 (.program p) i none).outcome?.isSome := by
    decide +kernel
  have hparses : ∀ i, Text.isBoundary "aéa".toList i → ∃ r, p.Parses .empty "aéa".toList i r := by
    intro i hi
    obtain ⟨r, hr⟩ := Option.isSome_iff_exists.1 (hends i (Text.mem_boundaries.2 hi))
    have hanswers := Pattern.answers_program_iff.1 (Pattern.answers_of_outcome? 12 hr)
    exact ⟨_, parseStart_settles hanswers⟩
  obtain ⟨ms, hms, -, hpart, -⟩ := parseAll_enumerates hparses
  exact ⟨ms, hms, hpart⟩

end Program

end GrammarMachine
