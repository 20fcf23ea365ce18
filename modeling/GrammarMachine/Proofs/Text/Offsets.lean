import GrammarMachine.Text.Basic

/-!
# Boundaries and slices

* `Text.exists_slice?`: what lies between two boundaries can be sliced.
* `Text.slice?_eq_some`: a slice splits the text into three.
* `Text.from?_add`: what follows a boundary further on.
* `Text.isBoundary_nextBoundary?`, `Text.not_isBoundary_between`: from a boundary to the next.
* `Text.boundaries_sorted`: the boundaries are listed in order.
-/

namespace GrammarMachine.Text

variable {t r u v : Text} {i j : Nat}

theorem byteLength_eq_zero : byteLength t = 0 ↔ t = [] := by
  cases t with
  | nil => simp
  | cons c t =>
    have := c.utf8Size_pos
    simp only [byteLength_cons, reduceCtorEq, iff_false]
    omega

theorem byteLength_replicate (n : Nat) {c : Char} (hc : c.utf8Size = 1) :
    byteLength (List.replicate n c) = n := by
  induction n with
  | zero => rfl
  | succ n ih => rw [List.replicate_succ, byteLength_cons, ih, hc, Nat.add_comm]

theorem isBoundary_of_from? (h : t.from? i = some r) : t.isBoundary i := by
  simp [isBoundary, h]

@[simp] theorem isBoundary_zero (t : Text) : t.isBoundary 0 := by simp [isBoundary]

@[simp] theorem isBoundary_byteLength (t : Text) : t.isBoundary t.byteLength :=
  isBoundary_iff.2 ⟨t, [], by simp, rfl⟩

theorem le_byteLength_of_isBoundary (h : t.isBoundary i) : i ≤ t.byteLength := by
  obtain ⟨s, r, rfl, rfl⟩ := isBoundary_iff.1 h
  simp

/-- What follows a boundary further on. -/
theorem from?_add (h : t.from? i = some (u ++ v)) : t.from? (i + byteLength u) = some v := by
  obtain ⟨s, rfl, rfl⟩ := from?_eq_some_iff.1 h
  rw [← List.append_assoc, ← byteLength_append]
  exact from?_append _ _

/-- What follows a boundary can be sliced off. -/
theorem slice?_of_from? (h : t.from? i = some (u ++ v)) :
    t.slice? i (i + byteLength u) = some u := by
  obtain ⟨s, rfl, rfl⟩ := from?_eq_some_iff.1 h
  exact slice?_append s u v

/-- What lies before an offset is found again in front of it. -/
theorem upTo?_eq_some (h : t.upTo? i = some u) : ∃ v, t = u ++ v ∧ byteLength u = i := by
  induction t generalizing i u with
  | nil =>
    cases i with
    | zero => exact ⟨[], by simpa [upTo?] using h, by simp_all [upTo?]⟩
    | succ n => simp [upTo?] at h
  | cons c t ih =>
    cases i with
    | zero => exact ⟨c :: t, by simp_all [upTo?], by simp_all [upTo?]⟩
    | succ n =>
      rw [upTo?] at h
      split at h
      · simp at h
      · obtain ⟨w, hw, rfl⟩ := Option.map_eq_some_iff.1 h
        obtain ⟨v, rfl, hv⟩ := ih hw
        exact ⟨v, rfl, by rw [byteLength_cons]; omega⟩

/-- A slice splits the text into what precedes it, itself and what follows it. -/
theorem slice?_eq_some (h : t.slice? i j = some u) :
    ∃ s v, t = s ++ (u ++ v) ∧ byteLength s = i ∧ i + byteLength u = j := by
  rw [slice?] at h
  split at h
  · rename_i hij
    obtain ⟨r, hr, hu⟩ := Option.bind_eq_some_iff.1 h
    obtain ⟨s, rfl, rfl⟩ := from?_eq_some_iff.1 hr
    obtain ⟨v, rfl, hv⟩ := upTo?_eq_some hu
    exact ⟨s, v, rfl, rfl, by omega⟩
  · cases h

theorem isBoundary_of_slice? (h : t.slice? i j = some u) : t.isBoundary i ∧ t.isBoundary j := by
  obtain ⟨s, v, rfl, rfl, rfl⟩ := slice?_eq_some h
  refine ⟨isBoundary_iff.2 ⟨s, u ++ v, rfl, rfl⟩, isBoundary_iff.2 ⟨s ++ u, v, ?_, ?_⟩⟩
  · rw [List.append_assoc]
  · rw [byteLength_append]

theorem le_of_slice? (h : t.slice? i j = some u) : i ≤ j := by
  obtain ⟨s, v, -, -, rfl⟩ := slice?_eq_some h
  exact Nat.le_add_right _ _

/-- No run follows a run. -/
theorem takeWhile_dropWhile_eq_nil (p : Char → Bool) (t : Text) :
    (t.dropWhile p).takeWhile p = [] := by
  induction t with
  | nil => rfl
  | cons c t ih =>
    by_cases hc : p c
    · rwa [List.dropWhile_cons_of_pos hc]
    · rw [List.dropWhile_cons_of_neg hc, List.takeWhile_cons_of_neg hc]

/-- What a text begins with is sliced off. -/
theorem slice?_takeWhile (p : Char → Bool) (t : Text) :
    t.slice? 0 (byteLength (t.takeWhile p)) = some (t.takeWhile p) := by
  have h := slice?_append [] (t.takeWhile p) (t.dropWhile p)
  rwa [List.nil_append, List.takeWhile_append_dropWhile, byteLength_nil, Nat.zero_add] at h

/-- What lies between two boundaries can be sliced. -/
theorem exists_slice? (hi : t.isBoundary i) (hj : t.isBoundary j) (hij : i ≤ j) :
    ∃ u, t.slice? i j = some u := by
  obtain ⟨s, r, rfl, rfl⟩ := isBoundary_iff.1 hi
  obtain ⟨s', r', h, rfl⟩ := isBoundary_iff.1 hj
  rcases List.append_eq_append_iff.1 h with ⟨u, rfl, rfl⟩ | ⟨u, rfl, rfl⟩
  · exact ⟨u, by rw [byteLength_append]; exact slice?_append s u r'⟩
  · rw [byteLength_append] at hij ⊢
    obtain rfl := byteLength_eq_zero.1 (by omega : byteLength u = 0)
    exact ⟨[], by simpa using slice?_append s' [] r⟩

/-- What lies between two offsets is what follows the first and not the second. -/
theorem exists_slice?_of_from? (hi : t.from? i = some r) (hj : t.from? j = some v) (hij : i ≤ j) :
    ∃ u, t.slice? i j = some u ∧ r = u ++ v ∧ j = i + byteLength u := by
  obtain ⟨u, hu⟩ := exists_slice? (isBoundary_of_from? hi) (isBoundary_of_from? hj) hij
  obtain ⟨s, w, rfl, rfl, rfl⟩ := slice?_eq_some hu
  obtain rfl := Option.some.inj ((from?_append s _).symm.trans hi)
  obtain rfl := Option.some.inj ((from?_add hi).symm.trans hj)
  exact ⟨u, hu, rfl, rfl⟩

/-! ## From a boundary to the next -/

theorem exists_nextBoundary? (h : t.isBoundary i) : ∃ j, t.nextBoundary? i = some j := by
  obtain ⟨r, hr⟩ := Option.isSome_iff_exists.1 h
  exact ⟨_, congrArg (Option.map _) hr⟩

/-- What comes next is a boundary, unless the text is over. -/
theorem isBoundary_nextBoundary? (h : t.nextBoundary? i = some j) (hj : j ≤ t.byteLength) :
    t.isBoundary j := by
  obtain ⟨r, hr, rfl⟩ := Option.map_eq_some_iff.1 h
  cases r with
  | nil =>
    obtain ⟨s, rfl, rfl⟩ := from?_eq_some_iff.1 hr
    rw [List.append_nil] at hj
    exact absurd hj (Nat.not_succ_le_self _)
  | cons c r => exact isBoundary_of_from? (from?_add (u := [c]) hr)

/-- No boundary lies between a boundary and the next. -/
theorem not_isBoundary_between (h : t.nextBoundary? i = some j) {k : Nat} (hik : i < k)
    (hkj : k < j) : ¬ t.isBoundary k := by
  intro hk
  obtain ⟨r, hr, rfl⟩ := Option.map_eq_some_iff.1 h
  obtain ⟨u, hu⟩ := exists_slice? (isBoundary_of_from? hr) hk (Nat.le_of_lt hik)
  obtain ⟨s, v, rfl, rfl, rfl⟩ := slice?_eq_some hu
  obtain rfl : u ++ v = r := Option.some.inj ((from?_append s (u ++ v)).symm.trans hr)
  cases u with
  | nil => simp at hik
  | cons c u =>
    simp only [List.cons_append, byteLength_cons] at hkj
    omega

/-- The boundaries are listed in order. -/
theorem boundaries_sorted (t : Text) : t.boundaries.Pairwise (· < ·) := by
  suffices h : ∀ base, (boundariesFrom base t).Pairwise (· < ·) from h 0
  intro base
  induction t generalizing base with
  | nil => simp [boundariesFrom]
  | cons c t ih =>
    refine List.pairwise_cons.2 ⟨fun j hj => ?_, ih _⟩
    have hc := c.utf8Size_pos
    obtain ⟨s, r, -, rfl⟩ := mem_boundariesFrom.1 hj
    omega

end GrammarMachine.Text
