/-!
# Texts and byte offsets

A text is the list of its characters. Offsets count bytes of its UTF-8 form, so a character occupies
one to four offsets, and an offset may fall inside a character or past the end.

* `Text.from?` gives what follows an offset, and nothing for an offset that is no boundary.
* `Text.slice?` gives what lies between two boundaries.
* `Text.boundaries` lists the boundaries; `Text.nextBoundary?` steps from one to the next.
* `Text.from?_eq_some_iff` and `Text.isBoundary_iff`: an offset is a boundary if it is the byte
  length of a prefix.
-/

namespace GrammarMachine

/-- A text, as its sequence of characters. -/
abbrev Text := List Char

namespace Text

/-- The number of bytes of the UTF-8 form. -/
def byteLength : Text → Nat
  | [] => 0
  | c :: t => c.utf8Size + byteLength t

/-- The characters of the text, each with its offset, counted from `base`. -/
def charIndicesFrom (base : Nat) : Text → List (Nat × Char)
  | [] => []
  | c :: t => (base, c) :: charIndicesFrom (base + c.utf8Size) t

/-- The characters of the text, each with its offset. -/
def charIndices (t : Text) : List (Nat × Char) := charIndicesFrom 0 t

/-- What follows the byte offset; absent past the end and inside a character. -/
def from? : Text → Nat → Option Text
  | t, 0 => some t
  | [], _ + 1 => none
  | c :: t, n + 1 => if n + 1 < c.utf8Size then none else from? t (n + 1 - c.utf8Size)

/-- The prefix of exactly that many bytes; absent past the end and inside a character. -/
def upTo? : Text → Nat → Option Text
  | _, 0 => some []
  | [], _ + 1 => none
  | c :: t, n + 1 =>
    if n + 1 < c.utf8Size then none else (upTo? t (n + 1 - c.utf8Size)).map (c :: ·)

/-- What lies between two offsets; absent unless both are boundaries, in this order. -/
def slice? (t : Text) (start stop : Nat) : Option Text :=
  if start ≤ stop then (t.from? start).bind (upTo? · (stop - start)) else none

/-- Whether the offset lies between two characters or at an end of the text. -/
def isBoundary (t : Text) (i : Nat) : Bool := (t.from? i).isSome

/-- The boundaries of the text in order, its end included, counted from `base`. -/
def boundariesFrom (base : Nat) : Text → List Nat
  | [] => [base]
  | c :: t => base :: boundariesFrom (base + c.utf8Size) t

/-- The boundaries of the text in order, its end included. -/
def boundaries (t : Text) : List Nat := boundariesFrom 0 t

/-- The offset after the character at `i`, or one past the end of the text if `i` is its end; absent
where `i` is no boundary. -/
def nextBoundary? (t : Text) (i : Nat) : Option Nat :=
  (t.from? i).map fun
    | c :: _ => i + c.utf8Size
    | [] => i + 1

@[simp] theorem byteLength_nil : byteLength [] = 0 := rfl

@[simp] theorem byteLength_cons (c : Char) (t : Text) :
    byteLength (c :: t) = c.utf8Size + byteLength t := rfl

@[simp] theorem byteLength_append (s t : Text) :
    byteLength (s ++ t) = byteLength s + byteLength t := by
  induction s with
  | nil => simp
  | cons c s ih => simp [ih, Nat.add_assoc]

@[simp] theorem from?_zero (t : Text) : from? t 0 = some t := by
  cases t <;> rfl

/-- What follows a prefix is found at the prefix's byte length. -/
theorem from?_append (s t : Text) : from? (s ++ t) (byteLength s) = some t := by
  induction s with
  | nil => simp
  | cons c s ih =>
    obtain ⟨n, hn⟩ : ∃ n, c.utf8Size = n + 1 := ⟨c.utf8Size - 1, by have := c.utf8Size_pos; omega⟩
    have hs : c.utf8Size + byteLength s = (n + byteLength s) + 1 := by omega
    simp only [List.cons_append, byteLength_cons, hs, from?]
    rw [if_neg (by omega), show n + byteLength s + 1 - c.utf8Size = byteLength s by omega]
    exact ih

theorem upTo?_append (s t : Text) : upTo? (s ++ t) (byteLength s) = some s := by
  induction s with
  | nil => cases t <;> rfl
  | cons c s ih =>
    have hc := c.utf8Size_pos
    obtain ⟨n, hn⟩ : ∃ n, byteLength (c :: s) = n + 1 :=
      ⟨byteLength (c :: s) - 1, by rw [byteLength_cons]; omega⟩
    have hs : n + 1 - c.utf8Size = byteLength s := by rw [byteLength_cons] at hn; omega
    rw [hn, List.cons_append, upTo?, if_neg (by rw [byteLength_cons] at hn; omega), hs, ih]
    rfl

/-- What follows an offset is a suffix, and the offset is the byte length of what precedes it. -/
theorem from?_eq_some_iff {t r : Text} {i : Nat} :
    from? t i = some r ↔ ∃ s, t = s ++ r ∧ byteLength s = i := by
  constructor
  · intro h
    induction t generalizing i with
    | nil =>
      cases i with
      | zero => exact ⟨[], by simpa [from?] using h, rfl⟩
      | succ n => simp [from?] at h
    | cons c t ih =>
      cases i with
      | zero => exact ⟨[], by simpa [from?] using h, rfl⟩
      | succ n =>
        rw [from?] at h
        split at h
        · simp at h
        · obtain ⟨s, rfl, hs⟩ := ih h
          exact ⟨c :: s, rfl, by rw [byteLength_cons]; omega⟩
  · rintro ⟨s, rfl, rfl⟩
    exact from?_append s r

/-- A boundary splits the text. -/
theorem isBoundary_iff {t : Text} {i : Nat} :
    t.isBoundary i ↔ ∃ s r, t = s ++ r ∧ byteLength s = i := by
  simp only [isBoundary, Option.isSome_iff_exists, from?_eq_some_iff]
  exact ⟨fun ⟨r, s, h⟩ => ⟨s, r, h⟩, fun ⟨s, r, h⟩ => ⟨r, s, h⟩⟩

/-- The text between the byte lengths of two prefixes is what the longer one adds. -/
theorem slice?_append (s m r : Text) :
    slice? (s ++ (m ++ r)) (byteLength s) (byteLength s + byteLength m) = some m := by
  rw [slice?, if_pos (Nat.le_add_right _ _), from?_append, Nat.add_sub_cancel_left]
  exact upTo?_append m r

theorem mem_boundariesFrom {t : Text} {base i : Nat} :
    i ∈ boundariesFrom base t ↔ ∃ s r, t = s ++ r ∧ base + byteLength s = i := by
  induction t generalizing base with
  | nil => simp [boundariesFrom, eq_comm]
  | cons c t ih =>
    rw [boundariesFrom, List.mem_cons, ih]
    constructor
    · rintro (rfl | ⟨s, r, rfl, rfl⟩)
      · exact ⟨[], c :: t, rfl, rfl⟩
      · exact ⟨c :: s, r, rfl, by rw [byteLength_cons]; omega⟩
    · rintro ⟨s, r, h, rfl⟩
      cases s with
      | nil => exact .inl rfl
      | cons d s =>
        obtain ⟨rfl, rfl⟩ := List.cons.inj h
        exact .inr ⟨s, r, rfl, by rw [byteLength_cons]; omega⟩

@[simp] theorem mem_boundaries {t : Text} {i : Nat} : i ∈ t.boundaries ↔ t.isBoundary i := by
  simp [boundaries, mem_boundariesFrom, isBoundary_iff]

theorem lt_of_nextBoundary? {t : Text} {i j : Nat} (h : t.nextBoundary? i = some j) : i < j := by
  obtain ⟨r, -, rfl⟩ := Option.map_eq_some_iff.1 h
  cases r with
  | nil => exact Nat.lt_succ_self i
  | cons c r =>
    have := c.utf8Size_pos
    dsimp only
    omega

end Text

end GrammarMachine
