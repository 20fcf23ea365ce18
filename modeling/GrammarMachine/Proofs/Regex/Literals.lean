import GrammarMachine.Grammar.Real
import GrammarMachine.Proofs.Regex.Runs

/-!
# Decimal literals in a text

The expression of decimal literals, tested where it stands, matches the longest literal there. Its
threads are followed from one kind of character to the next.

* `Real.literalAt`: the longest literal at the front of a text, given without threads.
* `Real.literalAt_isPrefix`: it stands at the front.
* `Real.find_literal`: it is what the expression finds.
-/

namespace GrammarMachine.Real

open Regex

/-! ## The longest literal -/

/-- A character in front of something, if there is something. -/
def behind (c : Char) : Text → Text
  | [] => []
  | u => c :: u

theorem behind_of_ne_nil {c : Char} {u : Text} (h : u ≠ []) : behind c u = c :: u := by
  cases u with
  | nil => exact absurd rfl h
  | cons => rfl

/-- The digits at the front. -/
def digitsAt (t : Text) : Text := t.takeWhile Char.isDigit

/-- The text behind the digits at the front. -/
def pastDigits (t : Text) : Text := t.dropWhile Char.isDigit

def isSign (c : Char) : Bool := c == '+' || c == '-'

def isMark (c : Char) : Bool := c == 'E' || c == 'e'

/-- Digits with or without a sign. -/
def signedDigitsAt : Text → Text
  | [] => []
  | c :: t => if isSign c then behind c (digitsAt t) else digitsAt (c :: t)

/-- An exponent: a mark, and digits with or without a sign. -/
def exponentAt : Text → Text
  | [] => []
  | c :: t => if isMark c then behind c (signedDigitsAt t) else []

/-- Digits, with an exponent behind if there is one. -/
def fractionAt (t : Text) : Text :=
  if digitsAt t = [] then [] else digitsAt t ++ exponentAt (pastDigits t)

/-- A point with a fraction behind. -/
def pointAt : Text → Text
  | [] => []
  | c :: t => if c = '.' then behind c (fractionAt t) else []

/-- A literal without a sign. -/
def numberAt (t : Text) : Text :=
  if digitsAt t = [] then pointAt t
  else digitsAt t ++ (if (pastDigits t).head? = some '.' then pointAt (pastDigits t)
    else exponentAt (pastDigits t))

/-- The longest literal at the front, with a sign allowed or not; empty if there is none. -/
def literalAt (signed : Bool) (t : Text) : Text :=
  match t with
  | [] => []
  | c :: t => if signed && isSign c then behind c (numberAt t) else numberAt (c :: t)

/-! ## Threads -/

/-- What remains behind an exponent. -/
private def exponentEnd : Rest := [.node (.loop exponent 0 (some 0) true)]

/-- What remains behind the digits of a bare fraction. -/
private def exponentRest : Rest := [.node (optional exponent)]

/-- What remains behind the digits of a fraction. -/
private def fractionEnd : Rest := .node (.loop fraction 0 (some 0) true) :: exponentRest

/-- What remains behind whole digits. -/
private def fractionRest : Rest := .node (optional fraction) :: exponentRest

private def digitThread (rest : Rest) : Thread :=
  ⟨.range '0' '9', .again (.char (.range '0' '9')) true :: rest, []⟩

private def pointThread (rest : Rest) : Thread := ⟨.range '.' '.', .node digits :: rest, []⟩

private def signSet : CharSet := .union (.range '+' '+') (.union (.range '-' '-') .empty)

private def markSet : CharSet := .union (.range 'e' 'e') (.union (.range 'E' 'E') .empty)

private def signThread (rest : Rest) : Thread :=
  ⟨signSet, .node (.loop (either '+' '-') 0 (some 0) true) :: rest, []⟩

private def markThread : Thread :=
  ⟨markSet, .node (.seq (optional (either '+' '-')) digits) :: exponentEnd, []⟩

/-- Following a remainder opens these threads; the flag says whether it accepts at once. -/
private def Opens (rest : Rest) (ts : List Thread) (accepts : Bool) : Prop :=
  ∀ p, (exploreRest p rest [] .empty).threads.reverse = ts ∧
    (exploreRest p rest [] .empty).accepted = if accepts then some [] else none

private theorem opens_exponent_digits :
    Opens (digitThread exponentEnd).rest [digitThread exponentEnd] true := fun _ => ⟨rfl, rfl⟩

private theorem opens_sign : Opens (signThread (.node digits :: exponentEnd)).rest
    [digitThread exponentEnd] false := fun _ => ⟨rfl, rfl⟩

private theorem opens_mark : Opens markThread.rest
    [signThread (.node digits :: exponentEnd), digitThread exponentEnd] false :=
  fun _ => ⟨rfl, rfl⟩

private theorem opens_bare_digits : Opens (digitThread exponentRest).rest
    [digitThread exponentRest, markThread] true := fun _ => ⟨rfl, rfl⟩

private theorem opens_fraction_digits : Opens (digitThread fractionEnd).rest
    [digitThread fractionEnd, markThread] true := fun _ => ⟨rfl, rfl⟩

private theorem opens_point (rest : Rest) :
    Opens (pointThread rest).rest [digitThread rest] false := by
  intro p
  exact ⟨rfl, rfl⟩

private theorem opens_whole_digits : Opens (digitThread fractionRest).rest
    [digitThread fractionRest, pointThread fractionEnd, markThread] true := fun _ => ⟨rfl, rfl⟩

/-! ## Sets -/

/-- An interval of one code point. -/
private theorem contains_singleton (c d : Char) :
    Interval.contains ⟨c.toNat, c.toNat⟩ d.toNat = (d == c) := by
  have hd : c.toNat ≤ d.toNat ∧ d.toNat ≤ c.toNat ↔ d = c :=
    ⟨fun h => Char.toNat_inj.1 (Nat.le_antisymm h.2 h.1),
      fun h => h ▸ ⟨Nat.le_refl _, Nat.le_refl _⟩⟩
  rw [Bool.eq_iff_iff, beq_iff_eq, ← hd]
  simp [Interval.contains]

private theorem contains_point (c : Char) : CharSet.contains (.range '.' '.') c = (c == '.') := by
  rw [← contains_singleton]
  exact Bool.or_false _

private theorem contains_signSet (c : Char) : signSet.contains c = isSign c := by
  rw [isSign, ← contains_singleton '+', ← contains_singleton '-',
    ← Bool.or_false (Interval.contains ⟨Char.toNat '-', _⟩ _)]
  rfl

private theorem contains_markSet (c : Char) : markSet.contains c = isMark c := by
  rw [isMark, ← contains_singleton 'E', ← contains_singleton 'e',
    ← Bool.or_false (Interval.contains ⟨Char.toNat 'e', _⟩ _)]
  rfl

/-! ## Walks -/

variable {start offset : Nat} {best : Option Span} {t : Text}

/-- A match of the text, if there is any of it, and otherwise the one that was there. -/
private def extend (start offset : Nat) (best : Option Span) (u : Text) : Option Span :=
  if u = [] then best else some ⟨start, offset + Text.byteLength u, []⟩

private theorem extend_cons (c : Char) (u : Text) :
    extend start (offset + c.utf8Size) (some ⟨start, offset + c.utf8Size, []⟩) u =
      extend start offset best (c :: u) := by
  rw [extend, extend, if_neg (List.cons_ne_nil _ _), Text.byteLength_cons, ← Nat.add_assoc]
  split
  · subst u
    rfl
  · rfl

private theorem extend_behind (c : Char) (u : Text) :
    extend start (offset + c.utf8Size) best u = extend start offset best (behind c u) := by
  cases u with
  | nil => rfl
  | cons d u =>
    rw [extend, if_neg (List.cons_ne_nil _ _), behind, extend, if_neg (List.cons_ne_nil _ _)]
    · rw [Text.byteLength_cons c, Nat.add_assoc]
    · exact List.cons_ne_nil _ _

/-- One thread goes on with the next character. -/
private theorem walk_cons {ts us : List Thread} {x : Thread} {accepts : Bool} {c : Char}
    (hone : ts.filter (·.set.contains c) = [x]) (hslots : x.slots = [])
    (hopens : Opens x.rest us accepts) :
    walk start ts best offset (c :: t) =
      walk start us (if accepts then some ⟨start, offset + c.utf8Size, []⟩ else best)
        (offset + c.utf8Size) t := by
  obtain ⟨hthreads, haccepted⟩ := hopens ⟨offset + c.utf8Size, some c, t.head?⟩
  have hts : ts.isEmpty = false := by
    cases ts with
    | nil => cases hone
    | cons => rfl
  rw [walk, hts]
  simp only [Bool.false_eq_true, if_false]
  rw [← List.foldl_filter, hone]
  simp only [List.foldl_cons, List.foldl_nil, hslots, hthreads, haccepted]
  cases accepts <;> rfl

/-- No thread goes on with the next character. -/
private theorem walk_stuck {ts : List Thread} {c : Char}
    (hnone : ts.filter (·.set.contains c) = []) : walk start ts best offset (c :: t) = best := by
  rw [walk]
  split
  · rfl
  · simp only
    rw [← List.foldl_filter, hnone]
    exact walk_nil _ _ _ _

/-- Only the threads that wait for the next character go on. -/
private theorem walk_filter (ts : List Thread) (c : Char) :
    walk start ts best offset (c :: t) =
      walk start (ts.filter (·.set.contains c)) best offset (c :: t) := by
  by_cases hnone : ts.filter (·.set.contains c) = []
  · rw [walk_stuck hnone, hnone, walk_nil]
  · have hts : ts ≠ [] := fun h => hnone (by rw [h]; rfl)
    rw [walk, walk, if_neg (by simpa using hts), if_neg (by simpa using hnone)]
    simp only [← List.foldl_filter, List.filter_filter, Bool.and_self]

private theorem filter_digitThread (rest : Rest) (ts : List Thread) (c : Char) :
    (digitThread rest :: ts).filter (·.set.contains c) =
      if c.isDigit then digitThread rest :: ts.filter (·.set.contains c)
      else ts.filter (·.set.contains c) := by
  rw [List.filter_cons, digitThread, contains_digits]

private theorem filter_pointThread (rest : Rest) (ts : List Thread) (c : Char) :
    (pointThread rest :: ts).filter (·.set.contains c) =
      if c = '.' then pointThread rest :: ts.filter (·.set.contains c)
      else ts.filter (·.set.contains c) := by
  rw [List.filter_cons, pointThread, contains_point]
  simp only [beq_iff_eq]

private theorem filter_signThread (rest : Rest) (ts : List Thread) (c : Char) :
    (signThread rest :: ts).filter (·.set.contains c) =
      if isSign c then signThread rest :: ts.filter (·.set.contains c)
      else ts.filter (·.set.contains c) := by
  rw [List.filter_cons, signThread, contains_signSet]

private theorem filter_markThread (ts : List Thread) (c : Char) :
    (markThread :: ts).filter (·.set.contains c) =
      if isMark c then markThread :: ts.filter (·.set.contains c)
      else ts.filter (·.set.contains c) := by
  rw [List.filter_cons, markThread, contains_markSet]

theorem not_isDigit_of_isSign {c : Char} (h : isSign c) : c.isDigit = false := by
  rw [isSign, Bool.or_eq_true, beq_iff_eq, beq_iff_eq] at h
  rcases h with rfl | rfl <;> rfl

theorem not_isDigit_of_isMark {c : Char} (h : isMark c) : c.isDigit = false := by
  rw [isMark, Bool.or_eq_true, beq_iff_eq, beq_iff_eq] at h
  rcases h with rfl | rfl <;> rfl

private theorem digitsAt_cons (c : Char) (t : Text) :
    digitsAt (c :: t) = if c.isDigit then c :: digitsAt t else [] := List.takeWhile_cons

private theorem pastDigits_cons (c : Char) (t : Text) :
    pastDigits (c :: t) = if c.isDigit then pastDigits t else c :: t := List.dropWhile_cons

/-- The digits of an exponent. -/
private theorem walk_exponent_digits :
    walk start [digitThread exponentEnd] best offset t = extend start offset best (digitsAt t) := by
  induction t generalizing best offset with
  | nil => rfl
  | cons c t ih =>
    rw [digitsAt_cons]
    by_cases hc : c.isDigit
    · rw [walk_cons (by rw [filter_digitThread, if_pos hc]; rfl) rfl opens_exponent_digits, ih,
        if_pos hc]
      exact extend_cons c _
    · rw [walk_stuck (by rw [filter_digitThread, if_neg hc]; rfl), if_neg hc]
      rfl

private theorem walk_signed_digits :
    walk start [signThread (.node digits :: exponentEnd), digitThread exponentEnd] best offset t =
      extend start offset best (signedDigitsAt t) := by
  cases t with
  | nil => rfl
  | cons c t =>
    rw [signedDigitsAt]
    by_cases hc : isSign c
    · rw [walk_cons (x := signThread (.node digits :: exponentEnd)) _ rfl opens_sign,
        walk_exponent_digits, if_pos hc]
      · exact extend_behind c _
      · rw [filter_signThread, if_pos hc, filter_digitThread, not_isDigit_of_isSign hc]
        rfl
    · rw [if_neg hc, ← walk_exponent_digits, walk_filter, filter_signThread, if_neg hc,
        ← walk_filter]

private theorem walk_exponent :
    walk start [markThread] best offset t = extend start offset best (exponentAt t) := by
  cases t with
  | nil => rfl
  | cons c t =>
    rw [exponentAt]
    by_cases hc : isMark c
    · rw [walk_cons (by rw [filter_markThread, if_pos hc]; rfl) rfl opens_mark, walk_signed_digits,
        if_pos hc]
      exact extend_behind c _
    · rw [walk_stuck (by rw [filter_markThread, if_neg hc]; rfl), if_neg hc]
      rfl

section

variable {rest : Rest}

/-- The digits of a fraction, and an exponent behind them. -/
private theorem walk_fraction_digits
    (hrest : Opens (digitThread rest).rest [digitThread rest, markThread] true) :
    walk start [digitThread rest, markThread] best offset t =
      extend start offset best (digitsAt t ++ exponentAt (pastDigits t)) := by
  induction t generalizing best offset with
  | nil => rfl
  | cons c t ih =>
    rw [digitsAt_cons, pastDigits_cons]
    by_cases hc : c.isDigit
    · have hmark : ¬ isMark c := fun h => by simp [not_isDigit_of_isMark h] at hc
      rw [walk_cons (x := digitThread rest) _ rfl hrest, ih, if_pos hc, if_pos hc]
      · exact extend_cons c _
      · rw [filter_digitThread, if_pos hc, filter_markThread, if_neg hmark]
        rfl
    · rw [if_neg hc, if_neg hc, List.nil_append, ← walk_exponent, walk_filter, filter_digitThread,
        if_neg hc, ← walk_filter]

private theorem walk_fraction
    (hrest : Opens (digitThread rest).rest [digitThread rest, markThread] true) :
    walk start [digitThread rest] best offset t = extend start offset best (fractionAt t) := by
  cases t with
  | nil => rfl
  | cons c t =>
    rw [fractionAt, digitsAt_cons, pastDigits_cons]
    by_cases hc : c.isDigit
    · rw [walk_cons (by rw [filter_digitThread, if_pos hc]; rfl) rfl hrest,
        walk_fraction_digits hrest, if_pos hc, if_pos hc, if_neg (List.cons_ne_nil _ _)]
      exact extend_cons c _
    · rw [walk_stuck (by rw [filter_digitThread, if_neg hc]; rfl), if_neg hc, if_pos rfl]
      rfl

private theorem walk_point
    (hrest : Opens (digitThread rest).rest [digitThread rest, markThread] true) :
    walk start [pointThread rest] best offset t = extend start offset best (pointAt t) := by
  cases t with
  | nil => rfl
  | cons c t =>
    rw [pointAt]
    by_cases hc : c = '.'
    · rw [walk_cons (by rw [filter_pointThread, if_pos hc]; rfl) rfl (opens_point rest),
        walk_fraction hrest, if_pos hc]
      exact extend_behind c _
    · rw [walk_stuck (by rw [filter_pointThread, if_neg hc]; rfl), if_neg hc]
      rfl

end

/-- What stands behind the whole digits of a literal. -/
private def pastWhole (t : Text) : Text := if t.head? = some '.' then pointAt t else exponentAt t

private theorem walk_whole_digits :
    walk start [digitThread fractionRest, pointThread fractionEnd, markThread] best offset t =
      extend start offset best (digitsAt t ++ pastWhole (pastDigits t)) := by
  induction t generalizing best offset with
  | nil => rfl
  | cons c t ih =>
    rw [digitsAt_cons, pastDigits_cons]
    by_cases hc : c.isDigit
    · have hmark : ¬ isMark c := fun h => by simp [not_isDigit_of_isMark h] at hc
      have hpoint : c ≠ '.' := fun h => by simp [h] at hc
      rw [walk_cons (x := digitThread fractionRest) _ rfl opens_whole_digits, ih, if_pos hc,
        if_pos hc]
      · exact extend_cons c _
      · rw [filter_digitThread, if_pos hc, filter_pointThread, if_neg hpoint, filter_markThread,
          if_neg hmark]
        rfl
    · rw [if_neg hc, if_neg hc, List.nil_append, walk_filter, filter_digitThread, if_neg hc,
        filter_pointThread, pastWhole, List.head?_cons]
      by_cases hpoint : c = '.'
      · subst hpoint
        rw [if_pos rfl, if_pos rfl, ← walk_point opens_fraction_digits]
        rfl
      · rw [if_neg hpoint, if_neg (by simpa using hpoint), ← walk_exponent, ← walk_filter]

private theorem walk_number :
    walk start [digitThread fractionRest, pointThread exponentRest] best offset t =
      extend start offset best (numberAt t) := by
  cases t with
  | nil => rfl
  | cons c t =>
    rw [numberAt, digitsAt_cons, pastDigits_cons]
    by_cases hc : c.isDigit
    · have hpoint : c ≠ '.' := fun h => by simp [h] at hc
      rw [walk_cons (x := digitThread fractionRest) _ rfl opens_whole_digits, walk_whole_digits,
        if_pos hc, if_pos hc, if_neg (List.cons_ne_nil _ _)]
      · exact extend_cons c _
      · rw [filter_digitThread, if_pos hc, filter_pointThread, if_neg hpoint]
        rfl
    · rw [if_neg hc, if_pos rfl, ← walk_point opens_bare_digits, walk_filter, filter_digitThread,
        if_neg hc, ← walk_filter]

/-- A literal without a sign, and one with or without. -/
private def startThreads : Bool → List Thread
  | false => [digitThread fractionRest, pointThread exponentRest]
  | true =>
    [signThread [.node (.seq magnitude (optional exponent))], digitThread fractionRest,
      pointThread exponentRest]

private theorem opens_signed : Opens (signThread [.node (.seq magnitude (optional exponent))]).rest
    (startThreads false) false := fun _ => ⟨rfl, rfl⟩

private theorem walk_literal (signed : Bool) :
    walk start (startThreads signed) best offset t =
      extend start offset best (literalAt signed t) := by
  cases t with
  | nil => cases signed <;> rfl
  | cons c t =>
    cases signed with
    | false => exact walk_number
    | true =>
      rw [literalAt, Bool.true_and]
      by_cases hc : isSign c
      · have hpoint : c ≠ '.' := fun h => by simp [h, isSign] at hc
        rw [startThreads, walk_cons
          (x := signThread [.node (.seq magnitude (optional exponent))]) _ rfl opens_signed,
          startThreads, walk_number, if_pos hc]
        · exact extend_behind c _
        · rw [filter_signThread, if_pos hc, filter_digitThread, not_isDigit_of_isSign hc,
            filter_pointThread, if_neg hpoint]
          rfl
      · rw [if_neg hc, ← walk_number, walk_filter, startThreads, filter_signThread, if_neg hc,
          ← walk_filter]

private theorem exploreRest_literal (signed : Bool) (after : Option Char) :
    (exploreRest ⟨0, none, after⟩ [.node (literal signed)] [] .empty).threads.reverse =
        startThreads signed ∧
      (exploreRest ⟨0, none, after⟩ [.node (literal signed)] [] .empty).accepted = none := by
  cases signed <;> exact ⟨rfl, rfl⟩

/-! ## What is found -/

theorem behind_isPrefix {c : Char} {u : Text} (h : u <+: t) : behind c u <+: c :: t := by
  cases u with
  | nil => exact List.nil_prefix
  | cons d u => exact List.cons_prefix_cons.2 ⟨rfl, h⟩

theorem digitsAt_isPrefix (t : Text) : digitsAt t <+: t := List.takeWhile_prefix _

theorem digitsAt_append_pastDigits (t : Text) : digitsAt t ++ pastDigits t = t :=
  List.takeWhile_append_dropWhile

/-- What follows the digits at the front. -/
theorem append_isPrefix {u : Text} (h : u <+: pastDigits t) : digitsAt t ++ u <+: t := by
  have happend := (List.prefix_append_right_inj (digitsAt t)).2 h
  rwa [digitsAt_append_pastDigits] at happend

theorem signedDigitsAt_isPrefix (t : Text) : signedDigitsAt t <+: t := by
  cases t with
  | nil => exact List.nil_prefix
  | cons c t =>
    rw [signedDigitsAt]
    split
    · exact behind_isPrefix (digitsAt_isPrefix t)
    · exact digitsAt_isPrefix _

theorem exponentAt_isPrefix (t : Text) : exponentAt t <+: t := by
  cases t with
  | nil => exact List.nil_prefix
  | cons c t =>
    rw [exponentAt]
    split
    · exact behind_isPrefix (signedDigitsAt_isPrefix t)
    · exact List.nil_prefix

theorem fractionAt_isPrefix (t : Text) : fractionAt t <+: t := by
  rw [fractionAt]
  split
  · exact List.nil_prefix
  · exact append_isPrefix (exponentAt_isPrefix _)

theorem pointAt_isPrefix (t : Text) : pointAt t <+: t := by
  cases t with
  | nil => exact List.nil_prefix
  | cons c t =>
    rw [pointAt]
    split
    · exact behind_isPrefix (fractionAt_isPrefix t)
    · exact List.nil_prefix

theorem numberAt_isPrefix (t : Text) : numberAt t <+: t := by
  rw [numberAt]
  split
  · exact pointAt_isPrefix t
  · split
    · exact append_isPrefix (pointAt_isPrefix _)
    · exact append_isPrefix (exponentAt_isPrefix _)

/-- The longest literal stands at the front. -/
theorem literalAt_isPrefix (signed : Bool) (t : Text) : literalAt signed t <+: t := by
  cases t with
  | nil => exact List.nil_prefix
  | cons c t =>
    rw [literalAt]
    split
    · exact behind_isPrefix (numberAt_isPrefix t)
    · exact numberAt_isPrefix _

/-- The expression of decimal literals finds the longest one. -/
theorem find_literal (signed : Bool) (t : Text) :
    (regex signed).find t =
      if literalAt signed t = [] then none
      else some ⟨0, Text.byteLength (literalAt signed t), [some (literalAt signed t)]⟩ := by
  have hanchored : (literal signed).isAnchored = true := by cases signed <;> rfl
  have hgroups : (literal signed).groupCount = 0 := by cases signed <;> rfl
  obtain ⟨hthreads, haccepted⟩ := exploreRest_literal signed t.head?
  obtain ⟨v, hv⟩ := literalAt_isPrefix signed t
  have hslice : t.slice? 0 (Text.byteLength (literalAt signed t)) = some (literalAt signed t) := by
    have h := Text.slice?_append [] (literalAt signed t) v
    rwa [List.nil_append, hv, Text.byteLength_nil, Nat.zero_add] at h
  simp only [find, regex, Engine.standard_find, search, hanchored, if_true, matchAt, hgroups,
    Nat.mul_zero, List.replicate_zero, hthreads, haccepted, Option.map_none, walk_literal, extend,
    Nat.zero_add]
  split
  · rfl
  · simp only [Option.map_some, Span.found, hslice, slotText]

end GrammarMachine.Real
