import GrammarMachine.Decimal.Reading
import GrammarMachine.Proofs.Regex.Literals

/-!
# Decimal numerals

A numeral is an unsigned decimal literal in its parts. Its text is what is written, its value the
nearest float.

* `Numeral.readFloat?_text`: the text of a numeral is read as its value.
* `Numeral.numberAt_append`: in a text the longest literal is the numeral at the front, unless what
  follows goes on with it.
* `Numeral.exists_of_numberAt`: the longest literal at the front of a text is a numeral.
-/

namespace GrammarMachine

open GrammarMachine.Real

/-- An exponent: a mark, perhaps a sign, and digits. -/
structure Exponent where
  mark : Char
  sign : Option Char
  digits : Text
  isMark_mark : isMark mark
  isSign_sign : ∀ c ∈ sign, isSign c
  digits_ne_nil : digits ≠ []
  isDigit_digits : ∀ d ∈ digits, d.isDigit

/-- A decimal numeral: digits, and digits behind a point, one of them at least; perhaps an
exponent. -/
structure Numeral where
  whole : Text
  fraction : Text
  exponent : Option Exponent
  ne_nil : whole ≠ [] ∨ fraction ≠ []
  isDigit_whole : ∀ d ∈ whole, d.isDigit
  isDigit_fraction : ∀ d ∈ fraction, d.isDigit

namespace Exponent

def text (e : Exponent) : Text := e.mark :: (e.sign.toList ++ e.digits)

def value (e : Exponent) : Int :=
  if e.sign = some '-' then -Decimal.ofDigits e.digits else Decimal.ofDigits e.digits

end Exponent

namespace Numeral

/-- The text of the exponent; empty if there is none. -/
def exponentText (n : Numeral) : Text := (n.exponent.map Exponent.text).getD []

/-- The power of ten that the exponent stands for. -/
def exponentValue (n : Numeral) : Int := (n.exponent.map Exponent.value).getD 0

/-- The point and the digits behind it; empty if there are none. -/
def fractionText (n : Numeral) : Text := behind '.' n.fraction

def text (n : Numeral) : Text := n.whole ++ (n.fractionText ++ n.exponentText)

/-- The float that is nearest to the number. -/
def value (n : Numeral) : Float :=
  Decimal.nearestFloat (Decimal.ofDigits (n.whole ++ n.fraction))
    (n.exponentValue - n.fraction.length)

end Numeral

/-! ## Digits -/

/-- No digit stands at the front. -/
def StopsDigits (t : Text) : Prop := ∀ c, t.head? = some c → c.isDigit = false

theorem takeWhile_isDigit_append {u t : Text} (hu : ∀ d ∈ u, d.isDigit) (ht : StopsDigits t) :
    (u ++ t).takeWhile Char.isDigit = u := by
  rw [List.takeWhile_append_of_pos hu]
  cases t with
  | nil => rw [List.takeWhile_nil, List.append_nil]
  | cons c t => rw [List.takeWhile_cons, ht c rfl, if_neg Bool.false_ne_true, List.append_nil]

theorem dropWhile_isDigit_append {ds t : Text} (hds : ∀ d ∈ ds, d.isDigit) (ht : StopsDigits t) :
    (ds ++ t).dropWhile Char.isDigit = t := by
  rw [List.dropWhile_append_of_pos hds]
  cases t with
  | nil => rfl
  | cons c t => rw [List.dropWhile_cons, ht c rfl, if_neg Bool.false_ne_true]

/-- Digits go on as long as digits follow. -/
theorem digitsAt_append {ds t : Text} (hds : ∀ d ∈ ds, d.isDigit) :
    digitsAt (ds ++ t) = ds ++ digitsAt t := List.takeWhile_append_of_pos hds

theorem pastDigits_append {ds t : Text} (hds : ∀ d ∈ ds, d.isDigit) :
    pastDigits (ds ++ t) = pastDigits t := List.dropWhile_append_of_pos hds

theorem isDigit_digitsAt (t : Text) : ∀ d ∈ digitsAt t, d.isDigit :=
  List.all_eq_true.1 List.all_takeWhile

/-- Digits with or without a sign, if any are found. -/
theorem signedDigitsAt_eq (t : Text) : signedDigitsAt t = [] ∨ ∃ (sign : Option Char) (ds : Text),
    (∀ c ∈ sign, isSign c) ∧ ds ≠ [] ∧ (∀ d ∈ ds, d.isDigit) ∧
      signedDigitsAt t = sign.toList ++ ds := by
  cases t with
  | nil => exact .inl rfl
  | cons c t =>
    rw [signedDigitsAt]
    split
    · rename_i hsign
      by_cases hnil : digitsAt t = []
      · exact .inl (by rw [hnil]; rfl)
      · refine .inr ⟨some c, digitsAt t, ?_, hnil, isDigit_digitsAt t, behind_of_ne_nil hnil⟩
        rintro _ ⟨⟩
        exact hsign
    · by_cases hnil : digitsAt (c :: t) = []
      · exact .inl hnil
      · exact .inr ⟨none, _, by simp, hnil, isDigit_digitsAt _, rfl⟩

theorem stopsDigits_nil : StopsDigits [] := fun _ h => nomatch h

theorem readNat?_of_isDigit {ds : Text} (hne : ds ≠ []) (hds : ∀ d ∈ ds, d.isDigit) :
    Decimal.readNat? ds = some (Decimal.ofDigits ds) := by
  have hall : ds.all Char.isDigit = true := List.all_eq_true.2 hds
  have hempty : ds.isEmpty = false := by simpa using hne
  rw [Decimal.readNat?, hall, hempty]
  rfl

/-- A text that begins with a digit or a point has no sign. -/
theorem sign_of_isDigit {c : Char} (h : c.isDigit ∨ c = '.') (t : Text) :
    Decimal.sign (c :: t) = (false, c :: t) := by
  have hminus : c ≠ '-' := by
    rintro rfl
    rcases h with h | h <;> cases h
  have hplus : c ≠ '+' := by
    rintro rfl
    rcases h with h | h <;> cases h
  simp only [Decimal.sign, List.cons.injEq, hminus, hplus, false_and, imp_self, implies_true]

/-- A text that begins with a digit or a point is no word. -/
theorem readMagnitude?_of_isDigit {c : Char} (h : c.isDigit ∨ c = '.') (t : Text) :
    Decimal.readMagnitude? (c :: t) = (Decimal.readScientific? (c :: t)).map fun (m, e) =>
      Decimal.nearestFloat m e := by
  have hlower : c.toLower = c := by
    refine dif_neg fun hupper => ?_
    rcases h with h | rfl
    · have hdigit := decide_eq_true_iff.1 (Bool.and_eq_true_iff.1 h).2
      exact absurd (UInt32.le_trans hupper.1 hdigit) (by decide)
    · exact absurd hupper.1 (by decide)
  have hword {d : Char} {w : String} (hw : String.ofList ((c :: t).map Char.toLower) = w)
      (hd : w.toList.head? = some d) : d.isDigit ∨ d = '.' := by
    rw [← hw, String.toList_ofList, List.map_cons, hlower] at hd
    exact Option.some.inj hd ▸ h
  unfold Decimal.readMagnitude?
  split
  · exact absurd (hword ‹_› (d := 'i') rfl) (by decide)
  · exact absurd (hword ‹_› (d := 'i') rfl) (by decide)
  · exact absurd (hword ‹_› (d := 'n') rfl) (by decide)
  · rfl

namespace Exponent

variable (e : Exponent)

theorem readInt?_text : Decimal.readInt? (e.sign.toList ++ e.digits) = some e.value := by
  have hread := readNat?_of_isDigit e.digits_ne_nil e.isDigit_digits
  rw [Decimal.readInt?, value]
  cases hsign : e.sign with
  | none =>
    obtain ⟨d, ds, hds⟩ := List.exists_cons_of_ne_nil e.digits_ne_nil
    have hd : d.isDigit := e.isDigit_digits d (by rw [hds]; exact List.mem_cons_self)
    have hnone : Decimal.sign e.digits = (false, e.digits) := by
      rw [hds]
      exact sign_of_isDigit (.inl hd) ds
    rw [Option.toList_none, List.nil_append, hnone]
    simp only [hread]
    rfl
  | some c =>
    have hc : c = '+' ∨ c = '-' := by
      have := e.isSign_sign c hsign
      simpa [isSign] using this
    rcases hc with rfl | rfl
    · simp only [Option.toList_some, List.singleton_append, Decimal.sign, hread]
      rfl
    · simp only [Option.toList_some, List.singleton_append, Decimal.sign, hread]
      rfl

/-- In a text the longest exponent is the one at the front, with the digits that follow it. -/
theorem exponentAt_append (t : Text) : exponentAt (e.text ++ t) = e.text ++ digitsAt t := by
  have hdigits : digitsAt (e.digits ++ t) = e.digits ++ digitsAt t :=
    digitsAt_append e.isDigit_digits
  obtain ⟨d, ds, hds⟩ := List.exists_cons_of_ne_nil e.digits_ne_nil
  have hsigned : signedDigitsAt (e.sign.toList ++ e.digits ++ t) =
      e.sign.toList ++ (e.digits ++ digitsAt t) := by
    cases hsign : e.sign with
    | none =>
      have hd : ¬ isSign d := fun h => by
        have hdigit := e.isDigit_digits d (hds ▸ List.mem_cons_self)
        rw [not_isDigit_of_isSign h] at hdigit
        cases hdigit
      rw [Option.toList_none, List.nil_append, hds, List.cons_append, signedDigitsAt, if_neg hd,
        ← List.cons_append, ← hds, hdigits]
      rfl
    | some c =>
      rw [Option.toList_some, List.singleton_append, List.cons_append, signedDigitsAt,
        if_pos (e.isSign_sign c hsign), hdigits, hds, behind]
      · rfl
      · exact List.cons_ne_nil _ _
  rw [text, List.cons_append, exponentAt, if_pos e.isMark_mark, hsigned, behind]
  · simp
  · simp [hds]

/-- What is found as an exponent is one. -/
theorem exists_of_exponentAt (t : Text) :
    ∃ e : Option Exponent, exponentAt t = (e.map text).getD [] := by
  by_cases hnil : exponentAt t = []
  · exact ⟨none, hnil⟩
  cases t with
  | nil => exact absurd rfl hnil
  | cons c t =>
    rw [exponentAt] at hnil ⊢
    split at hnil
    · rename_i hmark
      rcases signedDigitsAt_eq t with hempty | ⟨sign, ds, hsign, hne, hds, heq⟩
      · rw [hempty] at hnil
        exact absurd rfl hnil
      · refine ⟨some ⟨c, sign, ds, hmark, hsign, hne, hds⟩, ?_⟩
        rw [if_pos hmark, heq, behind]
        · rfl
        · simp [hne]
    · exact absurd rfl hnil

end Exponent

namespace Numeral

variable (n : Numeral)

theorem stopsDigits_exponentText {t : Text} (h : StopsDigits t) :
    StopsDigits (n.exponentText ++ t) := by
  rw [exponentText]
  cases n.exponent with
  | none => exact h
  | some e =>
    intro c hc
    obtain rfl := Option.some.inj hc
    exact not_isDigit_of_isMark e.isMark_mark

theorem head?_exponentText {t : Text} (ht : t.head? ≠ some '.') :
    (n.exponentText ++ t).head? ≠ some '.' := by
  rw [exponentText]
  cases n.exponent with
  | none => exact ht
  | some e =>
    intro h
    have hmark := e.isMark_mark
    rw [Option.some.inj h] at hmark
    cases hmark

theorem stopsDigits_fractionText {t : Text} (h : StopsDigits t) :
    StopsDigits (n.fractionText ++ t) := by
  rw [fractionText]
  cases n.fraction with
  | nil => exact h
  | cons d ds =>
    intro c hc
    obtain rfl := Option.some.inj hc
    rfl

theorem exists_text_eq_cons : ∃ c t, n.text = c :: t ∧ (c.isDigit ∨ c = '.') := by
  rw [text, fractionText]
  cases hwhole : n.whole with
  | cons d ds =>
    exact ⟨d, _, rfl, .inl (n.isDigit_whole d (by rw [hwhole]; exact List.mem_cons_self))⟩
  | nil =>
    obtain ⟨d, ds, hds⟩ := List.exists_cons_of_ne_nil (n.ne_nil.resolve_left fun h => h hwhole)
    rw [hds]
    exact ⟨'.', _, rfl, .inr rfl⟩

/-- The fraction of a numeral is read up to its exponent. -/
theorem fraction_text {t : Text} (ht : StopsDigits t) (hpoint : t.head? ≠ some '.') :
    Decimal.fraction (n.fractionText ++ t) = (n.fraction, t) := by
  rw [fractionText]
  cases hf : n.fraction with
  | nil =>
    rw [behind, List.nil_append]
    unfold Decimal.fraction
    split
    · exact absurd rfl hpoint
    · rfl
  | cons d ds =>
    have hds : ∀ c ∈ d :: ds, c.isDigit := hf ▸ n.isDigit_fraction
    rw [behind, List.cons_append, Decimal.fraction, takeWhile_isDigit_append hds ht,
      dropWhile_isDigit_append hds ht]
    exact List.cons_ne_nil _ _

theorem readScientific?_text : Decimal.readScientific? n.text =
    some (Decimal.ofDigits (n.whole ++ n.fraction), n.exponentValue - n.fraction.length) := by
  have hexponent : StopsDigits n.exponentText :=
    List.append_nil n.exponentText ▸ n.stopsDigits_exponentText stopsDigits_nil
  have hpoint : n.exponentText.head? ≠ some '.' :=
    List.append_nil n.exponentText ▸ n.head?_exponentText nofun
  have hstops := n.stopsDigits_fractionText hexponent
  simp only [Decimal.readScientific?, text, takeWhile_isDigit_append n.isDigit_whole hstops,
    dropWhile_isDigit_append n.isDigit_whole hstops]
  have hfraction : Decimal.fraction (n.fractionText ++ n.exponentText) =
      (n.fraction, n.exponentText) := n.fraction_text hexponent hpoint
  rw [hfraction]
  have hempty : (n.whole.isEmpty && n.fraction.isEmpty) = false := by
    have hne := n.ne_nil
    cases hw : n.whole <;> cases hf : n.fraction <;> simp_all
  simp only [hempty]
  rw [exponentText, exponentValue]
  cases n.exponent with
  | none => simp
  | some e =>
    have hmark : e.mark = 'e' ∨ e.mark = 'E' := by
      have := e.isMark_mark
      rw [isMark, Bool.or_eq_true, beq_iff_eq, beq_iff_eq] at this
      exact this.symm
    simp only [Option.map_some, Option.getD_some, Exponent.text, hmark, if_true, e.readInt?_text]
    rfl

theorem readMagnitude?_text : Decimal.readMagnitude? n.text = some n.value := by
  obtain ⟨c, t, htext, hc⟩ := n.exists_text_eq_cons
  have hread := n.readScientific?_text
  rw [htext] at hread ⊢
  rw [readMagnitude?_of_isDigit hc, hread]
  rfl

/-- A numeral has no sign. -/
theorem sign_text : Decimal.sign n.text = (false, n.text) := by
  obtain ⟨c, t, htext, hc⟩ := n.exists_text_eq_cons
  rw [htext]
  exact sign_of_isDigit hc t

/-- The text of a numeral is read as its value. -/
theorem readFloat?_text : Decimal.readFloat? n.text = some n.value := by
  rw [Decimal.readFloat?, sign_text]
  simp only [readMagnitude?_text, Option.map_some, Bool.false_eq_true, if_false]

/-! ## The longest numeral -/

/-- What does not go on with a numeral: nothing, or a character that is no digit, point or mark. -/
def Stops (t : Text) : Prop :=
  ∀ c, t.head? = some c → c.isDigit = false ∧ c ≠ '.' ∧ isMark c = false

variable {n}

theorem Stops.stopsDigits {t : Text} (h : Stops t) : StopsDigits t := fun c hc => (h c hc).1

/-- The exponent of a numeral is the longest one where it stands. -/
theorem exponentAt_exponentText {t : Text} (h : Stops t) :
    exponentAt (n.exponentText ++ t) = n.exponentText := by
  rw [exponentText]
  cases n.exponent with
  | some e =>
    have hnone : digitsAt t = [] := takeWhile_isDigit_append (u := []) nofun h.stopsDigits
    exact (e.exponentAt_append t).trans (by rw [hnone, List.append_nil]; rfl)
  | none =>
    cases t with
    | nil => rfl
    | cons c t => exact if_neg (Bool.eq_false_iff.1 (h c rfl).2.2)

theorem pointAt_fractionText {t : Text} (h : Stops t) (hne : n.fraction ≠ []) :
    pointAt (n.fractionText ++ (n.exponentText ++ t)) = n.fractionText ++ n.exponentText := by
  have hstops := n.stopsDigits_exponentText h.stopsDigits
  obtain ⟨d, ds, hds⟩ := List.exists_cons_of_ne_nil hne
  have hfraction : fractionAt (n.fraction ++ (n.exponentText ++ t)) =
      n.fraction ++ n.exponentText := by
    rw [fractionAt, digitsAt, pastDigits, takeWhile_isDigit_append n.isDigit_fraction hstops,
      dropWhile_isDigit_append n.isDigit_fraction hstops, if_neg hne, exponentAt_exponentText h]
  have htext : n.fractionText = '.' :: n.fraction := by
    rw [fractionText, hds]
    rfl
  rw [htext, List.cons_append, pointAt, if_pos rfl, hfraction, hds]
  rfl

/-- In a text the longest literal is the numeral at the front, unless what follows goes on with
it. -/
theorem numberAt_append {t : Text} (h : Stops t) : numberAt (n.text ++ t) = n.text := by
  have hstops := n.stopsDigits_fractionText (n.stopsDigits_exponentText h.stopsDigits)
  rw [text, List.append_assoc, List.append_assoc, numberAt, digitsAt, pastDigits,
    takeWhile_isDigit_append n.isDigit_whole hstops,
    dropWhile_isDigit_append n.isDigit_whole hstops]
  by_cases hfraction : n.fraction = []
  · have hwhole : n.whole ≠ [] := n.ne_nil.resolve_right fun hne => hne hfraction
    have hnil : n.fractionText = [] := by
      rw [fractionText, hfraction]
      rfl
    have hpoint : (n.exponentText ++ t).head? ≠ some '.' :=
      n.head?_exponentText fun hc => (h '.' hc).2.1 rfl
    rw [if_neg hwhole, hnil, List.nil_append, if_neg hpoint, exponentAt_exponentText h]
    rfl
  · have hpoint : (n.fractionText ++ (n.exponentText ++ t)).head? = some '.' := by
      rw [fractionText, behind_of_ne_nil hfraction]
      rfl
    rw [if_pos hpoint, pointAt_fractionText h hfraction]
    split
    · rename_i hwhole
      rw [hwhole, List.nil_append, pointAt_fractionText h hfraction, List.nil_append]
    · rfl

theorem pointAt_eq (t : Text) : pointAt t = [] ∨ ∃ u, t = '.' :: u ∧ digitsAt u ≠ [] ∧
    pointAt t = '.' :: (digitsAt u ++ exponentAt (pastDigits u)) := by
  cases t with
  | nil => exact .inl rfl
  | cons c u =>
    rw [pointAt, fractionAt]
    split
    · subst c
      by_cases hnil : digitsAt u = []
      · exact .inl (by rw [if_pos hnil]; rfl)
      · refine .inr ⟨u, rfl, hnil, ?_⟩
        rw [if_neg hnil, behind_of_ne_nil (by simp [hnil])]
    · exact .inl rfl

/-- The longest literal at the front of a text is a numeral. -/
theorem exists_of_numberAt (t : Text) : numberAt t = [] ∨ ∃ n : Numeral, numberAt t = n.text := by
  have hpoint (whole rest : Text) (hwhole : ∀ d ∈ whole, d.isDigit) (hrest : pointAt rest ≠ []) :
      ∃ n : Numeral, whole ++ pointAt rest = n.text := by
    obtain ⟨u, -, hne, heq⟩ := (pointAt_eq rest).resolve_left hrest
    obtain ⟨e, he⟩ := Exponent.exists_of_exponentAt (pastDigits u)
    refine ⟨⟨whole, digitsAt u, e, .inr hne, hwhole, isDigit_digitsAt u⟩, ?_⟩
    rw [heq, he, text, fractionText, behind_of_ne_nil hne]
    rfl
  have hbare (rest : Text) (hne : digitsAt t ≠ []) :
      ∃ n : Numeral, digitsAt t ++ exponentAt rest = n.text := by
    obtain ⟨e, he⟩ := Exponent.exists_of_exponentAt rest
    refine ⟨⟨digitsAt t, [], e, .inl hne, isDigit_digitsAt t, fun _ h => nomatch h⟩, ?_⟩
    rw [he]
    rfl
  rw [numberAt]
  split
  · by_cases hnil : pointAt t = []
    · exact .inl hnil
    · exact .inr (hpoint [] t (fun _ h => nomatch h) hnil)
  · rename_i hne
    right
    split
    · by_cases hnil : pointAt (pastDigits t) = []
      · rw [hnil]
        exact hbare [] hne
      · exact hpoint _ _ (isDigit_digitsAt t) hnil
    · exact hbare _ hne

end Numeral

end GrammarMachine
