import GrammarMachine.Proofs.Decimal.Numerals
import GrammarMachine.Proofs.Semantics.Reach

/-!
# Decimal literals in a grammar

A literal step consumes the longest literal where it stands. The expression prefers a fraction to
none, and an exponent to none, and takes all the digits it can get. That this makes the longest
match is not a matter of course, since a part that takes more could leave too little for the next.
Here it cannot: no part begins with a character that goes on the part before it.

* `Real.Literal`: a numeral, with a sign in front where that is allowed.
* `Real.Literal.text_isPrefix_literalAt`: nothing longer than what is found stands at the front.
* `Real.exists_of_literalAt`: what is found is a literal.
* `Real.Literal.readFloat?_text`: a literal is read as a float.
* `Grammar.real_takes_longest`: what this comes to for the step of a grammar.
-/

namespace GrammarMachine

open GrammarMachine.Real

/-! ## Nothing longer stands at the front -/

namespace Numeral

variable (n : Numeral)

/-- Digits and an exponent are found in full, or else more digits. -/
theorem isPrefix_digits {ds : Text} (hds : ∀ d ∈ ds, d.isDigit) (t : Text) :
    ds ++ n.exponentText <+: digitsAt (ds ++ (n.exponentText ++ t)) ++
      exponentAt (pastDigits (ds ++ (n.exponentText ++ t))) := by
  rw [digitsAt_append hds, pastDigits_append hds, List.append_assoc, List.prefix_append_right_inj,
    exponentText]
  cases n.exponent with
  | none => exact List.nil_prefix
  | some e =>
    have hmark : digitsAt (e.text ++ t) = [] :=
      List.takeWhile_cons_of_neg (by simp [not_isDigit_of_isMark e.isMark_mark])
    have hpast : pastDigits (e.text ++ t) = e.text ++ t :=
      List.dropWhile_cons_of_neg (by simp [not_isDigit_of_isMark e.isMark_mark])
    rw [Option.map_some, Option.getD_some, hmark, hpast, e.exponentAt_append]
    exact List.prefix_append _ _

/-- A point with digits behind it is found with them and the exponent. -/
theorem isPrefix_pointAt (hne : n.fraction ≠ []) (t : Text) :
    n.fractionText ++ n.exponentText <+: pointAt (n.fractionText ++ (n.exponentText ++ t)) := by
  have hdigits : digitsAt (n.fraction ++ (n.exponentText ++ t)) ≠ [] := by
    rw [digitsAt_append n.isDigit_fraction]
    simp [hne]
  rw [fractionText, behind_of_ne_nil hne, List.cons_append, List.cons_append, pointAt, if_pos rfl,
    fractionAt, if_neg hdigits, behind_of_ne_nil (by simp [hdigits]), List.cons_prefix_cons]
  exact ⟨rfl, n.isPrefix_digits n.isDigit_fraction t⟩

/-- A numeral at the front of a text is a beginning of the longest one. -/
theorem isPrefix_numberAt (t : Text) : n.text <+: numberAt (n.text ++ t) := by
  rw [text, List.append_assoc, List.append_assoc]
  by_cases hfraction : n.fraction = []
  · have hwhole : n.whole ≠ [] := n.ne_nil.resolve_right fun hne => hne hfraction
    have hdigits : digitsAt (n.whole ++ (n.exponentText ++ t)) ≠ [] := by
      rw [digitsAt_append n.isDigit_whole]
      simp [hwhole]
    have hprefix := n.isPrefix_digits n.isDigit_whole t
    rw [fractionText, hfraction, behind, List.nil_append, List.nil_append, numberAt, if_neg hdigits]
    split
    · -- A point is no mark: the exponent is empty here.
      rename_i hpoint
      obtain ⟨u, hu⟩ := List.head?_eq_some_iff.1 hpoint
      rw [hu, show exponentAt ('.' :: u) = [] from rfl, List.append_nil] at hprefix
      exact hprefix.trans (List.prefix_append _ _)
    · exact hprefix
  · have hprefix := n.isPrefix_pointAt hfraction t
    have htext : n.fractionText ++ (n.exponentText ++ t) =
        '.' :: (n.fraction ++ (n.exponentText ++ t)) := by
      rw [fractionText, behind_of_ne_nil hfraction]
      rfl
    rw [htext] at hprefix ⊢
    rw [numberAt, digitsAt_append n.isDigit_whole, pastDigits_append n.isDigit_whole,
      show digitsAt ('.' :: (n.fraction ++ (n.exponentText ++ t))) = [] from rfl,
      show pastDigits ('.' :: (n.fraction ++ (n.exponentText ++ t))) = '.' :: _ from rfl,
      List.append_nil, List.head?_cons, if_pos rfl]
    split
    · rename_i hwhole
      rwa [hwhole]
    · exact (List.prefix_append_right_inj n.whole).2 hprefix

theorem text_ne_nil : n.text ≠ [] := by
  obtain ⟨c, t, htext, -⟩ := n.exists_text_eq_cons
  rw [htext]
  exact List.cons_ne_nil c t

/-- A numeral ends with a digit. -/
theorem exists_text_eq_concat : ∃ u d, n.text = u ++ [d] ∧ d.isDigit := by
  have hdigits {ds : Text} (hne : ds ≠ []) (hds : ∀ d ∈ ds, d.isDigit) :
      ∃ u d, ds = u ++ [d] ∧ d.isDigit :=
    ⟨ds.dropLast, ds.getLast hne, (List.dropLast_concat_getLast hne).symm,
      hds _ (List.getLast_mem hne)⟩
  rw [text, exponentText]
  cases n.exponent with
  | some e =>
    obtain ⟨u, d, hu, hd⟩ := hdigits e.digits_ne_nil e.isDigit_digits
    refine ⟨n.whole ++ (n.fractionText ++ e.mark :: (e.sign.toList ++ u)), d, ?_, hd⟩
    simp [Exponent.text, hu]
  | none =>
    by_cases hfraction : n.fraction = []
    · obtain ⟨u, d, hu, hd⟩ :=
        hdigits (n.ne_nil.resolve_right fun hne => hne hfraction) n.isDigit_whole
      exact ⟨u, d, by simp [fractionText, hfraction, behind, hu], hd⟩
    · obtain ⟨u, d, hu, hd⟩ := hdigits hfraction n.isDigit_fraction
      refine ⟨n.whole ++ '.' :: u, d, ?_, hd⟩
      rw [fractionText, behind_of_ne_nil hfraction, hu]
      simp

end Numeral

/-! ## Literals -/

namespace Real

/-- A decimal literal: a numeral, with a sign in front where that is allowed. -/
structure Literal (signed : Bool) where
  sign : Option Char
  numeral : Numeral
  isSign_sign : ∀ c ∈ sign, signed ∧ isSign c

namespace Literal

variable {signed : Bool} (l : Literal signed)

def text : Text := l.sign.toList ++ l.numeral.text

/-- The float that is nearest to the number. -/
def value : Float := if l.sign = some '-' then -l.numeral.value else l.numeral.value

/-- The literal stands at the front of the text, and no longer one does. -/
structure IsLongest (t : Text) : Prop where
  isPrefix : l.text <+: t
  length_le : ∀ l' : Literal signed, l'.text <+: t → l'.text.length ≤ l.text.length

theorem text_ne_nil : l.text ≠ [] := by
  simp [text, l.numeral.text_ne_nil]

/-- A literal ends with a digit: a point, a mark or a sign is never its last character. -/
theorem exists_text_eq_concat : ∃ u d, l.text = u ++ [d] ∧ d.isDigit := by
  obtain ⟨u, d, hu, hd⟩ := l.numeral.exists_text_eq_concat
  exact ⟨l.sign.toList ++ u, d, by rw [text, hu, List.append_assoc], hd⟩

/-- A literal is read as its value. -/
theorem readFloat?_text : Decimal.readFloat? l.text = some l.value := by
  rw [text, value]
  cases hsign : l.sign with
  | none => exact l.numeral.readFloat?_text
  | some c =>
    have hc : c = '+' ∨ c = '-' := by simpa [isSign] using (l.isSign_sign c hsign).2
    rcases hc with rfl | rfl
    · simp only [Option.toList_some, List.singleton_append, Decimal.readFloat?, Decimal.sign,
        l.numeral.readMagnitude?_text]
      rfl
    · simp only [Option.toList_some, List.singleton_append, Decimal.readFloat?, Decimal.sign,
        l.numeral.readMagnitude?_text]
      rfl

/-- A literal at the front of a text is a beginning of what is found there. -/
theorem text_isPrefix_literalAt (t : Text) : l.text <+: literalAt signed (l.text ++ t) := by
  have hprefix := l.numeral.isPrefix_numberAt t
  rw [text]
  cases hsign : l.sign with
  | none =>
    obtain ⟨c, u, htext, hc⟩ := l.numeral.exists_text_eq_cons
    have hno : isSign c = false := by
      rcases hc with hc | rfl
      · refine Bool.eq_false_iff.2 fun h => ?_
        rw [not_isDigit_of_isSign h] at hc
        cases hc
      · rfl
    rw [htext] at hprefix ⊢
    rw [Option.toList_none, List.nil_append, List.cons_append, literalAt, hno, Bool.and_false]
    exact hprefix
  | some c =>
    obtain ⟨hsigned, hc⟩ := l.isSign_sign c hsign
    have hne : numberAt (l.numeral.text ++ t) ≠ [] := fun h =>
      l.numeral.text_ne_nil (List.prefix_nil.1 (h ▸ hprefix))
    rw [Option.toList_some, List.singleton_append, List.cons_append, literalAt,
      if_pos (Bool.and_eq_true_iff.2 ⟨hsigned, hc⟩), behind_of_ne_nil hne]
    exact List.cons_prefix_cons.2 ⟨rfl, hprefix⟩

end Literal

variable {signed : Bool}

variable (signed) in
/-- What is found at the front of a text is a literal. -/
theorem exists_of_literalAt (t : Text) :
    literalAt signed t = [] ∨ ∃ l : Literal signed, literalAt signed t = l.text := by
  cases t with
  | nil => exact .inl rfl
  | cons c t =>
    rw [literalAt]
    split
    · rename_i hsign
      rw [Bool.and_eq_true] at hsign
      rcases Numeral.exists_of_numberAt t with hnil | ⟨n, hn⟩
      · exact .inl (by rw [hnil, behind])
      · refine .inr ⟨⟨some c, n, ?_⟩, ?_⟩
        · rintro _ ⟨⟩
          exact hsign
        · rw [hn, behind_of_ne_nil n.text_ne_nil]
          rfl
    · rcases Numeral.exists_of_numberAt (c :: t) with hnil | ⟨n, hn⟩
      · exact .inl hnil
      · exact .inr ⟨⟨none, n, by rintro _ ⟨⟩⟩, hn⟩

/-- What is found at the front of a text is the longest literal there. -/
theorem Literal.isLongest_iff {l : Literal signed} {t : Text} :
    l.IsLongest t ↔ l.text = literalAt signed t := by
  have hfound (l' : Literal signed) (h : l'.text <+: t) : l'.text <+: literalAt signed t := by
    obtain ⟨u, rfl⟩ := h
    exact l'.text_isPrefix_literalAt u
  constructor
  · intro h
    have hprefix := hfound l h.isPrefix
    rcases exists_of_literalAt signed t with hnil | ⟨l', hl'⟩
    · exact absurd (List.prefix_nil.1 (hnil ▸ hprefix)) l.text_ne_nil
    · refine hprefix.eq_of_length_le ?_
      rw [hl']
      exact h.length_le l' (hl' ▸ literalAt_isPrefix signed t)
  · intro h
    exact ⟨h ▸ literalAt_isPrefix signed t, fun l' hl' => h ▸ (hfound l' hl').length_le⟩

/-- Nothing is found just where no literal stands at the front. -/
theorem literalAt_eq_nil_iff {t : Text} :
    literalAt signed t = [] ↔ ∀ l : Literal signed, ¬ l.text <+: t := by
  constructor
  · rintro hnil l ⟨u, rfl⟩
    exact l.text_ne_nil (List.prefix_nil.1 (hnil ▸ l.text_isPrefix_literalAt u))
  · intro hno
    rcases exists_of_literalAt signed t with hnil | ⟨l, hl⟩
    · exact hnil
    · exact absurd (hl ▸ literalAt_isPrefix signed t) (hno l)

/-! ## The step of a grammar -/

variable {α : Type} {fs : Forwards α} {text rest : Text} {i : Nat} {a : Option α}

/-- The expression of decimal literals matches what is found at the front of the rest. -/
theorem answers_regex_iff (hi : text.from? i = some rest) {r : Option (Match α)} :
    (Pattern.regex (regex signed)).Answers fs text i a r ↔
      r = if literalAt signed rest = [] then none
        else some ⟨literalAt signed rest, i + (literalAt signed rest).byteLength, none,
          [some (literalAt signed rest)]⟩ := by
  obtain ⟨v, hv⟩ := literalAt_isPrefix signed rest
  have hslice : rest.slice? 0 (Text.byteLength (literalAt signed rest)) =
      some (literalAt signed rest) := by
    have h := Text.slice?_append [] (literalAt signed rest) v
    rwa [List.nil_append, hv, Text.byteLength_nil, Nat.zero_add] at h
  have hfind : (regex signed).findAt text i = if literalAt signed rest = [] then none
      else some (⟨literalAt signed rest, i + (literalAt signed rest).byteLength, none,
        [some (literalAt signed rest)]⟩ : Match α) := by
    rw [Regex.findAt, hi, Option.bind_eq_bind, Option.bind_some, find_literal]
    split
    · rfl
    · simp [hslice]
  rw [Pattern.answers_iff, ← hfind]
  rfl

/-- The expression of decimal literals matches the longest literal. -/
theorem answers_regex_some_iff (hi : text.from? i = some rest) {m : Match α} :
    (Pattern.regex (regex signed)).Answers fs text i a (some m) ↔
      ∃ l : Literal signed, l.IsLongest rest ∧
        m = ⟨l.text, i + l.text.byteLength, none, [some l.text]⟩ := by
  rw [answers_regex_iff hi]
  constructor
  · intro h
    split at h
    · cases h
    · rename_i hne
      obtain ⟨l, hl⟩ := (exists_of_literalAt signed rest).resolve_left hne
      exact ⟨l, Literal.isLongest_iff.2 hl.symm, by rw [Option.some.inj h, hl]⟩
  · rintro ⟨l, hl, rfl⟩
    rw [← Literal.isLongest_iff.1 hl, if_neg l.text_ne_nil]

/-- It does not match where no literal stands. -/
theorem answers_regex_none_iff (hi : text.from? i = some rest) :
    (Pattern.regex (regex signed)).Answers fs text i a none ↔
      ∀ l : Literal signed, ¬ l.text <+: rest := by
  rw [answers_regex_iff hi, ← literalAt_eq_nil_iff]
  simp

/-- Where a literal stands there is a longest one. -/
theorem exists_isLongest_iff {t : Text} :
    (∃ l : Literal signed, l.IsLongest t) ↔ ∃ l : Literal signed, l.text <+: t := by
  constructor
  · rintro ⟨l, hl⟩
    exact ⟨l, hl.isPrefix⟩
  · rintro ⟨l, hl⟩
    have hne : literalAt signed t ≠ [] := fun hnil => literalAt_eq_nil_iff.1 hnil l hl
    obtain ⟨l', hl'⟩ := (exists_of_literalAt signed t).resolve_left hne
    exact ⟨l', Literal.isLongest_iff.2 hl'.symm⟩

end Real

namespace Grammar

variable {α : Type} {fs : Forwards α} {text rest : Text} {g : Grammar α} {start o : Nat}
  {inherited a : Option α} {signed : Bool} {ofFloat : Float → α}

/-- What a literal step comes to behind a grammar that ends where `rest` follows, at the offset
`o`. -/
structure RealStep (fs : Forwards α) (text : Text) (g : Grammar α) (signed : Bool)
    (ofFloat : Float → α) (start : Nat) (inherited : Option α) (o : Nat) (rest : Text) : Prop where
  /-- It goes on behind the longest literal, with the float that is read from it. -/
  reaches_iff : ∀ j b, (g.real signed ofFloat).Reaches fs text start inherited j b ↔
    ∃ (l : Real.Literal signed) (x : Float), l.IsLongest rest ∧
      Decimal.readFloat? l.text = some x ∧ j = o + l.text.byteLength ∧
        b = if g.drops then none else some (ofFloat x)
  /-- It goes on where a literal stands. -/
  exists_reaches_iff : (∃ j b, (g.real signed ofFloat).Reaches fs text start inherited j b) ↔
    ∃ l : Real.Literal signed, l.text <+: rest
  /-- It fails everywhere else. -/
  fails_iff : (g.real signed ofFloat).Fails fs text start inherited ↔
    ∀ l : Real.Literal signed, ¬ l.text <+: rest

/-- The attribute behind a literal step is the float of the literal, whatever it was before. -/
theorem matchAttr_real (l : Real.Literal signed) (j : Nat) (extra : List (Option Text)) :
    (g.endFrame start o a).matchAttr
        (some (.read fun t => (Decimal.readFloat? t).map ofFloat)) ⟨l.text, j, none, extra⟩ =
      if g.drops then none else some (ofFloat l.value) := by
  show (g.endFrame start o a).keep (merge a ((Decimal.readFloat? l.text).map ofFloat)) = _
  rw [l.readFloat?_text]
  rfl

theorem reaches_real_iff (hg : g.IsOpen) (hignore : g.lexicon.ignore = none)
    (h : g.Reaches fs text start inherited o a) (ho : text.from? o = some rest) {j : Nat}
    {b : Option α} :
    (g.real signed ofFloat).Reaches fs text start inherited j b ↔
      ∃ l : Real.Literal signed, l.IsLongest rest ∧ j = o + l.text.byteLength ∧
        b = if g.drops then none else some (ofFloat l.value) := by
  rw [real, tokenFloat, tokenWith, reaches_consume_iff hg, hignore]
  constructor
  · rintro ⟨o', a', m, hlead, hm, rfl, hskips⟩
    obtain ⟨rfl, rfl⟩ := h.unique hlead
    obtain ⟨l, hl, rfl⟩ := (Real.answers_regex_some_iff ho).1 hm
    cases hskips
    exact ⟨l, hl, rfl, matchAttr_real l _ _⟩
  · rintro ⟨l, hl, rfl, rfl⟩
    exact ⟨o, a, _, h, (Real.answers_regex_some_iff ho).2 ⟨l, hl, rfl⟩,
      (matchAttr_real l _ _).symm, .nothing⟩

theorem fails_real_iff (hg : g.IsOpen) (h : g.Reaches fs text start inherited o a)
    (ho : text.from? o = some rest) :
    (g.real signed ofFloat).Fails fs text start inherited ↔
      ∀ l : Real.Literal signed, ¬ l.text <+: rest := by
  rw [real, tokenFloat, tokenWith, fails_consume_iff hg, ← Real.answers_regex_none_iff ho]
  constructor
  · rintro (hno | ⟨o', a', hlead, hm⟩)
    · exact absurd hno h.not_fails
    · obtain ⟨rfl, rfl⟩ := h.unique hlead
      exact hm
  · exact fun hm => .inr ⟨o, a, h, hm⟩

/-- Behind every open grammar without ignorable text a literal step takes the longest literal. -/
theorem realStep (hg : g.IsOpen) (hignore : g.lexicon.ignore = none)
    (h : g.Reaches fs text start inherited o a) (ho : text.from? o = some rest) :
    RealStep fs text g signed ofFloat start inherited o rest where
  reaches_iff := by
    intro j b
    rw [reaches_real_iff hg hignore h ho]
    constructor
    · rintro ⟨l, hl, hj, hb⟩
      exact ⟨l, l.value, hl, l.readFloat?_text, hj, hb⟩
    · rintro ⟨l, x, hl, hx, hj, hb⟩
      obtain rfl := Option.some.inj (l.readFloat?_text.symm.trans hx)
      exact ⟨l, hl, hj, hb⟩
  exists_reaches_iff := by
    rw [← Real.exists_isLongest_iff]
    constructor
    · rintro ⟨j, b, hreaches⟩
      obtain ⟨l, hl, -⟩ := (reaches_real_iff hg hignore h ho).1 hreaches
      exact ⟨l, hl⟩
    · rintro ⟨l, hl⟩
      exact ⟨_, _, (reaches_real_iff hg hignore h ho).2 ⟨l, hl, rfl, rfl⟩⟩
  fails_iff := fails_real_iff hg h ho

/-- A literal step by itself matches the longest literal where it begins, if there is one. -/
theorem real_answers_iff {l : Lexicon α} (hignore : l.ignore = none)
    (ho : text.from? o = some rest) {r : Option (Match α)} :
    (l.grammar.real signed ofFloat).program.Answers fs text o a r ↔
      (∃ (n : Real.Literal signed) (x : Float), n.IsLongest rest ∧
        Decimal.readFloat? n.text = some x ∧
          r = some ⟨n.text, o + n.text.byteLength, some (ofFloat x), []⟩) ∨
      (∀ n : Real.Literal signed, ¬ n.text <+: rest) ∧ r = none := by
  have hreal : (l.grammar.real signed ofFloat).Retains := (retains_lexicon l).tokenWith _ _
  have hstep : RealStep fs text l.grammar signed ofFloat o a o rest :=
    realStep (isOpen_of_lexicon l) hignore (reaches_lexicon l (hignore ▸ .nothing)) ho
  have hslice {n : Real.Literal signed} (hn : n.IsLongest rest) :
      text.slice? o (o + n.text.byteLength) = some n.text := by
    obtain ⟨v, rfl⟩ := hn.isPrefix
    exact Text.slice?_of_from? ho
  have hkeep (x : Float) :
      (if l.grammar.drops then none else some (ofFloat x)) = some (ofFloat x) := by
    rw [(retains_lexicon l).drops, if_neg Bool.false_ne_true]
  rw [answers_iff hreal.isOpen]
  constructor
  · rintro (⟨j, b, hreaches, rfl⟩ | ⟨hfails, rfl⟩)
    · obtain ⟨n, x, hn, hx, rfl, rfl⟩ := (hstep.reaches_iff _ _).1 hreaches
      exact .inl ⟨n, x, hn, hx, by rw [hslice hn, hkeep]; rfl⟩
    · exact .inr ⟨hstep.fails_iff.1 hfails, rfl⟩
  · rintro (⟨n, x, hn, hx, rfl⟩ | ⟨hno, rfl⟩)
    · exact .inl ⟨_, _, (hstep.reaches_iff _ _).2 ⟨n, x, hn, hx, rfl, rfl⟩,
        by rw [hslice hn, hkeep]; rfl⟩
    · exact .inr ⟨hstep.fails_iff.2 hno, rfl⟩

/-- A literal step takes the longest literal where it stands, which ends with a digit: a point, a
mark or a mark with a sign behind the literal is left alone. The attribute is always the float that
is read from the literal, and never the inherited one; it is absent only if an earlier step of the
grammar drops all attributes. The first part says this for the step by itself, the second behind
any open grammar. -/
theorem real_takes_longest (signed : Bool) (ofFloat : Float → α) (fs : Forwards α) (text : Text) :
    (∀ l : Lexicon α, l.ignore = none → ∀ i rest, text.from? i = some rest → ∀ a,
      ((∃ m, (l.grammar.real signed ofFloat).program.Answers fs text i a (some m)) ↔
        ∃ n : Real.Literal signed, n.text <+: rest) ∧
      ((l.grammar.real signed ofFloat).program.Answers fs text i a none ↔
        ∀ n : Real.Literal signed, ¬ n.text <+: rest) ∧
      ∀ m, (l.grammar.real signed ofFloat).program.Answers fs text i a (some m) ↔
        ∃ (n : Real.Literal signed) (x : Float), n.IsLongest rest ∧
          Decimal.readFloat? n.text = some x ∧
            m = ⟨n.text, i + n.text.byteLength, some (ofFloat x), []⟩) ∧
    (∀ g : Grammar α, g.IsOpen → g.lexicon.ignore = none → ∀ start inherited o a rest,
      g.Reaches fs text start inherited o a → text.from? o = some rest →
        RealStep fs text g signed ofFloat start inherited o rest) ∧
    ∀ n : Real.Literal signed, ∃ u d, n.text = u ++ [d] ∧ d.isDigit := by
  refine ⟨fun l hignore i rest hi a => ?_,
    fun g hg hignore _ _ _ _ _ h ho => realStep hg hignore h ho, fun n => n.exists_text_eq_concat⟩
  simp only [real_answers_iff hignore hi]
  refine ⟨?_, by simp, by simp⟩
  rw [← Real.exists_isLongest_iff]
  constructor
  · rintro ⟨m, ⟨n, x, hn, -⟩ | ⟨-, hm⟩⟩
    · exact ⟨n, hn⟩
    · cases hm
  · rintro ⟨n, hn⟩
    exact ⟨_, .inl ⟨n, n.value, hn, n.readFloat?_text, rfl⟩⟩

/-- A negative number is taken, and the mark and the sign behind it are not. -/
theorem real_takes_longest_negative :
    ∃ x : Float, Decimal.readFloat? "-1.5".toList = some x ∧
      (Grammar.empty.real true id).program.Answers .empty "x-1.5e+".toList 1 (some 0)
        (some ⟨"-1.5".toList, 5, some x, []⟩) := by
  let n : Real.Literal true :=
    ⟨some '-', ⟨['1'], ['5'], none, .inl (by decide), List.forall_mem_singleton.2 rfl,
      List.forall_mem_singleton.2 rfl⟩, by
        rintro _ ⟨⟩
        decide⟩
  have hn : n.IsLongest "-1.5e+".toList := Real.Literal.isLongest_iff.2 (by decide)
  obtain ⟨halone, -⟩ := real_takes_longest (α := Float) true id .empty "x-1.5e+".toList
  obtain ⟨-, -, hmatch⟩ := halone .empty rfl 1 "-1.5e+".toList rfl (some 0)
  exact ⟨n.value, n.readFloat?_text, (hmatch _).2 ⟨n, n.value, hn, n.readFloat?_text, rfl⟩⟩

end Grammar

end GrammarMachine
