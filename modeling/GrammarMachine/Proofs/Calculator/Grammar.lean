import GrammarMachine.CommandLine.Calculator
import GrammarMachine.Proofs.Decimal.Numerals

/-!
# The grammar of the calculator

Which texts are expressions and what their values are, without a machine.

* `Laid ts t r`: the text `t` is the tokens `ts`, with white space wherever there is any, and behind
  them `r`.
* `Derives k ts v`: the nonterminal `k` derives the tokens, with the value `v`. `IsSum` and
  `IsProduct` are its operators from left to right; `mem_sums_iff` and `mem_products_iff` compare
  them with the table of the calculator.
* `Laid.append`, `Laid.split`: tokens behind tokens.
* `Derives.isPlain`, `Derives.starts_operand`: what a derived token can begin with.
-/

namespace GrammarMachine.CommandLine.Calculator

open Unicode (isWhitespace)

/-! ## Tokens in a text -/

inductive Token where
  | real (n : Numeral)
  | symbol (s : Text)

def Token.text : Token → Text
  | real n => n.text
  | symbol s => s

/-- The tokens one after the other, with white space anywhere between them, and what follows. -/
inductive Laid : List Token → Text → Text → Prop
  | nil {r} : Laid [] r r
  | white {ts c t r} : isWhitespace c → Laid ts t r → Laid ts (c :: t) r
  | token {k ts t r} : Laid ts t r → Laid (k :: ts) (k.text ++ t) r

/-- The text behind the white space at its front. -/
def trimmed (t : Text) : Text := t.dropWhile isWhitespace

/-- The token is not empty and does not begin with white space. -/
def Token.IsPlain (k : Token) : Prop := ∃ c u, k.text = c :: u ∧ isWhitespace c = false

section

variable {ts us : List Token} {k : Token} {q r t : Text} {c : Char}

theorem trimmed_white (h : isWhitespace c) : trimmed (c :: t) = trimmed t := by
  rw [trimmed, List.dropWhile_cons, if_pos h, trimmed]

theorem trimmed_plain (h : isWhitespace c = false) : trimmed (c :: t) = c :: t := by
  rw [trimmed, List.dropWhile_cons, if_neg (Bool.eq_false_iff.1 h)]

theorem Token.IsPlain.trimmed (h : k.IsPlain) (t : Text) :
    trimmed (k.text ++ t) = k.text ++ t := by
  obtain ⟨c, u, hk, hc⟩ := h
  rw [hk, List.cons_append, trimmed_plain hc]

theorem trimmed_trimmed (t : Text) : trimmed (trimmed t) = trimmed t := by
  induction t with
  | nil => rfl
  | cons c t ih =>
    cases hc : isWhitespace c with
    | true => rw [trimmed_white hc, ih]
    | false => rw [trimmed_plain hc, trimmed_plain hc]

theorem length_trimmed_le (t : Text) : (trimmed t).length ≤ t.length :=
  (List.dropWhile_sublist _).length_le

theorem laid_trimmed (t : Text) : Laid [] t (trimmed t) := by
  induction t with
  | nil => exact .nil
  | cons c t ih =>
    cases hc : isWhitespace c with
    | true =>
      rw [trimmed_white hc]
      exact .white hc ih
    | false =>
      rw [trimmed_plain hc]
      exact .nil

theorem Laid.append (h : Laid ts t q) (h' : Laid us q r) : Laid (ts ++ us) t r := by
  induction h with
  | nil => exact h'
  | white hc _ ih => exact .white hc (ih h')
  | token _ ih => exact .token (ih h')

/-- White space may stand in front of tokens. -/
theorem Laid.of_trimmed (h : Laid ts (trimmed t) r) : Laid ts t r := (laid_trimmed t).append h

/-- White space may stand behind tokens. -/
theorem Laid.trim (h : Laid ts t r) : Laid ts t (trimmed r) :=
  List.append_nil ts ▸ h.append (laid_trimmed r)

theorem Laid.split (h : Laid (ts ++ us) t r) : ∃ q, Laid ts t q ∧ Laid us q r := by
  generalize hvs : ts ++ us = vs at h
  induction h generalizing ts with
  | nil =>
    obtain ⟨rfl, rfl⟩ := List.append_eq_nil_iff.1 hvs
    exact ⟨_, .nil, .nil⟩
  | white hc _ ih =>
    obtain ⟨q, hts, hus⟩ := ih hvs
    exact ⟨q, .white hc hts, hus⟩
  | @token k vs t r h ih =>
    cases ts with
    | nil =>
      subst hvs
      exact ⟨_, .nil, .token h⟩
    | cons k' ts =>
      obtain ⟨rfl, htail⟩ := List.cons.inj hvs
      obtain ⟨q, hts, hus⟩ := ih htail
      exact ⟨q, .token hts, hus⟩

/-- Without tokens there is only white space. -/
theorem Laid.trimmed_eq (h : Laid [] t r) : trimmed t = trimmed r := by
  generalize hts : ([] : List Token) = ts at h
  induction h with
  | nil => rfl
  | white hc _ ih => rw [trimmed_white hc, ih hts]
  | token _ _ => cases hts

theorem Laid.length_le (h : Laid ts t r) : r.length ≤ t.length := by
  induction h with
  | nil => exact Nat.le_refl _
  | white _ _ ih => exact Nat.le_succ_of_le ih
  | token _ ih =>
    rw [List.length_append]
    exact Nat.le_trans ih (Nat.le_add_left _ _)

/-- The first token stands behind the white space at the front. -/
theorem Laid.front (h : Laid (k :: ts) t r) (hk : k.IsPlain) :
    ∃ q, trimmed t = k.text ++ q ∧ Laid ts q r := by
  generalize hvs : k :: ts = vs at h
  induction h with
  | nil => cases hvs
  | white hc _ ih =>
    rw [trimmed_white hc]
    exact ih hvs
  | @token k' vs t r h =>
    obtain ⟨rfl, rfl⟩ := List.cons.inj hvs
    exact ⟨t, hk.trimmed t, h⟩

/-- The white space in front of tokens can be left out. -/
theorem Laid.trimmed_left (h : Laid ts t r) (hts : ∀ k ∈ ts, k.IsPlain) (hr : trimmed r = r) :
    Laid ts (trimmed t) r := by
  cases ts with
  | nil =>
    rw [h.trimmed_eq, hr]
    exact .nil
  | cons k ts =>
    obtain ⟨q, hq, h⟩ := h.front (hts k List.mem_cons_self)
    rw [hq]
    exact .token h

end

/-! ## Expressions -/

/-- The nonterminals, the loosest first. -/
inductive Nonterminal where
  | expr
  | term
  | unary
  | power
  | atom
deriving DecidableEq

/-- The operators of `expr`. -/
inductive IsSum : Binary Float → Prop
  | plus : IsSum ⟨['+'], fun v w => v + w⟩
  | minus : IsSum ⟨['-'], fun v w => v - w⟩

/-- The operators of `term`. -/
inductive IsProduct : Binary Float → Prop
  | times : IsProduct ⟨['*'], fun v w => v * w⟩
  | over : IsProduct ⟨['/'], fun v w => v / w⟩

/-- An operator and its right operand. -/
structure Operation where
  op : Binary Float
  operand : List Token
  value : Float

namespace Operation

def tokens (s : Operation) : List Token := .symbol s.op.symbol :: s.operand

/-- The operator applied to a left operand. -/
def apply (v : Float) (s : Operation) : Float := s.op.apply v s.value

end Operation

/-- What the nonterminals derive, and the values of the derivations. -/
inductive Derives : Nonterminal → List Token → Float → Prop
  /-- expr := term (('+' | '-') term)*, from left to right. -/
  | expr {ts v} {ss : List Operation} : Derives .term ts v → (∀ s ∈ ss, IsSum s.op) →
      (∀ s ∈ ss, Derives .term s.operand s.value) →
      Derives .expr (ts ++ ss.flatMap Operation.tokens) (ss.foldl Operation.apply v)
  /-- term := unary (('*' | '/') unary)*, from left to right. -/
  | term {ts v} {ss : List Operation} : Derives .unary ts v → (∀ s ∈ ss, IsProduct s.op) →
      (∀ s ∈ ss, Derives .unary s.operand s.value) →
      Derives .term (ts ++ ss.flatMap Operation.tokens) (ss.foldl Operation.apply v)
  /-- unary := '-' unary -/
  | negative {ts v} : Derives .unary ts v →
      Derives .unary (.symbol ['-'] :: ts) (-v)
  /-- unary := power -/
  | positive {ts v} : Derives .power ts v → Derives .unary ts v
  /-- power := atom -/
  | bare {ts v} : Derives .atom ts v → Derives .power ts v
  /-- power := atom '^' power -/
  | raised {ts v us w} : Derives .atom ts v → Derives .power us w →
      Derives .power (ts ++ .symbol ['^'] :: us) (v.pow w)
  /-- atom := real -/
  | real (n : Numeral) : Derives .atom [.real n] n.value
  /-- atom := '(' expr ')' -/
  | group {ts v} : Derives .expr ts v →
      Derives .atom (.symbol ['('] :: (ts ++ [.symbol [')']])) v

/-- The table of the calculator has the operators of `expr`. -/
theorem mem_sums_iff {op : Binary Float} : op ∈ sums ↔ IsSum op := by
  rw [sums, List.mem_cons, List.mem_singleton]
  constructor
  · rintro (rfl | rfl)
    · exact .plus
    · exact .minus
  · rintro (_ | _)
    · exact .inl rfl
    · exact .inr rfl

/-- The table of the calculator has the operators of `term`. -/
theorem mem_products_iff {op : Binary Float} : op ∈ products ↔ IsProduct op := by
  rw [products, List.mem_cons, List.mem_singleton]
  constructor
  · rintro (rfl | rfl)
    · exact .times
    · exact .over
  · rintro (_ | _)
    · exact .inl rfl
    · exact .inr rfl

section

variable {k : Nonterminal} {ts : List Token} {v : Float}

/-- Visible ASCII characters are no white space. -/
theorem isWhitespace_eq_false {c : Char} (h : 32 < c.toNat) (h' : c.toNat < 127) :
    isWhitespace c = false := by
  simp [isWhitespace, Unicode.whitespace, Interval.contains]
  omega

/-- No character of a numeral is white space. -/
theorem isWhitespace_numeral {c : Char} (h : c.isDigit ∨ c = '.' ∨ Real.isMark c) :
    isWhitespace c = false := by
  rcases h with h | rfl | h
  · rw [← contains_digits] at h
    have hrange : 48 ≤ c.toNat ∧ c.toNat ≤ 57 := by
      simpa [CharSet.contains, CharSet.range, Interval.contains] using h
    exact isWhitespace_eq_false (by omega) (by omega)
  · decide
  · rw [Real.isMark, Bool.or_eq_true, beq_iff_eq, beq_iff_eq] at h
    rcases h with rfl | rfl <;> decide

theorem isPlain_real (n : Numeral) : (Token.real n).IsPlain := by
  obtain ⟨c, u, hn, hc⟩ := n.exists_text_eq_cons
  exact ⟨c, u, hn, isWhitespace_numeral (hc.imp_right .inl)⟩

/-- The symbols of the operators. -/
def operators : List Text := [['+'], ['-'], ['*'], ['/'], ['^']]

/-- The symbols of brackets and operators. -/
def symbols : List Text := ['('] :: [')'] :: operators

theorem isPlain_symbol {s : Text} (h : s ∈ symbols) : (Token.symbol s).IsPlain := by
  have hone {c : Char} (hlow : 32 < c.toNat) (hhigh : c.toNat < 127) :
      (Token.symbol [c]).IsPlain := ⟨c, [], rfl, isWhitespace_eq_false hlow hhigh⟩
  simp only [symbols, operators, List.mem_cons, List.not_mem_nil, or_false] at h
  rcases h with rfl | rfl | rfl | rfl | rfl | rfl | rfl <;> exact hone (by decide) (by decide)

theorem IsSum.symbol_mem {op : Binary Float} (h : IsSum op) : op.symbol ∈ symbols := by
  cases h <;> decide

theorem IsProduct.symbol_mem {op : Binary Float} (h : IsProduct op) : op.symbol ∈ symbols := by
  cases h <;> decide

/-- No derived token begins with white space. -/
theorem Derives.isPlain (h : Derives k ts v) : ∀ t ∈ ts, t.IsPlain := by
  have hchain {ts : List Token} {ss : List Operation} (hts : ∀ t ∈ ts, t.IsPlain)
      (hop : ∀ s ∈ ss, s.op.symbol ∈ symbols) (hss : ∀ s ∈ ss, ∀ t ∈ s.operand, t.IsPlain) :
      ∀ t ∈ ts ++ ss.flatMap Operation.tokens, t.IsPlain := by
    intro t ht
    rcases List.mem_append.1 ht with ht | ht
    · exact hts t ht
    obtain ⟨s, hs, ht⟩ := List.mem_flatMap.1 ht
    rcases List.mem_cons.1 ht with rfl | ht
    · exact isPlain_symbol (hop s hs)
    · exact hss s hs t ht
  induction h with
  | expr _ hop _ ih ihs => exact hchain ih (fun s hs => (hop s hs).symbol_mem) ihs
  | term _ hop _ ih ihs => exact hchain ih (fun s hs => (hop s hs).symbol_mem) ihs
  | negative _ ih => exact List.forall_mem_cons.2 ⟨isPlain_symbol (by decide), ih⟩
  | positive _ ih | bare _ ih => exact ih
  | raised _ _ ih ihs =>
    exact List.forall_mem_append.2 ⟨ih, List.forall_mem_cons.2 ⟨isPlain_symbol (by decide), ihs⟩⟩
  | real n => exact List.forall_mem_cons.2 ⟨isPlain_real n, nofun⟩
  | group _ ih =>
    exact List.forall_mem_cons.2 ⟨isPlain_symbol (by decide),
      List.forall_mem_append.2 ⟨ih, List.forall_mem_cons.2 ⟨isPlain_symbol (by decide), nofun⟩⟩⟩

/-- The token is a numeral or an opening bracket. -/
inductive Token.IsOpening : Token → Prop
  | real (n : Numeral) : (Token.real n).IsOpening
  | bracket : (Token.symbol ['(']).IsOpening

/-- Powers begin with a numeral or an opening bracket. -/
theorem Derives.exists_isOpening (h : Derives k ts v) (hk : k = .power ∨ k = .atom) :
    ∃ t us, ts = t :: us ∧ t.IsOpening := by
  induction h with
  | expr _ _ _ _ _ | term _ _ _ _ _ | negative _ _ | positive _ _ =>
    rcases hk with hk | hk <;> cases hk
  | bare _ ih => exact ih (.inr rfl)
  | raised _ _ ih _ =>
    obtain ⟨t, us, rfl, ht⟩ := ih (.inr rfl)
    exact ⟨t, _, rfl, ht⟩
  | real n => exact ⟨_, _, rfl, .real n⟩
  | group _ _ => exact ⟨_, _, rfl, .bracket⟩

end

end GrammarMachine.CommandLine.Calculator
