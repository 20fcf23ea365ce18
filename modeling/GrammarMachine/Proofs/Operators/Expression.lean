import GrammarMachine.OperatorTable
import Mathlib.Algebra.Group.Int.Defs
import Mathlib.Algebra.Group.Nat.Defs
import Mathlib.Data.List.Nodup

/-!
# Expressions

Expressions over the operators of a table and integer literals, how they are printed, and what they
come to. The levels of operators stand above one level of literals and brackets.

* `Expr.Over`: the operators of an expression belong to the levels that it says.
* `Expr.tokens`, `Expr.print`: brackets stand around an operand exactly if its level is looser than
  its position allows.
* `RegularSymbols`: what is asked of the symbols, so that an expression can be read back.
-/

namespace GrammarMachine

variable {α : Type}

namespace Level

/-- The symbols that follow an operand. -/
def infixSymbols : Level α → List Text
  | left ops | right ops => ops.map (·.symbol)
  | postfixed ops => ops.map (·.symbol)
  | prefixed _ | primary _ => []

/-- The symbols that precede an operand. -/
def prefixSymbols : Level α → List Text
  | prefixed ops => ops.map (·.symbol)
  | _ => []

/-- Unsigned integers, and expressions in brackets. -/
def arithmetic (lexicon : Lexicon α) (number : Pattern α) (ofInt : Int64 → α) : Level α :=
  .primary fun cells => return (lexicon.grammar.choice
    [(lexicon.grammar.tokenInt number ofInt).pattern,
      (((lexicon.grammar.token (.literal ['('])).token (.forward (cells.headD 0))).token
        (.literal [')'])).pattern]).program

theorem infixSymbols_subset {l : Level α} {s : Text} (h : s ∈ l.infixSymbols) : s ∈ l.symbols := by
  cases l <;> first | exact h | cases h

theorem prefixSymbols_subset {l : Level α} {s : Text} (h : s ∈ l.prefixSymbols) :
    s ∈ l.symbols := by
  cases l <;> first | exact h | cases h

end Level

/-- Symbols by which an expression can be read back. -/
structure RegularSymbols (levels : List (Level α)) : Prop where
  ne_nil : ∀ l ∈ levels, ∀ s ∈ l.symbols, s ≠ []
  chars : ∀ l ∈ levels, ∀ s ∈ l.symbols, ∀ c ∈ s,
    c ≠ ' ' ∧ c.isDigit = false ∧ c ≠ '(' ∧ c ≠ ')'
  infixes : (levels.flatMap Level.infixSymbols).Nodup
  prefixes : (levels.flatMap Level.prefixSymbols).Nodup

/-- An expression. Levels are told by their place in the table, the loosest first. -/
inductive Expr (α : Type) where
  /-- An integer, by its digits. -/
  | number (digits : Text)
  | left (level : Nat) (op : Binary α) (l r : Expr α)
  | right (level : Nat) (op : Binary α) (l r : Expr α)
  | prefixed (level : Nat) (op : Unary α) (operand : Expr α)
  | postfixed (level : Nat) (op : Unary α) (operand : Expr α)

/-- Puts tokens in brackets if asked to. -/
def bracketed (b : Bool) (ts : List Text) : List Text :=
  if b then ['('] :: ts ++ [[')']] else ts

namespace Expr

/-- The operators belong to the levels of the table, and the integers fit into 64 bits. -/
def Over (levels : List (Level α)) : Expr α → Prop
  | number ds => ds ≠ [] ∧ (∀ d ∈ ds, d.isDigit) ∧ Decimal.ofDigits ds < 2 ^ 63
  | left k op l r => (∃ ops, levels[k]? = some (.left ops) ∧ op ∈ ops) ∧ l.Over levels ∧ r.Over levels
  | right k op l r =>
    (∃ ops, levels[k]? = some (.right ops) ∧ op ∈ ops) ∧ l.Over levels ∧ r.Over levels
  | prefixed k op e => (∃ ops, levels[k]? = some (.prefixed ops) ∧ op ∈ ops) ∧ e.Over levels
  | postfixed k op e => (∃ ops, levels[k]? = some (.postfixed ops) ∧ op ∈ ops) ∧ e.Over levels

/-- The level of an expression; that of integers and brackets is `top`. -/
def level (top : Nat) : Expr α → Nat
  | number _ => top
  | left k _ _ _ | right k _ _ _ | prefixed k _ _ | postfixed k _ _ => k

/-- What an expression comes to. -/
def eval (ofInt : Int64 → α) : Expr α → α
  | number ds => ofInt (Int64.ofNat (Decimal.ofDigits ds))
  | left _ op l r | right _ op l r => op.apply (l.eval ofInt) (r.eval ofInt)
  | prefixed _ op e | postfixed _ op e => op.apply (e.eval ofInt)

/-- The tokens of an expression. An operand stands in brackets if it is looser than its place
allows: next to a left-associative operator the left operand may be of the same level, next to a
right-associative one the right operand. -/
def tokens (top : Nat) : Expr α → List Text
  | number ds => [ds]
  | left k op l r => bracketed (l.level top < k) (l.tokens top) ++
      op.symbol :: bracketed (r.level top ≤ k) (r.tokens top)
  | right k op l r => bracketed (l.level top ≤ k) (l.tokens top) ++
      op.symbol :: bracketed (r.level top < k) (r.tokens top)
  | prefixed k op e => op.symbol :: bracketed (e.level top < k) (e.tokens top)
  | postfixed k op e => bracketed (e.level top < k) (e.tokens top) ++ [op.symbol]

/-- The tokens with a space between. -/
def print (top : Nat) (e : Expr α) : Text := [' '].intercalate (e.tokens top)

/-- The tokens of an operand in a place for expressions of level `k` or tighter. -/
def operand (top k : Nat) (e : Expr α) : List Text := bracketed (e.level top < k) (e.tokens top)

section

variable {levels : List (Level α)} {top : Nat} {e : Expr α}

theorem Over.level_le (h : e.Over levels) : e.level levels.length ≤ levels.length := by
  have hlt {k : Nat} {l : Level α} (h : levels[k]? = some l) : k ≤ levels.length :=
    Nat.le_of_lt (List.getElem?_eq_some_iff.1 h).1
  cases e with
  | number ds => exact Nat.le_refl _
  | left k op l r => exact hlt h.1.choose_spec.1
  | right k op l r => exact hlt h.1.choose_spec.1
  | prefixed k op e => exact hlt h.1.choose_spec.1
  | postfixed k op e => exact hlt h.1.choose_spec.1

theorem tokens_left (k : Nat) (op : Binary α) (l r : Expr α) : (left k op l r).tokens top =
    l.operand top k ++ op.symbol :: r.operand top (k + 1) := by
  simp only [tokens, operand, Nat.lt_succ_iff]

theorem tokens_right (k : Nat) (op : Binary α) (l r : Expr α) : (right k op l r).tokens top =
    l.operand top (k + 1) ++ op.symbol :: r.operand top k := by
  simp only [tokens, operand, Nat.lt_succ_iff]

/-- Every token is one of those, or the symbol of a level. -/
inductive IsToken (levels : List (Level α)) : Text → Prop
  | number {ds} : ds ≠ [] → (∀ d ∈ ds, d.isDigit) → IsToken levels ds
  | opening : IsToken levels ['(']
  | closing : IsToken levels [')']
  | symbol {l s} : l ∈ levels → s ∈ l.symbols → IsToken levels s

theorem isToken_of_mem_bracketed {b : Bool} {ts : List Text}
    (h : ∀ t ∈ ts, IsToken levels t) : ∀ t ∈ bracketed b ts, IsToken levels t := by
  intro t ht
  cases b with
  | false => exact h t ht
  | true =>
    simp only [bracketed, if_true, List.cons_append, List.mem_cons, List.mem_append,
      List.not_mem_nil, or_false] at ht
    rcases ht with rfl | ht | rfl
    · exact .opening
    · exact h t ht
    · exact .closing

theorem Over.isToken (h : e.Over levels) : ∀ t ∈ e.tokens top, IsToken levels t := by
  have hsym {k : Nat} {l : Level α} {s : Text} (hl : levels[k]? = some l) (hs : s ∈ l.symbols) :
      IsToken levels s := .symbol (List.mem_of_getElem? hl) hs
  induction e with
  | number ds =>
    intro t ht
    obtain rfl := List.mem_singleton.1 ht
    exact .number h.1 h.2.1
  | left k op l r ihl ihr | right k op l r ihl ihr =>
    obtain ⟨⟨ops, hops, hop⟩, hl, hr⟩ := h
    intro t ht
    rw [tokens, List.mem_append, List.mem_cons] at ht
    rcases ht with ht | rfl | ht
    · exact isToken_of_mem_bracketed (ihl hl) t ht
    · exact hsym hops (List.mem_map_of_mem hop)
    · exact isToken_of_mem_bracketed (ihr hr) t ht
  | prefixed k op e ih =>
    obtain ⟨⟨ops, hops, hop⟩, he⟩ := h
    intro t ht
    rw [tokens, List.mem_cons] at ht
    rcases ht with rfl | ht
    · exact hsym hops (List.mem_map_of_mem hop)
    · exact isToken_of_mem_bracketed (ih he) t ht
  | postfixed k op e ih =>
    obtain ⟨⟨ops, hops, hop⟩, he⟩ := h
    intro t ht
    rw [tokens, List.mem_append, List.mem_singleton] at ht
    rcases ht with ht | rfl
    · exact isToken_of_mem_bracketed (ih he) t ht
    · exact hsym hops (List.mem_map_of_mem hop)

/-- What an expression of level `k` or tighter begins with: an integer, a bracket, or a prefix
operator of level `k` or tighter. -/
inductive IsFirst (levels : List (Level α)) (k : Nat) : Text → Prop
  | number {ds} : ds ≠ [] → (∀ d ∈ ds, d.isDigit) → IsFirst levels k ds
  | opening : IsFirst levels k ['(']
  | symbol {i l s} : k ≤ i → levels[i]? = some l → s ∈ l.prefixSymbols → IsFirst levels k s

theorem IsFirst.mono {i k : Nat} (hik : i ≤ k) {t : Text} (h : IsFirst levels k t) :
    IsFirst levels i t := by
  cases h with
  | number h h' => exact .number h h'
  | opening => exact .opening
  | symbol hi hl hs => exact .symbol (Nat.le_trans hik hi) hl hs

theorem isFirst_operand {k : Nat} {rest : List Text}
    (h : ∃ t ts, e.tokens top = t :: ts ∧ IsFirst levels (e.level top) t) :
    ∃ t ts, e.operand top k ++ rest = t :: ts ∧ IsFirst levels k t := by
  rw [operand, bracketed]
  split
  · exact ⟨_, _, rfl, .opening⟩
  · obtain ⟨t, ts, ht, hfirst⟩ := h
    rename_i hk
    exact ⟨t, ts ++ rest, by rw [ht]; rfl, hfirst.mono (by simpa using hk)⟩

/-- An expression begins with an integer, a bracket or a prefix operator that is no looser. -/
theorem Over.isFirst (h : e.Over levels) :
    ∃ t ts, e.tokens top = t :: ts ∧ IsFirst levels (e.level top) t := by
  induction e with
  | number ds => exact ⟨ds, [], rfl, .number h.1 h.2.1⟩
  | left k op l r ihl _ =>
    rw [tokens_left]
    exact isFirst_operand (ihl h.2.1)
  | right k op l r ihl _ =>
    rw [tokens_right]
    obtain ⟨t, ts, ht, hfirst⟩ := isFirst_operand (k := k + 1) (ihl h.2.1)
    exact ⟨t, ts, ht, hfirst.mono (Nat.le_succ k)⟩
  | prefixed k op e _ =>
    obtain ⟨⟨ops, hops, hop⟩, -⟩ := h
    exact ⟨_, _, rfl, .symbol (Nat.le_refl k) hops (List.mem_map_of_mem hop)⟩
  | postfixed k op e ih => exact isFirst_operand (ih h.2)

end

end Expr

/-! ## Distinct symbols -/

theorem disjoint_of_nodup {f : Level α → List Text} {levels : List (Level α)}
    (h : (levels.flatMap f).Nodup) {i j : Nat} {a b : Level α} (hi : levels[i]? = some a)
    (hj : levels[j]? = some b) (hij : i < j) {s : Text} (ha : s ∈ f a) : s ∉ f b := by
  obtain ⟨hilt, rfl⟩ := List.getElem?_eq_some_iff.1 hi
  obtain ⟨hjlt, rfl⟩ := List.getElem?_eq_some_iff.1 hj
  exact List.pairwise_iff_getElem.1 (List.nodup_flatMap.1 h).2 i j hilt hjlt hij ha

theorem nodup_of_getElem? {f : Level α → List Text} {levels : List (Level α)}
    (h : (levels.flatMap f).Nodup) {i : Nat} {a : Level α} (hi : levels[i]? = some a) :
    (f a).Nodup :=
  (List.nodup_flatMap.1 h).1 a (List.mem_of_getElem? hi)

end GrammarMachine
