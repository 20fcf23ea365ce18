import GrammarMachine.Proofs.Keywords.Paths
import GrammarMachine.Proofs.Operators.Expression
import GrammarMachine.Proofs.Regex.Runs
import GrammarMachine.Proofs.Repetition.Program

/-!
# Tokens with a space between

A text is read token by token: `Spelled text i us` says that from offset `i` on it consists of the
tokens `us`, with a space between.

* `SkipsSpaces`: what is ignorable is exactly the spaces that stand at an offset.
* `skipsSpaces_run`: expressions such as ` *` skip spaces.
* `Spelled.next`: behind a token and the space after it, the other tokens are left.
* `Spelled.keywordIn`, `Spelled.keywordIn_fails`: a keyword step consumes its symbol and no other.
-/

namespace GrammarMachine

variable {α : Type}

/-- The spaces at an offset are skipped, and nothing else. -/
def SkipsSpaces (ignore : Option (Pattern α)) : Prop :=
  ∀ fs text i a, Skips (Pattern.Answers fs text) ignore i a
    (i + (((text.from? i).getD []).takeWhile (· = ' ')).length)

theorem SkipsSpaces.alike {ignore : Option (Pattern α)} (h : SkipsSpaces ignore) (fs : Forwards α)
    (text : Text) : SkipsAlike (Pattern.Answers fs text) ignore :=
  skipsAlike_of_skips Pattern.answers_unique (h fs text)

theorem byteLength_spaces {t : Text} (h : ∀ c ∈ t, c = ' ') : t.byteLength = t.length := by
  induction t with
  | nil => rfl
  | cons c t ih =>
    obtain ⟨rfl, ht⟩ := List.forall_mem_cons.1 h
    rw [Text.byteLength_cons, ih ht, List.length_cons, Nat.add_comm]
    rfl

theorem contains_space : CharSet.contains (.single ' ') = (decide <| · = ' ') := by
  funext c
  have hc : c.toNat = 32 ↔ c = ' ' := ⟨fun h => Char.toNat_inj.1 h, fun h => h ▸ rfl⟩
  have hcontains : CharSet.contains (.single ' ') c = (32 ≤ c.toNat && c.toNat ≤ 32) := by
    simp [CharSet.contains, CharSet.single, CharSet.range, Interval.contains]
  rw [hcontains, Bool.eq_iff_iff, decide_eq_true_iff, ← hc]
  simp only [Bool.and_eq_true, decide_eq_true_eq]
  omega

/-- Runs of spaces, such as ` *`, are what may be ignored. -/
theorem skipsSpaces_run (source : Text) {min : Nat} (hmin : min ≤ 1) :
    SkipsSpaces (some (Pattern.regex (α := α) ⟨.standard, source, .run (.single ' ') min⟩)) := by
  intro fs text i a
  have hspaces : ∀ c ∈ ((text.from? i).getD []).takeWhile (· = ' '), c = ' ' := fun c hc => by
    simpa using List.all_eq_true.1 List.all_takeWhile c hc
  rw [← byteLength_spaces hspaces, ← contains_space]
  exact Pattern.skips_run source _ hmin i a

/-- From the offset on the text consists of the tokens, with a space between. -/
structure Spelled (text : Text) (i : Nat) (us : List Text) : Prop where
  rest : text.from? i = some ([' '].intercalate us)
  tokens : ∀ u ∈ us, u ≠ [] ∧ ' ' ∉ u

/-- What stands between a token and the next one. -/
def gap : List Text → Text
  | [] => []
  | us => ' ' :: [' '].intercalate us

@[simp] theorem gap_nil : gap [] = [] := rfl

@[simp] theorem gap_cons (u : Text) (us : List Text) :
    gap (u :: us) = ' ' :: [' '].intercalate (u :: us) := rfl

theorem intercalate_cons (u : Text) (us : List Text) :
    [' '].intercalate (u :: us) = u ++ gap us := by
  cases us with
  | nil => simp
  | cons => simp [List.intercalate_cons_cons]

namespace Spelled

variable {text u : Text} {us : List Text} {i : Nat} {fs : Forwards α}
  {ignore : Option (Pattern α)}

theorem isBoundary (h : Spelled text i us) : text.isBoundary i :=
  Text.isBoundary_of_from? h.rest

theorem tail (h : ∀ v ∈ u :: us, v ≠ [] ∧ ' ' ∉ v) : ∀ v ∈ us, v ≠ [] ∧ ' ' ∉ v :=
  fun v hv => h v (List.mem_cons_of_mem u hv)

/-- No token begins with a space. -/
theorem takeWhile_eq_nil (h : ∀ u ∈ us, u ≠ [] ∧ ' ' ∉ u) :
    ([' '].intercalate us).takeWhile (· = ' ') = [] := by
  cases us with
  | nil => rfl
  | cons u us =>
    obtain ⟨hne, hsp⟩ := h u List.mem_cons_self
    cases u with
    | nil => exact absurd rfl hne
    | cons c u =>
      have hc : c ≠ ' ' := fun hc => hsp (hc ▸ List.mem_cons_self)
      rw [intercalate_cons, List.cons_append, List.takeWhile_cons, if_neg (by simpa using hc)]

/-- Where a token begins nothing is skipped. -/
theorem skips (h : Spelled text i us) (hig : SkipsSpaces ignore) (a : Option α) :
    Skips (Pattern.Answers fs text) ignore i a i := by
  have hskip := hig fs text i a
  rwa [h.rest, Option.getD_some, takeWhile_eq_nil h.tokens] at hskip

theorem behind (h : Spelled text i (u :: us)) :
    text.from? (i + u.byteLength) = some (gap us) :=
  Text.from?_add (by rw [← intercalate_cons]; exact h.rest)

/-- Behind a token and the space after it, the other tokens are left. -/
theorem next (h : Spelled text i (u :: us)) (hig : SkipsSpaces ignore) (fs : Forwards α) :
    ∃ j, Spelled text j us ∧ i < j ∧
      ∀ a, Skips (Pattern.Answers fs text) ignore (i + u.byteLength) a j := by
  have hu : 0 < u.byteLength :=
    Nat.pos_of_ne_zero (mt Text.byteLength_eq_zero.1 (h.tokens u List.mem_cons_self).1)
  have hgap := h.behind
  cases us with
  | nil =>
    refine ⟨i + u.byteLength, ⟨hgap, fun _ h => nomatch h⟩, by omega, fun a => ?_⟩
    have hskip := hig fs text (i + u.byteLength) a
    rwa [hgap] at hskip
  | cons v us =>
    have hrest : text.from? (i + u.byteLength + 1) = some ([' '].intercalate (v :: us)) :=
      Text.from?_add (u := [' ']) hgap
    refine ⟨i + u.byteLength + 1, ⟨hrest, tail h.tokens⟩, by omega, fun a => ?_⟩
    have hskip := hig fs text (i + u.byteLength) a
    rwa [hgap, Option.getD_some, gap_cons, List.takeWhile_cons_of_pos (by simp),
      takeWhile_eq_nil (tail h.tokens)] at hskip

end Spelled

/-! ## Symbols -/

/-- The token is of the characters that no symbol has. -/
def IsPlain (u : Text) : Prop := ∃ c v, u = c :: v ∧ (c.isDigit ∨ c = '(' ∨ c = ')')

section

variable {levels : List (Level α)} {primary : Level α} {text u : Text} {us : List Text} {i : Nat}
  {s : Text}

theorem mem_tableSymbols {l : Level α} (hl : l ∈ levels) (hs : s ∈ l.symbols) :
    s ∈ (levels ++ [primary]).flatMap Level.symbols :=
  List.mem_flatMap.2 ⟨l, List.mem_append_left _ hl, hs⟩

/-- No symbol of the table has a space, a digit or a bracket. -/
theorem RegularSymbols.not_mem (hr : RegularSymbols levels) (hp : primary.symbols = []) {c : Char}
    (hc : c = ' ' ∨ c.isDigit ∨ c = '(' ∨ c = ')') :
    ∀ s ∈ (levels ++ [primary]).flatMap Level.symbols, c ∉ s := by
  intro s hs hcs
  obtain ⟨l, hl, hsl⟩ := List.mem_flatMap.1 hs
  rcases List.mem_append.1 hl with hl | hl
  · obtain ⟨h₁, h₂, h₃, h₄⟩ := hr.chars l hl s hsl c hcs
    rcases hc with rfl | hc | rfl | rfl
    · exact h₁ rfl
    · rw [h₂] at hc
      cases hc
    · exact h₃ rfl
    · exact h₄ rfl
  · obtain rfl := List.mem_singleton.1 hl
    rw [hp] at hsl
    cases hsl

theorem Spelled.search_symbol (h : Spelled text i (s :: us)) (hr : RegularSymbols levels)
    (hp : primary.symbols = []) {l : Level α} (hl : l ∈ levels) (hs : s ∈ l.symbols) :
    (OperatorTable.symbols (levels ++ [primary])).search text i = some ⟨s, i + s.byteLength⟩ := by
  have hwalk : (OperatorTable.symbols (levels ++ [primary])).walk (s ++ gap us) = s := by
    refine Keywords.walk_word (mem_tableSymbols hl hs) fun c hc => hr.not_mem hp (.inl ?_)
    cases us with
    | nil => cases hc
    | cons => exact (Option.some.inj hc).symm
  rw [Keywords.search_eq, h.rest, intercalate_cons, Option.map_some]
  simp only [hwalk]

theorem Spelled.search_plain (h : Spelled text i us) (hr : RegularSymbols levels)
    (hp : primary.symbols = []) (hu : ∀ u, us.head? = some u → IsPlain u) :
    (OperatorTable.symbols (levels ++ [primary])).search text i = some ⟨[], i⟩ := by
  have hwalk : (OperatorTable.symbols (levels ++ [primary])).walk ([' '].intercalate us) = [] := by
    refine Keywords.walk_eq_nil fun c hc => hr.not_mem hp (.inr ?_)
    cases us with
    | nil => cases hc
    | cons u us =>
      obtain ⟨d, v, rfl, hd⟩ := hu u rfl
      rw [intercalate_cons] at hc
      obtain rfl := Option.some.inj hc
      exact hd
  rw [Keywords.search_eq, h.rest, Option.map_some]
  simp only [hwalk]
  rfl

variable {lexicon : Lexicon α}

/-- The chain without steps stays where a token begins. -/
theorem Spelled.reaches_lexicon (h : Spelled text i us) (hig : SkipsSpaces lexicon.ignore)
    (fs : Forwards α) (a : Option α) :
    lexicon.grammar.Reaches fs text i a i a :=
  Grammar.reaches_lexicon lexicon (h.skips hig a)

/-- A keyword step consumes its symbol. -/
theorem Spelled.keywordIn (h : Spelled text i (s :: us)) (hig : SkipsSpaces lexicon.ignore)
    (hr : RegularSymbols levels) (hp : primary.symbols = []) {l : Level α} (hl : l ∈ levels)
    (hs : s ∈ l.symbols) (fs : Forwards α) (a : Option α) :
    ∃ j, Spelled text j us ∧ i < j ∧
      (lexicon.grammar.keywordIn s (OperatorTable.symbols (levels ++ [primary]))).Reaches fs text i a
        j a := by
  obtain ⟨j, hj, hlt, hskip⟩ := h.next hig fs
  exact ⟨j, hj, hlt, (h.reaches_lexicon hig fs a).keywordIn (Grammar.isOpen_of_lexicon lexicon)
    (h.search_symbol hr hp hl hs) hskip⟩

/-- A keyword step does not consume what is no symbol or another symbol. -/
theorem Spelled.keywordIn_fails (h : Spelled text i us) (hig : SkipsSpaces lexicon.ignore)
    (hr : RegularSymbols levels) (hp : primary.symbols = []) (hs : s ≠ [])
    (hu : ∀ u, us.head? = some u → IsPlain u ∨ ∃ l ∈ levels, u ∈ l.symbols ∧ u ≠ s)
    (fs : Forwards α) (a : Option α) :
    (lexicon.grammar.keywordIn s (OperatorTable.symbols (levels ++ [primary]))).Fails fs text i
      a := by
  refine (h.reaches_lexicon hig fs a).keywordIn_fails (Grammar.isOpen_of_lexicon lexicon)
    fun found hfound => ?_
  by_cases hplain : ∀ u, us.head? = some u → IsPlain u
  · rw [h.search_plain hr hp hplain] at hfound
    obtain rfl := Option.some.inj hfound
    exact Ne.symm hs
  · simp only [not_forall] at hplain
    obtain ⟨u, hhead, hnot⟩ := hplain
    obtain ⟨l, hl, hul, hne⟩ := (hu u hhead).resolve_left hnot
    obtain ⟨us', rfl⟩ := List.head?_eq_some_iff.1 hhead
    rw [h.search_symbol hr hp hl hul] at hfound
    obtain rfl := Option.some.inj hfound
    exact hne

end

end GrammarMachine
