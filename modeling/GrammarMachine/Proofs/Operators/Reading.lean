import GrammarMachine.Proofs.Operators.Building
import GrammarMachine.Proofs.Operators.Tokens
import GrammarMachine.Proofs.Repetition.Attribute

/-!
# Reading tokens by the steps of a level

`Reads levels fs text p b ts F`: wherever the tokens `ts` stand and no operator of level `b` or
tighter follows them, the pattern `p` consumes them and the space after them, and changes the
attribute by `F`.

* `Reads.binaryStep`, `Reads.prefixStep`, `Reads.postfixStep`: an operator and its operand.
* `Reads.choice`: a choice reads what its only fitting branch reads.
* `Reads.repeated`: an operand and steps of one level, one after the other.
-/

namespace GrammarMachine

variable {α : Type}

/-- What follows may end an expression of level `k`: nothing, a closing bracket, or an operator of a
looser level. -/
def Ends (levels : List (Level α)) (k : Nat) (us : List Text) : Prop :=
  ∀ u, us.head? = some u →
    u = [')'] ∨ ∃ i l, i < k ∧ levels[i]? = some l ∧ u ∈ l.infixSymbols

/-- The pattern reads the tokens, if what follows may end an expression of level `b`. -/
def Reads (levels : List (Level α)) (fs : Forwards α) (text : Text) (p : Pattern α) (b : Nat)
    (ts : List Text) (F : Option α → Option α) : Prop :=
  ∀ us o a, Ends levels b us → Spelled text o (ts ++ us) →
    ∃ j t, Spelled text j us ∧ o < j ∧ p.Answers fs text o a (some ⟨t, j, F a, []⟩)

/-- The pattern does not match where the tokens stand. -/
def Refuses (levels : List (Level α)) (fs : Forwards α) (text : Text) (p : Pattern α) (b : Nat)
    (ts : List Text) : Prop :=
  ∀ us o a, Ends levels b us → Spelled text o (ts ++ us) → p.Answers fs text o a none

variable {levels : List (Level α)} {fs : Forwards α} {text : Text}

theorem Ends.mono {i k : Nat} (hik : i ≤ k) {us : List Text} (h : Ends levels i us) :
    Ends levels k us := by
  intro u hu
  refine (h u hu).imp_right ?_
  rintro ⟨i', l, hi', hl⟩
  exact ⟨i', l, Nat.lt_of_lt_of_le hi' hik, hl⟩

theorem ends_nil {k : Nat} : Ends levels k [] := fun _ h => nomatch h

theorem ends_closing {k : Nat} {us : List Text} : Ends levels k ([')'] :: us) := by
  rintro u ⟨⟩
  exact .inl rfl

theorem ends_infix {i k : Nat} {l : Level α} {s : Text} {us : List Text} (hi : i < k)
    (hl : levels[i]? = some l) (hs : s ∈ l.infixSymbols) : Ends levels k (s :: us) := by
  rintro u ⟨⟩
  exact .inr ⟨i, l, hi, hl, hs⟩

/-- A grammar that comes to its end before the next token matches. -/
theorem Grammar.Reaches.spelled {g : Grammar α} {o j : Nat} {a b : Option α} {us vs : List Text}
    (h : g.Reaches fs text o a j b) (ho : Spelled text o us) (hj : Spelled text j vs)
    (hlt : o < j) : ∃ t, g.program.Answers fs text o a (some ⟨t, j, b, []⟩) := by
  obtain ⟨t, ht⟩ := Text.exists_slice? ho.isBoundary hj.isBoundary (Nat.le_of_lt hlt)
  exact ⟨t, h.answers ht⟩

@[simp] theorem merge_map_self {β : Type} (a : Option β) (f : β → β) :
    merge a (a.map f) = a.map f := by
  cases a <;> rfl

/-! ## First matches -/

theorem FirstMatch.append_of_none {π : Type} {V : Verdicts π α} {i : Nat} {a : Option α}
    {ps qs : List π} {r : Option (Match α)} (hps : ∀ p ∈ ps, V p i a none)
    (h : FirstMatch V i a qs r) : FirstMatch V i a (ps ++ qs) r := by
  induction ps with
  | nil => exact h
  | cons p ps ih =>
    exact .later (hps p List.mem_cons_self) (ih fun q hq => hps q (List.mem_cons_of_mem p hq))

/-- Among patterns with distinct keys of which only those with one key match, the one with that key
is the first to match. -/
theorem FirstMatch.of_key {π κ β : Type} {V : Verdicts π α} {i : Nat} {a : Option α} {f : β → π}
    {key : β → κ} {xs : List β} {x : β} {m : Match α} (hkeys : (xs.map key).Nodup) (hx : x ∈ xs)
    (hm : V (f x) i a (some m)) (hno : ∀ y ∈ xs, key y ≠ key x → V (f y) i a none) (qs : List π) :
    FirstMatch V i a (xs.map f ++ qs) (some m) := by
  induction xs with
  | nil => cases hx
  | cons y ys ih =>
    obtain ⟨hy, hys⟩ := List.nodup_cons.1 hkeys
    rcases List.mem_cons.1 hx with rfl | hx
    · exact .here hm
    · have hne : key y ≠ key x := fun h => hy (h ▸ List.mem_map_of_mem hx)
      exact .later (hno y List.mem_cons_self hne)
        (ih hys hx fun z hz => hno z (List.mem_cons_of_mem y hz))

/-! ## Steps of operators -/

section

variable {lexicon : Lexicon α} {primary : Level α} {b : Nat} {ts : List Text} {l : Level α}

theorem Reads.binaryStep (hig : SkipsSpaces lexicon.ignore) (hr : RegularSymbols levels)
    (hp : primary.symbols = []) {operand : Pattern α} {w : α}
    (h : Reads levels fs text operand b ts fun _ => some w) {op : Binary α} (hl : l ∈ levels)
    (hs : op.symbol ∈ l.symbols) :
    Reads levels fs text
      (OperatorTable.binaryStep lexicon (OperatorTable.symbols (levels ++ [primary])) operand
        op).pattern b (op.symbol :: ts) (Option.map (op.apply · w)) := by
  intro us o a hus ho
  obtain ⟨i, hi, hoi, hkey⟩ := ho.keywordIn hig hr hp hl hs fs a
  obtain ⟨j, t, hj, hij, hop⟩ := h us i a hus hi
  have hreach : (OperatorTable.binaryStep lexicon (OperatorTable.symbols (levels ++ [primary]))
      operand op).Reaches fs text o a j (merge a (a.bind fun l => some (op.apply l w))) :=
    hkey.tokenWith ((Grammar.retains_lexicon _).keywordIn _ _) hop (hj.skips hig)
  obtain ⟨t, ht⟩ := hreach.spelled ho hj (Nat.lt_trans hoi hij)
  refine ⟨j, t, hj, Nat.lt_trans hoi hij, Pattern.answers_program_iff.2 ?_⟩
  cases a <;> exact ht

theorem Reads.prefixStep (hig : SkipsSpaces lexicon.ignore) (hr : RegularSymbols levels)
    (hp : primary.symbols = []) {operand : Pattern α} {w : α}
    (h : Reads levels fs text operand b ts fun _ => some w) {op : Unary α} (hl : l ∈ levels)
    (hs : op.symbol ∈ l.symbols) :
    Reads levels fs text
      (OperatorTable.prefixStep lexicon (OperatorTable.symbols (levels ++ [primary])) operand
        op).pattern b (op.symbol :: ts) fun _ => some (op.apply w) := by
  intro us o a hus ho
  obtain ⟨i, hi, hoi, hkey⟩ := ho.keywordIn hig hr hp hl hs fs a
  obtain ⟨j, t, hj, hij, hop⟩ := h us i a hus hi
  have hreach : (OperatorTable.prefixStep lexicon (OperatorTable.symbols (levels ++ [primary]))
      operand op).Reaches fs text o a j (some (op.apply w)) :=
    hkey.tokenWith ((Grammar.retains_lexicon _).keywordIn _ _) hop (hj.skips hig)
  obtain ⟨t, ht⟩ := hreach.spelled ho hj (Nat.lt_trans hoi hij)
  exact ⟨j, t, hj, Nat.lt_trans hoi hij, Pattern.answers_program_iff.2 ht⟩

theorem Reads.postfixStep (hig : SkipsSpaces lexicon.ignore) (hr : RegularSymbols levels)
    (hp : primary.symbols = []) {op : Unary α} (hl : l ∈ levels) (hs : op.symbol ∈ l.symbols) :
    Reads levels fs text
      (OperatorTable.postfixStep lexicon (OperatorTable.symbols (levels ++ [primary]))
        op).pattern b [op.symbol] (Option.map op.apply) := by
  intro us o a _ ho
  obtain ⟨j, hj, hoj, hkey⟩ := ho.keywordIn hig hr hp hl hs fs a
  have hreach : (OperatorTable.postfixStep lexicon (OperatorTable.symbols (levels ++ [primary]))
      op).Reaches fs text o a j (merge a (a.map op.apply)) :=
    hkey.transform ((Grammar.retains_lexicon _).keywordIn _ _) _
  rw [merge_map_self] at hreach
  obtain ⟨t, ht⟩ := hreach.spelled ho hj hoj
  exact ⟨j, t, hj, hoj, Pattern.answers_program_iff.2 ht⟩

/-- A choice reads what one of its branches reads, if the branches before it do not match. -/
theorem Reads.choice (hig : SkipsSpaces lexicon.ignore) {ps : List (Pattern α)}
    {F : Option α → Option α} (hF : ∀ a, merge a (F a) = F a)
    (h : ∀ us o a, Ends levels b us → Spelled text o (ts ++ us) → ∃ j t, Spelled text j us ∧
      o < j ∧ FirstMatch (Pattern.Answers fs text) o a ps (some ⟨t, j, F a, []⟩)) :
    Reads levels fs text (lexicon.grammar.choice ps).pattern b ts F := by
  intro us o a hus ho
  obtain ⟨j, t, hj, hoj, hps⟩ := h us o a hus ho
  have hreach := (ho.reaches_lexicon hig fs a).choice (Grammar.retains_lexicon _) hps
    (hj.skips hig)
  obtain ⟨t, ht⟩ := hreach.spelled ho hj hoj
  rw [hF] at ht
  exact ⟨j, t, hj, hoj, Pattern.answers_program_iff.2 ht⟩

/-- A choice does not match where none of its branches does. -/
theorem Refuses.choice (hig : SkipsSpaces lexicon.ignore) {ps : List (Pattern α)}
    (h : ∀ p ∈ ps, Refuses levels fs text p b ts) :
    Refuses levels fs text (lexicon.grammar.choice ps).pattern b ts := by
  intro us o a hus ho
  have hno : FirstMatch (Pattern.Answers fs text) o a (ps ++ []) none :=
    FirstMatch.append_of_none (fun p hp => h p hp us o a hus ho) .nil
  rw [List.append_nil] at hno
  exact Pattern.answers_program_iff.2
    ((ho.reaches_lexicon hig fs a).choice_fails (Grammar.isOpen_of_lexicon _)
      hno).answers

/-! ## Steps one after the other -/

/-- The first token is an operator of level `k` that follows an operand. -/
def StartsInfix (levels : List (Level α)) (k : Nat) (ts : List Text) : Prop :=
  ∃ u v l, ts = u :: v ∧ levels[k]? = some l ∧ u ∈ l.infixSymbols

theorem StartsInfix.ends {i k : Nat} (h : StartsInfix levels i ts) (hi : i < k) (us : List Text) :
    Ends levels k (ts ++ us) := by
  obtain ⟨u, v, l, rfl, hl, hu⟩ := h
  exact ends_infix hi hl hu

variable {p : Pattern α} {k : Nat} {max : Option Nat} {steps : List (List Text × (α → α))}
  {us : List Text}

theorem ends_steps {i : Nat} (hus : Ends levels k us) (hk : k ≤ i)
    (hsteps : ∀ s ∈ steps, StartsInfix levels k s.1) (hi : k < i ∨ steps = []) :
    Ends levels i (steps.flatMap (·.1) ++ us) := by
  cases steps with
  | nil => exact hus.mono hk
  | cons s steps =>
    rw [List.flatMap_cons, List.append_assoc]
    exact (hsteps s List.mem_cons_self).ends (hi.resolve_right (List.cons_ne_nil _ _)) _

/-- A repetition of steps unrolls to one iteration for each. -/
theorem exists_unrolls_steps (hig : SkipsSpaces lexicon.ignore) (hus : Ends levels k us)
    (hreads : ∀ s ∈ steps, Reads levels fs text p b s.1 (Option.map s.2))
    (hstart : ∀ s ∈ steps, StartsInfix levels k s.1) (hend : Refuses levels fs text p k [])
    (hb : k ≤ b) (hb' : k < b ∨ steps.length ≤ 1) {n o : Nat}
    (hmax : ∀ M, max = some M → n + steps.length ≤ M) {x : α}
    (ho : Spelled text o (steps.flatMap (·.1) ++ us)) :
    ∃ its, Unrolls (Iterates (Pattern.Answers fs text) lexicon.ignore false p) max n o (some x)
        its ∧ its.length = steps.length ∧ Spelled text (offsetAfter o its its.length) us ∧
      o ≤ offsetAfter o its its.length ∧
      threadedAttr (some x) its its.length = some (steps.foldl (fun x s => s.2 x) x) := by
  induction steps generalizing n o x with
  | nil => exact ⟨[], .fails (.fails (hend us o _ hus ho)), rfl, ho, Nat.le_refl o, rfl⟩
  | cons s steps ih =>
    have hstart' : ∀ s ∈ steps, StartsInfix levels k s.1 := fun s' hs' =>
      hstart s' (List.mem_cons_of_mem s hs')
    have hnil : k < b ∨ steps = [] := hb'.imp_right fun h =>
      List.eq_nil_of_length_eq_zero (Nat.le_zero.1 (Nat.le_of_succ_le_succ h))
    rw [List.flatMap_cons, List.append_assoc] at ho
    obtain ⟨j, t, hj, hoj, hp⟩ := hreads s List.mem_cons_self _ o (some x)
      (ends_steps hus hb hstart' hnil) ho
    have hit : Iterates (Pattern.Answers fs text) lexicon.ignore false p o (some x)
        (some ⟨⟨t, j, some (s.2 x), []⟩, j, some (s.2 x)⟩) := .ends hp (hj.skips hig _)
    by_cases hlast : max = some (n + 1)
    · have hlen := hmax (n + 1) hlast
      rw [List.length_cons] at hlen
      obtain rfl : steps = [] := List.eq_nil_of_length_eq_zero (by omega)
      exact ⟨_, .last hit (.inl hlast), rfl, hj, Nat.le_of_lt hoj, rfl⟩
    · obtain ⟨its, hits, hlen, hspell, hle, hattr⟩ := ih
        (fun s' hs' => hreads s' (List.mem_cons_of_mem s hs')) hstart'
        (hnil.imp_right fun h => by simp [h]) (n := n + 1)
        (fun M hM => by have := hmax M hM; rw [List.length_cons] at this; omega) (x := s.2 x) hj
      exact ⟨_, .more hit hlast (Nat.ne_of_gt hoj) hits, congrArg (· + 1) hlen, hspell,
        Nat.le_trans (Nat.le_of_lt hoj) hle, hattr⟩

/-- An operand and steps one after the other are read by a repetition of the steps. -/
theorem Reads.repeated (hig : SkipsSpaces lexicon.ignore) {next : Pattern α} {v : α}
    (hnext : Reads levels fs text next (k + 1) ts fun _ => some v)
    (hreads : ∀ s ∈ steps, Reads levels fs text p b s.1 (Option.map s.2))
    (hstart : ∀ s ∈ steps, StartsInfix levels k s.1) (hend : Refuses levels fs text p k [])
    (hb : k ≤ b) (hb' : k < b ∨ steps.length ≤ 1) (hbounds : checkBounds 0 max = .ok ())
    (hmax : ∀ M, max = some M → steps.length ≤ M) :
    Reads levels fs text (.program ((lexicon.grammar.token next).repeated 0 max p).program) k
      (ts ++ steps.flatMap (·.1)) fun _ => some (steps.foldl (fun x s => s.2 x) v) := by
  intro us o a hus ho
  rw [List.append_assoc] at ho
  obtain ⟨i, t, hi, hoi, hnext⟩ := hnext _ o a
    (ends_steps hus (Nat.le_succ k) hstart (.inl (Nat.lt_succ_self k))) ho
  have hreach : (lexicon.grammar.token next).Reaches fs text o a i (some v) :=
    (ho.reaches_lexicon hig fs a).token (Grammar.retains_lexicon _) hnext (hi.skips hig)
  have hmax₀ : ∀ M, max = some M → 0 + steps.length ≤ M := by simpa using hmax
  obtain ⟨its, hits, -, hspell, hle, hattr⟩ := exists_unrolls_steps (x := v)
    hig hus hreads hstart hend hb hb' hmax₀ hi
  obtain ⟨t, ht⟩ := Text.exists_slice? ho.isBoundary hspell.isBoundary (by omega)
  refine ⟨_, t, hspell, by omega, Pattern.answers_program_iff.2 ?_⟩
  rw [← hattr]
  exact hreach.repeated ((Grammar.retains_lexicon _).token _) hbounds (hig.alike fs text) hits ht

end

end GrammarMachine
