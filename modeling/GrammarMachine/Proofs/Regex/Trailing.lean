import GrammarMachine.Regex.Reader

/-!
# Texts with a parenthesis behind them

What is read of an expression does not depend on a parenthesis that closes behind it.

* `Trails t t'`: the text `t'` is `t` with a closing parenthesis behind it, or without it where a
  comment has swallowed it.
* `Follows left b r r'`: a reader that comes to `r` on one text comes to `r'` on a text that trails
  it. Where the first reads an element, the second reads the same one and the rests trail; where the
  first fails, so does the second, or it has gone past the parenthesis and leaves a rest as in
  `left`.
* `Follows.bind`: one reader after another.
-/

namespace GrammarMachine.Regex.Reader

/-! ## Trailing texts -/

/-- The second text is the first one with a closing parenthesis behind it, or without it where a
comment has swallowed it. -/
inductive Trails : List Char → List Char → Prop
  | swallowed : Trails [] []
  | closing : Trails [] [')']
  | cons (c : Char) {t t' : List Char} : Trails t t' → Trails (c :: t) (c :: t')

namespace Trails

variable {t t' : List Char}

theorem length_le (h : Trails t t') : t.length ≤ t'.length ∧ t'.length ≤ t.length + 1 := by
  induction h with
  | swallowed => exact ⟨Nat.le_refl 0, Nat.zero_le 1⟩
  | closing => exact ⟨Nat.zero_le 1, Nat.le_refl 1⟩
  | cons c _ ih => exact ⟨Nat.succ_le_succ ih.1, Nat.succ_le_succ ih.2⟩

theorem dropWhile (h : Trails t t') (p : Char → Bool) : Trails (t.dropWhile p) (t'.dropWhile p) := by
  induction h with
  | swallowed => exact .swallowed
  | closing =>
    rw [List.dropWhile_cons]
    split
    · exact .swallowed
    · exact .closing
  | cons c h ih =>
    rw [List.dropWhile_cons, List.dropWhile_cons]
    split
    · exact ih
    · exact .cons c h

theorem dropBlank (h : Trails t t') (inComment : Bool) :
    Trails (dropBlank inComment t) (dropBlank inComment t') := by
  induction h generalizing inComment with
  | swallowed => cases inComment <;> exact .swallowed
  | closing =>
    cases inComment with
    | true => exact .swallowed
    | false => exact .closing
  | cons c h ih =>
    cases inComment with
    | true => exact ih _
    | false =>
      simp only [Reader.dropBlank]
      split
      · exact ih false
      · split
        · exact ih true
        · exact .cons c h

theorem skip (h : Trails t t') (ignoring : Bool) : Trails (skip ignoring t) (skip ignoring t') := by
  cases ignoring with
  | true => exact h.dropBlank false
  | false => exact h

end Trails

@[simp] theorem skip_closing (ignoring : Bool) : skip ignoring [')'] = [')'] := by
  cases ignoring <;> rfl

@[simp] theorem skip_nil (ignoring : Bool) : skip ignoring [] = [] := by
  cases ignoring <;> rfl

/-! ## Readers on trailing texts -/

/-- What a reader comes to on a text, and on one that trails it. At most `b` characters remain of
the first. -/
inductive Follows {β : Type} (left : β → List Char → Prop) (b : Nat) :
    Except Error (β × List Char) → Except Error (β × List Char) → Prop
  | reads {x : β} {t t' : List Char} :
    Trails t t' → t.length ≤ b → Follows left b (.ok (x, t)) (.ok (x, t'))
  | fails {e : Error} {r' : Except Error (β × List Char)} :
    (∀ x t', r' = .ok (x, t') → left x t') → Follows left b (.error e) r'

/-- Nothing is left behind the parenthesis. -/
def nothing {β : Type} (_ : β) (t : List Char) : Prop := t = []

namespace Follows

variable {β γ : Type} {left : β → List Char → Prop} {left₂ : γ → List Char → Prop} {b c : Nat}
  {r r' : Except Error (β × List Char)} {e e' : Error}

theorem mono (h : Follows left b r r') {left' : β → List Char → Prop}
    (hleft : ∀ x t, left x t → left' x t) (hb : b ≤ c) : Follows left' c r r' := by
  cases h with
  | reads ht hle => exact .reads ht (Nat.le_trans hle hb)
  | fails h => exact .fails fun x t heq => hleft x t (h x t heq)

/-- A reading that goes on. -/
theorem bind (h : Follows left b r r')
    {f f' : β × List Char → Except Error (γ × List Char)}
    (hreads : ∀ x t t', Trails t t' → t.length ≤ b → Follows left₂ c (f (x, t)) (f' (x, t')))
    (hfails : ∀ x t', left x t' → ∀ y u, f' (x, t') = .ok (y, u) → left₂ y u) :
    Follows left₂ c (r >>= f) (r' >>= f') := by
  cases h with
  | reads ht hle => exact hreads _ _ _ ht hle
  | fails h =>
    refine .fails fun y u heq => ?_
    cases r' with
    | error e => cases heq
    | ok p => exact hfails p.1 p.2 (h _ _ rfl) y u heq

end Follows

/-- A reading whose element is put in another form. -/
theorem Follows.map {β γ : Type} {left : β → List Char → Prop} {left₂ : γ → List Char → Prop}
    {b : Nat} {r r' : Except Error (β × List Char)} (h : Follows left b r r') (f : β → γ)
    (hleft : ∀ x t, left x t → left₂ (f x) t) :
    Follows left₂ b (r.map fun (x, t) => (f x, t)) (r'.map fun (x, t) => (f x, t)) := by
  cases h with
  | reads ht hle => exact .reads ht hle
  | fails h =>
    refine .fails fun y t' heq => ?_
    cases r' with
    | error e => cases heq
    | ok p =>
      cases heq
      exact hleft _ _ (h _ _ rfl)

end GrammarMachine.Regex.Reader
