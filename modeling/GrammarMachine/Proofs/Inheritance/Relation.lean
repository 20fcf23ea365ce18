import GrammarMachine.Proofs.Semantics.Answers
import Mathlib.Data.List.Forall2

/-!
# Related attributes

A relation between the attributes of two runs that are otherwise at the same place, and what the
functions of a program have to do with it.

* `AttrRel.Merges`, `AttrRel.Lifts`: merging respects the relation, and so do functions of present
  attributes.
* `AttrRel.any`, `AttrRel.refines`: any two attributes, and attributes of which the second is the
  first one unless that is absent.
* `Pattern.Respects`: no condition is asked, no matching function looks at the attribute, and all
  other functions take related attributes to related ones.
* `Frame.Alike`: two calls at the same place whose attributes are related.
-/

namespace GrammarMachine

variable {α : Type}

/-- A relation between the attributes of two runs. -/
abbrev AttrRel (α : Type) := Option α → Option α → Prop

namespace AttrRel

/-- Merging respects the relation. What is merged into equal attributes may be taken to be equal. -/
structure Merges (ρ : AttrRel α) : Prop where
  refl : ∀ a, ρ a a
  merge : ∀ {a b s s'}, ρ a b → ρ s s' → (a = b → s = s') → ρ (merge a s) (merge b s')

/-- Any two attributes are related. -/
def any : AttrRel α := fun _ _ => True

/-- The second attribute is the first one, unless that is absent. -/
def refines : AttrRel α := fun a b => ∀ v, a = some v → b = some v

theorem merges_any : (any : AttrRel α).Merges := ⟨fun _ => trivial, fun _ _ _ => trivial⟩

theorem refines_none (b : Option α) : refines none b := fun _ h => nomatch h

theorem merges_refines : (refines : AttrRel α).Merges where
  refl _ _ h := h
  merge := by
    intro a b s s' hab hs heq v hv
    cases a with
    | some w =>
      obtain rfl := hab w rfl
      rw [← heq rfl]
      exact hv
    | none =>
      have hsv : s = some v := by simpa [GrammarMachine.merge] using hv
      rw [hs v hsv]
      rfl

/-- Functions of present attributes respect the relation. -/
structure Lifts (ρ : AttrRel α) : Prop extends ρ.Merges where
  map : ∀ (f : α → α) {a b}, ρ a b → ρ (a.map f) (b.map f)
  map₂ : ∀ (f : α → α → α) {a b s s'}, ρ a b → ρ s s' →
    ρ (a.bind fun l => s.map (f l)) (b.bind fun l => s'.map (f l))

theorem lifts_any : (any : AttrRel α).Lifts :=
  { merges_any with map := fun _ _ _ _ => trivial, map₂ := fun _ _ _ _ _ _ _ => trivial }

theorem lifts_refines : (refines : AttrRel α).Lifts where
  toMerges := merges_refines
  map := by
    intro f a b hab v hv
    obtain ⟨w, rfl, rfl⟩ := Option.map_eq_some_iff.1 hv
    rw [hab w rfl]
    rfl
  map₂ := by
    intro f a b s s' hab hs v hv
    obtain ⟨l, rfl, hr⟩ := Option.bind_eq_some_iff.1 hv
    obtain ⟨r, rfl, rfl⟩ := Option.map_eq_some_iff.1 hr
    rw [hab l rfl, hs r rfl]
    rfl

end AttrRel

/-! ## Functions that respect the relation -/

/-- The patterns that an instruction tests. -/
def Instr.patterns {π : Type} : Instr π α → List π
  | .consume p _ _ _ | .ahead p _ => [p]
  | .choice ps => ps
  | _ => []

/-- Whether the pattern runs no program, so that what it synthesizes is its own. -/
def Pattern.IsLeaf : Pattern α → Prop
  | .program _ | .forward _ => False
  | _ => True

/-- The functions of the instruction take related attributes to related ones, and it asks no
condition. A fold is asked about the accumulator that comes of it. -/
def Instr.Respects (ρ : AttrRel α) : Instr (Pattern α) α → Prop
  | .consume p (some f) _ _ => ∀ t s s' a b x, ρ s s' → (p.IsLeaf → s = s') → ρ a b →
      ρ (f.apply ⟨t, s, a, x⟩) (f.apply ⟨t, s', b, x⟩)
  | .loopTry _ _ _ (some f) _ => ∀ t s s' a b x, ρ s s' → ρ a b →
      ρ (merge a (f.apply ⟨t, s, a, x⟩)) (merge b (f.apply ⟨t, s', b, x⟩))
  | .guard _ => False
  | .transform f => ∀ a b, ρ a b → ρ (f.apply a) (f.apply b)
  | _ => True

/-- All functions in the pattern respect the relation, and those that match do not look at the
attribute. -/
inductive Pattern.Respects (ρ : AttrRel α) : Pattern α → Prop
  | literal (t : Text) : Respects ρ (.literal t)
  | regex (r : Regex) : Respects ρ (.regex r)
  | forward (cell : Nat) : Respects ρ (.forward cell)
  | lineBreak : Respects ρ .lineBreak
  | endOfInput : Respects ρ .endOfInput
  | custom {f : Matcher α} : (∀ text i a b, f.apply text i a = f.apply text i b) →
      Respects ρ (.custom f)
  | wordEnd {ignore : Option (Pattern α)} {words : Option Keywords} :
      (∀ p, ignore = some p → p.Respects ρ) → Respects ρ (.wordEnd ignore words)
  | program {code : Program α} : (∀ i ∈ code.instrs, i.Respects ρ) →
      (∀ i ∈ code.instrs, ∀ p ∈ i.patterns, p.Respects ρ) →
      (∀ p, code.ignore = some p → p.Respects ρ) → Respects ρ (.program code)

/-- All functions in the program respect the relation. -/
structure Program.Respects (ρ : AttrRel α) (code : Program α) : Prop where
  instrs : ∀ i ∈ code.instrs, i.Respects ρ
  patterns : ∀ i ∈ code.instrs, ∀ p ∈ i.patterns, p.Respects ρ
  ignore : ∀ p, code.ignore = some p → p.Respects ρ

theorem Pattern.respects_program_iff {ρ : AttrRel α} {code : Program α} :
    (Pattern.program code).Respects ρ ↔ code.Respects ρ :=
  ⟨fun | .program hi hp hg => ⟨hi, hp, hg⟩, fun h => .program h.instrs h.patterns h.ignore⟩

/-- All programs that cells hold respect the relation. -/
def Forwards.Respects (ρ : AttrRel α) (fs : Forwards α) : Prop :=
  ∀ cell code, fs.get? cell = some code → code.Respects ρ

/-! ## Two runs at the same place -/

/-- Matches of the same text with related attributes. -/
structure Match.Alike (ρ : AttrRel α) (m m' : Match α) : Prop where
  matched : m.matched = m'.matched
  lastIndex : m.lastIndex = m'.lastIndex
  attr : ρ m.attr m'.attr
  extra : m.extra = m'.extra

/-- The recorded iterations are alike. -/
def Captures.Alike (ρ : AttrRel α) (cs cs' : Captures α) : Prop :=
  ∀ id : Nat, Option.Rel (Option.Rel (List.Forall₂ (Match.Alike ρ))) cs[id]? cs'[id]?

/-- Two calls at the same place whose attributes are related. -/
structure Frame.Alike (ρ : AttrRel α) (f g : Frame α) : Prop where
  start : f.start = g.start
  pc : f.pc = g.pc
  index : f.index = g.index
  count : f.count = g.count
  dropping : f.dropping = g.dropping
  attr : ρ f.attr g.attr
  seed : ρ f.seed g.seed
  captures : f.captures.Alike ρ g.captures

/-- Two calls that end at the same place with related attributes. -/
structure Final.Alike (ρ : AttrRel α) (x y : Final α) : Prop where
  index : x.index = y.index
  attr : ρ x.attr y.attr
  captures : x.captures.Alike ρ y.captures

section

variable {ρ : AttrRel α} {m m' : Match α} {cs cs' : Captures α} {f g : Frame α}

theorem Match.Alike.rfl (hρ : ρ.Merges) : m.Alike ρ m := ⟨.refl _, .refl _, hρ.refl _, .refl _⟩

theorem Captures.alike_closed (n : Nat) : (Captures.closed n : Captures α).Alike ρ (.closed n) := by
  intro id
  rw [Captures.closed, List.getElem?_replicate]
  split
  · exact .some .none
  · exact .none

theorem Captures.Alike.lt_length (h : cs.Alike ρ cs') {id : Nat} (hid : id < cs.length) :
    id < cs'.length := by
  have hrel := h id
  rw [List.getElem?_eq_getElem hid] at hrel
  by_contra hlt
  rw [List.getElem?_eq_none (Nat.not_lt.1 hlt)] at hrel
  cases hrel

theorem Captures.Alike.start (h : cs.Alike ρ cs') (id : Nat) :
    (cs.start id).Alike ρ (cs'.start id) := by
  intro other
  have hother := h other
  rw [Captures.start, Captures.start, List.getElem?_modify, List.getElem?_modify]
  generalize cs[other]? = l, cs'[other]? = l' at hother ⊢
  cases hother with
  | none => exact .none
  | some hl =>
    by_cases hid : id = other
    · cases hl with
      | none => simp [hid]
      | some hms => simpa [hid] using hms
    · simpa [hid] using Option.Rel.some hl

theorem Captures.Alike.record (h : cs.Alike ρ cs') (id : Nat) (hm : m.Alike ρ m') :
    (cs.record id m).Alike ρ (cs'.record id m') := by
  intro other
  have hother := h other
  rw [Captures.record, Captures.record, List.getElem?_modify, List.getElem?_modify]
  generalize cs[other]? = l, cs'[other]? = l' at hother ⊢
  cases hother with
  | none => exact .none
  | some hl =>
    by_cases hid : id = other
    · cases hl with
      | none => simp [hid]
      | some hms =>
        have happ := List.rel_append hms (.cons hm .nil)
        simpa [hid] using happ
    · simpa [hid] using Option.Rel.some hl

/-- The recorded iterations of a repetition are alike. -/
theorem Captures.Alike.recorded (h : cs.Alike ρ cs') (id : Nat) :
    List.Forall₂ (Match.Alike ρ) (cs.recorded id) (cs'.recorded id) := by
  have hid := h id
  rw [Captures.recorded, Captures.recorded]
  generalize cs[id]? = l, cs'[id]? = l' at hid ⊢
  cases hid with
  | none => exact .nil
  | some hl =>
    cases hl with
    | none => exact .nil
    | some hms => exact hms

theorem Frame.Alike.keep (hρ : ρ.Merges) (h : f.Alike ρ g) {a b : Option α} (hab : ρ a b) :
    ρ (f.keep a) (g.keep b) := by
  rw [Frame.keep, Frame.keep, h.dropping]
  split
  · exact hρ.refl none
  · exact hab

theorem Frame.Alike.keep_congr (h : f.Alike ρ g) {a b : Option α} (hab : a = b) :
    f.keep a = g.keep b := by
  rw [Frame.keep, Frame.keep, h.dropping, hab]

/-- Folding iterations that are alike into related accumulators. -/
theorem foldl_alike {dropping : Bool} {a : Action α} (hρ : ρ.Merges)
    (ha : ∀ t s s' b c x, ρ s s' → ρ b c →
      ρ (merge b (a.apply ⟨t, s, b, x⟩)) (merge c (a.apply ⟨t, s', c, x⟩)))
    {ms ms' : List (Match α)} (hms : List.Forall₂ (Match.Alike ρ) ms ms') {acc acc' : Option α}
    (hacc : ρ acc acc') :
    ρ (ms.foldl (foldStep dropping a) acc) (ms'.foldl (foldStep dropping a) acc') := by
  induction hms generalizing acc acc' with
  | nil => exact hacc
  | cons hm _ ih =>
    refine ih ?_
    rw [foldStep, foldStep, hm.matched, hm.extra]
    split
    · exact hρ.refl none
    · exact ha _ _ _ _ _ _ hm.attr hacc

/-- The attribute of a repetition that is over. -/
theorem Frame.Alike.settledAttr (hρ : ρ.Merges) (h : f.Alike ρ g) {capture min exit : Nat}
    {fold : Option (Action α)} {init : Option α}
    (hi : Instr.Respects ρ (.loopTry capture min exit fold init)) {a b : Option α} (hab : ρ a b)
    {ms ms' : List (Match α)} (hms : List.Forall₂ (Match.Alike ρ) ms ms') :
    ρ (f.settledAttr a ms fold init) (g.settledAttr b ms' fold init) := by
  cases fold with
  | none => exact h.keep hρ hab
  | some action =>
    simp only [Frame.settledAttr, h.dropping]
    exact foldl_alike hρ hi hms
      (h.keep hρ (hρ.merge h.seed (hρ.refl init) fun _ => rfl))

end

end GrammarMachine
