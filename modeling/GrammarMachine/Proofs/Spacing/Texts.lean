import GrammarMachine.Proofs.Text.Offsets

/-!
# Texts that differ in their spacing

Some characters are blank, and two texts have the same other characters, with blanks between the
same of them.

* `Respaced`: runs of blanks are replaced by other such runs, and none of them is empty.
* `SameUpToSpacing`: moreover the texts may begin and end with different runs, or with none.
* `Rest`: what is left of two such texts, somewhere between two characters that are not blank.
* `Near`, `Abreast`: offsets from which on two texts differ in their spacing only; of abreast offsets
  no blank follows. They correspond one to one (`Abreast.eq_iff`).
* `Corresponds`: offsets with the same characters before them, blanks apart.
-/

namespace GrammarMachine.Text

variable (blank : Char → Bool)

/-- All characters of the text are blank. -/
def IsBlank (t : Text) : Prop := ∀ c ∈ t, blank c

instance (t : Text) : Decidable (IsBlank blank t) :=
  decidable_of_iff (t.all blank) List.all_eq_true

/-- Runs of blanks are replaced by runs of blanks. -/
inductive Respaced : Text → Text → Prop
  | nil : Respaced [] []
  | char {c t t'} : blank c = false → Respaced t t' → Respaced (c :: t) (c :: t')
  | run {u u' t t'} : u ≠ [] → u' ≠ [] → IsBlank blank u → IsBlank blank u' → Respaced t t' →
      Respaced (u ++ t) (u' ++ t')

/-- Runs of blanks are replaced by runs of blanks, and added or removed at both ends. -/
def SameUpToSpacing (text text' : Text) : Prop :=
  ∃ a t b a' t' b', text = a ++ (t ++ b) ∧ text' = a' ++ (t' ++ b') ∧ Respaced blank t t' ∧
    IsBlank blank a ∧ IsBlank blank b ∧ IsBlank blank a' ∧ IsBlank blank b'

/-- What is left of two texts that differ in their spacing. -/
inductive Rest : Text → Text → Prop
  | blank {b b'} : IsBlank blank b → IsBlank blank b' → Rest b b'
  | char {c t t'} : blank c = false → Rest t t' → Rest (c :: t) (c :: t')
  | run {u u' t t'} : u ≠ [] → u' ≠ [] → IsBlank blank u → IsBlank blank u' → Rest t t' →
      Rest (u ++ t) (u' ++ t')

/-- Behind the offsets the texts differ in their spacing only, if blanks directly there are left
out. -/
def Near (text text' : Text) (i i' : Nat) : Prop :=
  ∃ v v', text.from? i = some v ∧ text'.from? i' = some v' ∧
    Rest blank (v.dropWhile blank) (v'.dropWhile blank)

/-- Behind the offsets the texts differ in their spacing only, and no blank is directly there. -/
def Abreast (text text' : Text) (i i' : Nat) : Prop :=
  ∃ v v', text.from? i = some v ∧ text'.from? i' = some v' ∧ Rest blank v v' ∧
    v.takeWhile blank = [] ∧ v'.takeWhile blank = []

/-- The offsets have the same characters before them, apart from blanks, and no blank directly
behind them. -/
def Corresponds (text text' : Text) (i i' : Nat) : Prop :=
  ∃ u v u' v', text = u ++ v ∧ u.byteLength = i ∧ text' = u' ++ v' ∧ u'.byteLength = i' ∧
    u.filter (!blank ·) = u'.filter (!blank ·) ∧
    v.takeWhile blank = [] ∧ v'.takeWhile blank = []

variable {blank} {t t' u u' v v' w b b' text text' : Text} {i i' j j' : Nat}

/-! ## Runs of blanks -/

theorem IsBlank.dropWhile_append (hu : IsBlank blank u) (t : Text) :
    (u ++ t).dropWhile blank = t.dropWhile blank :=
  List.dropWhile_append_of_pos hu

theorem IsBlank.dropWhile_eq_nil (hu : IsBlank blank u) : u.dropWhile blank = [] := by
  simpa using hu.dropWhile_append []

theorem IsBlank.filter_eq_nil (hu : IsBlank blank u) : u.filter (!blank ·) = [] := by
  simpa [List.filter_eq_nil_iff, IsBlank] using hu

theorem isBlank_of_filter_eq_nil (h : u.filter (!blank ·) = []) : IsBlank blank u := by
  simpa [List.filter_eq_nil_iff, IsBlank] using h

/-- A text that does not begin with a blank begins with no run of blanks. -/
theorem IsBlank.eq_nil (hu : IsBlank blank u) (h : (u ++ t).takeWhile blank = []) : u = [] := by
  cases u with
  | nil => rfl
  | cons c u => simp [hu c List.mem_cons_self] at h

/-! ## Rests -/

theorem Rest.symm (h : Rest blank t t') : Rest blank t' t := by
  induction h with
  | blank hb hb' => exact .blank hb' hb
  | char hc _ ih => exact .char hc ih
  | run hu hu' hb hb' _ ih => exact .run hu' hu hb' hb ih

theorem Respaced.rest (h : Respaced blank t t') (hb : IsBlank blank b) (hb' : IsBlank blank b') :
    Rest blank (t ++ b) (t' ++ b') := by
  induction h with
  | nil => exact .blank hb hb'
  | char hc _ ih => exact .char hc ih
  | run hu hu' hr hr' _ ih =>
    rw [List.append_assoc, List.append_assoc]
    exact .run hu hu' hr hr' ih

theorem Rest.dropWhile (h : Rest blank t t') :
    Rest blank (t.dropWhile blank) (t'.dropWhile blank) := by
  induction h with
  | blank hb hb' =>
    rw [hb.dropWhile_eq_nil, hb'.dropWhile_eq_nil]
    exact .blank nofun nofun
  | char hc h _ =>
    rw [List.dropWhile_cons_of_neg (by simp [hc]), List.dropWhile_cons_of_neg (by simp [hc])]
    exact .char hc h
  | run _ _ hb hb' _ ih =>
    rw [hb.dropWhile_append, hb'.dropWhile_append]
    exact ih

theorem Rest.filter_eq (h : Rest blank t t') : t.filter (!blank ·) = t'.filter (!blank ·) := by
  induction h with
  | blank hb hb' => rw [hb.filter_eq_nil, hb'.filter_eq_nil]
  | char hc _ ih => simp [hc, ih]
  | run _ _ hb hb' _ ih =>
    rw [List.filter_append, List.filter_append, hb.filter_eq_nil, hb'.filter_eq_nil, ih]

/-- A word at the front of one of the rests is at the front of the other one. -/
theorem Rest.of_append (ht : ∀ c ∈ t, blank c = false) (h : Rest blank (t ++ v) w) :
    ∃ v', w = t ++ v' ∧ Rest blank v v' := by
  induction t generalizing w with
  | nil => exact ⟨w, rfl, h⟩
  | cons c t ih =>
    obtain ⟨hc, ht⟩ := List.forall_mem_cons.1 ht
    generalize hs : c :: t ++ v = s at h
    cases h with
    | blank hb hb' =>
      have hblank : blank c := hb c (hs ▸ List.mem_cons_self)
      simp [hc] at hblank
    | char _ h =>
      obtain ⟨rfl, rfl⟩ := List.cons.inj hs
      obtain ⟨v', rfl, hv⟩ := ih ht h
      exact ⟨v', rfl, hv⟩
    | @run r r' x x' hr hr' hb hb' h =>
      obtain ⟨c', r, rfl⟩ := List.exists_cons_of_ne_nil hr
      obtain ⟨rfl, -⟩ := List.cons.inj hs
      have hblank : blank c := hb c List.mem_cons_self
      simp [hc] at hblank

/-- One of the rests is empty if the other one is, unless a blank is directly there. -/
theorem Rest.eq_nil (h : Rest blank [] v') (hv' : v'.takeWhile blank = []) : v' = [] := by
  have hb : IsBlank blank v' := isBlank_of_filter_eq_nil h.filter_eq.symm
  exact hb.eq_nil (t := []) (by rwa [List.append_nil])

/-! ## Offsets -/

theorem SameUpToSpacing.near (h : SameUpToSpacing blank text text') : Near blank text text' 0 0 := by
  obtain ⟨a, t, b, a', t', b', rfl, rfl, h, ha, hb, ha', hb'⟩ := h
  refine ⟨_, _, from?_zero _, from?_zero _, ?_⟩
  rw [ha.dropWhile_append, ha'.dropWhile_append]
  exact (h.rest hb hb').dropWhile

theorem SameUpToSpacing.filter_eq (h : SameUpToSpacing blank text text') :
    text.filter (!blank ·) = text'.filter (!blank ·) := by
  obtain ⟨a, t, b, a', t', b', rfl, rfl, h, ha, hb, ha', hb'⟩ := h
  simp only [List.filter_append, ha.filter_eq_nil, ha'.filter_eq_nil, hb.filter_eq_nil,
    hb'.filter_eq_nil, List.append_nil, List.nil_append]
  have hnil : IsBlank blank [] := nofun
  simpa using (h.rest hnil hnil).filter_eq

theorem Abreast.symm (h : Abreast blank text text' i i') : Abreast blank text' text i' i := by
  obtain ⟨v, v', hv, hv', h, hstart, hstart'⟩ := h
  exact ⟨v', v, hv', hv, h.symm, hstart', hstart⟩

theorem Abreast.near (h : Abreast blank text text' i i') : Near blank text text' i i' := by
  obtain ⟨v, v', hv, hv', h, -, -⟩ := h
  exact ⟨v, v', hv, hv', h.dropWhile⟩

/-- Behind the blanks near offsets are abreast. -/
theorem Near.abreast (h : Near blank text text' i i') (hv : text.from? i = some v)
    (hv' : text'.from? i' = some v') :
    Abreast blank text text' (i + byteLength (v.takeWhile blank))
      (i' + byteLength (v'.takeWhile blank)) := by
  obtain ⟨w, w', hw, hw', h⟩ := h
  obtain rfl := Option.some.inj (hv.symm.trans hw)
  obtain rfl := Option.some.inj (hv'.symm.trans hw')
  have hbehind {text v : Text} {i : Nat} (hv : text.from? i = some v) :
      text.from? (i + byteLength (v.takeWhile blank)) = some (v.dropWhile blank) :=
    from?_add (by rwa [List.takeWhile_append_dropWhile])
  exact ⟨_, _, hbehind hv, hbehind hv', h, takeWhile_dropWhile_eq_nil _ _,
    takeWhile_dropWhile_eq_nil _ _⟩

/-- A word that stands at an offset stands at the one abreast of it. -/
theorem Abreast.of_append (h : Abreast blank text text' i i') (ht : ∀ c ∈ t, blank c = false)
    (hv : text.from? i = some (t ++ v)) :
    ∃ v', text'.from? i' = some (t ++ v') ∧
      Near blank text text' (i + byteLength t) (i' + byteLength t) := by
  obtain ⟨w, w', hw, hw', h, -, -⟩ := h
  obtain rfl := Option.some.inj (hv.symm.trans hw)
  obtain ⟨v', rfl, hrest⟩ := h.of_append ht
  exact ⟨v', hw', v, v', from?_add hv, from?_add hw', hrest.dropWhile⟩

theorem Abreast.le_byteLength (h : Abreast blank text text' i i') :
    i ≤ text.byteLength ∧ i' ≤ text'.byteLength := by
  obtain ⟨v, v', hv, hv', -⟩ := h
  exact ⟨le_byteLength_of_isBoundary (isBoundary_of_from? hv),
    le_byteLength_of_isBoundary (isBoundary_of_from? hv')⟩

/-- The one text ends where the other one does. -/
theorem Abreast.byteLength_le (h : Abreast blank text text' i i') (hi : text.byteLength ≤ i) :
    text'.byteLength ≤ i' := by
  obtain ⟨v, v', hv, hv', h, -, hstart'⟩ := h
  obtain ⟨u, rfl, rfl⟩ := from?_eq_some_iff.1 hv
  obtain ⟨u', rfl, rfl⟩ := from?_eq_some_iff.1 hv'
  simp only [byteLength_append] at hi ⊢
  obtain rfl : v = [] := byteLength_eq_zero.1 (by omega)
  rw [h.eq_nil hstart', byteLength_nil]
  exact Nat.le_refl _

/-- Of two places in a text behind which no blank is, one with the same characters behind it as the
other one, blanks apart, is the other one. -/
theorem eq_of_filter_eq (hv : text.from? i = some v) (hw : text.from? j = some w)
    (hstart : v.takeWhile blank = []) (hstart' : w.takeWhile blank = [])
    (h : v.filter (!blank ·) = w.filter (!blank ·)) : i = j := by
  -- The text between the places is blank.
  have hle {v w : Text} {i j : Nat} (hv : text.from? i = some v) (hw : text.from? j = some w)
      (hstart : v.takeWhile blank = []) (h : v.filter (!blank ·) = w.filter (!blank ·))
      (hij : i ≤ j) : i = j := by
    obtain ⟨t, -, rfl, rfl⟩ := exists_slice?_of_from? hv hw hij
    have hblank : IsBlank blank t := isBlank_of_filter_eq_nil (by simpa using h)
    rw [hblank.eq_nil hstart, byteLength_nil, Nat.add_zero]
  rcases Nat.le_total i j with hij | hij
  · exact hle hv hw hstart h hij
  · exact (hle hw hv hstart' h.symm hij).symm

/-- Abreast offsets correspond one to one. -/
theorem Abreast.eq_iff (h : Abreast blank text text' i i') (h' : Abreast blank text text' j j') :
    i = j ↔ i' = j' := by
  obtain ⟨v, v', hv, hv', hrest, hstart, hstart'⟩ := h
  obtain ⟨w, w', hw, hw', hrest', hend, hend'⟩ := h'
  constructor
  · rintro rfl
    obtain rfl := Option.some.inj (hv.symm.trans hw)
    exact eq_of_filter_eq hv' hw' hstart' hend' (hrest.filter_eq.symm.trans hrest'.filter_eq)
  · rintro rfl
    obtain rfl := Option.some.inj (hv'.symm.trans hw')
    exact eq_of_filter_eq hv hw hstart hend (hrest.filter_eq.trans hrest'.filter_eq.symm)

/-- In texts that differ in their spacing abreast offsets have the same characters before them. -/
theorem Abreast.corresponds (hs : SameUpToSpacing blank text text')
    (h : Abreast blank text text' i i') : Corresponds blank text text' i i' := by
  obtain ⟨v, v', hv, hv', hrest, hstart, hstart'⟩ := h
  obtain ⟨u, rfl, rfl⟩ := from?_eq_some_iff.1 hv
  obtain ⟨u', rfl, rfl⟩ := from?_eq_some_iff.1 hv'
  refine ⟨u, v, u', v', rfl, rfl, rfl, rfl, ?_, hstart, hstart'⟩
  have hfilter := hs.filter_eq
  rw [List.filter_append, List.filter_append, hrest.filter_eq] at hfilter
  exact List.append_cancel_right hfilter

end GrammarMachine.Text
