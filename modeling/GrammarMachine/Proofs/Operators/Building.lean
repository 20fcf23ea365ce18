import GrammarMachine.OperatorTable
import GrammarMachine.Proofs.Forwards.Cells

/-!
# Building operator tables

The programs of a table end up in consecutive new cells, one for each level, so that the reference
to a level finds the program of that level.

* `Level.Yields`: what a level is built to, whatever the cells hold.
* `OperatorTable.build_ok`: if all levels are built so, the table is, and each cell holds the
  program of its level.
* `OperatorTable.get?_of_build_ok`: in every table that is built, the cell of each level of
  operators holds its program.
-/

namespace GrammarMachine

variable {α : Type}

/-- Building the level gives the program and leaves all cells alone. `this` and `next` are the cells
of the level itself and of the one below it. -/
def Level.Yields (lexicon : Lexicon α) (symbols : Keywords) (cells : List Nat) (this next : Nat)
    (level : Level α) (p : Program α) : Prop :=
  OperatorTable.levelProgram lexicon symbols cells (.forward this) (.forward next) level = pure p

theorem Level.Yields.unique {lexicon : Lexicon α} {symbols : Keywords} {cells : List Nat}
    {this next : Nat} {level : Level α} {p q : Program α}
    (hp : level.Yields lexicon symbols cells this next p)
    (hq : level.Yields lexicon symbols cells this next q) : p = q :=
  Build.pure_inj (hp.symm.trans hq)

theorem Level.Yields.run_eq {lexicon : Lexicon α} {symbols : Keywords} {cells : List Nat}
    {this next : Nat} {level : Level α} {p : Program α}
    (h : level.Yields lexicon symbols cells this next p) (fs : Forwards α) :
    (OperatorTable.levelProgram lexicon symbols cells (.forward this) (.forward next) level).run fs
      = .ok (p, fs) := by
  rw [h]
  rfl

/-- A construction that only creates cells and defines undefined ones. -/
def Build.Grows {β : Type} (x : Build α β) : Prop :=
  ∀ fs fs' b, x.run fs = .ok (b, fs') → fs.Extends fs'

theorem Build.grows_pure {β : Type} (b : β) : (pure b : Build α β).Grows := by
  rintro fs fs' _ ⟨⟩
  exact .refl fs

namespace OperatorTable

/-- The cell below the cell at place `i` of `n` consecutive cells from `b` on. -/
def below (b n i : Nat) : Nat := if i + 1 < n then b + i + 1 else b + i

theorem headD_range' (b n : Nat) : (List.range' (b + 1) n).headD b = below b (n + 1) 0 := by
  cases n <;> simp [below, List.range'_succ]

theorem below_succ (b n i : Nat) : below (b + 1) n i = below b (n + 1) (i + 1) := by
  unfold below
  split <;> split <;> omega

/-- Levels whose programs do not depend on the cells are built in order, each into its cell. -/
theorem buildLevels_run {lexicon : Lexicon α} {symbols : Keywords} {cells : List Nat}
    {levels : List (Level α)} {b : Nat} {fs : Forwards α}
    (hp : ∀ (i : Nat) (level : Level α), levels[i]? = some level →
      ∃ p, level.Yields lexicon symbols cells (b + i) (below b levels.length i) p)
    (hsize : b + levels.length ≤ fs.cells.size) (hfree : ∀ c, b ≤ c → fs.get? c = none) :
    ∃ ps fs', (buildLevels lexicon symbols cells levels (List.range' b levels.length)).run fs =
        .ok (ps, fs') ∧
      (∀ (i : Nat) (level : Level α) (p : Program α), levels[i]? = some level →
        level.Yields lexicon symbols cells (b + i) (below b levels.length i) p →
        fs'.get? (b + i) = some p ∧ ps[i]? = some p) ∧
      ∀ c, c < b → fs'.get? c = fs.get? c := by
  induction levels generalizing b fs with
  | nil =>
    refine ⟨[], fs, rfl, fun i level p h => ?_, fun _ _ => rfl⟩
    cases h
  | cons level levels ih =>
    obtain ⟨p, hlevel⟩ := hp 0 level List.getElem?_cons_zero
    have hb : b < fs.cells.size := by
      rw [List.length_cons] at hsize
      omega
    have hsize' : b + 1 + levels.length ≤ (fs.set b p).cells.size := by
      have hset : (fs.set b p).cells.size = fs.cells.size := by simp [Forwards.set]
      rw [List.length_cons] at hsize
      omega
    obtain ⟨ps, fs', hrun, hps, hrest⟩ := ih (b := b + 1)
      (fun i l hl => by
        obtain ⟨q, hq⟩ := hp (i + 1) l hl
        rw [List.length_cons, ← below_succ, ← Nat.add_assoc, Nat.add_right_comm] at hq
        exact ⟨q, hq⟩)
      hsize' (fun c hc => by
        rw [Forwards.get?_set_ne p (by omega)]
        exact hfree c (by omega))
    refine ⟨p :: ps, fs', ?_, ?_, fun c hc => ?_⟩
    · rw [List.length_cons, Nat.add_zero] at hlevel
      rw [List.length_cons, List.range'_succ, buildLevels, headD_range',
        Build.run_bind (hlevel.run_eq fs),
        Build.run_bind (Forward.define_run (hfree b (Nat.le_refl b)) p), Build.run_bind hrun]
      rfl
    · intro i l q hl hq
      cases i with
      | zero =>
        obtain rfl := Option.some.inj hl
        obtain rfl := Level.Yields.unique hlevel hq
        refine ⟨?_, rfl⟩
        rw [Nat.add_zero, hrest b (by omega), Forwards.get?_set_self p hb]
      | succ i =>
        rw [List.length_cons, ← below_succ, ← Nat.add_assoc, Nat.add_right_comm] at hq
        obtain ⟨hget, hi⟩ := hps i l q hl hq
        exact ⟨by rwa [← Nat.add_assoc, Nat.add_right_comm], hi⟩
    · rw [hrest c (by omega), Forwards.get?_set_ne p (by omega)]

/-- The cells of a table that is built where `b` cells have been created. -/
def cells (t : OperatorTable α) (b : Nat) : List Nat := List.range' b t.length

/-- A table whose levels are built whatever the cells hold is built. The cell of each level holds
its program, and the program of the table is that of the loosest level. -/
theorem build_ok {lexicon : Lexicon α} {t : OperatorTable α} (fs : Forwards α)
    (hlast : ∃ l, t.getLast? = some l ∧ l.isPrimary)
    (hp : ∀ (i : Nat) (level : Level α), t[i]? = some level → ∃ p, level.Yields lexicon t.symbols
      (t.cells fs.cells.size) (fs.cells.size + i) (below fs.cells.size t.length i) p) :
    ∃ p fs', (build lexicon t).run fs = .ok (p, fs') ∧
      fs'.get? fs.cells.size = some p ∧
      ∀ (i : Nat) (level : Level α) (q : Program α), t[i]? = some level →
        level.Yields lexicon t.symbols (t.cells fs.cells.size)
        (fs.cells.size + i) (below fs.cells.size t.length i) q →
        fs'.get? (fs.cells.size + i) = some q := by
  obtain ⟨l, hlast, hl⟩ := hlast
  obtain ⟨fs₁, hnews, hsize, hget⟩ := Forward.news_run t.length fs
  have hfree : ∀ c, fs.cells.size ≤ c → fs₁.get? c = none := fun c hc => by
    rw [hget, Forwards.get?_of_size_le hc]
  obtain ⟨ps, fs₂, hrun, hps, -⟩ := buildLevels_run hp (by omega) hfree
  have ht : 0 < t.length := by
    cases t with
    | nil => cases hlast
    | cons => simp
  obtain ⟨q, hq⟩ := hp 0 t[0] (by simp [ht])
  obtain ⟨hq₀, hps₀⟩ := hps 0 t[0] q (by simp [ht]) hq
  refine ⟨q, fs₂, ?_, hq₀, fun i level r hi hr => (hps i level r hi hr).1⟩
  cases ps with
  | nil => cases hps₀
  | cons p ps =>
    cases hps₀
    simp only [build, hlast, hl, Bool.not_true, Bool.false_eq_true, if_false]
    rw [cells] at hrun
    rw [Build.run_bind hnews, Build.run_bind hrun]
    rfl

/-! ## Every table that is built -/

/-- A level of operators has a program, whatever the cells hold. -/
theorem exists_yields {level : Level α} (h : level.isPrimary = false) (lexicon : Lexicon α)
    (symbols : Keywords) (cells : List Nat) (this next : Nat) :
    ∃ q, level.Yields lexicon symbols cells this next q := by
  cases level with
  | primary body => cases h
  | left ops | right ops | prefixed ops | postfixed ops => exact ⟨_, rfl⟩

/-- While a level is built the cells only grow. -/
theorem levelProgram_extends {lexicon : Lexicon α} {symbols : Keywords} {cells : List Nat}
    {this next : Nat} {level : Level α} {fs fs' : Forwards α} {p : Program α}
    (hgrows : ∀ body, level = .primary body → (body cells).Grows)
    (h : (levelProgram lexicon symbols cells (.forward this) (.forward next) level).run fs =
      .ok (p, fs')) : fs.Extends fs' := by
  cases hl : level.isPrimary with
  | true =>
    cases level with
    | primary body => exact hgrows body rfl fs fs' p h
    | left ops | right ops | prefixed ops | postfixed ops => cases hl
  | false =>
    obtain ⟨q, hq⟩ := exists_yields hl lexicon symbols cells this next
    cases h.symm.trans (hq.run_eq fs)
    exact .refl fs

/-- Once levels are built, the cell of each level of operators holds its program. -/
theorem buildLevels_ok {lexicon : Lexicon α} {symbols : Keywords} {cells : List Nat}
    {levels : List (Level α)} {b : Nat} {fs fs' : Forwards α} {ps : List (Program α)}
    (hgrows : ∀ body, .primary body ∈ levels → (body cells).Grows)
    (hsize : b + levels.length ≤ fs.cells.size)
    (h : (buildLevels lexicon symbols cells levels (List.range' b levels.length)).run fs =
      .ok (ps, fs')) :
    fs.Extends fs' ∧ ∀ (i : Nat) (level : Level α) (q : Program α), levels[i]? = some level →
      level.isPrimary = false →
      level.Yields lexicon symbols cells (b + i) (below b levels.length i) q →
      fs'.get? (b + i) = some q := by
  induction levels generalizing b fs ps with
  | nil =>
    cases h
    exact ⟨.refl _, fun i level q hi => nomatch hi⟩
  | cons level levels ih =>
    rw [List.length_cons, List.range'_succ, buildLevels, headD_range'] at h
    obtain ⟨p, fs₁, hlevel, h⟩ := Build.bind_ok h
    obtain ⟨u, fs₂, hdefine, h⟩ := Build.bind_ok h
    obtain ⟨ps', fs₃, hrest, h⟩ := Build.bind_ok h
    cases h
    have hfs₁ : fs.Extends fs₁ :=
      levelProgram_extends (fun body hbody => hgrows body (hbody ▸ List.mem_cons_self)) hlevel
    obtain ⟨hfree, rfl⟩ := Forward.define_ok hdefine
    have hset : (fs₁.set b p).cells.size = fs₁.cells.size := by simp [Forwards.set]
    have hsize₁ : b + (levels.length + 1) ≤ fs₁.cells.size := Nat.le_trans hsize hfs₁.size
    have hb : b < fs₁.cells.size := by omega
    obtain ⟨hfs₃, hcells⟩ := ih (b := b + 1)
      (fun body hbody => hgrows body (List.mem_cons_of_mem _ hbody)) (by omega) hrest
    refine ⟨(hfs₁.trans (Forwards.extends_set hfree p)).trans hfs₃, fun i l q hi hl hq => ?_⟩
    cases i with
    | zero =>
      obtain rfl := Option.some.inj hi
      cases hlevel.symm.trans (hq.run_eq fs)
      exact hfs₃.holds b _ (Forwards.get?_set_self _ hb)
    | succ i =>
      rw [List.length_cons, ← below_succ, ← Nat.add_assoc, Nat.add_right_comm] at hq
      have hget := hcells i l q hi hl hq
      rwa [Nat.add_right_comm, Nat.add_assoc] at hget

/-- Once a table is built, the cell of each level of operators holds its program. -/
theorem get?_of_build_ok {lexicon : Lexicon α} {t : OperatorTable α} {fs fs' : Forwards α}
    {p : Program α} (h : (build lexicon t).run fs = .ok (p, fs'))
    (hgrows : ∀ body, .primary body ∈ t → (body (t.cells fs.cells.size)).Grows) {i : Nat}
    {level : Level α} {q : Program α} (hi : t[i]? = some level) (hl : level.isPrimary = false)
    (hq : level.Yields lexicon t.symbols (t.cells fs.cells.size) (fs.cells.size + i)
      (fs.cells.size + (i + 1)) q) : fs'.get? (fs.cells.size + i) = some q := by
  rw [build] at h
  cases hlast : t.getLast? with
  | none =>
    rw [hlast] at h
    cases h
  | some last =>
    rw [hlast] at h
    cases hprimary : last.isPrimary with
    | false =>
      simp only [hprimary, Bool.not_false, if_true] at h
      cases h
    | true =>
      simp only [hprimary, Bool.not_true, Bool.false_eq_true, if_false] at h
      obtain ⟨fs₁, hnews, hsize, -⟩ := Forward.news_run t.length fs
      rw [Build.run_bind hnews] at h
      obtain ⟨ps, fs₂, hlevels, h⟩ := Build.bind_ok h
      obtain rfl : fs' = fs₂ := by
        cases ps with
        | nil => cases h
        | cons => cases h; rfl
      -- The last level is no level of operators, so there is one below.
      have hbelow : below fs.cells.size t.length i = fs.cells.size + (i + 1) := by
        obtain ⟨hlt, rfl⟩ := List.getElem?_eq_some_iff.1 hi
        refine if_pos (Nat.lt_of_le_of_ne hlt fun hend => ?_)
        rw [List.getLast?_eq_getElem?, ← hend, Nat.succ_sub_one, hi] at hlast
        cases hlast
        rw [hl] at hprimary
        cases hprimary
      exact (buildLevels_ok hgrows (by omega) hlevels).2 i level q hi hl (hbelow ▸ hq)

end OperatorTable

end GrammarMachine
