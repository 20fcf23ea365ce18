import GrammarMachine.OperatorTable
import GrammarMachine.Proofs.Forwards.Cells
import GrammarMachine.Proofs.Semantics.Answers

/-!
# Forward references are written once and looked up late

What is asked of the cells in the course of a construction is kept in a list, refused requests
included. The list is all that is needed to tell what the cells hold: of several programs asked for,
a cell has the first.

* `Build.Requests x fs bs`: the construction `x` uses forward references by their operations alone.
  From the cells `fs` it asks for the bindings `bs`.
* `Build.Requests.fix`, `Build.Requests.letrec`, `OperatorTable.exists_requests`: programs that
  refer to themselves, to each other, and operator tables are such constructions, around closures
  that are; and which cells they bind.
* `Build.Requests.get?`: the cells afterwards.
* `Forward.finish_outcome`: what becomes of a group of cells that is finished.
* `Build.Requests.first_binding`: binding, defining again, matching and finishing after any history,
  and going on with one of these constructions (`Build.Composite`).
-/

namespace GrammarMachine

variable {α β γ : Type} {fs fs' : Forwards α}

namespace Build

/-- Goes on with what came of a construction, be it an error. -/
def caught (x : Build α β) : Build α (Except BuildError β) := ExceptT.lift (ExceptT.run x)

/-- From the cells `fs` on, the construction uses forward references by their operations alone, and
asks for the bindings `bs`, in this order and whether or not they are granted. A look at the cells
stands for all that only reads them: whether a cell is defined, and every parse. -/
inductive Requests : {β : Type} → Build α β → Forwards α → List (Nat × Program α) → Prop
  | pure {β : Type} (b : β) (fs : Forwards α) : Requests (Pure.pure b) fs []
  | throw {β : Type} (e : BuildError) (fs : Forwards α) :
      Requests (MonadExcept.throw e : Build α β) fs []
  | look (fs : Forwards α) : Requests MonadState.get fs []
  | new (fs : Forwards α) : Requests Forward.new fs []
  | define {cell : Nat} {fs : Forwards α} (p : Program α) : cell < fs.cells.size →
      Requests (Forward.define cell p) fs [(cell, p)]
  /-- What `fix` and `letrec` do with their own cells. -/
  | bind {cell : Nat} {fs : Forwards α} (p : Program α) : cell < fs.cells.size →
      Requests (Forward.bind cell p) fs [(cell, p)]
  | caught {β : Type} {x : Build α β} {fs : Forwards α} {bs : List (Nat × Program α)} :
      Requests x fs bs → Requests x.caught fs bs
  | andThen {β γ : Type} {x : Build α β} {k : β → Build α γ} {fs fs' : Forwards α} {b : β}
      {bs bs' : List (Nat × Program α)} : Requests x fs bs → x.outcome fs = (.ok b, fs') →
      Requests (k b) fs' bs' → Requests (x >>= k) fs (bs ++ bs')
  | andFails {β γ : Type} {x : Build α β} {k : β → Build α γ} {fs fs' : Forwards α}
      {e : BuildError} {bs : List (Nat × Program α)} : Requests x fs bs →
      x.outcome fs = (.error e, fs') → Requests (x >>= k) fs bs

/-! ## The cells afterwards -/

/-- A cell that is there has the program that it had, or else the one that is offered. -/
theorem get?_offer {cell : Nat} (h : cell < fs.cells.size) (p : Program α) (other : Nat) :
    (fs.offer cell p).get? other = (fs.get? other).or (List.lookup other [(cell, p)]) := by
  rw [List.lookup_cons, List.lookup_nil]
  by_cases hc : other = cell
  · subst hc
    rw [beq_self_eq_true]
    exact Forwards.get?_offer_self h p
  · rw [beq_false_of_ne hc, Option.or_none]
    exact Forwards.get?_offer_ne p (Ne.symm hc)

/-- Of the programs that a cell was asked to hold it has the first, counting the one it held. -/
theorem Requests.get? {x : Build α β} {bs : List (Nat × Program α)} (h : x.Requests fs bs)
    (cell : Nat) : (x.outcome fs).2.get? cell = (fs.get? cell).or (bs.lookup cell) := by
  induction h with
  | pure | throw | look => exact (Option.or_none).symm
  | new fs => rw [Forward.new_outcome, Forwards.get?_push, List.lookup_nil, Option.or_none]
  | define p hlt => rw [Forward.define_outcome, get?_offer hlt]
  | bind p hlt => rw [Forward.bind_outcome, get?_offer hlt]
  | caught _ ih => exact ih
  | andThen _ hx _ ih ih' =>
    rw [hx] at ih
    rw [outcome_bind_ok hx, ih', ih, List.lookup_append, Option.or_assoc]
  | andFails _ hx ih =>
    rw [hx] at ih
    rw [outcome_bind_error hx, ih]

/-- No cell is lost. -/
theorem Requests.size_le {x : Build α β} {bs : List (Nat × Program α)} (h : x.Requests fs bs) :
    fs.cells.size ≤ (x.outcome fs).2.cells.size := by
  induction h with
  | pure | throw | look => exact Nat.le_refl _
  | new fs => rw [Forward.new_outcome, Forwards.size_push]; exact Nat.le_succ _
  | define p => exact Nat.le_of_eq (by rw [Forward.define_outcome, Forwards.size_offer])
  | bind p => exact Nat.le_of_eq (by rw [Forward.bind_outcome, Forwards.size_offer])
  | caught _ ih => exact ih
  | andThen _ hx _ ih ih' =>
    rw [hx] at ih
    rw [outcome_bind_ok hx]
    exact Nat.le_trans ih ih'
  | andFails _ hx ih =>
    rw [hx] at ih
    rwa [outcome_bind_error hx]

theorem Requests.lt_size {x : Build α β} {bs : List (Nat × Program α)} (h : x.Requests fs bs)
    {r : Except BuildError β} (hx : x.outcome fs = (r, fs')) {cell : Nat}
    (hcell : cell < fs.cells.size) : cell < fs'.cells.size := by
  have hle := h.size_le
  rw [hx] at hle
  exact Nat.lt_of_lt_of_le hcell hle

/-! ## Constructions around closures -/

/-- What comes behind a construction that asks for nothing. -/
theorem Requests.behind {x : Build α β} {k : β → Build α γ} {b : β} {bs : List (Nat × Program α)}
    (h : x.Requests fs []) (hx : x.outcome fs = (.ok b, fs')) (hk : (k b).Requests fs' bs) :
    (x >>= k).Requests fs bs :=
  h.andThen hx hk

/-- What asks for nothing behind a construction. -/
theorem Requests.before {x : Build α β} {k : β → Build α γ} {b : β} {bs : List (Nat × Program α)}
    (h : x.Requests fs bs) (hx : x.outcome fs = (.ok b, fs')) (hk : (k b).Requests fs' []) :
    (x >>= k).Requests fs bs := by
  rw [← List.append_nil bs]
  exact h.andThen hx hk

theorem requests_news (n : Nat) (fs : Forwards α) : (Forward.news n).Requests fs [] := by
  induction n generalizing fs with
  | zero => exact .pure _ _
  | succ n ih =>
    obtain ⟨fs', hrun, -⟩ := Forward.news_run n fs.push
    exact .behind (.new fs) (Forward.new_outcome fs)
      (.behind (ih _) (run_eq_ok_iff.1 hrun) (.pure _ _))

/-- Cells take programs in order; none of them is refused. -/
theorem requests_bindAll {cells : List Nat} (ps : List (Program α))
    (h : ∀ cell ∈ cells, cell < fs.cells.size) :
    (Forward.bindAll cells ps).Requests fs (cells.zip ps) ∧
      ∃ fs', (Forward.bindAll cells ps).outcome fs = (.ok (), fs') := by
  induction cells generalizing fs ps with
  | nil => exact ⟨.pure _ _, fs, rfl⟩
  | cons cell cells ih =>
    cases ps with
    | nil => exact ⟨.pure _ _, fs, rfl⟩
    | cons p ps =>
      have hbind := Forward.bind_outcome cell p fs
      have hlt : ∀ c ∈ cells, c < (fs.offer cell p).cells.size := fun c hc =>
        Nat.lt_of_lt_of_eq (h c (List.mem_cons_of_mem _ hc)) (Forwards.size_offer fs cell p).symm
      obtain ⟨hreq, fs', hrest⟩ := ih ps hlt
      exact ⟨.andThen (.bind p (h cell List.mem_cons_self)) hbind hreq, fs',
        (outcome_bind_ok hbind _).trans hrest⟩

/-- A program that refers to itself is asked for behind all that the closure asks for, unless the
closure fails. -/
theorem Requests.fix {body : Nat → Build α (Program α)} {bs : List (Nat × Program α)}
    {r : Except BuildError (Program α)} (h : (body fs.cells.size).Requests fs.push bs)
    (hbody : (body fs.cells.size).outcome fs.push = (r, fs')) :
    (GrammarMachine.fix body).Requests fs (bs ++ r.toOption.toList.map (fs.cells.size, ·)) := by
  refine .behind (.new fs) (Forward.new_outcome fs) ?_
  cases r with
  | error e => exact (List.append_nil bs).symm ▸ h.andFails hbody
  | ok p =>
    have hlt : fs.cells.size < fs'.cells.size :=
      h.lt_size hbody (Nat.lt_of_lt_of_eq (Nat.lt_succ_self _) (Forwards.size_push fs).symm)
    exact .andThen h hbody (.before (.bind p hlt) (Forward.bind_outcome _ p fs') (.pure p _))

/-- Programs that refer to each other are asked for in order behind all that the closure asks for,
unless the closure fails. -/
theorem Requests.letrec {n : Nat} {bodies : List Nat → Build α (List (Program α))}
    {cells : List Nat} {fs₁ : Forwards α} {bs : List (Nat × Program α)}
    {r : Except BuildError (List (Program α))}
    (hnews : (Forward.news n).outcome fs = (.ok cells, fs₁)) (h : (bodies cells).Requests fs₁ bs)
    (hbodies : (bodies cells).outcome fs₁ = (r, fs')) :
    (GrammarMachine.letrec n bodies).Requests fs (bs ++ cells.zip (r.toOption.getD [])) := by
  refine .behind (requests_news n fs) hnews ?_
  cases r with
  | error e =>
    rw [Except.toOption, Option.getD_none, List.zip_nil_right, List.append_nil]
    exact h.andFails hbodies
  | ok ps =>
    obtain ⟨fs₂, hrun, hsize, -⟩ := Forward.news_run n fs
    cases (run_eq_ok_iff.1 hrun).symm.trans hnews
    have hlt : ∀ cell ∈ List.range' fs.cells.size n, cell < fs'.cells.size := fun cell hcell => by
      obtain ⟨i, hi, rfl⟩ := List.mem_range'.1 hcell
      exact h.lt_size hbodies (by omega)
    obtain ⟨hreq, fs'', hbind⟩ := requests_bindAll ps hlt
    exact .andThen h hbodies (.before hreq hbind (.pure ps _))

theorem exists_requests_bind {x : Build α β} {k : β → Build α γ}
    (hx : ∃ bs, x.Requests fs bs)
    (hk : ∀ b fs', x.outcome fs = (.ok b, fs') → ∃ bs, (k b).Requests fs' bs) :
    ∃ bs, (x >>= k).Requests fs bs := by
  obtain ⟨bs, hbs⟩ := hx
  rcases hout : x.outcome fs with ⟨e | b, fs'⟩
  · exact ⟨bs, hbs.andFails hout⟩
  · obtain ⟨bs', hbs'⟩ := hk b fs' hout
    exact ⟨bs ++ bs', hbs.andThen hout hbs'⟩

end Build

namespace OperatorTable

section

variable {lexicon : Lexicon α} {symbols : Keywords} {cells : List Nat}

/-- Only the closure of a level asks for anything when its program is built. -/
theorem exists_requests_levelProgram {this next : Pattern α} {level : Level α}
    (hbody : ∀ body, level = .primary body → ∃ bs, (body cells).Requests fs bs) :
    ∃ bs, (levelProgram lexicon symbols cells this next level).Requests fs bs := by
  cases level with
  | primary body => exact hbody body rfl
  | left | right | prefixed | postfixed => exact ⟨[], .pure _ _⟩

variable {levels : List (Level α)} {below : List Nat}

/-- The programs of the levels are asked for in order, each behind all that its closure asks for. -/
theorem exists_requests_buildLevels (hbelow : ∀ cell ∈ below, cell < fs.cells.size)
    (hcells : ∀ cell ∈ cells, cell < fs.cells.size)
    (hbodies : ∀ body, .primary body ∈ levels → ∀ fs : Forwards α,
      (∀ cell ∈ cells, cell < fs.cells.size) → ∃ bs, (body cells).Requests fs bs) :
    ∃ bs, (buildLevels lexicon symbols cells levels below).Requests fs bs := by
  induction levels generalizing below fs with
  | nil => exact ⟨[], .pure _ _⟩
  | cons level levels ih =>
    cases below with
    | nil => exact ⟨[], .pure _ _⟩
    | cons this below =>
      obtain ⟨bs, hlevel⟩ := @exists_requests_levelProgram _ fs lexicon symbols cells
        (.forward this) (.forward (below.headD this)) level
        fun body hbody => hbodies body (hbody ▸ List.mem_cons_self) fs hcells
      refine Build.exists_requests_bind ⟨bs, hlevel⟩ fun p fs₁ hp => ?_
      have hthis : this < fs₁.cells.size := hlevel.lt_size hp (hbelow this List.mem_cons_self)
      have hdefine := Build.Requests.define p hthis
      refine Build.exists_requests_bind ⟨_, hdefine⟩ fun u fs₂ hu => ?_
      have hlt {c : Nat} (hc : c < fs.cells.size) : c < fs₂.cells.size :=
        hdefine.lt_size hu (hlevel.lt_size hp hc)
      refine Build.exists_requests_bind (ih ?_ ?_ ?_) fun ps fs₃ _ => ⟨[], .pure _ _⟩
      · exact fun c hc => hlt (hbelow c (List.mem_cons_of_mem _ hc))
      · exact fun c hc => hlt (hcells c hc)
      · exact fun body hbody => hbodies body (List.mem_cons_of_mem _ hbody)

/-- If none of the levels is refused, their cells have their programs. -/
theorem get?_buildLevels (hbelow : ∀ cell ∈ below, cell < fs.cells.size)
    (hcells : ∀ cell ∈ cells, cell < fs.cells.size)
    (hbodies : ∀ body, .primary body ∈ levels → ∀ fs : Forwards α,
      (∀ cell ∈ cells, cell < fs.cells.size) → ∃ bs, (body cells).Requests fs bs)
    {ps : List (Program α)}
    (hps : (buildLevels lexicon symbols cells levels below).outcome fs = (.ok ps, fs'))
    (hlen : below.length = levels.length) : below.map fs'.get? = ps.map some := by
  induction levels generalizing below fs ps with
  | nil =>
    obtain rfl := List.length_eq_zero_iff.1 hlen
    cases hps
    rfl
  | cons level levels ih =>
    cases below with
    | nil => cases hlen
    | cons this below =>
      obtain ⟨bs, hlevel⟩ := @exists_requests_levelProgram _ fs lexicon symbols cells
        (.forward this) (.forward (below.headD this)) level
        fun body hbody => hbodies body (hbody ▸ List.mem_cons_self) fs hcells
      obtain ⟨p, fs₁, hp, hps⟩ := Build.bind_ok (Build.run_eq_ok_iff.2 hps)
      obtain ⟨u, fs₂, hu, hps⟩ := Build.bind_ok hps
      obtain ⟨ps', fs₃, hps', hps⟩ := Build.bind_ok hps
      rw [Build.run_eq_ok_iff] at hp hps' hps
      cases hps
      have hthis : this < fs₁.cells.size := hlevel.lt_size hp (hbelow this List.mem_cons_self)
      have hdefine := Build.Requests.define p hthis
      have hlt {c : Nat} (hc : c < fs.cells.size) : c < fs₂.cells.size :=
        hdefine.lt_size (Build.run_eq_ok_iff.1 hu) (hlevel.lt_size hp hc)
      have hbelow' : ∀ c ∈ below, c < fs₂.cells.size :=
        fun c hc => hlt (hbelow c (List.mem_cons_of_mem _ hc))
      have hcells' : ∀ c ∈ cells, c < fs₂.cells.size := fun c hc => hlt (hcells c hc)
      have hbodies' := fun body hbody => hbodies body (List.mem_cons_of_mem _ hbody)
      obtain ⟨bs', hreq⟩ := @exists_requests_buildLevels _ fs₂ lexicon symbols cells levels below
        hbelow' hcells' hbodies'
      have hfirst : fs'.get? this = some p := by
        have hget := hreq.get? this
        rw [hps'] at hget
        obtain ⟨-, rfl⟩ := Forward.define_ok hu
        rwa [Forwards.get?_set_self p hthis] at hget
      have hrest := ih hbelow' hcells' hbodies' hps' (Nat.succ.inj hlen)
      rw [List.map_cons, List.map_cons, hfirst, hrest]

end

/-- An operator table is built of operations on cells, around closures that are. If it is built, its
new cells have the programs of its levels, and its own program is that of the loosest. -/
theorem exists_requests {lexicon : Lexicon α} {t : OperatorTable α}
    (hbodies : ∀ body, .primary body ∈ t → ∀ (cells : List Nat) (fs : Forwards α),
      (∀ cell ∈ cells, cell < fs.cells.size) → ∃ bs, (body cells).Requests fs bs) :
    (∃ bs, (build lexicon t).Requests fs bs) ∧
    ∀ p fs', (build lexicon t).outcome fs = (.ok p, fs') →
      ∃ ps : List (Program α),
        (List.range' fs.cells.size t.length).map fs'.get? = ps.map some ∧ ps.head? = some p := by
  rw [build]
  cases t.getLast? with
  | none => exact ⟨⟨[], .throw _ _⟩, nofun⟩
  | some last =>
    dsimp only
    split
    · exact ⟨⟨[], .throw _ _⟩, nofun⟩
    obtain ⟨fs₁, hrun, hsize, -⟩ := Forward.news_run t.length fs
    rw [Build.run_eq_ok_iff] at hrun
    have hcells : ∀ cell ∈ List.range' fs.cells.size t.length, cell < fs₁.cells.size :=
      fun cell hcell => by
        obtain ⟨i, hi, rfl⟩ := List.mem_range'.1 hcell
        omega
    constructor
    · refine Build.exists_requests_bind ⟨[], Build.requests_news t.length fs⟩
        fun cells fs₂ hnews => ?_
      cases hrun.symm.trans hnews
      refine Build.exists_requests_bind (exists_requests_buildLevels hcells hcells
        fun body hbody => hbodies body hbody _) fun ps fs₂ _ => ?_
      cases ps with
      | nil => exact ⟨[], .throw _ _⟩
      | cons p ps => exact ⟨[], .pure _ _⟩
    · intro p fs' hp
      rw [Build.outcome_bind_ok hrun] at hp
      obtain ⟨ps, fs₂, hps, hp⟩ := Build.bind_ok (Build.run_eq_ok_iff.2 hp)
      rw [Build.run_eq_ok_iff] at hps
      cases ps with
      | nil => cases hp
      | cons q ps =>
        cases hp
        exact ⟨_, get?_buildLevels hcells hcells (fun body hbody => hbodies body hbody _) hps
          List.length_range', rfl⟩

end OperatorTable

/-! ## Groups of cells -/

theorem Forward.requests_finish (cells : List Nat) (fs : Forwards α) :
    (finish cells).Requests fs [] := by
  suffices h : ∀ index, (finish.go index cells : Build α _).Requests fs [] from h 0
  induction cells with
  | nil => exact fun _ => .pure _ _
  | cons cell cells ih =>
    intro index
    refine .behind (.look fs) rfl ?_
    cases fs.get? cell with
    | none => exact .throw _ _
    | some p =>
      rcases h : (finish.go (index + 1) cells).outcome fs with ⟨e | ps, fs'⟩
      · exact .andFails (ih _) h
      · exact .behind (ih _) h (.pure _ _)

/-- A group that is finished gives the programs of all cells in order, or tells the place of the
first cell without one. -/
theorem Forward.finish_outcome (cells : List Nat) (fs : Forwards α) :
    (∃ ps, cells.map fs.get? = ps.map some ∧ (finish cells).outcome fs = (.ok ps, fs)) ∨
      ∃ i cell, cells[i]? = some cell ∧ fs.get? cell = none ∧
        (∀ j < i, ∀ c, cells[j]? = some c → (fs.get? c).isSome) ∧
        (finish cells).outcome fs = (.error (.forwardUndefined i), fs) := by
  suffices h : ∀ index,
      (∃ ps, cells.map fs.get? = ps.map some ∧
        (finish.go index cells).outcome fs = (.ok ps, fs)) ∨
      ∃ i cell, cells[i]? = some cell ∧ fs.get? cell = none ∧
        (∀ j < i, ∀ c, cells[j]? = some c → (fs.get? c).isSome) ∧
        (finish.go index cells).outcome fs = (.error (.forwardUndefined (index + i)), fs) by
    simpa [finish] using h 0
  induction cells with
  | nil => exact fun _ => .inl ⟨[], rfl, rfl⟩
  | cons cell cells ih =>
    intro index
    rw [finish.go, Build.outcome_get_bind]
    cases hcell : fs.get? cell with
    | none =>
      exact .inr ⟨0, cell, rfl, hcell, fun j hj => absurd hj (Nat.not_lt_zero j), rfl⟩
    | some p =>
      rcases ih (index + 1) with ⟨ps, hps, hgo⟩ | ⟨i, c, hi, hc, hbefore, hgo⟩
      · refine .inl ⟨p :: ps, by simp [hcell, hps], ?_⟩
        exact Build.outcome_bind_ok hgo _
      · refine .inr ⟨i + 1, c, hi, hc, fun j hj d hd => ?_, ?_⟩
        · cases j with
          | zero =>
            obtain rfl := Option.some.inj hd
            simp [hcell]
          | succ j => exact hbefore j (Nat.lt_of_succ_lt_succ hj) d hd
        · rw [Nat.add_right_comm, Nat.add_assoc] at hgo
          exact Build.outcome_bind_error hgo _

/-! ## Any history -/

/-- What the operations ask for that create cells of their own and bind them, around closures that
use forward references by their operations alone. -/
structure Build.Composite (fs : Forwards α) : Prop where
  /-- `fix` asks for the program of its closure behind all that the closure asks for. -/
  fix : ∀ (body : Nat → Build α (Program α)) bs r fs',
    (body fs.cells.size).Requests fs.push bs → (body fs.cells.size).outcome fs.push = (r, fs') →
    (GrammarMachine.fix body).Requests fs (bs ++ r.toOption.toList.map (fs.cells.size, ·))
  /-- `letrec` asks for the programs of its closure in order. -/
  letrec : ∀ n (bodies : List Nat → Build α (List (Program α))) cells fs₁ bs r fs',
    (Forward.news n).outcome fs = (.ok cells, fs₁) → (bodies cells).Requests fs₁ bs →
    (bodies cells).outcome fs₁ = (r, fs') →
    (GrammarMachine.letrec n bodies).Requests fs (bs ++ cells.zip (r.toOption.getD []))
  /-- A table is such a construction too. Once it is built its cells have the programs of its
  levels, and its own program is that of the loosest. -/
  table : ∀ (lexicon : Lexicon α) (t : OperatorTable α),
    (∀ body, .primary body ∈ t → ∀ (cells : List Nat) (fs : Forwards α),
      (∀ cell ∈ cells, cell < fs.cells.size) → ∃ bs, (body cells).Requests fs bs) →
    (∃ bs, (OperatorTable.build lexicon t).Requests fs bs) ∧
    ∀ p fs', (OperatorTable.build lexicon t).outcome fs = (.ok p, fs') →
      ∃ ps : List (Program α),
        (List.range' fs.cells.size t.length).map fs'.get? = ps.map some ∧ ps.head? = some p

theorem Build.composite (fs : Forwards α) : Composite fs where
  fix _ _ _ _ := Requests.fix
  letrec _ _ _ _ _ _ _ := Requests.letrec
  table _ _ := OperatorTable.exists_requests

/-- After any history, every cell has the first program that was asked for, if it had none before:
to define it again is an error that changes nothing, a reference to it matches as that program does,
and a group is finished if all its cells have one. Recursive programs and operator tables go on with
the history, each with the bindings of its own cells. -/
theorem Build.Requests.first_binding {x : Build α β} {bs : List (Nat × Program α)}
    {r : Except BuildError β} (h : x.Requests fs bs) (hx : x.outcome fs = (r, fs')) :
    (∀ cell, fs'.get? cell = (fs.get? cell).or (bs.lookup cell)) ∧
    (∀ cell p q, fs'.get? cell = some q →
      (Forward.define cell p).outcome fs' = (.error .forwardAlreadyDefined, fs')) ∧
    (∀ cell p, fs'.get? cell = none → cell < fs'.cells.size →
      ∃ fs'', (Forward.define cell p).outcome fs' = (.ok (), fs'') ∧
        fs''.get? cell = some p ∧ ∀ c, c ≠ cell → fs''.get? c = fs'.get? c) ∧
    (∀ (cell : Nat) (text : Text) (i : Nat) (a : Option α) (v : Option (Match α)),
      (Pattern.forward cell).Answers fs' text i a v ↔
        match (fs.get? cell).or (bs.lookup cell) with
        | some p => p.Answers fs' text i a v
        | none => v = none) ∧
    (∀ cells, (∃ ps, cells.map fs'.get? = ps.map some ∧
        (Forward.finish cells).outcome fs' = (.ok ps, fs')) ∨
      ∃ i cell, cells[i]? = some cell ∧ fs'.get? cell = none ∧
        (∀ j < i, ∀ c, cells[j]? = some c → (fs'.get? c).isSome) ∧
        (Forward.finish cells).outcome fs' = (.error (.forwardUndefined i), fs')) ∧
    Composite fs' := by
  have hget (cell : Nat) : fs'.get? cell = (fs.get? cell).or (bs.lookup cell) := by
    rw [← h.get? cell, hx]
  refine ⟨hget, fun cell p q hq => ?_, fun cell p hnone hlt => ?_, fun cell text i a v => ?_,
    fun cells => Forward.finish_outcome cells fs', composite fs'⟩
  · rw [Forward.define_outcome, Forwards.offer_of_some hq, hq]
    rfl
  · refine ⟨fs'.set cell p, Build.run_eq_ok_iff.1 (Forward.define_run hnone p),
      Forwards.get?_set_self p hlt, fun c hc => Forwards.get?_set_ne p (Ne.symm hc)⟩
  · rw [← hget]
    cases hc : fs'.get? cell with
    | some p => exact Pattern.answers_forward_iff hc
    | none => simp only [Pattern.answers_iff, Pattern.Verdict, hc]

/-- A reference that is used before it is defined, by a program that refers to itself, by two that
refer to each other and by an operator table, and that is then defined twice. -/
theorem Build.Requests.first_binding_twice :
    let a : Program Nat := (Grammar.empty.token (.literal ['a'])).program
    let b : Program Nat := (Grammar.empty.token (.literal ['b'])).program
    let x : Build Nat (Except BuildError Unit) := do
      let cell ← Forward.new
      let _ ← GrammarMachine.fix fun self =>
        return (Grammar.empty.choice [.forward cell, .forward self]).program
      let _ ← GrammarMachine.letrec 2 fun cells =>
        return [(Grammar.empty.token (.forward (cells[1]?.getD 0))).program,
          (Grammar.empty.token (.forward cell)).program]
      let _ ← OperatorTable.build .empty [.left [⟨['+'], fun n m => n + m⟩],
        .primary fun _ => return (Grammar.empty.token (.forward cell)).program]
      Forward.define cell a
      Build.caught (Forward.define cell b)
    (x.outcome .empty).1 = .ok (.error .forwardAlreadyDefined) ∧
      (x.outcome .empty).2.get? 0 = some a ∧
      (Pattern.forward 1).Answers (x.outcome .empty).2 ['a'] 0 none (some ⟨['a'], 1, none, []⟩) ∧
      (Pattern.forward 2).Answers (x.outcome .empty).2 ['a'] 0 none (some ⟨['a'], 1, none, []⟩) ∧
      (Pattern.forward 4).Answers (x.outcome .empty).2 ['a', '+', 'a'] 0 none
        (some ⟨['a', '+', 'a'], 3, none, []⟩) ∧
      (Pattern.forward 0).Answers (x.outcome .empty).2 ['a'] 0 none
        (some ⟨['a'], 1, none, []⟩) := by
  intro a b x
  have hbodies : ∀ body, Level.primary body ∈ [.left [⟨['+'], fun n m => n + m⟩],
      .primary fun _ => return (Grammar.empty.token (.forward 0)).program] →
      ∀ (cells : List Nat) (fs : Forwards Nat), (∀ cell ∈ cells, cell < fs.cells.size) →
      ∃ bs, (body cells).Requests fs bs := by
    rintro _ (_ | ⟨_, _ | ⟨_, ⟨⟩⟩⟩) cells fs -
    exact ⟨[], .pure _ _⟩
  obtain ⟨⟨bs, htable⟩, -⟩ := (Build.composite _).table .empty _ hbodies
  obtain ⟨bs, hx⟩ : ∃ bs, x.Requests .empty bs :=
    ⟨_, .behind (.new _) rfl <| .andThen (.fix (.pure _ _) rfl) rfl <|
      .andThen (.letrec rfl (.pure _ _) rfl) rfl <| .andThen htable rfl <|
      .andThen (.define a (by decide)) rfl <| .caught (.define b (by decide))⟩
  obtain ⟨hget, -, -, hforward, -⟩ := hx.first_binding rfl
  refine ⟨rfl, rfl, ?_, ?_, ?_, (hforward 0 _ _ _ _).2 ?_⟩
  · exact Pattern.answers_of_outcome? 8 (by decide +kernel)
  · exact Pattern.answers_of_outcome? 8 (by decide +kernel)
  · exact Pattern.answers_of_outcome? 8 (by decide +kernel)
  · rw [← hget 0]
    exact Pattern.answers_program_iff.1 (Pattern.answers_of_outcome? 8 (by decide +kernel))

end GrammarMachine
