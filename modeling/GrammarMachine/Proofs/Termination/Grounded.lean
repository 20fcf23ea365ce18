import GrammarMachine.Proofs.Nesting.Resting
import GrammarMachine.Proofs.Safety.Faults

/-!
# Runs that come to an end

A program that tests no forward reference and no function of the user comes to an end on every text,
from every offset. What its repetition needs for that is that an iteration which is followed by
another one has made the text behind it shorter.

* `Text.remaining`: what lies behind an offset. `Text.Nearer`: staying, or nearer to the end.
* `Step.nearer`, `Step.isReady`: what one instruction does.
* `Program.exists_exec`: a call at the start of a program ends, if testing its patterns does.
* `Pattern.IsGrounded.exists_answers`: patterns without references and functions come to an answer.
-/

namespace GrammarMachine

variable {α : Type} {fs : Forwards α} {text : Text}

/-! ## Nearer to the end -/

/-- How much lies behind the offset. From inside a character that is more than from anywhere
else. -/
def Text.remaining (t : Text) (i : Nat) : Nat :=
  if t.isBoundary i then t.byteLength - i else t.byteLength + 1

/-- The offset `j` is `i`, or nearer to the end of the text. -/
def Text.Nearer (t : Text) (i j : Nat) : Prop := j = i ∨ t.remaining j < t.remaining i

theorem Text.Nearer.rfl {i : Nat} : text.Nearer i i := .inl (Eq.refl i)

theorem Text.Nearer.trans {i j k : Nat} (h : text.Nearer i j) (h' : text.Nearer j k) :
    text.Nearer i k := by
  rcases h with rfl | h
  · exact h'
  · rcases h' with rfl | h'
    · exact .inr h
    · exact .inr (Nat.lt_trans h' h)

theorem Text.Ahead.nearer {i j : Nat} (h : text.Ahead i j) (hj : text.isBoundary j) :
    text.Nearer i j := by
  have hle := Text.le_byteLength_of_isBoundary hj
  by_cases hi : text.isBoundary i
  · have hij := (h hi).2
    rw [Text.Nearer, Text.remaining, Text.remaining, if_pos hi, if_pos hj]
    omega
  · rw [Text.Nearer, Text.remaining, Text.remaining, if_neg hi, if_pos hj]
    omega

theorem Pattern.Answers.nearer {p : Pattern α} (hp : p.IsPlain) {i : Nat} {a : Option α}
    {m : Match α} (h : p.Answers fs text i a (some m)) : text.Nearer i m.lastIndex :=
  (h.ahead hp).nearer (h.isBoundary hp)

theorem Keywords.search_nearer {k : Keywords} {i : Nat} {found : Keywords.Found}
    (h : k.search text i = some found) : text.Nearer i found.lastIndex := by
  have hahead := Keywords.search_ahead h
  rw [Keywords.search_eq] at h
  obtain ⟨rest, hrest, -⟩ := Option.map_eq_some_iff.1 h
  exact hahead.nearer (hahead (Text.isBoundary_of_from? hrest)).1

theorem Skips.nearer {ignore : Option (Pattern α)} (h : ∀ p, ignore = some p → p.IsPlain)
    {i j : Nat} {a : Option α} (hs : Skips (Pattern.Answers fs text) ignore i a j) :
    text.Nearer i j := by
  cases hs with
  | nothing | stays => exact .rfl
  | moves hm => exact hm.nearer (h _ rfl)

theorem FirstMatch.nearer {ps : List (Pattern α)} (h : ∀ p ∈ ps, p.IsPlain) {i : Nat}
    {a : Option α} {m : Match α} (hp : FirstMatch (Pattern.Answers fs text) i a ps (some m)) :
    text.Nearer i m.lastIndex := by
  generalize hr : some m = r at hp
  induction hp with
  | nil => cases hr
  | here hp =>
    cases hr
    exact hp.nearer (h _ List.mem_cons_self)
  | later _ _ ih => exact ih (fun p hp => h p (List.mem_cons_of_mem _ hp)) hr

section

variable {code : Program α} {f g : Frame α}

theorem Step.nearer (hp : code.IsPlain) (h : Step (Pattern.Answers fs text) code text f (some g)) :
    text.Nearer f.index g.index := by
  cases h with
  | consume hi hm hs =>
    have hmatch := hm.nearer (hp.instrs _ (List.mem_of_getElem? hi))
    refine hmatch.trans (Skips.nearer (fun q hq => ?_) hs)
    split at hq
    · exact hp.ignore q hq
    · cases hq
  | choice hi hm hs =>
    exact (hm.nearer (hp.instrs _ (List.mem_of_getElem? hi))).trans (hs.nearer hp.ignore)
  | skip _ hs => exact hs.nearer hp.ignore
  | keyword _ hf _ hs => exact (Keywords.search_nearer hf).trans (hs.nearer hp.ignore)
  | loopStart | loopEnds | loopAgain | ahead | guard | assign | transform | dropAttributes =>
    exact .rfl

/-! ## One instruction -/

/-- A step of a sound program leads to a frame that is ready. -/
theorem Step.isReady (hc : code.IsSound)
    (h : Step (Pattern.Answers fs text) code text f (some g)) (hf : f.IsReady code text) :
    g.IsReady code text := by
  obtain ⟨hcaptures, -, -, ⟨hpc, x, hx, -⟩ | ⟨back, max, hx, hpc⟩⟩ := h.pc_captures
  · refine hc.ready_of_succ (hcaptures.trans hf.captures) hpc hx fun hword => ?_
    obtain ⟨t, rfl⟩ := hword.exists_literal
    rcases h.of_consume hx with ⟨-, ho⟩ | ⟨m, i, hm, hs, ho⟩
    · cases ho
    · cases ho
      cases hs with
      | nothing => exact Pattern.Answers.isBoundary (p := .literal t) trivial hm
  · refine ⟨hcaptures.trans hf.captures, fun p positive hp => ?_⟩
    obtain ⟨i, c, min, exit, fold, init, hattempt, hback⟩ := hc.wellFormed.back _ _ _ hx
    rw [hpc, show f.pc - back = i by omega] at hp
    cases hattempt.symm.trans hp

end

/-- The patterns of the program come to an answer wherever the program may test them. -/
structure Program.IsTotal (fs : Forwards α) (text : Text) (code : Program α) : Prop where
  patterns : ∀ x ∈ code.instrs, ∀ p ∈ x.patterns, ∀ i a, (p.IsWordEnd → text.isBoundary i) →
    ∃ r, p.Answers fs text i a r
  ignore : ∀ p, code.ignore = some p → ∀ i a, ∃ r, p.Answers fs text i a r

section

variable {code : Program α} {f : Frame α} (hc : code.IsSound) (ht : code.IsTotal fs text)

include hc ht

/-- Every instruction other than the attempt of an iteration comes to something. -/
theorem Program.exists_step (hf : f.IsReady code text) {x : Instr (Pattern α) α}
    (hi : code.instrs[f.pc]? = some x) (hx : ¬ x.Attempts) :
    ∃ o, Step (Pattern.Answers fs text) code text f o := by
  have hskips (i : Nat) (a : Option α) :
      ∃ j, Skips (Pattern.Answers fs text) code.ignore i a j :=
    exists_skips fun p hp => ht.ignore p hp i a
  have hat (p : Pattern α) (hp : p ∈ x.patterns) (hend : p.IsWordEnd → text.isBoundary f.index) :
      ∃ r, p.Answers fs text f.index f.attr r :=
    ht.patterns x (List.mem_of_getElem? hi) p hp _ _ hend
  have hnoEnd {p : Pattern α} (hp : p ∈ x.patterns) (hx : ∀ positive, x ≠ .ahead p positive) :
      p.IsWordEnd → text.isBoundary f.index := fun hend => by
    obtain ⟨⟨positive, h⟩, -⟩ := hc.behindWord _ _ p hi hp hend
    exact absurd h (hx positive)
  cases x with
  | consume p action capture skips =>
    obtain ⟨r, hr⟩ := hat p List.mem_cons_self (hnoEnd List.mem_cons_self (by simp))
    cases r with
    | none => exact ⟨_, .consumeFails hi hr⟩
    | some m =>
      cases skips with
      | false => exact ⟨_, .consume hi hr .nothing⟩
      | true =>
        obtain ⟨j, hj⟩ := hskips m.lastIndex (f.matchAttr action m)
        exact ⟨_, .consume hi hr hj⟩
  | loopStart capture =>
    refine ⟨_, .loopStart hi ?_⟩
    rw [hf.captures]
    exact hc.wellFormed.captures _ _ capture hi rfl
  | loopTry => exact absurd trivial hx
  | loopBack back max =>
    by_cases hends : max.any (· ≤ f.count) ∨ f.index = f.start
    · exact ⟨_, .loopEnds hi hends⟩
    · obtain ⟨hmax, hmoved⟩ := not_or.1 hends
      exact ⟨_, .loopAgain hi hmax hmoved (hc.wellFormed.inside_back hi).1⟩
  | choice ps =>
    obtain ⟨r, hr⟩ := exists_firstMatch fun p hp => hat p hp (hnoEnd hp (by simp))
    cases r with
    | none => exact ⟨_, .choiceFails hi hr⟩
    | some m =>
      obtain ⟨j, hj⟩ := hskips m.lastIndex (f.keep (merge f.attr m.attr))
      exact ⟨_, .choice hi hr hj⟩
  | ahead p positive =>
    obtain ⟨r, hr⟩ := hat p List.mem_cons_self (hf.boundary p positive hi)
    by_cases hpos : r.isSome = positive
    · exact ⟨_, .ahead hi hr hpos⟩
    · exact ⟨_, .aheadFails hi hr hpos⟩
  | guard c =>
    by_cases hcond : c.apply f.attr
    · exact ⟨_, .guard hi hcond⟩
    · exact ⟨_, .guardFails hi hcond⟩
  | assign v => exact ⟨_, .assign hi⟩
  | transform t => exact ⟨_, .transform hi⟩
  | dropAttributes => exact ⟨_, .dropAttributes hi⟩
  | skip =>
    obtain ⟨j, hj⟩ := hskips f.index f.attr
    exact ⟨_, .skip hi hj⟩
  | keyword words word =>
    by_cases hfound : ∃ found, words.search text f.index = some found ∧ found.matched = word
    · obtain ⟨found, hsearch, hword⟩ := hfound
      obtain ⟨j, hj⟩ := hskips found.lastIndex f.attr
      exact ⟨_, .keyword hi hsearch hword hj⟩
    · exact ⟨_, .keywordFails hi fun found hsearch hword => hfound ⟨found, hsearch, hword⟩⟩

/-! ## Calls -/

variable (hp : code.IsPlain)

include hp

/-- A call comes to an end if it does from every frame at the address `k` that it may reach in a
straight line. -/
theorem Program.exists_exec_of_straight {k : Nat} (hf : f.IsReady code text) (hle : f.pc ≤ k)
    (hk : k ≤ code.instrs.length)
    (hline : ∀ (j : Nat) x, f.pc ≤ j → j < k → code.instrs[j]? = some x →
      ¬ x.Attempts ∧ ¬ x.Returns)
    (hend : ∀ g : Frame α, g.pc = k → g.start = f.start → g.IsReady code text →
      text.Nearer f.index g.index → ∃ r, Exec (Pattern.Answers fs text) code text g r) :
    ∃ r, Exec (Pattern.Answers fs text) code text f r := by
  induction hn : k - f.pc generalizing f with
  | zero => exact hend f (by omega) rfl hf .rfl
  | succ n ih =>
    have hlt : f.pc < k := by omega
    obtain ⟨x, hi⟩ : ∃ x, code.instrs[f.pc]? = some x := ⟨_, List.getElem?_eq_getElem (by omega)⟩
    obtain ⟨hattempts, hreturns⟩ := hline f.pc _ (Nat.le_refl _) hlt hi
    obtain ⟨o, ho⟩ := exists_step hc ht hf hi hattempts
    cases o with
    | none => exact ⟨none, .fail ho⟩
    | some g =>
      obtain ⟨-, hstart, -, ⟨hpc, -⟩ | ⟨back, max, hback, -⟩⟩ := ho.pc_captures
      · obtain ⟨r, hr⟩ := ih (f := g) (ho.isReady hc hf) (by omega)
          (fun j x hj => hline j x (by omega))
          (fun h hpc' hstart' hready hon =>
            hend h hpc' (hstart'.trans hstart) hready ((ho.nearer hp).trans hon))
          (by omega)
        exact ⟨r, .step ho hr⟩
      · cases hi.symm.trans hback
        exact absurd trivial hreturns

/-- Behind the loop a call runs to the end of the code. -/
theorem Program.exists_exec_behind (hf : f.IsReady code text) (hle : f.pc ≤ code.instrs.length)
    (hline : ∀ (j : Nat) x, f.pc ≤ j → code.instrs[j]? = some x → ¬ x.Attempts ∧ ¬ x.Returns) :
    ∃ r, Exec (Pattern.Answers fs text) code text f r :=
  exists_exec_of_straight hc ht hp hf hle (Nat.le_refl _) (fun j x hj _ => hline j x hj)
    fun _ hpc _ _ _ => ⟨_, .halt (List.getElem?_eq_none (Nat.le_of_eq hpc.symm))⟩

/-- The attempt of an iteration comes to an end, since a further one is made only where less is
left. -/
theorem Program.exists_exec_attempt (hf : f.IsReady code text) {c min exit : Nat}
    {fold : Option (Action α)} {init : Option α}
    (hi : code.instrs[f.pc]? = some (.loopTry c min exit fold init)) :
    ∃ r, Exec (Pattern.Answers fs text) code text f r := by
  obtain ⟨j, back, max, hj, hlt, hexit⟩ := hc.wellFormed.exit _ _ _ _ _ _ hi
  have hjlen : j < code.instrs.length := (List.getElem?_eq_some_iff.1 hj).1
  have hback : f.pc + back = j := by
    obtain ⟨i, c', min', exit', fold', init', hi', hback⟩ := hc.wellFormed.back j back max hj
    obtain rfl := hc.wellFormed.one_attempt _ i _ _ hi hi' trivial trivial
    exact hback
  have hattempts (k : Nat) (x : Instr (Pattern α) α) (hx : code.instrs[k]? = some x)
      (hne : k ≠ f.pc) : ¬ x.Attempts :=
    fun h => hne (hc.wellFormed.one_attempt _ _ _ _ hx hi h trivial)
  have hreturns (k : Nat) (x : Instr (Pattern α) α) (hx : code.instrs[k]? = some x)
      (hne : k ≠ j) : ¬ x.Returns :=
    fun h => hne (hc.wellFormed.one_return _ _ _ _ hx hj h trivial)
  have hbehind (g : Frame α) (hpc : g.pc = j + 1) (hg : g.IsReady code text) :
      ∃ r, Exec (Pattern.Answers fs text) code text g r :=
    exists_exec_behind hc ht hp hg (by omega) fun k x hk hx =>
      ⟨hattempts k x hx (by omega), hreturns k x hx (by omega)⟩
  generalize hA : f.pc = A at *
  induction hn : text.remaining f.index using Nat.strongRecOn generalizing f with
  | ind n ih =>
    subst hA
    -- The end of an iteration leads behind the loop, or to an attempt where less is left.
    have hturn (g : Frame α) (hpc : g.pc = j) (hstart : g.start = f.index)
        (hg : g.IsReady code text) (hon : text.Nearer f.index g.index) :
        ∃ r, Exec (Pattern.Answers fs text) code text g r := by
      rw [← hpc] at hj
      obtain ⟨o, ho⟩ := exists_step hc ht hg hj id
      cases o with
      | none => exact ⟨none, .fail ho⟩
      | some h =>
        have hready := ho.isReady hc hg
        suffices hr : ∃ r, Exec (Pattern.Answers fs text) code text h r by
          obtain ⟨r, hr⟩ := hr
          exact ⟨r, .step ho hr⟩
        cases ho with
        | loopEnds => exact hbehind _ (congrArg (· + 1) hpc) hready
        | loopAgain hj' _ hmoved _ =>
          cases hj.symm.trans hj'
          refine ih (text.remaining g.index) (hn ▸ hon.resolve_left (hstart ▸ hmoved)) ?_ ?_ rfl
          · exact hready
          · show g.pc - back = f.pc
            omega
        | consume hj' | loopStart hj' | choice hj' | ahead hj' | guard hj' | assign hj'
        | transform hj' | dropAttributes hj' | skip hj' | keyword hj' => cases hj.symm.trans hj'
    have henter : f.enterIteration.IsReady code text :=
      hc.ready_of_succ hf.captures rfl hi False.elim
    obtain ⟨r, hr⟩ : ∃ r, Exec (Pattern.Answers fs text) code text f.enterIteration r :=
      exists_exec_of_straight hc ht hp henter (k := j) hlt (Nat.le_of_lt hjlen)
        (fun k x (hk : f.pc + 1 ≤ k) hkj hx =>
          ⟨hattempts k x hx (by omega), hreturns k x hx (by omega)⟩) hturn
    cases r with
    | some fin => exact ⟨_, .kept hi hr⟩
    | none =>
      by_cases hmin : f.count < min
      · exact ⟨none, .tooFew hi hr hmin⟩
      · have hleave : (f.leaveLoop c exit fold init).IsReady code text :=
          hc.ready_of_succ (k := j) hf.captures hexit hj False.elim
        obtain ⟨r', hr'⟩ := hbehind _ hexit hleave
        exact ⟨r', .left hi hr (Nat.not_lt.1 hmin) hr'⟩

/-- A run comes to an end. -/
theorem Program.exists_exec (start : Nat) (inherited : Option α) :
    ∃ r, Exec (Pattern.Answers fs text) code text (.initial code.captures start inherited) r := by
  have hf : (Frame.initial code.captures start inherited).IsReady code text :=
    hc.ready_initial start inherited
  by_cases hloop : ∃ (i : Nat) (x : Instr (Pattern α) α), code.instrs[i]? = some x ∧ x.Attempts
  · obtain ⟨i, x, hi, hx⟩ := hloop
    cases x with
    | loopTry c min exit fold init =>
      obtain ⟨j, back, max, hj, hlt, -⟩ := hc.wellFormed.exit _ _ _ _ _ _ hi
      refine exists_exec_of_straight hc ht hp hf (k := i) (Nat.zero_le _)
        (Nat.le_of_lt (List.getElem?_eq_some_iff.1 hi).1)
        (fun k y _ hk hy => ⟨fun h => ?_, fun h => ?_⟩)
        fun g hpc _ hg _ => exists_exec_attempt hc ht hp hg (hpc ▸ hi)
      · exact Nat.ne_of_lt hk (hc.wellFormed.one_attempt _ _ _ _ hy hi h trivial)
      · exact Nat.ne_of_lt (Nat.lt_trans hk hlt)
          (hc.wellFormed.one_return _ _ _ _ hy hj h trivial)
    | _ => exact hx.elim
  · refine exists_exec_behind hc ht hp hf (Nat.zero_le _) fun k x _ hx =>
      ⟨fun h => hloop ⟨k, x, hx, h⟩, fun h => ?_⟩
    cases x with
    | loopBack back max =>
      obtain ⟨i, c, min, exit, fold, init, hi, -⟩ := hc.wellFormed.back _ _ _ hx
      exact hloop ⟨i, _, hi, trivial⟩
    | _ => exact h

theorem Program.exists_answers (start : Nat) (inherited : Option α) :
    ∃ r, code.Answers fs text start inherited r := by
  obtain ⟨x, hx⟩ := exists_exec hc ht hp start inherited
  exact ⟨_, Program.answers_exec_iff.2 ⟨x, hx, rfl⟩⟩

end

/-! ## Patterns -/

/-- No forward reference and no function of the user is found in the pattern. -/
inductive Pattern.IsGrounded : Pattern α → Prop
  | literal (t : Text) : IsGrounded (.literal t)
  | regex (r : Regex) : IsGrounded (.regex r)
  | lineBreak : IsGrounded .lineBreak
  | endOfInput : IsGrounded .endOfInput
  | wordEnd {ignore : Option (Pattern α)} {words : Option Keywords} :
      (∀ p, ignore = some p → p.IsGrounded) → IsGrounded (.wordEnd ignore words)
  | program {code : Program α} : (∀ x ∈ code.instrs, ∀ p ∈ x.patterns, p.IsGrounded) →
      (∀ p, code.ignore = some p → p.IsGrounded) → IsGrounded (.program code)

/-- No forward reference and no function of the user is found in the program. -/
structure Program.IsGrounded (code : Program α) : Prop where
  patterns : ∀ x ∈ code.instrs, ∀ p ∈ x.patterns, p.IsGrounded
  ignore : ∀ p, code.ignore = some p → p.IsGrounded

theorem Pattern.IsGrounded.isPlain {p : Pattern α} (h : p.IsGrounded) : p.IsPlain := by
  cases h <;> trivial

theorem Program.IsGrounded.isPlain {code : Program α} (h : code.IsGrounded) : code.IsPlain where
  instrs x hx := by
    cases x with
    | consume p => exact (h.patterns _ hx p List.mem_cons_self).isPlain
    | choice ps => exact fun p hp => (h.patterns _ hx p hp).isPlain
    | _ => trivial
  ignore p hp := (h.ignore p hp).isPlain

/-- The end of a word that is tested where a character begins comes to an answer if ignorable text
does. -/
theorem Pattern.exists_answers_wordEnd {ignore : Option (Pattern α)} {words : Option Keywords}
    {i : Nat} {a : Option α} (hi : text.isBoundary i)
    (h : ∀ p, ignore = some p → ∃ r, p.Answers fs text i a r) :
    ∃ r, (Pattern.wordEnd ignore words).Answers fs text i a r := by
  obtain ⟨m, hm⟩ := Match.exists_span?_self (α := α) hi
  simp only [Pattern.answers_iff, Pattern.Verdict]
  split
  · exact ⟨some m, m, hm, rfl⟩
  · obtain ⟨b, hb⟩ : ∃ b, FindsIgnored (Pattern.Answers fs text) ignore i a b := by
      cases ignore with
      | none => exact ⟨false, .nothing⟩
      | some p =>
        obtain ⟨r, hr⟩ := h p rfl
        exact ⟨r.isSome, .tested hr⟩
    by_cases hfound : b || Pattern.find.startsKeyword text words i
    · exact ⟨some m, b, hb, by rw [if_pos hfound]; exact ⟨m, hm, rfl⟩⟩
    · exact ⟨none, b, hb, by rw [if_neg hfound]⟩

/-- A sound pattern without references and functions comes to an answer wherever it is tested. -/
theorem Pattern.IsGrounded.exists_answers {p : Pattern α} (h : p.IsGrounded) (hp : p.IsSound)
    (i : Nat) (a : Option α) : ∃ r, p.Answers fs text i a r := by
  suffices h : (p.IsSound → ∀ i a, ∃ r, p.Answers fs text i a r) ∧
      ∀ ignore words, p = .wordEnd ignore words → (∀ q, ignore = some q → q.IsSound) →
        ∀ i a, text.isBoundary i → ∃ r, p.Answers fs text i a r from h.1 hp i a
  clear hp i a
  induction h with
  | literal | regex | lineBreak | endOfInput =>
    exact ⟨fun _ i a => ⟨_, Pattern.answers_iff.2 rfl⟩, nofun⟩
  | wordEnd _ ih =>
    refine ⟨nofun, ?_⟩
    rintro ignore words ⟨⟩ hsound i a hi
    exact exists_answers_wordEnd hi fun q hq => (ih q hq).1 (hsound q hq) i a
  | @program code hpatterns hignore ih ihignore =>
    refine ⟨fun h i a => ?_, nofun⟩
    cases h with
    | program hc hplain hends hsound =>
      have htotal : code.IsTotal fs text := by
        refine ⟨fun x hx q hq i a hi => ?_, fun q hq => (ihignore q hq).1 (hsound q hq)⟩
        by_cases hend : q.IsWordEnd
        · cases q with
          | wordEnd ignore words =>
            exact (ih x hx _ hq).2 ignore words rfl (hends x hx ignore words hq) i a (hi hend)
          | _ => exact hend.elim
        · exact (ih x hx q hq).1 (hplain x hx q hq hend) i a
      obtain ⟨r, hr⟩ := Program.exists_answers hc htotal
        (Program.IsGrounded.isPlain ⟨hpatterns, hignore⟩) i a
      exact ⟨r, Pattern.answers_program_iff.2 hr⟩

end GrammarMachine
