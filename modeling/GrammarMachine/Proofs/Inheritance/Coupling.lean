import GrammarMachine.Proofs.Inheritance.Relation

/-!
# Runs under related attributes

Where no condition is asked and no matching function looks at the attribute, two runs of a program
at one offset go through the same instructions, whatever they inherit. If moreover all functions
respect a relation, the runs end with related attributes.

* `Step.alike`: one instruction in both runs.
* `Exec.alike`: a whole call. Within an iteration equal attributes stay equal; at the end of a
  repetition they need not, since its fold goes over all iterations.
* `Pattern.couples_answers`, `Program.Answers.alike`: what patterns and programs come to.
-/

namespace GrammarMachine

variable {α : Type} {ρ : AttrRel α} {V V' : Verdicts (Pattern α) α} {code : Program α}
  {text : Text} {i : Nat} {a b : Option α} {f g : Frame α}

/-- Under related attributes the verdicts are alike; under equal ones, and on a pattern that runs no
program, they are the same. -/
def Couples (ρ : AttrRel α) (V V' : Verdicts (Pattern α) α) : Prop :=
  ∀ p i a b r, p.Respects ρ → ρ a b → V p i a r →
    ∃ r', V' p i b r' ∧ Option.Rel (Match.Alike ρ) r r' ∧ (a = b ∨ p.IsLeaf → r = r')

/-! ## Testing several patterns -/

theorem FirstMatch.alike (hV : Couples ρ V V') {ps : List (Pattern α)}
    (hps : ∀ p ∈ ps, p.Respects ρ) (hab : ρ a b) {r : Option (Match α)}
    (h : FirstMatch V i a ps r) :
    ∃ r', FirstMatch V' i b ps r' ∧ Option.Rel (Match.Alike ρ) r r' ∧ (a = b → r = r') := by
  induction h with
  | nil => exact ⟨none, .nil, .none, fun _ => rfl⟩
  | here hp =>
    obtain ⟨r', hp', hr, heq⟩ := hV _ _ _ _ _ (hps _ List.mem_cons_self) hab hp
    cases hr with
    | some hm => exact ⟨_, .here hp', .some hm, fun hab => heq (.inl hab)⟩
  | later hp _ ih =>
    obtain ⟨r', hp', hr, -⟩ := hV _ _ _ _ _ (hps _ List.mem_cons_self) hab hp
    cases hr with
    | none =>
      obtain ⟨r', h', hr', heq⟩ := ih fun p hp => hps p (List.mem_cons_of_mem _ hp)
      exact ⟨r', .later hp' h', hr', heq⟩

/-- The same text is ignored. -/
theorem Skips.alike (hV : Couples ρ V V') {ignore : Option (Pattern α)}
    (hig : ∀ p, ignore = some p → p.Respects ρ) (hab : ρ a b) {j : Nat}
    (h : Skips V ignore i a j) : Skips V' ignore i b j := by
  cases h with
  | nothing => exact .nothing
  | moves hp =>
    obtain ⟨r', hp', hr, -⟩ := hV _ _ _ _ _ (hig _ rfl) hab hp
    cases hr with
    | some hm => exact hm.lastIndex ▸ .moves hp'
  | stays hp =>
    obtain ⟨r', hp', hr, -⟩ := hV _ _ _ _ _ (hig _ rfl) hab hp
    cases hr with
    | none => exact .stays hp'

theorem FindsIgnored.alike (hV : Couples ρ V V') {ignore : Option (Pattern α)}
    (hig : ∀ p, ignore = some p → p.Respects ρ) (hab : ρ a b) {found : Bool}
    (h : FindsIgnored V ignore i a found) : FindsIgnored V' ignore i b found := by
  cases h with
  | nothing => exact .nothing
  | tested hp =>
    obtain ⟨r', hp', hr, -⟩ := hV _ _ _ _ _ (hig _ rfl) hab hp
    cases hr with
    | none => exact .tested hp'
    | some _ => exact (FindsIgnored.tested hp' :)

/-! ## One instruction -/

/-- The attributes after matches that are alike. -/
theorem Frame.Alike.matchAttr (hρ : ρ.Merges) (hfg : f.Alike ρ g) {p : Pattern α}
    {action : Option (Action α)} {capture : Option Nat} {skips : Bool}
    (hi : Instr.Respects ρ (.consume p action capture skips)) {m m' : Match α}
    (hm : m.Alike ρ m') (heq : f.attr = g.attr ∨ p.IsLeaf → m = m') :
    ρ (f.matchAttr action m) (g.matchAttr action m') := by
  refine hfg.keep hρ (hρ.merge hfg.attr ?_ fun hab => ?_)
  · cases action with
    | none => exact hm.attr
    | some a =>
      dsimp only
      rw [hm.matched, hm.extra]
      exact hi _ _ _ _ _ _ hm.attr (fun hp => congrArg Match.attr (heq (.inr hp))) hfg.attr
  · rw [heq (.inl hab), hab]

/-- Two runs at the same place are at the same place after one instruction, and equal attributes
stay equal. -/
theorem Step.alike (hρ : ρ.Merges) (hV : Couples ρ V V') (hc : code.Respects ρ)
    (hfg : f.Alike ρ g) {o : Option (Frame α)} (h : Step V code text f o) :
    ∃ o', Step V' code text g o' ∧ Option.Rel (fun f' g' =>
      f'.Alike ρ g' ∧ f'.count = f.count ∧ (f.attr = g.attr → f'.attr = g'.attr)) o o' := by
  have hinstr {instr : Instr (Pattern α) α} (hi : code.instrs[f.pc]? = some instr) :
      code.instrs[g.pc]? = some instr ∧ instr.Respects ρ ∧ ∀ p ∈ instr.patterns, p.Respects ρ :=
    ⟨hfg.pc ▸ hi, hc.instrs _ (List.mem_of_getElem? hi), hc.patterns _ (List.mem_of_getElem? hi)⟩
  have hnext {j : Nat} {a b : Option α} (hab : ρ a b) : (f.next j a).Alike ρ (g.next j b) :=
    ⟨hfg.start, congrArg (· + 1) hfg.pc, rfl, hfg.count, hfg.dropping, hab, hfg.seed, hfg.captures⟩
  have hstay : (f.next f.index f.attr).Alike ρ (g.next g.index g.attr) :=
    hfg.index ▸ hnext hfg.attr
  have hindex := hfg.index
  cases h with
  | @consume p action capture skips m j hi hp hs =>
    obtain ⟨hi', hact, hpat⟩ := hinstr hi
    obtain ⟨r', hp', hr, heq⟩ := hV _ _ _ _ _ (hpat _ List.mem_cons_self) hfg.attr hp
    cases hr with
    | @some _ m' hm =>
      replace heq : f.attr = g.attr ∨ p.IsLeaf → m = m' := fun h => Option.some.inj (heq h)
      have hattr := hfg.matchAttr hρ hact hm heq
      have hig : ∀ q, (if skips then code.ignore else none) = some q → q.Respects ρ :=
        fun q hq => hc.ignore q (by cases skips <;> simp_all)
      have hs' := hs.alike hV hig hattr
      refine ⟨_, .consume hi' (hindex ▸ hp') (hm.lastIndex ▸ hs'), .some ⟨?_, rfl, fun hab => ?_⟩⟩
      · refine { hnext hattr with captures := ?_ }
        cases capture with
        | none => exact hfg.captures
        | some id => exact hfg.captures.record id hm
      · simp only [Frame.matchAttr, heq (.inl hab), hab, Frame.keep, hfg.dropping, Frame.next]
  | consumeFails hi hp =>
    obtain ⟨hi', -, hpat⟩ := hinstr hi
    obtain ⟨r', hp', hr, -⟩ := hV _ _ _ _ _ (hpat _ List.mem_cons_self) hfg.attr hp
    cases hr with
    | none => exact ⟨none, .consumeFails hi' (hindex ▸ hp'), .none⟩
  | @loopStart capture hi hlt =>
    refine ⟨_, .loopStart (hinstr hi).1 (hfg.captures.lt_length hlt), .some ⟨?_, rfl, id⟩⟩
    exact { hstay with seed := hfg.attr, captures := hfg.captures.start capture }
  | loopEnds hi hend =>
    refine ⟨_, .loopEnds (hinstr hi).1 ?_, .some ⟨hstay, rfl, id⟩⟩
    rwa [← hfg.count, ← hfg.index, ← hfg.start]
  | @loopAgain back max hi hmax hne hback =>
    refine ⟨_, .loopAgain (hinstr hi).1 ?_ ?_ (hfg.pc ▸ hback), .some ⟨?_, rfl, id⟩⟩
    · rwa [← hfg.count]
    · rwa [← hfg.index, ← hfg.start]
    · exact { hfg with pc := congrArg (· - back) hfg.pc }
  | @choice branches m j hi hp hs =>
    obtain ⟨hi', -, hpat⟩ := hinstr hi
    obtain ⟨r', hp', hr, heq⟩ := hp.alike hV hpat hfg.attr
    cases hr with
    | @some _ m' hm =>
      replace heq : f.attr = g.attr → m = m' := fun h => Option.some.inj (heq h)
      have hattr : ρ (f.keep (merge f.attr m.attr)) (g.keep (merge g.attr m'.attr)) :=
        hfg.keep hρ (hρ.merge hfg.attr hm.attr fun hab => congrArg Match.attr (heq hab))
      have hs' := hs.alike hV hc.ignore hattr
      refine ⟨_, .choice hi' (hindex ▸ hp') (hm.lastIndex ▸ hs'),
        .some ⟨hnext hattr, rfl, fun hab => ?_⟩⟩
      exact hfg.keep_congr (by rw [heq hab, hab])
  | choiceFails hi hp =>
    obtain ⟨hi', -, hpat⟩ := hinstr hi
    obtain ⟨r', hp', hr, -⟩ := hp.alike hV hpat hfg.attr
    cases hr with
    | none => exact ⟨none, .choiceFails hi' (hindex ▸ hp'), .none⟩
  | ahead hi hp hsome =>
    obtain ⟨hi', -, hpat⟩ := hinstr hi
    obtain ⟨r', hp', hr, -⟩ := hV _ _ _ _ _ (hpat _ List.mem_cons_self) hfg.attr hp
    refine ⟨_, .ahead hi' (hindex ▸ hp') ?_, .some ⟨hstay, rfl, id⟩⟩
    cases hr <;> exact hsome
  | aheadFails hi hp hsome =>
    obtain ⟨hi', -, hpat⟩ := hinstr hi
    obtain ⟨r', hp', hr, -⟩ := hV _ _ _ _ _ (hpat _ List.mem_cons_self) hfg.attr hp
    refine ⟨none, .aheadFails hi' (hindex ▸ hp') ?_, .none⟩
    cases hr <;> exact hsome
  | guard hi => exact (hinstr hi).2.1.elim
  | guardFails hi => exact (hinstr hi).2.1.elim
  | @assign value hi =>
    refine ⟨_, .assign (hinstr hi).1, .some ⟨?_, rfl, fun _ => hfg.keep_congr rfl⟩⟩
    exact hindex ▸ hnext (hfg.keep hρ (hρ.refl _))
  | @transform t hi =>
    refine ⟨_, .transform (hinstr hi).1, .some ⟨?_, rfl, fun hab => ?_⟩⟩
    · exact hindex ▸ hnext (hfg.keep hρ (hρ.merge hfg.attr ((hinstr hi).2.1 _ _ hfg.attr)
        fun hab => congrArg t.apply hab))
    · exact hfg.keep_congr (by rw [hab])
  | dropAttributes hi =>
    exact ⟨_, .dropAttributes (hinstr hi).1, .some ⟨{ hstay with dropping := rfl }, rfl, id⟩⟩
  | skip hi hs =>
    have hs' := hs.alike hV hc.ignore hfg.attr
    exact ⟨_, .skip (hinstr hi).1 (hindex ▸ hs'), .some ⟨hnext hfg.attr, rfl, id⟩⟩
  | keyword hi hf hw hs =>
    have hs' := hs.alike hV hc.ignore hfg.attr
    exact ⟨_, .keyword (hinstr hi).1 (hindex ▸ hf) hw hs', .some ⟨hnext hfg.attr, rfl, id⟩⟩
  | keywordFails hi hf => exact ⟨none, .keywordFails (hinstr hi).1 (hindex ▸ hf), .none⟩

/-! ## Calls -/

theorem Frame.Alike.enterIteration (hρ : ρ.Merges) (h : f.Alike ρ g) :
    f.enterIteration.Alike ρ g.enterIteration :=
  ⟨h.index, congrArg (· + 1) h.pc, h.index, congrArg (· + 1) h.count, h.dropping, h.attr,
    hρ.refl none, h.captures⟩

/-- What two calls end with whose attempts of an iteration ended alike. -/
theorem Frame.Alike.afterIteration (hρ : ρ.Merges) (hfg : f.Alike ρ g) {capture min exit : Nat}
    {fold : Option (Action α)} {init : Option α}
    (hi : Instr.Respects ρ (.loopTry capture min exit fold init)) {x y : Final α}
    (hxy : x.Alike ρ y) (heq : f.attr = g.attr → x.attr = y.attr) :
    (f.afterIteration capture fold init x).Alike ρ (g.afterIteration capture fold init y) ∧
      (0 < f.count → f.attr = g.attr → (f.afterIteration capture fold init x).attr =
        (g.afterIteration capture fold init y).attr) := by
  have hattr : ρ (f.keep (merge f.attr x.attr)) (g.keep (merge g.attr y.attr)) :=
    hfg.keep hρ (hρ.merge hfg.attr hxy.attr heq)
  refine ⟨⟨hxy.index, ?_, hxy.captures⟩, fun hpos hab => ?_⟩
  · simp only [Frame.afterIteration, ← hfg.count]
    split
    · exact hfg.settledAttr hρ hi hattr (hxy.captures.recorded capture)
    · exact hattr
  · simp only [Frame.afterIteration, ← hfg.count, if_neg (Nat.ne_of_gt hpos)]
    exact hfg.keep_congr (by rw [hab, heq hab])

/-- Past a repetition that attempts no further iteration. -/
theorem Frame.Alike.leaveLoop (hρ : ρ.Merges) (hfg : f.Alike ρ g) {capture min exit : Nat}
    {fold : Option (Action α)} {init : Option α}
    (hi : Instr.Respects ρ (.loopTry capture min exit fold init)) :
    (f.leaveLoop capture exit fold init).Alike ρ (g.leaveLoop capture exit fold init) ∧
      (0 < f.count → f.attr = g.attr → (f.leaveLoop capture exit fold init).attr =
        (g.leaveLoop capture exit fold init).attr) := by
  refine ⟨{ hfg with pc := congrArg (· + exit) hfg.pc, attr := ?_ }, fun hpos hab => ?_⟩
  · simp only [Frame.leaveLoop, ← hfg.count]
    split
    · exact hfg.settledAttr hρ hi hfg.attr (hfg.captures.recorded capture)
    · exact hfg.attr
  · simp only [Frame.leaveLoop, ← hfg.count, if_neg (Nat.ne_of_gt hpos)]
    exact hab

/-- Two calls at the same place end at the same place. Within an iteration, equal attributes are
equal at the end. -/
theorem Exec.alike (hρ : ρ.Merges) (hV : Couples ρ V V') (hc : code.Respects ρ)
    {r : Option (Final α)} (h : Exec V code text f r) (hfg : f.Alike ρ g) :
    ∃ r', Exec V' code text g r' ∧ Option.Rel (fun x y =>
      x.Alike ρ y ∧ (0 < f.count → f.attr = g.attr → x.attr = y.attr)) r r' := by
  have htry {f : Frame α} {capture min exit : Nat} {fold : Option (Action α)} {init : Option α}
      (hi : code.instrs[f.pc]? = some (.loopTry capture min exit fold init)) :=
    hc.instrs _ (List.mem_of_getElem? hi)
  induction h generalizing g with
  | halt hi =>
    exact ⟨_, .halt (hfg.pc ▸ hi), .some ⟨⟨hfg.index, hfg.attr, hfg.captures⟩, fun _ h => h⟩⟩
  | step hs _ ih =>
    obtain ⟨o', hs', ho⟩ := hs.alike hρ hV hc hfg
    cases ho with
    | some hnext =>
      obtain ⟨hfg', hcount, hattr⟩ := hnext
      obtain ⟨r', hr', hrel⟩ := ih hfg'
      refine ⟨r', .step hs' hr', ?_⟩
      cases hrel with
      | none => exact .none
      | some hxy => exact .some ⟨hxy.1, fun hpos hab => hxy.2 (hcount ▸ hpos) (hattr hab)⟩
  | fail hs =>
    obtain ⟨o', hs', ho⟩ := hs.alike hρ hV hc hfg
    cases ho with
    | none => exact ⟨none, .fail hs', .none⟩
  | kept hi _ ih =>
    obtain ⟨r', hr', hrel⟩ := ih (hfg.enterIteration hρ)
    cases hrel with
    | some hxy =>
      exact ⟨_, .kept (hfg.pc ▸ hi) hr',
        .some (hfg.afterIteration hρ (htry hi) hxy.1 (hxy.2 (Nat.succ_pos _)))⟩
  | tooFew hi _ hmin ih =>
    obtain ⟨r', hr', hrel⟩ := ih (hfg.enterIteration hρ)
    cases hrel with
    | none => exact ⟨none, .tooFew (hfg.pc ▸ hi) hr' (hfg.count ▸ hmin), .none⟩
  | left hi _ hmin _ ih ih' =>
    obtain ⟨r', hr', hrel⟩ := ih (hfg.enterIteration hρ)
    cases hrel with
    | none =>
      obtain ⟨hleave, hattr⟩ := hfg.leaveLoop hρ (htry hi)
      obtain ⟨r'', hr'', hrel'⟩ := ih' hleave
      refine ⟨r'', .left (hfg.pc ▸ hi) hr' (hfg.count ▸ hmin) hr'', ?_⟩
      cases hrel' with
      | none => exact .none
      | some hxy => exact .some ⟨hxy.1, fun hpos hab => hxy.2 hpos (hattr hpos hab)⟩

/-! ## Programs and patterns -/

theorem Frame.alike_initial (hρ : ρ.Merges) (n start : Nat) (hab : ρ a b) :
    (Frame.initial n start a).Alike ρ (.initial n start b) :=
  ⟨rfl, rfl, rfl, rfl, rfl, hab, hρ.refl none, Captures.alike_closed n⟩

theorem Runs.alike (hρ : ρ.Merges) (hV : Couples ρ V V') (hc : code.Respects ρ) (hab : ρ a b)
    {r : Option (Match α)} (h : Runs V code text i a r) :
    ∃ r', Runs V' code text i b r' ∧ Option.Rel (Match.Alike ρ) r r' := by
  have hinitial := Frame.alike_initial hρ code.captures i hab
  cases h with
  | matched h ht =>
    obtain ⟨r', hr', hrel⟩ := h.alike hρ hV hc hinitial
    cases hrel with
    | some hxy =>
      exact ⟨_, .matched hr' (hxy.1.index ▸ ht), .some ⟨rfl, hxy.1.index, hxy.1.attr, rfl⟩⟩
  | unsliced h ht =>
    obtain ⟨r', hr', hrel⟩ := h.alike hρ hV hc hinitial
    cases hrel with
    | some hxy => exact ⟨none, .unsliced hr' (hxy.1.index ▸ ht), .none⟩
  | failed h =>
    obtain ⟨r', hr', hrel⟩ := h.alike hρ hV hc hinitial
    cases hrel with
    | none => exact ⟨none, .failed hr', .none⟩

theorem rel_refl (hρ : ρ.Merges) (r : Option (Match α)) : Option.Rel (Match.Alike ρ) r r := by
  cases r with
  | none => exact .none
  | some m => exact .some (.rfl hρ)

variable {fs : Forwards α} {p : Pattern α} {r : Option (Match α)}

theorem Pattern.Verdict.alike (hρ : ρ.Merges) (hV : Couples ρ V V') (hfs : fs.Respects ρ)
    (hp : p.Respects ρ) (hab : ρ a b) (h : Verdict V fs text p i a r) :
    ∃ r', Verdict V' fs text p i b r' ∧ Option.Rel (Match.Alike ρ) r r' ∧ (p.IsLeaf → r = r') := by
  cases hp with
  | literal | regex | lineBreak | endOfInput => exact ⟨r, h, rel_refl hρ r, fun _ => rfl⟩
  | custom hf =>
    obtain rfl : r = _ := h
    exact ⟨_, hf text i a b, rel_refl hρ _, fun _ => rfl⟩
  | forward cell =>
    simp only [Verdict] at h ⊢
    cases hcell : fs.get? cell with
    | none =>
      simp only [hcell] at h
      obtain rfl := h
      exact ⟨none, rfl, .none, fun _ => rfl⟩
    | some code =>
      simp only [hcell] at h
      obtain ⟨r', hr', hrel⟩ := Runs.alike hρ hV (hfs cell code hcell) hab h
      exact ⟨r', hr', hrel, False.elim⟩
  | wordEnd hig =>
    refine ⟨r, ?_, rel_refl hρ r, fun _ => rfl⟩
    simp only [Verdict] at h ⊢
    split at h
    · rename_i hl
      rwa [if_pos hl]
    · rename_i hl
      obtain ⟨found, hfound, hr⟩ := h
      rw [if_neg hl]
      exact ⟨found, hfound.alike hV hig hab, hr⟩
  | program hi hps hig =>
    obtain ⟨r', hr', hrel⟩ := Runs.alike hρ hV ⟨hi, hps, hig⟩ hab h
    exact ⟨r', hr', hrel, False.elim⟩

/-- What patterns come to under related attributes. -/
theorem Pattern.couples_answers (hρ : ρ.Merges) (hfs : fs.Respects ρ) (text : Text) :
    Couples ρ (Pattern.Answers fs text) (Pattern.Answers fs text) := by
  have hfuel (fuel : Nat) :
      Couples ρ (Probe.verdicts (find fs text fuel)) (Pattern.Answers fs text) := by
    induction fuel with
    | zero =>
      rintro p i a b r - - ⟨j, j', h⟩
      exact absurd h Trial.not_ends_outOfFuel
    | succ fuel ih =>
      intro p i a b r hp hab h
      obtain ⟨r', hr', hrel, hleaf⟩ := Verdict.alike hρ ih hfs hp hab (find_sound h)
      refine ⟨r', find_complete hr', hrel, ?_⟩
      rintro (rfl | hl)
      · exact (answers_of_find h).unique (find_complete hr')
      · exact hleaf hl
  intro p i a b r hp hab h
  obtain ⟨fuel, h⟩ := h.exists_find
  exact hfuel fuel p i a b r hp hab h

theorem Program.Answers.alike (hρ : ρ.Merges) (hfs : fs.Respects ρ) (hc : code.Respects ρ)
    (hab : ρ a b) (h : code.Answers fs text i a r) :
    ∃ r', code.Answers fs text i b r' ∧ Option.Rel (Match.Alike ρ) r r' := by
  obtain ⟨r', hr', hrel⟩ :=
    Runs.alike hρ (Pattern.couples_answers hρ hfs text) hc hab (Program.answers_iff.1 h)
  exact ⟨r', Program.answers_iff.2 hr', hrel⟩

end GrammarMachine
