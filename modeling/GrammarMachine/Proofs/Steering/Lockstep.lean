import GrammarMachine.Proofs.Safety.Layout
import GrammarMachine.Proofs.Steering.Rewriting

/-!
# Attributes do not steer

Where no condition is asked and no matching function looks at the attribute, a run goes through the
same places whatever the attributes are, and whatever is done to them. Two such runs go in lockstep,
but that one drops attributes where the other does not.

* `Code.Meets`, `Code.Rewrites.exists_lockstep`: how the addresses of two codes go together, of
  which one is the other rewritten.
* `Step.mirror`, `Exec.mirror`: one instruction, and a whole call.
* `Pattern.mirrors_answers`: what patterns come to.
* `Program.IsBlind.covers_iff`: what a program matches, and whether it does.
-/

namespace GrammarMachine

variable {π α : Type}

/-! ## Addresses -/

/-- How two codes go on from two addresses, if `A` holds of the addresses where they go on alike:
with an instruction and what it is rewritten to, with attributes dropped in the first code, or not
at all. -/
inductive Code.Meets (R : π → π → Prop) (code code' : Code π α) (A : Nat → Nat → Prop)
    (k k' : Nat) : Prop
  | instr {x y} : code.instrs[k]? = some x → code'.instrs[k']? = some y → x.Rewrites R y →
      A (k + 1) (k' + 1) →
      (∀ c min exit fold init, x = .loopTry c min exit fold init → A (k + exit) (k' + exit)) →
      (∀ back max, x = .loopBack back max → back ≤ k → back ≤ k' ∧ A (k - back) (k' - back)) →
      Meets R code code' A k k'
  | drops : code.instrs[k]? = some .dropAttributes → A (k + 1) k' → Meets R code code' A k k'
  | halts : code.instrs[k]? = none → code'.instrs[k']? = none → Meets R code code' A k k'

/-- Where `A` holds, the codes go on alike, or the second one drops attributes first. -/
def Code.Lockstep (R : π → π → Prop) (code code' : Code π α) (A : Nat → Nat → Prop) : Prop :=
  ∀ k k', A k k' → code.Meets R code' A k k' ∨
    code'.instrs[k']? = some .dropAttributes ∧ A k (k' + 1)

/-- Addresses in two chains of steps from which they are rewritten, and addresses that many
instructions behind them. -/
inductive Instr.Along (R : π → π → Prop) (lead lead' : List (Instr π α)) : Nat → Nat → Prop
  | chain (us us' : List (Instr π α)) {xs xs' k k'} : us ++ xs = lead → us' ++ xs' = lead' →
      us.length = k → us'.length = k' → Chains R xs xs' → Along R lead lead' k k'
  | behind (n : Nat) : Along R lead lead' (lead.length + n) (lead'.length + n)

section

variable {R : π → π → Prop} {lead lead' rest rest' : List (Instr π α)} {ignore ignore' : Option π}
  {captures : Nat}

/-- Behind two chains of steps, the codes go on alike. -/
theorem Code.meets_behind (hrest : List.Forall₂ (Instr.Rewrites R) rest rest')
    (hstays : Instr.StaysBehind lead.length rest) (n : Nat) {k k' : Nat}
    (hk : lead.length + n = k) (hk' : lead'.length + n = k') :
    Code.Meets R ⟨lead ++ rest, ignore, captures⟩ ⟨lead' ++ rest', ignore', captures⟩
      (Instr.Along R lead lead') k k' := by
  subst hk hk'
  have hat (is js : List (Instr π α)) : (is ++ js)[is.length + n]? = js[n]? := by
    rw [List.getElem?_append_right (Nat.le_add_right _ _), Nat.add_sub_cancel_left]
  rcases hx : rest[n]? with _ | x
  · refine .halts ((hat _ _).trans hx) ((hat _ _).trans ?_)
    exact Option.eq_none_iff_forall_ne_some.2 fun y hy => by
      obtain ⟨x, hx', -⟩ := rel_exists_left (forall₂_getElem? hrest n) hy
      cases hx.symm.trans hx'
  · obtain ⟨y, hy, hxy⟩ := rel_exists_right (forall₂_getElem? hrest n) hx
    refine .instr ((hat _ _).trans hx) ((hat _ _).trans hy) hxy (.behind (n + 1))
      (fun _ _ exit _ _ _ => ?_) fun back max hback hle => ?_
    · rw [Nat.add_assoc, Nat.add_assoc]
      exact .behind (n + exit)
    · rcases hstays n back max (hback ▸ hx) with hn | hlt
      · rw [Nat.add_sub_assoc hn, Nat.add_sub_assoc hn]
        exact ⟨by omega, .behind (n - back)⟩
      · omega

/-- The addresses of codes of which one is the other rewritten. -/
theorem Code.Rewrites.exists_lockstep {code code' : Code π α} (h : code.Rewrites R code') :
    ∃ A, A 0 0 ∧ code.Lockstep R code' A := by
  cases h with
  | @intro lead lead' rest rest' _ _ captures hlead hrest hstays =>
    refine ⟨Instr.Along R lead lead', .chain [] [] rfl rfl rfl rfl hlead, ?_⟩
    have hat (us : List (Instr π α)) (x : Instr π α) (xs ys : List (Instr π α)) :
        (us ++ x :: xs ++ ys)[us.length]? = some x := by simp
    rintro _ _ (@⟨us, us', _, _, _, _, rfl, rfl, rfl, rfl, hchain⟩ | n)
    · cases hchain with
      | nil => exact .inl (Code.meets_behind hrest hstays 0 (by simp) (by simp))
      | @cons x y xs ys hx hxy hchain =>
        refine .inl (.instr (hat us x xs rest) (hat us' y ys rest') hxy ?_ ?_ ?_)
        · exact .chain (us ++ [x]) (us' ++ [y]) (List.append_assoc ..) (List.append_assoc ..)
            List.length_append List.length_append hchain
        · rintro _ _ _ _ _ rfl
          exact hx.elim
        · rintro _ _ rfl
          exact hx.elim
      | left hchain =>
        exact .inl (.drops (hat us _ _ rest) (.chain (us ++ [.dropAttributes]) us'
          (List.append_assoc ..) rfl List.length_append rfl hchain))
      | right hchain =>
        exact .inr ⟨hat us' _ _ rest', .chain us (us' ++ [.dropAttributes])
          rfl (List.append_assoc ..) rfl List.length_append hchain⟩
    · exact .inl (Code.meets_behind hrest hstays n rfl rfl)

end

/-! ## Testing several patterns -/

/-- The two matches end at the same offset. -/
def Match.SameEnd (m m' : Match α) : Prop := m.lastIndex = m'.lastIndex

/-- What blind patterns come to is mirrored by what they are rewritten to, whatever is inherited. -/
def Verdicts.Mirrors (V V' : Verdicts (Pattern α) α) : Prop :=
  ∀ p q i a b r, p.IsBlind → p.Rewrites q → V p i a r →
    ∃ r', V' q i b r' ∧ Option.Rel Match.SameEnd r r'

section

variable {V V' : Verdicts (Pattern α) α} {i : Nat} {a b : Option α}

theorem FirstMatch.mirror (hV : V.Mirrors V') {ps qs : List (Pattern α)}
    (hps : ∀ p ∈ ps, p.IsBlind) (hpq : List.Forall₂ Pattern.Rewrites ps qs) {r : Option (Match α)}
    (h : FirstMatch V i a ps r) :
    ∃ r', FirstMatch V' i b qs r' ∧ Option.Rel Match.SameEnd r r' := by
  induction hpq generalizing r with
  | nil =>
    cases h
    exact ⟨none, .nil, .none⟩
  | cons hpq _ ih =>
    have hp := hps _ List.mem_cons_self
    cases h with
    | here h =>
      obtain ⟨_, h', hr⟩ := hV _ _ _ _ b _ hp hpq h
      cases hr with
      | some hm => exact ⟨_, .here h', .some hm⟩
    | later h htail =>
      obtain ⟨_, h', hr⟩ := hV _ _ _ _ b _ hp hpq h
      cases hr with
      | none =>
        obtain ⟨r', htail', hr⟩ := ih (fun p hp => hps p (List.mem_cons_of_mem _ hp)) htail
        exact ⟨r', .later h' htail', hr⟩

theorem Skips.mirror (hV : V.Mirrors V') {ignore ignore' : Option (Pattern α)}
    (hig : ∀ p, ignore = some p → p.IsBlind) (hrel : Option.Rel Pattern.Rewrites ignore ignore')
    {j j' : Nat} (hj : i = j') (h : Skips V ignore i a j) : Skips V' ignore' j' b j := by
  subst hj
  cases hrel with
  | none =>
    cases h
    exact .nothing
  | some hpq =>
    cases h with
    | moves h =>
      obtain ⟨_, h', hr⟩ := hV _ _ _ _ b _ (hig _ rfl) hpq h
      cases hr with
      | some hm =>
        rw [show _ = _ from hm]
        exact .moves h'
    | stays h =>
      obtain ⟨_, h', hr⟩ := hV _ _ _ _ b _ (hig _ rfl) hpq h
      cases hr with
      | none => exact .stays h'

theorem FindsIgnored.mirror (hV : V.Mirrors V') {ignore ignore' : Option (Pattern α)}
    (hig : ∀ p, ignore = some p → p.IsBlind) (hrel : Option.Rel Pattern.Rewrites ignore ignore')
    {found : Bool} (h : FindsIgnored V ignore i a found) : FindsIgnored V' ignore' i b found := by
  cases hrel with
  | none =>
    cases h
    exact .nothing
  | some hpq =>
    cases h with
    | tested h =>
      obtain ⟨_, h', hr⟩ := hV _ _ _ _ b _ (hig _ rfl) hpq h
      cases hr with
      | none => exact .tested h'
      | some _ => exact (FindsIgnored.tested h' :)

end

/-! ## One instruction -/

/-- Two calls are at addresses from which the codes go on alike, and nothing but their attributes
differs. -/
structure Frame.Beside (A : Nat → Nat → Prop) (f g : Frame α) : Prop where
  start : f.start = g.start
  pc : A f.pc g.pc
  index : f.index = g.index
  count : f.count = g.count
  captures : f.captures.length = g.captures.length

section

variable {V V' : Verdicts (Pattern α) α} {code code' : Program α} {A : Nat → Nat → Prop}
  {text : Text} {f g : Frame α}

/-- An instruction and what it is rewritten to lead to the same place. -/
theorem Step.mirror (hV : V.Mirrors V') (hc : code.IsBlind) (hcode : code.Rewrites code')
    {x y : Instr (Pattern α) α} (hx : code.instrs[f.pc]? = some x)
    (hy : code'.instrs[g.pc]? = some y) (hxy : x.Rewrites Pattern.Rewrites y)
    (hsucc : A (f.pc + 1) (g.pc + 1))
    (hback : ∀ back max, x = .loopBack back max → back ≤ f.pc →
      back ≤ g.pc ∧ A (f.pc - back) (g.pc - back))
    (hfg : f.Beside A g) {o : Option (Frame α)} (h : Step V code text f o) :
    ∃ o', Step V' code' text g o' ∧ Option.Rel (Frame.Beside A) o o' := by
  have hpat := hc.patterns x (List.mem_of_getElem? hx)
  have hindex := hfg.index
  have hnext {j : Nat} {a b : Option α} : (f.next j a).Beside A (g.next j b) :=
    ⟨hfg.start, hsucc, rfl, hfg.count, hfg.captures⟩
  have hstay {a b : Option α} : (f.next f.index a).Beside A (g.next g.index b) := hindex ▸ hnext
  have hskip {i i' j : Nat} {a b : Option α} (hi : i = i') (hs : Skips V code.ignore i a j) :
      Skips V' code'.ignore i' b j := hs.mirror hV hc.ignore hcode.ignore hi
  cases h with
  | @consume p action capture skips m j hi hp hs =>
    obtain rfl := Option.some.inj (hi.symm.trans hx)
    cases hxy with
    | consume _ _ hpq =>
      obtain ⟨_, hp', hr⟩ := hV _ _ _ _ g.attr _ (hpat _ List.mem_cons_self) hpq hp
      cases hr with
      | @some _ m' hm =>
        have hs' (b : Option α) :
            Skips V' (if skips then code'.ignore else none) m'.lastIndex b j := by
          cases skips with
          | true => exact hskip hm hs
          | false => exact hs.mirror hV (fun _ h => nomatch (h : none = some _)) .none hm
        refine ⟨_, .consume hy (hindex ▸ hp') (hs' _), .some ⟨hfg.start, hsucc, rfl, hfg.count, ?_⟩⟩
        exact (f.length_capturesAfter capture m).trans
          (hfg.captures.trans (g.length_capturesAfter capture m').symm)
  | consumeFails hi hp =>
    obtain rfl := Option.some.inj (hi.symm.trans hx)
    cases hxy with
    | consume _ _ hpq =>
      obtain ⟨_, hp', hr⟩ := hV _ _ _ _ g.attr _ (hpat _ List.mem_cons_self) hpq hp
      cases hr with
      | none => exact ⟨none, .consumeFails hy (hindex ▸ hp'), .none⟩
  | loopStart hi hcap =>
    obtain rfl := Option.some.inj (hi.symm.trans hx)
    cases hxy with
    | loopStart =>
      refine ⟨_, .loopStart hy (hfg.captures ▸ hcap),
        .some ⟨hfg.start, hsucc, hindex, hfg.count, ?_⟩⟩
      exact (List.length_modify ..).trans (hfg.captures.trans (List.length_modify ..).symm)
  | loopEnds hi hend =>
    obtain rfl := Option.some.inj (hi.symm.trans hx)
    cases hxy with
    | loopBack =>
      rw [hfg.count, hindex, hfg.start] at hend
      exact ⟨_, .loopEnds hy hend, .some hstay⟩
  | loopAgain hi hmax hmoved hle =>
    obtain rfl := Option.some.inj (hi.symm.trans hx)
    cases hxy with
    | loopBack =>
      obtain ⟨hle', hjump⟩ := hback _ _ rfl hle
      rw [hfg.count] at hmax
      rw [hindex, hfg.start] at hmoved
      exact ⟨_, .loopAgain hy hmax hmoved hle', .some { hfg with pc := hjump }⟩
  | choice hi hm hs =>
    obtain rfl := Option.some.inj (hi.symm.trans hx)
    cases hxy with
    | choice hpq =>
      obtain ⟨_, hm', hr⟩ := hm.mirror hV hpat hpq
      cases hr with
      | some hend => exact ⟨_, .choice hy (hindex ▸ hm') (hskip hend hs), .some hnext⟩
  | choiceFails hi hm =>
    obtain rfl := Option.some.inj (hi.symm.trans hx)
    cases hxy with
    | choice hpq =>
      obtain ⟨_, hm', hr⟩ := hm.mirror hV hpat hpq
      cases hr with
      | none => exact ⟨none, .choiceFails hy (hindex ▸ hm'), .none⟩
  | ahead hi hp hpos =>
    obtain rfl := Option.some.inj (hi.symm.trans hx)
    cases hxy with
    | ahead positive hpq =>
      obtain ⟨_, hp', hr⟩ := hV _ _ _ _ g.attr _ (hpat _ List.mem_cons_self) hpq hp
      exact ⟨_, .ahead hy (hindex ▸ hp') (rel_isSome hr ▸ hpos), .some hstay⟩
  | aheadFails hi hp hpos =>
    obtain rfl := Option.some.inj (hi.symm.trans hx)
    cases hxy with
    | ahead positive hpq =>
      obtain ⟨_, hp', hr⟩ := hV _ _ _ _ g.attr _ (hpat _ List.mem_cons_self) hpq hp
      exact ⟨none, .aheadFails hy (hindex ▸ hp') (rel_isSome hr ▸ hpos), .none⟩
  | guard hi | guardFails hi => exact absurd (List.mem_of_getElem? hi) (hc.guards _)
  | assign hi =>
    obtain rfl := Option.some.inj (hi.symm.trans hx)
    cases hxy with
    | assign => exact ⟨_, .assign hy, .some hstay⟩
  | transform hi =>
    obtain rfl := Option.some.inj (hi.symm.trans hx)
    cases hxy with
    | transform => exact ⟨_, .transform hy, .some hstay⟩
  | dropAttributes hi =>
    obtain rfl := Option.some.inj (hi.symm.trans hx)
    cases hxy with
    | dropAttributes =>
      exact ⟨_, .dropAttributes hy, .some ⟨hfg.start, hsucc, hindex, hfg.count, hfg.captures⟩⟩
  | skip hi hs =>
    obtain rfl := Option.some.inj (hi.symm.trans hx)
    cases hxy with
    | skip => exact ⟨_, .skip hy (hskip hindex hs), .some hnext⟩
  | keyword hi hf hw hs =>
    obtain rfl := Option.some.inj (hi.symm.trans hx)
    cases hxy with
    | keyword => exact ⟨_, .keyword hy (hindex ▸ hf) hw (hskip rfl hs), .some hnext⟩
  | keywordFails hi hf =>
    obtain rfl := Option.some.inj (hi.symm.trans hx)
    cases hxy with
    | keyword => exact ⟨none, .keywordFails hy (hindex ▸ hf), .none⟩

theorem Step.of_dropAttributes (hi : code.instrs[f.pc]? = some .dropAttributes)
    {o : Option (Frame α)} (h : Step V code text f o) :
    o = some { f.next f.index f.attr with dropping := true } := by
  cases h with
  | dropAttributes => rfl
  | consume hj | consumeFails hj | loopStart hj | loopEnds hj | loopAgain hj | choice hj
  | choiceFails hj | ahead hj | aheadFails hj | guard hj | guardFails hj | assign hj | transform hj
  | skip hj | keyword hj | keywordFails hj => cases hi.symm.trans hj

/-! ## Whole calls -/

theorem Frame.Beside.enterIteration (hfg : f.Beside A g) (hsucc : A (f.pc + 1) (g.pc + 1)) :
    f.enterIteration.Beside A g.enterIteration :=
  ⟨hfg.index, hsucc, hfg.index, congrArg (· + 1) hfg.count, hfg.captures⟩

theorem Frame.Beside.leaveLoop {exit : Nat} (hfg : f.Beside A g)
    (hexit : A (f.pc + exit) (g.pc + exit)) (capture : Nat) {fold fold' : Option (Action α)}
    {init init' : Option α} :
    (f.leaveLoop capture exit fold init).Beside A (g.leaveLoop capture exit fold' init') :=
  { hfg with pc := hexit }

/-- The second call drops attributes until the codes go on alike. It does so only finitely often,
since its address grows. -/
theorem Frame.Beside.catchUp (hA : code.Lockstep Pattern.Rewrites code' A) (hfg : f.Beside A g) :
    ∃ g', f.Beside A g' ∧ code.Meets Pattern.Rewrites code' A f.pc g'.pc ∧
      ∀ r, Exec V' code' text g' r → Exec V' code' text g r := by
  induction hn : code'.instrs.length - g.pc generalizing g with
  | zero =>
    rcases hA _ _ hfg.pc with hmeets | ⟨hdrop, -⟩
    · exact ⟨g, hfg, hmeets, fun _ h => h⟩
    · have hlt := (List.getElem?_eq_some_iff.1 hdrop).1
      omega
  | succ n ih =>
    rcases hA _ _ hfg.pc with hmeets | ⟨hdrop, hpc⟩
    · exact ⟨g, hfg, hmeets, fun _ h => h⟩
    · have hbeside : f.Beside A { g.next g.index g.attr with dropping := true } :=
        { hfg with pc := hpc }
      obtain ⟨g', hfg', hmeets, hexec⟩ := ih hbeside (by simp only [Frame.next]; omega)
      exact ⟨g', hfg', hmeets, fun r h => .step (.dropAttributes hdrop) (hexec r h)⟩

/-- Two calls at the same place end at the same place. -/
theorem Exec.mirror (hV : V.Mirrors V') (hc : code.IsBlind) (hcode : code.Rewrites code')
    (hA : code.Lockstep Pattern.Rewrites code' A) {r : Option (Final α)}
    (h : Exec V code text f r) (hfg : f.Beside A g) :
    ∃ r', Exec V' code' text g r' ∧ Option.Rel (fun x y => x.index = y.index) r r' := by
  induction h generalizing g with
  | halt hi =>
    obtain ⟨g', hfg', hmeets, hexec⟩ := hfg.catchUp hA
    cases hmeets with
    | instr hx | drops hx => cases hi.symm.trans hx
    | halts _ hy => exact ⟨_, hexec _ (.halt hy), .some hfg'.index⟩
  | step hs _ ih =>
    obtain ⟨g', hfg', hmeets, hexec⟩ := hfg.catchUp hA
    cases hmeets with
    | instr hx hy hxy hsucc _ hback =>
      obtain ⟨o', hs', ho⟩ := hs.mirror hV hc hcode hx hy hxy hsucc hback hfg'
      cases ho with
      | some hnext =>
        obtain ⟨r', hr', hrel⟩ := ih hnext
        exact ⟨r', hexec _ (.step hs' hr'), hrel⟩
    | drops hx hpc =>
      cases hs.of_dropAttributes hx
      obtain ⟨r', hr', hrel⟩ := ih { hfg' with pc := hpc }
      exact ⟨r', hexec _ hr', hrel⟩
    | halts hx =>
      obtain ⟨x, hi⟩ := hs.exists_instr
      cases hx.symm.trans hi
  | fail hs =>
    obtain ⟨g', hfg', hmeets, hexec⟩ := hfg.catchUp hA
    cases hmeets with
    | instr hx hy hxy hsucc _ hback =>
      obtain ⟨o', hs', ho⟩ := hs.mirror hV hc hcode hx hy hxy hsucc hback hfg'
      cases ho with
      | none => exact ⟨none, hexec _ (.fail hs'), .none⟩
    | drops hx => cases hs.of_dropAttributes hx
    | halts hx =>
      obtain ⟨x, hi⟩ := hs.exists_instr
      cases hx.symm.trans hi
  | @kept f capture min exit fold init fin hi _ ih =>
    obtain ⟨g', hfg', hmeets, hexec⟩ := hfg.catchUp hA
    cases hmeets with
    | instr hx hy hxy hsucc =>
      obtain rfl := Option.some.inj (hi.symm.trans hx)
      cases hxy
      obtain ⟨r', hr', hrel⟩ := ih (hfg'.enterIteration hsucc)
      cases hrel with
      | some hindex => exact ⟨_, hexec _ (.kept hy hr'), .some hindex⟩
    | drops hx | halts hx => cases hi.symm.trans hx
  | tooFew hi _ hmin ih =>
    obtain ⟨g', hfg', hmeets, hexec⟩ := hfg.catchUp hA
    cases hmeets with
    | instr hx hy hxy hsucc =>
      obtain rfl := Option.some.inj (hi.symm.trans hx)
      cases hxy
      obtain ⟨r', hr', hrel⟩ := ih (hfg'.enterIteration hsucc)
      cases hrel with
      | none => exact ⟨none, hexec _ (.tooFew hy hr' (hfg'.count ▸ hmin)), .none⟩
    | drops hx | halts hx => cases hi.symm.trans hx
  | @left f capture min exit fold init r hi _ hmin _ ih ih' =>
    obtain ⟨g', hfg', hmeets, hexec⟩ := hfg.catchUp hA
    cases hmeets with
    | instr hx hy hxy hsucc hexit =>
      obtain rfl := Option.some.inj (hi.symm.trans hx)
      cases hxy
      obtain ⟨r', hr', hrel⟩ := ih (hfg'.enterIteration hsucc)
      cases hrel with
      | none =>
        obtain ⟨r', hleave, hrel⟩ := ih' (hfg'.leaveLoop (hexit _ _ _ _ _ rfl) capture)
        exact ⟨r', hexec _ (.left hy hr' (hfg'.count ▸ hmin) hleave), hrel⟩
    | drops hx | halts hx => cases hi.symm.trans hx

end

/-! ## Programs and patterns -/

/-- The text that a match covers, and the offset after it. -/
def Match.extent (m : Match α) : Text × Nat := (m.matched, m.lastIndex)

section

variable {V V' : Verdicts (Pattern α) α} {fs fs' : Forwards α} {text : Text} {i : Nat}
  {a b : Option α}

theorem Runs.mirror (hV : V.Mirrors V') {p q : Program α} (hp : p.IsBlind) (hpq : p.Rewrites q)
    {r : Option (Match α)} (h : Runs V p text i a r) :
    ∃ r', Runs V' q text i b r' ∧ Option.Rel (fun m m' => m.extent = m'.extent) r r' := by
  obtain ⟨A, hzero, hA⟩ := hpq.exists_lockstep
  have hcaptures : p.captures = q.captures := by
    cases hpq
    rfl
  have hinitial : (Frame.initial p.captures i a).Beside A (.initial q.captures i b) :=
    ⟨rfl, hzero, rfl, rfl, by simp only [Frame.initial, hcaptures]⟩
  cases h with
  | matched h ht =>
    obtain ⟨_, h', hrel⟩ := h.mirror hV hp hpq hA hinitial
    cases hrel with
    | some hindex =>
      exact ⟨_, .matched h' (hindex ▸ ht), .some (congrArg (Prod.mk _) hindex)⟩
  | unsliced h ht =>
    obtain ⟨_, h', hrel⟩ := h.mirror hV hp hpq hA hinitial
    cases hrel with
    | some hindex => exact ⟨none, .unsliced h' (hindex ▸ ht), .none⟩
  | failed h =>
    obtain ⟨_, h', hrel⟩ := h.mirror hV hp hpq hA hinitial
    cases hrel with
    | none => exact ⟨none, .failed h', .none⟩

theorem Pattern.Verdict.mirror (hV : V.Mirrors V') (hfs : fs.IsBlind) (hrel : fs.Rewrites fs')
    {p q : Pattern α} (hp : p.IsBlind) (hpq : p.Rewrites q) {r : Option (Match α)}
    (h : Verdict V fs text p i a r) :
    ∃ r', Verdict V' fs' text q i b r' ∧ Option.Rel Match.SameEnd r r' := by
  have hsame (r : Option (Match α)) : Option.Rel Match.SameEnd r r := rel_self fun _ _ => rfl
  have hrun {p q : Program α} (hp : p.IsBlind) (hpq : p.Rewrites q) {r : Option (Match α)}
      (h : Runs V p text i a r) :
      ∃ r', Runs V' q text i b r' ∧ Option.Rel Match.SameEnd r r' := by
    obtain ⟨r', h', hr⟩ := Runs.mirror hV hp hpq h
    refine ⟨r', h', ?_⟩
    cases hr with
    | none => exact .none
    | some hm => exact .some (congrArg Prod.snd hm)
  cases hpq with
  | literal | regex | lineBreak | endOfInput => exact ⟨r, h, hsame r⟩
  | forward cell =>
    have hcell := hrel cell
    have hblind := hfs cell
    simp only [Verdict] at h ⊢
    generalize fs.get? cell = o, fs'.get? cell = o' at hcell hblind h ⊢
    cases hcell with
    | none => exact ⟨r, h, hsame r⟩
    | some hpq => exact hrun (hblind _ rfl) hpq h
  | custom f =>
    cases hp with
    | custom hf =>
      obtain rfl : r = _ := h
      exact ⟨_, rfl, rel_of_map_eq (hf text i a b)⟩
  | wordEnd words hig =>
    cases hp with
    | wordEnd hblind =>
      refine ⟨r, ?_, hsame r⟩
      simp only [Verdict, ← Option.not_isSome, rel_isSome hig] at h ⊢
      split at h
      · rename_i hl
        rwa [if_pos hl]
      · rename_i hl
        obtain ⟨found, hfound, hr⟩ := h
        rw [if_neg hl]
        exact ⟨found, hfound.mirror hV hblind hig, hr⟩
  | program hpq => exact hrun (isBlind_program_iff.1 hp) hpq h

/-- What blind patterns come to. -/
theorem Pattern.mirrors_answers (hfs : fs.IsBlind) (hrel : fs.Rewrites fs') :
    Verdicts.Mirrors (Pattern.Answers fs text) (Pattern.Answers fs' text) := by
  have hfuel (fuel : Nat) :
      Verdicts.Mirrors (Probe.verdicts (find fs text fuel)) (Pattern.Answers fs' text) := by
    induction fuel with
    | zero =>
      rintro p q i a b r - - ⟨j, j', h⟩
      exact absurd h Trial.not_ends_outOfFuel
    | succ fuel ih =>
      intro p q i a b r hp hpq h
      obtain ⟨r', hr', hends⟩ := Verdict.mirror ih hfs hrel hp hpq (find_sound h)
      exact ⟨r', find_complete hr', hends⟩
  intro p q i a b r hp hpq h
  obtain ⟨fuel, h⟩ := h.exists_find
  exact hfuel fuel p q i a b r hp hpq h

/-- The program comes to a match of that extent, or does not match. -/
def Program.Covers (fs : Forwards α) (text : Text) (p : Program α) (i : Nat) (a : Option α)
    (x : Option (Text × Nat)) : Prop :=
  ∃ r, p.Answers fs text i a r ∧ r.map Match.extent = x

theorem Program.Covers.mirror (hfs : fs.IsBlind) (hrel : fs.Rewrites fs') {p q : Program α}
    (hp : p.IsBlind) (hpq : p.Rewrites q) {x : Option (Text × Nat)}
    (h : p.Covers fs text i a x) : q.Covers fs' text i b x := by
  obtain ⟨r, h, rfl⟩ := h
  obtain ⟨r', h', hends⟩ :=
    Runs.mirror (Pattern.mirrors_answers hfs hrel) hp hpq (Program.answers_iff.1 h)
  refine ⟨r', Program.answers_iff.2 h', ?_⟩
  cases hends with
  | none => rfl
  | some hm => exact congrArg some hm.symm

/-- Attributes do not steer a blind program. Whether it matches, what text and up to where does not
depend on what it inherits, and neither on the actions, transformations, assigned values, folds and
their starts in it, nor on where in its chain of steps it drops attributes. The same may differ in
programs in it, and in those that forward references stand for. -/
theorem Program.IsBlind.covers_iff (hfs : fs.IsBlind) {p : Program α} (hp : p.IsBlind)
    (text : Text) (i : Nat) :
    (∀ a b x, p.Covers fs text i a x ↔ p.Covers fs text i b x) ∧
    ∀ fs' q, fs.Rewrites fs' → p.Rewrites q →
      ∀ a b x, p.Covers fs text i a x ↔ q.Covers fs' text i b x := by
  have hrewritten : ∀ fs' q, fs.Rewrites fs' → p.Rewrites q →
      ∀ a b x, p.Covers fs text i a x ↔ q.Covers fs' text i b x := by
    intro fs' q hrel hpq a b x
    obtain ⟨hfs', hrel'⟩ := hfs.symm hrel
    obtain ⟨hq, hqp⟩ := hp.symm hpq
    exact ⟨Covers.mirror hfs hrel hp hpq, Covers.mirror hfs' hrel' hq hqp⟩
  exact ⟨hrewritten fs p hfs.rewrites_self hp.rewrites_self, hrewritten⟩

/-- A list behind a bracket, of which the attribute is threaded through its elements or dropped, and
the elements are folded in different ways. -/
theorem Program.IsBlind.covers_iff_list :
    let f : Matcher Nat :=
      ⟨fun text i a => (literalEnd? ['a'] text i).map fun j => ⟨['a'], j, a, []⟩, none⟩
    let ending (n : Nat) : Ending Nat := .sealed (.delimited (.custom f) (.literal [',']))
      (some (⟨fun c => c.inherited.map (· + n), none⟩, some n)) []
    let p := (ending 1).close (Lexicon.empty.chain [.token (.literal ['(']) none])
    let q := (ending 2).close
      (Lexicon.empty.chain [.dropAttributes, .token (.literal ['(']) (some .pass)])
    p.IsBlind ∧ p.Rewrites q ∧
      q.Covers .empty "(a,a;".toList 0 (some 3) (some ("(a,a".toList, 4)) := by
  intro f ending p q
  have hf : (Pattern.custom f).IsBlind := .custom fun text i a b => by
    simp only [f, Option.map_map]
    rfl
  have hp : p.IsBlind := by
    refine ⟨nofun, ?_, nofun⟩
    have hpatterns : (Pattern.literal ['('] : Pattern Nat).IsBlind ∧ (Pattern.custom f).IsBlind ∧
        (Pattern.literal [','] : Pattern Nat).IsBlind ∧ (Pattern.custom f).IsBlind :=
      ⟨.literal _, hf, .literal _, hf⟩
    simpa [p, ending, Ending.close_eq, Lexicon.chain_eq, Lexicon.grammar, Lexicon.empty,
      Grammar.append, Link.instrsOf, Link.instrs, Ending.instrs, Seal.repetition,
      Repetition.folding, Repetition.followedBy, Repetition.withFold, Repetition.loopInstrs,
      Grammar.tokenDelimited, Instr.token, Instr.patterns] using hpatterns
  have hpq : p.Rewrites q := Ending.rewrites_close
    (.right (.cons trivial (.consume _ _ (.literal _)) .nil))
    (.cons (.loopStart _) (.cons (.consume _ _ (.custom f)) (.cons (.loopTry _ _ _)
      (.cons (.consume _ _ (.literal _)) (.cons (.consume _ _ (.custom f))
        (.cons (.loopBack _ _) .nil)))))) .none
  have hfs : (Forwards.empty : Forwards Nat).IsBlind := fun _ _ h => by simp at h
  have hcovers : p.Covers .empty "(a,a;".toList 0 none (some ("(a,a".toList, 4)) := by
    refine ⟨some ⟨"(a,a".toList, 4, some 3, []⟩, ?_, rfl⟩
    exact Pattern.answers_program_iff.1 (Pattern.answers_of_outcome? 16 (by decide +kernel))
  exact ⟨hp, hpq, ((hp.covers_iff hfs _ 0).2 .empty q hfs.rewrites_self hpq none _ _).1 hcovers⟩

end

end GrammarMachine
