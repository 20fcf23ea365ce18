import GrammarMachine.Proofs.Semantics.Exec
import GrammarMachine.Proofs.Semantics.Trial

/-!
# Derivations and the machine agree

* `exec_sound`: a call of the machine that ends has a derivation from the verdicts of its probe.
* `exec_complete`: a derivation is carried out by the machine with enough fuel, from every journal.
* `Code.run_sound`, `Code.run_complete`: the same for programs.
-/

namespace GrammarMachine

variable {π α : Type}

/-- The verdicts that a probe can come to. -/
def Probe.verdicts (probe : Probe π α) : Verdicts π α := fun p i a r =>
  ∃ j j', (probe p i a).Ends j r j'

/-- The verdicts that probes, one for each amount of fuel, settle on. -/
def Probe.settled (probe : Nat → Probe π α) : Verdicts π α := fun p i a r =>
  Trial.Settles (fun fuel => probe fuel p i a) r

/-! ## Attributes -/

theorem attrAfter_gives (f : Frame α) (action : Option (Action α)) (m : Match α) :
    (attrAfter f action m : Trial π α (Option α)).Gives (some (f.matchAttr action m)) := by
  cases action with
  | none => exact .pure _
  | some a =>
    have hcall : (callAction a ⟨m.matched, m.attr, f.attr, m.extra⟩ : Trial π α _).Gives
        (some (a.apply ⟨m.matched, m.attr, f.attr, m.extra⟩)) := .note_bind (.pure _)
    exact hcall.bind (.pure _)

theorem foldIterations_gives (dropping : Bool) (a : Action α) (acc : Option α)
    (ms : List (Match α)) : (foldIterations dropping a acc ms : Trial π α (Option α)).Gives
      (some (ms.foldl (foldStep dropping a) acc)) := by
  induction ms generalizing acc with
  | nil => exact .pure _
  | cons m ms ih => exact .bind (.note_bind (.pure _)) (ih _)

theorem settle_gives (f : Frame α) (attr : Option α) (iterations : List (Match α))
    (fold : Option (Action α)) (init : Option α) :
    (settle f attr iterations fold init : Trial π α (Option α)).Gives
      (some (f.settledAttr attr iterations fold init)) := by
  cases fold with
  | none => exact .note_bind (.pure _)
  | some a => exact .note_bind (foldIterations_gives f.dropping a _ iterations)

/-- A trial whose answer is known can be passed over. -/
theorem Trial.Ends.of_gives_bind {β γ : Type} {t : Trial π α β} {k : β → Trial π α γ} {b : β}
    {j j' : Journal π α} {r : Option γ} (ht : t.Gives (some b)) (h : (t >>= k).Ends j r j') :
    ∃ j₁, (k b).Ends j₁ r j' := by
  obtain ⟨j₂, h₂⟩ := ht j
  rcases h.of_bind with ⟨hn, -⟩ | ⟨c, j₁, hc, hk⟩
  · rw [Trial.Ends] at h₂ hn
    rw [h₂] at hn
    cases hn
  · rw [Trial.Ends] at h₂ hc
    rw [h₂] at hc
    cases hc
    exact ⟨_, hk⟩

/-! ## Testing several patterns -/

section

variable {probe : Probe π α}

theorem firstMatch_sound {index : Nat} {inherited : Option α} {ps : List π} {j j' : Journal π α}
    {r : Option (Match α)} (h : (firstMatch probe index inherited ps).Ends j r j') :
    FirstMatch probe.verdicts index inherited ps r := by
  induction ps generalizing j with
  | nil => rw [h.of_mismatch]; exact .nil
  | cons p ps ih =>
    obtain ⟨o, j₁, hp, hk⟩ := Trial.Ends.of_attempt_bind h
    cases o with
    | none => exact .later ⟨j, j₁, hp⟩ (ih hk)
    | some m => rw [hk.of_pure]; exact .here ⟨j, j₁, hp⟩

theorem skipIgnored_sound {ignore : Option π} {index : Nat} {inherited : Option α}
    {j j' : Journal π α} {r : Option Nat}
    (h : (skipIgnored probe ignore index inherited).Ends j r j') :
    ∃ i, r = some i ∧ Skips probe.verdicts ignore index inherited i := by
  cases ignore with
  | none => exact ⟨index, h.of_pure, .nothing⟩
  | some p =>
    obtain ⟨o, j₁, hp, hk⟩ := Trial.Ends.of_attempt_bind h
    cases o with
    | none => exact ⟨index, hk.of_pure, .stays ⟨j, j₁, hp⟩⟩
    | some m => exact ⟨m.lastIndex, hk.of_pure, .moves ⟨j, j₁, hp⟩⟩

/-- Ignorable text is skipped and does not fail, so what follows always runs. -/
theorem skipIgnored_bind_sound {β : Type} {ignore : Option π} {index : Nat} {inherited : Option α}
    {k : Nat → Trial π α β} {j j' : Journal π α} {r : Option β}
    (h : (skipIgnored probe ignore index inherited >>= k).Ends j r j') :
    ∃ i j₁, Skips probe.verdicts ignore index inherited i ∧ (k i).Ends j₁ r j' := by
  rcases h.of_bind with ⟨hs, -⟩ | ⟨i, j₁, hs, hk⟩
  · obtain ⟨i, hi, -⟩ := skipIgnored_sound hs
    cases hi
  · obtain ⟨i', hi, hskip⟩ := skipIgnored_sound hs
    cases hi
    exact ⟨i, j₁, hskip, hk⟩

/-- A call of the machine that ends has a derivation. -/
theorem exec_sound {code : Code π α} {text : Text} {fuel : Nat} {f : Frame α} {j j' : Journal π α}
    {r : Option (Final α)} (h : (exec probe code text fuel f).Ends j r j') :
    Exec probe.verdicts code text f r := by
  induction fuel generalizing f j j' r with
  | zero => exact absurd h Trial.not_ends_outOfFuel
  | succ fuel ih =>
    rw [exec] at h
    split at h
    next hi => rw [h.of_pure]; exact .halt hi
    next instr hi =>
    replace h := h.of_note_bind
    cases instr with
    | consume p action capture skips =>
      rcases h.of_bind with ⟨hp, rfl⟩ | ⟨m, j₁, hp, h₁⟩
      · exact .fail (.consumeFails hi ⟨_, _, hp⟩)
      obtain ⟨j₂, h₂⟩ := h₁.of_gives_bind (attrAfter_gives f action m)
      cases skips with
      | false => exact .step (.consume hi ⟨_, _, hp⟩ .nothing) (ih h₂.of_pure_bind)
      | true =>
        obtain ⟨i, j₃, hs, h₃⟩ := skipIgnored_bind_sound h₂
        exact .step (.consume hi ⟨_, _, hp⟩ hs) (ih h₃)
    | loopStart capture =>
      dsimp only at h
      by_cases hc : capture < f.captures.length
      · rw [if_pos hc] at h
        exact .step (.loopStart hi hc) (ih h)
      · rw [if_neg hc] at h
        exact absurd h Trial.not_ends_invalidCapture
    | loopTry capture min exit fold init =>
      obtain ⟨o, j₁, hn, h₁⟩ := h.of_attempt_bind
      cases o with
      | some fin =>
        have hk := Exec.kept hi (ih hn)
        simp only [Frame.afterIteration] at hk
        by_cases hc : f.count = 0
        · simp only [hc, if_true] at h₁ hk
          obtain ⟨j₂, h₂⟩ := h₁.of_gives_bind (settle_gives _ _ _ _ _)
          rw [h₂.of_pure]
          exact hk
        · simp only [hc, if_false] at h₁ hk
          rw [h₁.of_pure]
          exact hk
      | none =>
        by_cases hm : f.count < min
        · simp only [hm, if_true] at h₁
          rw [h₁.of_mismatch]
          exact .tooFew hi (ih hn) hm
        · simp only [hm, if_false] at h₁
          refine .left hi (ih hn) (Nat.le_of_not_lt hm) ?_
          by_cases hc : f.count = 0
          · simp only [hc, if_true] at h₁
            obtain ⟨j₂, h₂⟩ := h₁.of_gives_bind (settle_gives _ _ _ _ _)
            simpa only [Frame.leaveLoop, hc, if_true] using ih h₂
          · simp only [hc, if_false] at h₁
            simpa only [Frame.leaveLoop, hc, if_false] using ih h₁
    | loopBack back max =>
      dsimp only at h
      by_cases hmax : max.any (· ≤ f.count)
      · rw [if_pos hmax] at h
        exact .step (.loopEnds hi (.inl hmax)) (ih h)
      · rw [if_neg hmax] at h
        by_cases hidx : f.index = f.start
        · rw [if_pos hidx] at h
          exact .step (.loopEnds hi (.inr hidx)) (ih h.of_note_bind)
        rw [if_neg hidx] at h
        by_cases hback : back ≤ f.pc
        · rw [if_pos hback] at h
          exact .step (.loopAgain hi hmax hidx hback) (ih h)
        · rw [if_neg hback] at h
          exact absurd h Trial.not_ends_invalidJump
    | choice branches =>
      rcases h.of_bind with ⟨hp, rfl⟩ | ⟨m, j₁, hp, h₁⟩
      · exact .fail (.choiceFails hi (firstMatch_sound hp))
      obtain ⟨i, j₂, hs, h₂⟩ := skipIgnored_bind_sound h₁
      exact .step (.choice hi (firstMatch_sound hp) hs) (ih h₂)
    | ahead p positive =>
      obtain ⟨o, j₁, hp, h₁⟩ := h.of_attempt_bind
      by_cases ho : o.isSome = positive
      · rw [if_pos ho] at h₁
        exact .step (.ahead hi ⟨_, _, hp⟩ ho) (ih h₁)
      · rw [if_neg ho] at h₁
        rw [h₁.of_mismatch]
        exact .fail (.aheadFails hi ⟨_, _, hp⟩ ho)
    | guard condition =>
      replace h := h.of_note_bind
      by_cases hc : condition.apply f.attr
      · rw [if_pos hc] at h
        exact .step (.guard hi hc) (ih h)
      · rw [if_neg hc] at h
        rw [h.of_mismatch]
        exact .fail (.guardFails hi hc)
    | assign value => exact .step (.assign hi) (ih h)
    | transform t => exact .step (.transform hi) (ih h.of_note_bind)
    | dropAttributes => exact .step (.dropAttributes hi) (ih h)
    | skip =>
      obtain ⟨i, j₁, hs, h₁⟩ := skipIgnored_bind_sound h
      exact .step (.skip hi hs) (ih h₁)
    | keyword words word =>
      rcases h.of_bind with ⟨hp, rfl⟩ | ⟨found, j₁, hp, h₁⟩
      · refine .fail (.keywordFails hi fun found hf => ?_)
        rw [hf] at hp
        cases hp.of_ofOption
      have hf := hp.of_ofOption
      by_cases hw : found.matched = word
      · rw [if_pos hw] at h₁
        obtain ⟨i, j₂, hs, h₂⟩ := skipIgnored_bind_sound h₁
        exact .step (.keyword hi hf.symm hw hs) (ih h₂)
      · rw [if_neg hw] at h₁
        rw [h₁.of_mismatch]
        refine .fail (.keywordFails hi fun found' hf' => ?_)
        rw [hf'] at hf
        cases hf
        exact hw

/-- A program that ends runs as derived. -/
theorem Code.run_sound {code : Code π α} {text : Text} {fuel start : Nat} {inherited : Option α}
    {j j' : Journal π α} {r : Option (Match α)}
    (h : (code.run probe fuel text start inherited).Ends j r j') :
    Runs probe.verdicts code text start inherited r := by
  rcases h.of_bind with ⟨hx, rfl⟩ | ⟨fin, j₁, hx, h₁⟩
  · exact .failed (exec_sound hx)
  rcases h₁.of_bind with ⟨hs, rfl⟩ | ⟨t, j₂, hs, h₂⟩
  · exact .unsliced (exec_sound hx) hs.of_ofOption.symm
  · rw [h₂.of_pure]
    exact .matched (exec_sound hx) hs.of_ofOption.symm

end

/-! ## Carrying out a derivation -/

section

variable {probe : Nat → Probe π α}

theorem firstMatch_complete {index : Nat} {inherited : Option α} {ps : List π}
    {r : Option (Match α)} (h : FirstMatch (Probe.settled probe) index inherited ps r) :
    Trial.Settles (fun fuel => firstMatch (probe fuel) index inherited ps) r := by
  induction h with
  | nil => exact ⟨0, fun _ _ => .mismatch⟩
  | here h =>
    obtain ⟨n, hn⟩ := h
    exact ⟨n, fun k hk => (hn k hk).attempt_bind (.pure _)⟩
  | later h _ ih =>
    obtain ⟨n, hn⟩ := h
    obtain ⟨n', hn'⟩ := ih
    exact ⟨max n n', fun k hk => (hn k (by omega)).attempt_bind (hn' k (by omega))⟩

theorem skipIgnored_complete {ignore : Option π} {index i : Nat} {inherited : Option α}
    (h : Skips (Probe.settled probe) ignore index inherited i) :
    Trial.Settles (fun fuel => skipIgnored (probe fuel) ignore index inherited) (some i) := by
  cases h with
  | nothing => exact ⟨0, fun _ _ => .pure _⟩
  | moves h =>
    obtain ⟨n, hn⟩ := h
    exact ⟨n, fun k hk => (hn k hk).attempt_bind (.pure _)⟩
  | stays h =>
    obtain ⟨n, hn⟩ := h
    exact ⟨n, fun k hk => (hn k hk).attempt_bind (.pure _)⟩

/-- What a call gives that goes on in the next frame, or fails. -/
def Continues (probe : Probe π α) (code : Code π α) (text : Text) (fuel : Nat) :
    Option (Frame α) → Option (Final α) → Prop
  | some f, r => (exec probe code text fuel f).Gives r
  | none, r => r = none

/-- The machine carries out a step with one unit of fuel. -/
theorem step_complete {code : Code π α} {text : Text} {f : Frame α} {o : Option (Frame α)}
    (h : Step (Probe.settled probe) code text f o) :
    ∃ n, ∀ k, n ≤ k → ∀ fuel r, Continues (probe k) code text fuel o r →
      (exec (probe k) code text (fuel + 1) f).Gives r := by
  cases h with
  | @consume p action capture skips m i hi hp hs =>
    obtain ⟨n, hn⟩ := hp
    cases skips with
    | false =>
      cases hs
      refine ⟨n, fun k hk fuel r hr => ?_⟩
      rw [exec, hi]
      exact .note_bind ((hn k hk).bind ((attrAfter_gives f action m).bind hr))
    | true =>
      obtain ⟨n', hn'⟩ := skipIgnored_complete hs
      refine ⟨max n n', fun k hk fuel r hr => ?_⟩
      rw [exec, hi]
      exact .note_bind ((hn k (by omega)).bind
        ((attrAfter_gives f action m).bind ((hn' k (by omega)).bind hr)))
  | consumeFails hi hp =>
    obtain ⟨n, hn⟩ := hp
    refine ⟨n, fun k hk fuel r hr => ?_⟩
    rw [exec, hi, show r = none from hr]
    exact .note_bind (hn k hk).bind_none
  | loopStart hi hc =>
    refine ⟨0, fun k _ fuel r hr => ?_⟩
    rw [exec, hi]
    refine .note_bind ?_
    dsimp only
    rw [if_pos hc]
    exact hr
  | @loopEnds back max hi h =>
    refine ⟨0, fun k _ fuel r hr => ?_⟩
    rw [exec, hi]
    refine .note_bind ?_
    dsimp only
    by_cases hm : max.any (· ≤ f.count)
    · rw [if_pos hm]
      exact hr
    · rw [if_neg hm, if_pos (h.resolve_left hm)]
      exact .note_bind hr
  | loopAgain hi hm hx hb =>
    refine ⟨0, fun k _ fuel r hr => ?_⟩
    rw [exec, hi]
    refine .note_bind ?_
    dsimp only
    rw [if_neg hm, if_neg hx, if_pos hb]
    exact hr
  | choice hi hp hs =>
    obtain ⟨n, hn⟩ := firstMatch_complete hp
    obtain ⟨n', hn'⟩ := skipIgnored_complete hs
    refine ⟨max n n', fun k hk fuel r hr => ?_⟩
    rw [exec, hi]
    exact .note_bind ((hn k (by omega)).bind ((hn' k (by omega)).bind hr))
  | choiceFails hi hp =>
    obtain ⟨n, hn⟩ := firstMatch_complete hp
    refine ⟨n, fun k hk fuel r hr => ?_⟩
    rw [exec, hi, show r = none from hr]
    exact .note_bind (hn k hk).bind_none
  | ahead hi hp ho =>
    obtain ⟨n, hn⟩ := hp
    refine ⟨n, fun k hk fuel r hr => ?_⟩
    rw [exec, hi]
    refine .note_bind ((hn k hk).attempt_bind ?_)
    rw [if_pos ho]
    exact hr
  | aheadFails hi hp ho =>
    obtain ⟨n, hn⟩ := hp
    refine ⟨n, fun k hk fuel r hr => ?_⟩
    rw [exec, hi, show r = none from hr]
    refine .note_bind ((hn k hk).attempt_bind ?_)
    rw [if_neg ho]
    exact .mismatch
  | guard hi hc =>
    refine ⟨0, fun k _ fuel r hr => ?_⟩
    rw [exec, hi]
    refine .note_bind (.note_bind ?_)
    rw [if_pos hc]
    exact hr
  | guardFails hi hc =>
    refine ⟨0, fun k _ fuel r hr => ?_⟩
    rw [exec, hi, show r = none from hr]
    refine .note_bind (.note_bind ?_)
    rw [if_neg hc]
    exact .mismatch
  | assign hi =>
    refine ⟨0, fun k _ fuel r hr => ?_⟩
    rw [exec, hi]
    exact .note_bind hr
  | transform hi =>
    refine ⟨0, fun k _ fuel r hr => ?_⟩
    rw [exec, hi]
    exact .note_bind (.note_bind hr)
  | dropAttributes hi =>
    refine ⟨0, fun k _ fuel r hr => ?_⟩
    rw [exec, hi]
    exact .note_bind hr
  | skip hi hs =>
    obtain ⟨n, hn⟩ := skipIgnored_complete hs
    refine ⟨n, fun k hk fuel r hr => ?_⟩
    rw [exec, hi]
    exact .note_bind ((hn k hk).bind hr)
  | keyword hi hf hw hs =>
    obtain ⟨n, hn⟩ := skipIgnored_complete hs
    refine ⟨n, fun k hk fuel r hr => ?_⟩
    rw [exec, hi]
    refine .note_bind (.ofOption_bind hf ?_)
    rw [if_pos hw]
    exact (hn k hk).bind hr
  | @keywordFails words word hi hf =>
    refine ⟨0, fun k _ fuel r hr => ?_⟩
    rw [exec, hi, show r = none from hr]
    refine .note_bind ?_
    cases hs : words.search text f.index with
    | none => exact .ofOption_bind_none hs
    | some found =>
      refine .ofOption_bind hs ?_
      rw [if_neg (hf found hs)]
      exact .mismatch

/-- One unit of fuel is for the instruction itself. -/
theorem exists_fuel {code : Code π α} {text : Text} {f : Frame α} {r : Option (Final α)} (n : Nat)
    (h : ∀ k, n ≤ k → ∀ fuel, n ≤ fuel → (exec (probe k) code text (fuel + 1) f).Gives r) :
    ∃ n, ∀ k, n ≤ k → ∀ fuel, n ≤ fuel → (exec (probe k) code text fuel f).Gives r := by
  refine ⟨n + 1, fun k hk fuel hf => ?_⟩
  cases fuel with
  | zero => omega
  | succ fuel => exact h k (by omega) fuel (by omega)

/-- The machine carries out every derivation, with enough fuel for itself and for its probe. -/
theorem exec_complete {code : Code π α} {text : Text} {f : Frame α} {r : Option (Final α)}
    (h : Exec (Probe.settled probe) code text f r) :
    ∃ n, ∀ k, n ≤ k → ∀ fuel, n ≤ fuel → (exec (probe k) code text fuel f).Gives r := by
  induction h with
  | halt hi =>
    refine exists_fuel 0 fun k _ fuel _ => ?_
    rw [exec, hi]
    exact .pure _
  | step hs _ ih =>
    obtain ⟨n, hn⟩ := step_complete hs
    obtain ⟨n', hn'⟩ := ih
    refine exists_fuel (max n n') fun k hk fuel hf => ?_
    exact hn k (by omega) fuel _ (hn' k (by omega) fuel (by omega))
  | fail hs =>
    obtain ⟨n, hn⟩ := step_complete hs
    refine exists_fuel n fun k hk fuel hf => ?_
    exact hn k (by omega) fuel none rfl
  | @kept f capture min exit fold init fin hi _ ih =>
    obtain ⟨n, hn⟩ := ih
    refine exists_fuel n fun k hk fuel hf => ?_
    rw [exec, hi]
    refine .note_bind ((hn k (by omega) fuel (by omega)).attempt_bind ?_)
    simp only [Frame.afterIteration]
    by_cases hc : f.count = 0
    · rw [if_pos hc, if_pos hc]
      exact (settle_gives _ _ _ _ _).bind (.pure _)
    · rw [if_neg hc, if_neg hc]
      exact .pure _
  | @tooFew f capture min exit fold init hi _ hm ih =>
    obtain ⟨n, hn⟩ := ih
    refine exists_fuel n fun k hk fuel hf => ?_
    rw [exec, hi]
    refine .note_bind ((hn k (by omega) fuel (by omega)).attempt_bind ?_)
    dsimp only
    rw [if_pos hm]
    exact .mismatch
  | @left f capture min exit fold init r hi _ hm _ ih ih' =>
    obtain ⟨n, hn⟩ := ih
    obtain ⟨n', hn'⟩ := ih'
    refine exists_fuel (max n n') fun k hk fuel hf => ?_
    have hr := hn' k (by omega) fuel (by omega)
    rw [exec, hi]
    refine .note_bind ((hn k (by omega) fuel (by omega)).attempt_bind ?_)
    dsimp only
    rw [if_neg (by omega)]
    simp only [Frame.leaveLoop] at hr
    by_cases hc : f.count = 0
    · rw [if_pos hc] at hr ⊢
      exact (settle_gives _ _ _ _ _).bind hr
    · rw [if_neg hc] at hr ⊢
      exact hr

theorem Code.run_complete {code : Code π α} {text : Text} {start : Nat} {inherited : Option α}
    {r : Option (Match α)} (h : Runs (Probe.settled probe) code text start inherited r) :
    ∃ n, ∀ k, n ≤ k → ∀ fuel, n ≤ fuel →
      (code.run (probe k) fuel text start inherited).Gives r := by
  cases h with
  | matched h ht =>
    obtain ⟨n, hn⟩ := exec_complete h
    exact ⟨n, fun k hk fuel hf => (hn k hk fuel hf).bind (.ofOption_bind ht (.pure _))⟩
  | unsliced h ht =>
    obtain ⟨n, hn⟩ := exec_complete h
    exact ⟨n, fun k hk fuel hf => (hn k hk fuel hf).bind (.ofOption_bind_none ht)⟩
  | failed h =>
    obtain ⟨n, hn⟩ := exec_complete h
    exact ⟨n, fun k hk fuel hf => (hn k hk fuel hf).bind_none⟩

end

end GrammarMachine
