import GrammarMachine.Machine

/-!
# What a trial comes to

A trial matches with a value, fails to match, runs out of fuel, or has a fault. It writes to the
journal but never reads it, so what it comes to is said without the journal.

* `Trial.Ends t j r j'`: from journal `j`, the trial `t` ends with `r`, absent for a failure to
  match, and journal `j'`. A trial that runs out of fuel or has a fault does not end.
* `Trial.Gives t r`: `t` ends with `r` from every journal.
* `Trial.outcome?`: what a trial ends with, as a computation.
* `Trial.Settles t r`: of the trials `t`, one for each amount of fuel, all with enough fuel give `r`.

The `bind` lemmas about `Ends` take a composed trial apart, those about `Gives` put it together.
-/

namespace GrammarMachine

namespace Trial

variable {π α β γ : Type}

/-- From journal `j`, the trial ends with `r` and journal `j'`. -/
def Ends (t : Trial π α β) (j : Journal π α) (r : Option β) (j' : Journal π α) : Prop :=
  t.attempt j = .ok r j'

/-- The trial ends with `r`, whatever the journal. -/
def Gives (t : Trial π α β) (r : Option β) : Prop := ∀ j, ∃ j', t.Ends j r j'

/-- All trials with enough fuel give `r`. -/
def Settles (t : Nat → Trial π α β) (r : Option β) : Prop :=
  ∃ n, ∀ fuel, n ≤ fuel → (t fuel).Gives r

/-- What the trial ends with from the empty journal; absent if it does not end. -/
def outcome? (t : Trial π α β) : Option (Option β) :=
  match t.attempt .empty with
  | .ok r _ => some r
  | .error _ _ => none

variable {t : Trial π α β} {k : β → Trial π α γ} {j j' : Journal π α}

theorem ends_some_iff {b : β} : t.Ends j (some b) j' ↔ t j = .ok b j' := by
  unfold Ends attempt
  split <;> simp_all

theorem ends_none_iff : t.Ends j none j' ↔ t j = .error .mismatch j' := by
  unfold Ends attempt
  split <;> simp_all

theorem exists_ends_of_outcome? {r : Option β} (h : t.outcome? = some r) :
    ∃ j', t.Ends .empty r j' := by
  unfold outcome? at h
  split at h
  · obtain rfl := Option.some.inj h
    exact ⟨_, ‹_›⟩
  · cases h

/-! ## Taking a trial apart -/

theorem Ends.of_pure {b : β} {r : Option β} (h : (pure b : Trial π α β).Ends j r j') :
    r = some b := by
  cases r with
  | none => cases ends_none_iff.1 h
  | some c => cases ends_some_iff.1 h; rfl

theorem Ends.of_mismatch {r : Option β} (h : (mismatch : Trial π α β).Ends j r j') : r = none := by
  cases r with
  | none => rfl
  | some c => cases ends_some_iff.1 h

/-- A trial that stops otherwise than by a failure to match does not end. -/
theorem not_ends_throw {e : Stop} (he : e ≠ .mismatch) {r : Option β} :
    ¬ (throw e : Trial π α β).Ends j r j' := by
  intro h
  cases r with
  | none =>
    cases ends_none_iff.1 h
    exact he rfl
  | some c => cases ends_some_iff.1 h

theorem not_ends_outOfFuel {r : Option β} : ¬ (outOfFuel : Trial π α β).Ends j r j' :=
  not_ends_throw (by decide : Stop.outOfFuel ≠ .mismatch)

theorem not_ends_invalidSlice {r : Option β} : ¬ (invalidSlice : Trial π α β).Ends j r j' :=
  not_ends_throw (by decide : Stop.invalidSlice ≠ .mismatch)

theorem not_ends_invalidCapture {r : Option β} : ¬ (invalidCapture : Trial π α β).Ends j r j' :=
  not_ends_throw (by decide : Stop.invalidCapture ≠ .mismatch)

theorem not_ends_invalidJump {r : Option β} : ¬ (invalidJump : Trial π α β).Ends j r j' :=
  not_ends_throw (by decide : Stop.invalidJump ≠ .mismatch)

theorem Ends.of_ofOption {o r : Option β} (h : (ofOption o : Trial π α β).Ends j r j') : r = o := by
  cases o with
  | none => exact h.of_mismatch
  | some b => exact h.of_pure

/-- A composed trial fails in its first part, or ends as the second does. -/
theorem Ends.of_bind {r : Option γ} (h : (t >>= k).Ends j r j') :
    (t.Ends j none j' ∧ r = none) ∨ ∃ b j₁, t.Ends j (some b) j₁ ∧ (k b).Ends j₁ r j' := by
  simp only [ends_none_iff, ends_some_iff]
  simp only [Ends, attempt, bind, EStateM.bind] at h
  cases ht : t j with
  | ok b j₁ => exact .inr ⟨b, j₁, rfl, by simpa [ht, Ends, attempt] using h⟩
  | error e j₁ => cases e <;> simp_all

/-- An attempt does not fail, so what follows it always runs. -/
theorem Ends.of_attempt_bind {k : Option β → Trial π α γ} {r : Option γ}
    (h : (t.attempt >>= k).Ends j r j') : ∃ o j₁, t.Ends j o j₁ ∧ (k o).Ends j₁ r j' := by
  rcases h.of_bind with ⟨hn, -⟩ | ⟨o, j₁, ho, hk⟩
  · rw [ends_none_iff, attempt] at hn
    split at hn <;> simp_all
  · exact ⟨o, j₁, ends_some_iff.1 ho, hk⟩

theorem Ends.of_note_bind {e : Event π α} {k : Unit → Trial π α γ} {r : Option γ}
    (h : (note e >>= k).Ends j r j') : (k ()).Ends (j.note e) r j' := by
  rcases h.of_bind with ⟨hn, -⟩ | ⟨u, j₁, hu, hk⟩
  · cases ends_none_iff.1 hn
  · cases ends_some_iff.1 hu
    exact hk

theorem Ends.of_pure_bind {b : β} {r : Option γ} (h : ((pure b : Trial π α β) >>= k).Ends j r j') :
    (k b).Ends j r j' := h

/-! ## Putting a trial together -/

theorem Gives.pure (b : β) : (pure b : Trial π α β).Gives (some b) := fun j => ⟨j, rfl⟩

theorem Gives.mismatch : (mismatch : Trial π α β).Gives none := fun j => ⟨j, rfl⟩

theorem Gives.ofOption (o : Option β) : (ofOption o : Trial π α β).Gives o := by
  cases o with
  | none => exact .mismatch
  | some b => exact .pure b

theorem Gives.bind {b : β} {r : Option γ} (ht : t.Gives (some b)) (hk : (k b).Gives r) :
    (t >>= k).Gives r := by
  intro j
  obtain ⟨j₁, h₁⟩ := ht j
  obtain ⟨j₂, h₂⟩ := hk j₁
  refine ⟨j₂, ?_⟩
  simpa only [Ends, attempt, Bind.bind, EStateM.bind, ends_some_iff.1 h₁] using h₂

theorem Gives.bind_none (ht : t.Gives none) : (t >>= k).Gives none := by
  intro j
  obtain ⟨j₁, h₁⟩ := ht j
  refine ⟨j₁, ?_⟩
  simp only [Ends, attempt, Bind.bind, EStateM.bind, ends_none_iff.1 h₁]

theorem Gives.ofOption_bind {o : Option β} {b : β} {r : Option γ} (ho : o = some b)
    (hk : (k b).Gives r) : (Trial.ofOption o >>= k).Gives r := by
  subst ho
  exact (Gives.ofOption (some b)).bind hk

theorem Gives.ofOption_bind_none {o : Option β} (ho : o = none) :
    (Trial.ofOption o >>= k).Gives none := by
  subst ho
  exact (Gives.ofOption (none : Option β)).bind_none

theorem Gives.attempt {r : Option β} (ht : t.Gives r) : t.attempt.Gives (some r) := by
  intro j
  obtain ⟨j₁, h₁⟩ := ht j
  exact ⟨j₁, ends_some_iff.2 h₁⟩

theorem Gives.attempt_bind {k : Option β → Trial π α γ} {o : Option β} {r : Option γ}
    (ht : t.Gives o) (hk : (k o).Gives r) : (t.attempt >>= k).Gives r := ht.attempt.bind hk

theorem Gives.note (e : Event π α) : (note e).Gives (some ()) := fun j => ⟨j.note e, rfl⟩

theorem Gives.note_bind {e : Event π α} {k : Unit → Trial π α γ} {r : Option γ}
    (hk : (k ()).Gives r) : (Trial.note e >>= k).Gives r := (Gives.note e).bind hk

/-- A trial gives at most one answer. -/
theorem Gives.unique {r r' : Option β} (h : t.Gives r) (h' : t.Gives r') : r = r' := by
  obtain ⟨j₁, h₁⟩ := h .empty
  obtain ⟨j₂, h₂⟩ := h' .empty
  rw [Ends] at h₁ h₂
  rw [h₁] at h₂
  cases h₂
  rfl

theorem Settles.unique {t : Nat → Trial π α β} {r r' : Option β} (h : Settles t r)
    (h' : Settles t r') : r = r' := by
  obtain ⟨n, hn⟩ := h
  obtain ⟨n', hn'⟩ := h'
  exact (hn (max n n') (Nat.le_max_left ..)).unique (hn' (max n n') (Nat.le_max_right ..))

end Trial

end GrammarMachine
