import GrammarMachine.Grammar.Basic
import GrammarMachine.Proofs.Inheritance.Relation
import GrammarMachine.Proofs.Locality.Shifting

/-!
# What precedes a text does not matter

A program without matching functions looks at nothing but the text behind its offset. Two runs, one
on a text and one on the same text behind another, go through the same instructions with the same
amount of fuel.

* `Trial.Follows g t t'`: where `t` comes to a value, `t'` comes to `g` of it; else they stop alike.
* `Pattern.IsTextual`: no matching function is found in the pattern.
* `exec_shift`, `Pattern.find_shift`: the machine, and all patterns that are textual.
* `Program.answers_behind`: a program answers behind another text as it does without that.
-/

namespace GrammarMachine

variable {π α β γ β' γ' : Type}

/-! ## Trials that go together -/

namespace Trial

/-- From any two journals, the second trial comes to `g` of what the first comes to, or both stop
for the same reason. -/
def Follows (g : β → β') (t : Trial π α β) (t' : Trial π α β') : Prop :=
  ∀ j j', match t j, t' j' with
    | .ok b _, .ok b' _ => b' = g b
    | .error e _, .error e' _ => e' = e
    | _, _ => False

variable {g : β → β'} {h : γ → γ'} {t : Trial π α β} {t' : Trial π α β'}

theorem Follows.pure {b : β} {b' : β'} (hb : b' = g b) :
    Follows g (Pure.pure b : Trial π α β) (Pure.pure b') := fun _ _ => hb

theorem Follows.throw (e : Stop) :
    Follows g (MonadExcept.throw e : Trial π α β) (MonadExcept.throw e) := fun _ _ => rfl

theorem Follows.bind {k : β → Trial π α γ} {k' : β' → Trial π α γ'} (ht : Follows g t t')
    (hk : ∀ b, Follows h (k b) (k' (g b))) : Follows h (t >>= k) (t' >>= k') := by
  intro j j'
  have hj := ht j j'
  simp only [Bind.bind, EStateM.bind]
  cases e : t j with
  | ok b j₁ =>
    cases e' : t' j' with
    | ok b' j₁' =>
      rw [e, e'] at hj
      obtain rfl : b' = g b := hj
      exact hk b j₁ j₁'
    | error => rw [e, e'] at hj; exact hj.elim
  | error s j₁ =>
    cases e' : t' j' with
    | ok => rw [e, e'] at hj; exact hj.elim
    | error => rw [e, e'] at hj; exact hj

theorem Follows.attempt (ht : Follows g t t') :
    Follows (Option.map g) t.attempt t'.attempt := by
  intro j j'
  have hj := ht j j'
  rw [Trial.attempt, Trial.attempt]
  cases e : t j with
  | ok b j₁ =>
    cases e' : t' j' with
    | ok b' j₁' =>
      rw [e, e'] at hj
      exact congrArg some hj
    | error => rw [e, e'] at hj; exact hj.elim
  | error s j₁ =>
    cases e' : t' j' with
    | ok => rw [e, e'] at hj; exact hj.elim
    | error s' j₁' =>
      rw [e, e'] at hj
      obtain rfl : s' = s := hj
      cases s' <;> rfl

theorem Follows.note_bind {e e' : Event π α} {k : Unit → Trial π α γ} {k' : Unit → Trial π α γ'}
    (hk : Follows h (k ()) (k' ())) : Follows h (note e >>= k) (note e' >>= k') :=
  fun j j' => hk (j.note e) (j'.note e')

theorem Follows.ite {P P' : Prop} [Decidable P] [Decidable P'] {e : Trial π α β}
    {e' : Trial π α β'} (hP : P' ↔ P) (ht : Follows g t t') (he : Follows g e e') :
    Follows g (if P then t else e) (if P' then t' else e') := by
  by_cases h : P
  · rwa [if_pos h, if_pos (hP.2 h)]
  · rwa [if_neg h, if_neg (h ∘ hP.1)]

theorem Follows.ofOption {o : Option β} {o' : Option β'} (ho : o' = o.map g) :
    Follows g (ofOption o : Trial π α β) (ofOption o') := by
  subst ho
  cases o with
  | none => exact .throw _
  | some b => exact .pure rfl

theorem Follows.of_gives {b : β} (ht : t.Gives (some b)) (ht' : t'.Gives (some (g b))) :
    Follows g t t' := by
  intro j j'
  obtain ⟨j₁, h⟩ := ht j
  obtain ⟨j₁', h'⟩ := ht' j'
  rw [ends_some_iff.1 h, ends_some_iff.1 h']

theorem Follows.ends_iff (ht : Follows g t t') (j j' : Journal π α) {r' : Option β'} :
    (∃ j₁', t'.Ends j' r' j₁') ↔ ∃ r, (∃ j₁, t.Ends j r j₁) ∧ r' = r.map g := by
  have hj := ht.attempt j j'
  simp only [Ends]
  cases e : t.attempt j with
  | ok o j₁ =>
    cases e' : t'.attempt j' with
    | ok o' j₁' =>
      rw [e, e'] at hj
      obtain rfl : o' = o.map g := hj
      constructor
      · rintro ⟨_, ⟨⟩⟩
        exact ⟨o, ⟨j₁, rfl⟩, rfl⟩
      · rintro ⟨_, ⟨_, ⟨⟩⟩, rfl⟩
        exact ⟨j₁', rfl⟩
    | error => rw [e, e'] at hj; exact hj.elim
  | error s j₁ =>
    cases e' : t'.attempt j' with
    | ok => rw [e, e'] at hj; exact hj.elim
    | error s' j₁' =>
      constructor
      · rintro ⟨_, ⟨⟩⟩
      · rintro ⟨_, ⟨_, ⟨⟩⟩, _⟩

/-- Trials that go together settle together. -/
theorem Follows.settles_iff {t : Nat → Trial π α β} {t' : Nat → Trial π α β'}
    (hg : Function.Injective g) (ht : ∀ fuel, Follows g (t fuel) (t' fuel)) {r' : Option β'} :
    Settles t' r' ↔ ∃ r, Settles t r ∧ r' = r.map g := by
  constructor
  · rintro ⟨n, hn⟩
    obtain ⟨r, -, rfl⟩ := (ht n).ends_iff .empty .empty |>.1 (hn n (Nat.le_refl n) .empty)
    refine ⟨r, ⟨n, fun fuel hfuel j => ?_⟩, rfl⟩
    obtain ⟨r', hr', heq⟩ := (ht fuel).ends_iff j .empty |>.1 (hn fuel hfuel .empty)
    rwa [Option.map_injective hg heq]
  · rintro ⟨r, ⟨n, hn⟩, rfl⟩
    exact ⟨n, fun fuel hfuel j => (ht fuel).ends_iff .empty j |>.2 ⟨r, hn fuel hfuel .empty, rfl⟩⟩

end Trial

open Trial (Follows)

/-! ## The machine -/

/-- The second probe finds that many bytes further on what the first one finds. -/
def Probe.Follows (n : Nat) (probe probe' : Probe π α) (p : π) : Prop :=
  ∀ i a, Trial.Follows (Match.shift n) (probe p i a) (probe' p (n + i) a)

section

variable {n : Nat} {probe probe' : Probe π α}

theorem attrAfter_shift (f : Frame α) (action : Option (Action α)) (m : Match α) :
    Follows id (attrAfter f action m : Trial π α (Option α))
      (attrAfter (f.shift n) action (m.shift n)) :=
  .of_gives (attrAfter_gives f action m) (attrAfter_gives (f.shift n) action (m.shift n))

theorem Frame.settledAttr_shift (f : Frame α) (attr : Option α) (iterations : List (Match α))
    (fold : Option (Action α)) (init : Option α) :
    (f.shift n).settledAttr attr (iterations.map (Match.shift n)) fold init =
      f.settledAttr attr iterations fold init := by
  cases fold with
  | none => rfl
  | some a => exact List.foldl_map

theorem settle_shift (f : Frame α) (attr : Option α) (iterations : List (Match α))
    (fold : Option (Action α)) (init : Option α) :
    Follows id (settle f attr iterations fold init : Trial π α (Option α))
      (settle (f.shift n) attr (iterations.map (Match.shift n)) fold init) := by
  refine .of_gives (settle_gives f attr iterations fold init) ?_
  rw [id, ← Frame.settledAttr_shift (n := n)]
  exact settle_gives _ _ _ _ _

theorem firstMatch_shift {ps : List π} (hp : ∀ p ∈ ps, Probe.Follows n probe probe' p) (i : Nat)
    (a : Option α) :
    Follows (Match.shift n) (firstMatch probe i a ps) (firstMatch probe' (n + i) a ps) := by
  induction ps with
  | nil => exact .throw _
  | cons p ps ih =>
    refine (hp p List.mem_cons_self i a).attempt.bind fun o => ?_
    cases o with
    | some m => exact .pure rfl
    | none => exact ih fun q hq => hp q (List.mem_cons_of_mem p hq)

theorem skipIgnored_shift {ignore : Option π}
    (hp : ∀ p, ignore = some p → Probe.Follows n probe probe' p) (i : Nat) (a : Option α) :
    Follows (n + ·) (skipIgnored probe ignore i a) (skipIgnored probe' ignore (n + i) a) := by
  cases ignore with
  | none => exact .pure rfl
  | some p =>
    refine (hp p rfl i a).attempt.bind fun o => ?_
    cases o <;> exact .pure rfl

end

section

variable {u v : Text} {probe probe' : Probe π α} {code : Code π α}

/-- A call behind another text goes as it goes without that. -/
theorem exec_shift
    (hprobe : ∀ x ∈ code.instrs, ∀ p ∈ x.patterns, Probe.Follows u.byteLength probe probe' p)
    (hignore : ∀ p, code.ignore = some p → Probe.Follows u.byteLength probe probe' p)
    (fuel : Nat) (f : Frame α) :
    Follows (Final.shift u.byteLength) (exec probe code v fuel f)
      (exec probe' code (u ++ v) fuel (f.shift u.byteLength)) := by
  have hskip := skipIgnored_shift hignore
  induction fuel generalizing f with
  | zero => exact .throw _
  | succ fuel ih =>
    rw [exec, exec, Frame.pc_shift]
    cases hi : code.instrs[f.pc]? with
    | none => exact .pure rfl
    | some x =>
      have hat (p : π) (hp : p ∈ x.patterns) (i : Nat) (a : Option α) :=
        hprobe x (List.mem_of_getElem? hi) p hp i a
      refine .note_bind ?_
      cases x with
      | consume p action capture skips =>
        refine (hat p List.mem_cons_self _ _).bind fun m => ?_
        refine (attrAfter_shift f action m).bind fun attr => ?_
        have hnext (i : Nat) := ih { f.next i attr with captures := f.capturesAfter capture m }
        have hcaptures : (f.capturesAfter capture m).shift u.byteLength =
            (f.shift u.byteLength).capturesAfter capture (m.shift u.byteLength) := by
          cases capture with
          | none => rfl
          | some id => exact (Captures.record_shift ..).symm
        simp only [Frame.shift, hcaptures] at hnext
        cases skips with
        | true => exact (hskip _ _).bind hnext
        | false => exact hnext _
      | loopStart capture =>
        have hnext := ih { f.next f.index f.attr with
          seed := f.attr, captures := f.captures.start capture }
        simp only [Frame.shift, ← Captures.start_shift] at hnext
        exact .ite (by simp [Frame.shift]) hnext (.throw _)
      | loopTry capture min exit fold init =>
        have hsettle (attr : Option α) (cs : Captures α) :=
          settle_shift (π := π) (n := u.byteLength) f attr (cs.recorded capture) fold init
        simp only [← Captures.recorded_shift] at hsettle
        refine (ih f.enterIteration).attempt.bind fun o => ?_
        cases o with
        | some r => exact .ite Iff.rfl ((hsettle _ _).bind fun _ => .pure rfl) (.pure rfl)
        | none =>
          exact .ite Iff.rfl (.throw _) <| .ite Iff.rfl
            ((hsettle _ _).bind fun attr => ih { f with pc := f.pc + exit, attr := attr })
            (ih { f with pc := f.pc + exit })
      | loopBack back max =>
        have hnext := ih (f.next f.index f.attr)
        exact .ite Iff.rfl hnext <| .ite Nat.add_left_cancel_iff (.note_bind hnext) <|
          .ite Iff.rfl (ih { f with pc := f.pc - back }) (.throw _)
      | choice ps =>
        refine (firstMatch_shift (hprobe _ (List.mem_of_getElem? hi)) _ _).bind fun m => ?_
        exact (hskip _ _).bind fun i => ih (f.next i (f.keep (merge f.attr m.attr)))
      | ahead p positive =>
        refine (hat p List.mem_cons_self _ _).attempt.bind fun o => ?_
        exact .ite (by rw [Option.isSome_map]) (ih (f.next f.index f.attr)) (.throw _)
      | guard condition =>
        exact .note_bind (.ite Iff.rfl (ih (f.next f.index f.attr)) (.throw _))
      | assign value => exact ih (f.next f.index (f.keep (some value)))
      | transform t =>
        exact .note_bind (ih (f.next f.index (f.keep (merge f.attr (t.apply f.attr)))))
      | dropAttributes => exact ih { f.next f.index f.attr with dropping := true }
      | skip => exact (hskip _ _).bind fun i => ih (f.next i f.attr)
      | keyword words word =>
        refine (Follows.ofOption (Keywords.search_shift u v f.index words)).bind fun found => ?_
        exact .ite Iff.rfl ((hskip _ _).bind fun i => ih (f.next i f.attr)) (.throw _)

/-- A program run behind another text. What it matched is sliced out behind that text. -/
theorem Code.run_shift
    (hprobe : ∀ x ∈ code.instrs, ∀ p ∈ x.patterns, Probe.Follows u.byteLength probe probe' p)
    (hignore : ∀ p, code.ignore = some p → Probe.Follows u.byteLength probe probe' p)
    (fuel start : Nat) (inherited : Option α) :
    Follows (Match.shift u.byteLength) (code.run probe fuel v start inherited)
      (code.run probe' fuel (u ++ v) (u.byteLength + start) inherited) := by
  have hexec := exec_shift (v := v) hprobe hignore fuel (.initial code.captures start inherited)
  rw [Frame.initial_shift] at hexec
  refine hexec.bind fun r => ?_
  refine (Follows.ofOption (g := id) ?_).bind fun t => .pure rfl
  rw [Option.map_id_fun]
  exact Text.slice?_shift ..

end

/-! ## Patterns -/

/-- No matching function is found in the pattern. -/
inductive Pattern.IsTextual : Pattern α → Prop
  | literal (t : Text) : IsTextual (.literal t)
  | regex (r : Regex) : IsTextual (.regex r)
  | forward (cell : Nat) : IsTextual (.forward cell)
  | lineBreak : IsTextual .lineBreak
  | endOfInput : IsTextual .endOfInput
  | wordEnd {ignore : Option (Pattern α)} {words : Option Keywords} :
      (∀ p, ignore = some p → p.IsTextual) → IsTextual (.wordEnd ignore words)
  | program {code : Program α} : (∀ x ∈ code.instrs, ∀ p ∈ x.patterns, p.IsTextual) →
      (∀ p, code.ignore = some p → p.IsTextual) → IsTextual (.program code)

/-- No matching function is found in the program. -/
structure Program.IsTextual (code : Program α) : Prop where
  patterns : ∀ x ∈ code.instrs, ∀ p ∈ x.patterns, p.IsTextual
  ignore : ∀ p, code.ignore = some p → p.IsTextual

/-- No matching function is found in the programs that cells hold. -/
def Forwards.IsTextual (fs : Forwards α) : Prop :=
  ∀ cell code, fs.get? cell = some code → code.IsTextual

theorem Forwards.isTextual_empty : (empty : Forwards α).IsTextual :=
  fun cell _ h => nomatch (get?_empty cell).symm.trans h

theorem Forwards.IsTextual.push {fs : Forwards α} (h : fs.IsTextual) : fs.push.IsTextual :=
  fun cell code hcode => h cell code ((get?_push fs cell).symm.trans hcode)

theorem Forwards.IsTextual.set {fs : Forwards α} (h : fs.IsTextual) {p : Program α}
    (hp : p.IsTextual) {cell : Nat} (hcell : cell < fs.cells.size) : (fs.set cell p).IsTextual := by
  intro other code hcode
  by_cases hother : cell = other
  · subst hother
    rw [get?_set_self p hcell] at hcode
    exact Option.some.inj hcode ▸ hp
  · rw [get?_set_ne p hother] at hcode
    exact h other code hcode

section

variable {fs : Forwards α} {u v : Text}

theorem Trial.follows_span (start stop : Nat) :
    Follows (Match.shift u.byteLength) (Trial.span v start stop : Trial π α (Match α))
      (Trial.span (u ++ v) (u.byteLength + start) (u.byteLength + stop)) := by
  rw [Trial.span, Trial.span, Match.span?_shift]
  cases Match.span? v start stop with
  | none => exact .throw _
  | some m => exact .pure rfl

/-- Testing a pattern behind another text, with the same amount of fuel. -/
theorem Pattern.find_shift (hfs : fs.IsTextual) (fuel : Nat) {p : Pattern α} (hp : p.IsTextual) :
    Probe.Follows u.byteLength (find fs v fuel) (find fs (u ++ v) fuel) p := by
  induction fuel generalizing p with
  | zero => exact fun i a => .throw _
  | succ fuel ih =>
    intro i a
    cases hp with
    | literal t =>
      rw [find, find]
      exact (Follows.ofOption (literalEnd?_shift u v i t)).bind (Trial.follows_span i)
    | regex r =>
      rw [find, find]
      exact .ofOption (r.findAt_shift u v i)
    | forward cell =>
      rw [find, find]
      cases hcell : fs.get? cell with
      | none => exact .note_bind (.throw _)
      | some code =>
        have hcode := hfs cell code hcell
        exact Code.run_shift (fun x hx p hp => ih (hcode.patterns x hx p hp))
          (fun p hp => ih (hcode.ignore p hp)) fuel i a
    | lineBreak =>
      rw [find, find]
      exact (Follows.ofOption (lineBreakEnd?_shift u v i)).bind (Trial.follows_span i)
    | endOfInput =>
      rw [find, find]
      refine .ite (Text.byteLength_le_shift u v i) ?_ (.throw _)
      rw [Text.byteLength_append]
      exact Trial.follows_span _ _
    | @wordEnd ignore words hignore =>
      rw [find, find]
      have hspan := Trial.follows_span (π := Pattern α) (α := α) (u := u) (v := v) i i
      have hlast (b : Bool) : Follows (Match.shift u.byteLength)
          (if b || find.startsKeyword v words i then Trial.span v i i
            else Trial.mismatch : Trial (Pattern α) α (Match α))
          (if b || find.startsKeyword (u ++ v) words (u.byteLength + i) then
            Trial.span (u ++ v) (u.byteLength + i) (u.byteLength + i) else Trial.mismatch) :=
        .ite (by rw [startsKeyword_shift]) hspan (.throw _)
      refine .ite (by simp only [Text.byteLength_le_shift]) hspan ?_
      cases ignore with
      | none => exact hlast false
      | some q =>
        simp only [map_eq_pure_bind, bind_assoc, pure_bind]
        refine (ih (hignore q rfl) i a).attempt.bind fun o => ?_
        rw [Option.isSome_map]
        exact hlast _
    | program hpatterns hignore =>
      rw [find, find]
      exact Code.run_shift (fun x hx p hp => ih (hpatterns x hx p hp))
        (fun p hp => ih (hignore p hp)) fuel i a

theorem Match.shift_injective (n : Nat) :
    Function.Injective (Match.shift n : Match α → Match α) := by
  rintro ⟨t, i, a, x⟩ ⟨t', i', a', x'⟩ h
  simp only [Match.shift, Match.mk.injEq, Nat.add_left_cancel_iff] at h
  simpa using h

/-- A program without matching functions answers behind another text as it answers without that,
that many bytes further on: what it comes to depends on the text behind its offset alone. -/
theorem Program.answers_behind (hfs : fs.IsTextual) {p : Program α} (hp : p.IsTextual) (u v : Text)
    (inherited : Option α) (r' : Option (Match α)) :
    p.Answers fs (u ++ v) u.byteLength inherited r' ↔
      ∃ r, p.Answers fs v 0 inherited r ∧ r' = r.map (Match.shift u.byteLength) := by
  refine Follows.settles_iff (Match.shift_injective _) fun fuel => ?_
  exact Code.run_shift (fun x hx p h => Pattern.find_shift hfs fuel (hp.patterns x hx p h))
    (fun p h => Pattern.find_shift hfs fuel (hp.ignore p h)) fuel 0 inherited

/-- Words with blanks between, by a program that refers to itself, behind another text. -/
theorem Program.answers_behind_bracket :
    let p : Program Nat := ((Lexicon.empty.withIgnore (some (.literal [' ']))).grammar.word ['a']
      |>.tokenMaybe (.forward 0)).program
    let fs := Forwards.empty.push.set 0 p
    fs.IsTextual ∧ p.IsTextual ∧ p.Answers fs ("é(".toList ++ "a a".toList) 3 none
      (some ⟨"a a".toList, 6, none, []⟩) := by
  intro p fs
  have hignore : ∀ q : Pattern Nat, some (.literal [' ']) = some q → q.IsTextual := by
    rintro q ⟨⟩
    exact .literal _
  have hp : p.IsTextual := by
    refine ⟨?_, hignore⟩
    have hpatterns : ∀ q ∈ ([.literal ['a'], .wordEnd (some (.literal [' '])) none, .forward 0] :
        List (Pattern Nat)), q.IsTextual := by
      simpa using ⟨.literal _, .wordEnd hignore, .forward _⟩
    simpa [p, Repetition.program, Grammar.tokenMaybe, Grammar.repeated, Grammar.word,
      Grammar.append, Lexicon.grammar, Lexicon.withIgnore, Lexicon.empty, Instr.patterns]
      using hpatterns
  have hfs : fs.IsTextual := Forwards.isTextual_empty.push.set hp (by decide)
  refine ⟨hfs, hp, (answers_behind hfs hp _ _ none _).2 ⟨some ⟨"a a".toList, 3, none, []⟩, ?_, rfl⟩⟩
  exact Pattern.answers_program_iff.1 (Pattern.answers_of_outcome? 24 (by decide +kernel))

end

end GrammarMachine
