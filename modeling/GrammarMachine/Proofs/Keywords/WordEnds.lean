import GrammarMachine.Proofs.Keywords.Search
import GrammarMachine.Proofs.Termination.Grounded

/-!
# Where a word ends

A word is consumed where it is not the beginning of a longer one, and what follows it decides that.
The test asks for less than a token: ignorable text may be empty, and of a keyword one character is
enough, since the tree of the keywords has no marks where a keyword ends.

* `EndsWord`: what may follow a word; `EndsWordWhole` asks for a whole token.
  `EndsWord.whole` says for which lexicons the two are the same.
* `Pattern.Answers.endsWord_iff`: the test behind a word.
* `Grammar.word_ends`: where a word step goes on, and where it fails.
-/

namespace GrammarMachine

variable {α : Type} {fs : Forwards α} {text : Text} {ignore : Option (Pattern α)}
  {words : Option (List Text)} {i : Nat} {a : Option α} {rest : Text}

/-- What may follow a word that ends at the offset `i`, where `rest` is left of the text. -/
inductive EndsWord (fs : Forwards α) (text : Text) (ignore : Option (Pattern α))
    (words : Option (List Text)) (i : Nat) (a : Option α) (rest : Text) : Prop
  /-- Anything, if neither ignorable text nor keywords are known. -/
  | anything : ignore = none → words = none → EndsWord fs text ignore words i a rest
  | endOfText : rest = [] → EndsWord fs text ignore words i a rest
  /-- Ignorable text, be it empty. -/
  | ignorable {p m} : ignore = some p → p.Answers fs text i a (some m) →
      EndsWord fs text ignore words i a rest
  /-- A beginning of a keyword, be it a keyword or not. -/
  | keyword {ws v} : words = some ws → v ≠ [] → v <+: rest → (∃ w ∈ ws, v <+: w) →
      EndsWord fs text ignore words i a rest

/-- What may follow a word if only whole tokens count. -/
inductive EndsWordWhole (fs : Forwards α) (text : Text) (ignore : Option (Pattern α))
    (words : Option (List Text)) (i : Nat) (a : Option α) (rest : Text) : Prop
  | endOfText : rest = [] → EndsWordWhole fs text ignore words i a rest
  /-- Ignorable text that is not empty. -/
  | ignorable {p m} : ignore = some p → p.Answers fs text i a (some m) → i < m.lastIndex →
      EndsWordWhole fs text ignore words i a rest
  /-- A keyword that is not empty. -/
  | keyword {ws w} : words = some ws → w ∈ ws → w ≠ [] → w <+: rest →
      EndsWordWhole fs text ignore words i a rest

/-- If ignorable text is nowhere empty, and every beginning of a keyword is one, then only whole
tokens follow a word. -/
theorem EndsWord.whole (hset : ignore.isSome ∨ words.isSome)
    (hahead : ∀ p m, ignore = some p → p.Answers fs text i a (some m) → i < m.lastIndex)
    (hclosed : ∀ ws, words = some ws → ∀ w ∈ ws, ∀ v, v <+: w → v ≠ [] → v ∈ ws) :
    EndsWord fs text ignore words i a rest ↔ EndsWordWhole fs text ignore words i a rest := by
  constructor
  · intro h
    cases h with
    | anything hi hw =>
      subst hi hw
      simp at hset
    | endOfText h => exact .endOfText h
    | ignorable hi hp => exact .ignorable hi hp (hahead _ _ hi hp)
    | keyword hw hne hv hbegins =>
      obtain ⟨w, hmem, hvw⟩ := hbegins
      exact .keyword hw (hclosed _ hw w hmem _ hvw hne) hne hv
  · intro h
    cases h with
    | endOfText h => exact .endOfText h
    | ignorable hi hp _ => exact .ignorable hi hp
    | keyword hw hmem hne hv => exact .keyword hw hne hv ⟨_, hmem, List.prefix_rfl⟩

/-! ## The test behind a word -/

/-- The keywords find a character where a beginning of a keyword stands. -/
theorem Pattern.startsKeyword_iff (hrest : text.from? i = some rest) :
    find.startsKeyword text (words.map .ofList) i = true ↔
      ∃ ws v, words = some ws ∧ v ≠ [] ∧ v <+: rest ∧ ∃ w ∈ ws, v <+: w := by
  cases words with
  | none => simp [find.startsKeyword]
  | some ws =>
    have hwalk := Keywords.longestBeginning_walk ws rest
    have hpos : find.startsKeyword text (Option.map .ofList (some ws)) i = true ↔
        (Keywords.ofList ws).walk rest ≠ [] := by
      rw [← not_iff_not, not_not, ← Text.byteLength_eq_zero]
      simp [find.startsKeyword, Keywords.search_eq, hrest]
    rw [hpos]
    constructor
    · intro hne
      exact ⟨ws, _, rfl, hne, hwalk.starts, hwalk.begins.resolve_left hne⟩
    · rintro ⟨_, v, ⟨⟩, hne, hv, hbegins⟩ hnil
      have hle := hwalk.longest v hv hbegins
      rw [hnil] at hle
      exact hne (List.length_eq_zero_iff.1 (Nat.le_zero.1 hle))

/-- Ignorable text is found where its pattern matches. -/
theorem FindsIgnored.eq_true_iff {b : Bool}
    (h : FindsIgnored (Pattern.Answers fs text) ignore i a b) :
    b = true ↔ ∃ p m, ignore = some p ∧ p.Answers fs text i a (some m) := by
  cases h with
  | nothing => simp
  | @tested p _ _ r hp =>
    rw [Option.isSome_iff_exists]
    constructor
    · rintro ⟨m, rfl⟩
      exact ⟨p, m, rfl, hp⟩
    · rintro ⟨_, m, ⟨⟩, hm⟩
      exact ⟨m, hp.unique hm⟩

/-- The test behind a word matches where the word ends. -/
theorem Pattern.Answers.endsWord_iff (hrest : text.from? i = some rest) {r : Option (Match α)}
    (h : (wordEnd ignore (words.map .ofList)).Answers fs text i a r) :
    r.isSome ↔ EndsWord fs text ignore words i a rest := by
  have hend : text.byteLength ≤ i ↔ rest = [] := by
    obtain ⟨s, rfl, rfl⟩ := Text.from?_eq_some_iff.1 hrest
    rw [Text.byteLength_append, ← Text.byteLength_eq_zero]
    omega
  rw [Pattern.answers_iff] at h
  simp only [Verdict] at h
  split at h
  · rename_i hfree
    obtain ⟨m, -, rfl⟩ := h
    refine iff_of_true rfl ?_
    rw [Bool.or_eq_true, Bool.and_eq_true, decide_eq_true_eq] at hfree
    rcases hfree with hle | ⟨hi, hw⟩
    · exact .endOfText (hend.1 hle)
    · exact .anything (by simpa using hi) (by simpa using hw)
  · rename_i hfree
    obtain ⟨b, hb, hr⟩ := h
    have hfound : r.isSome ↔ (b || find.startsKeyword text (words.map .ofList) i) = true := by
      split at hr
      · rename_i hfound
        obtain ⟨m, -, rfl⟩ := hr
        exact iff_of_true rfl hfound
      · rename_i hfound
        exact iff_of_false (by simp [hr]) hfound
    rw [hfound, Bool.or_eq_true, hb.eq_true_iff, startsKeyword_iff hrest]
    constructor
    · rintro (⟨p, m, hi, hp⟩ | ⟨ws, v, hw, hne, hv, hbegins⟩)
      · exact .ignorable hi hp
      · exact .keyword hw hne hv hbegins
    · intro h
      cases h with
      | anything hi hw => simp [hi, hw] at hfree
      | endOfText h => simp [hend.2 h] at hfree
      | ignorable hi hp => exact .inl ⟨_, _, hi, hp⟩
      | keyword hw hne hv hbegins => exact .inr ⟨_, _, hw, hne, hv, hbegins⟩

/-! ## Word steps -/

namespace Grammar

variable {g : Grammar α} {start o j : Nat} {inherited b : Option α}

/-- The grammar with the text of a word behind it, whatever follows. -/
def spelling (g : Grammar α) (id : Text) : Grammar α :=
  g.append [.consume (.literal id) none none false]

theorem word_eq (g : Grammar α) (id : Text) :
    g.word id = ((g.spelling id).append
      [.ahead (.wordEnd g.lexicon.ignore g.lexicon.keywords) true]).append [.skip] := by
  simp [word, spelling, append]

theorem isOpen_spelling (hg : g.IsOpen) (id : Text) : (g.spelling id).IsOpen :=
  hg.append (by simp [Instr.IsStraight])

section

variable {id : Text}

/-- The text of a word is consumed where it stands. -/
theorem reaches_spelling_iff (hg : g.IsOpen) (h : g.Reaches fs text start inherited o a) :
    (g.spelling id).Reaches fs text start inherited j b ↔
      (∃ rest, text.from? o = some (id ++ rest)) ∧ j = o + id.byteLength ∧
        b = (g.endFrame start o a).keep a := by
  rw [spelling, reaches_append_iff hg (.consume (.literal id) none none false) trivial]
  constructor
  · rintro ⟨o', a', f, hlead, hs, rfl, rfl⟩
    obtain ⟨rfl, rfl⟩ := h.unique hlead
    rcases hs.of_consume (append_instr _) with ⟨-, hno⟩ | ⟨m, i, hm, hk, hf⟩
    · cases hno
    · cases hf
      obtain ⟨rest, hrest, rfl⟩ := Pattern.answers_literal_iff.1 hm
      cases hk
      exact ⟨⟨rest, hrest⟩, rfl, rfl⟩
  · rintro ⟨⟨rest, hrest⟩, rfl, rfl⟩
    exact ⟨o, a, _, h, .consume (append_instr _)
      (Pattern.answers_literal_iff.2 ⟨rest, hrest, rfl⟩) .nothing, rfl, rfl⟩

theorem Reaches.spelling_fails (hg : g.IsOpen) (h : g.Reaches fs text start inherited o a)
    (hno : ∀ rest, text.from? o ≠ some (id ++ rest)) :
    (g.spelling id).Fails fs text start inherited :=
  h.fails hg (.consumeFails (append_instr _) (Pattern.answers_literal_none_iff.2 hno))

theorem Reaches.word_fails (hg : g.IsOpen) (h : g.Reaches fs text start inherited o a)
    {b : Option α} (hb : b = (g.endFrame start o a).keep a)
    (hno : (∀ rest, text.from? o ≠ some (id ++ rest)) ∨
      (Pattern.wordEnd g.lexicon.ignore g.lexicon.keywords).Answers fs text (o + id.byteLength) b
        none) :
    (g.word id).Fails fs text start inherited := by
  have hopen := isOpen_spelling hg id
  rw [word_eq]
  refine Fails.append (hopen.append (by simp [Instr.IsStraight])) ?_ _
  by_cases hrest : ∃ rest, text.from? o = some (id ++ rest)
  · have hend := hno.resolve_left fun hno => hrest.elim hno
    exact ((reaches_spelling_iff hg h).2 ⟨hrest, rfl, hb⟩).ahead_fails hopen hend (by simp)
  · exact (h.spelling_fails hg fun rest hr => hrest ⟨rest, hr⟩).append hopen _

/-- A word step goes on where the word stands and the test behind it matches. -/
theorem reaches_word_iff (hg : g.IsOpen) (h : g.Reaches fs text start inherited o a) :
    (g.word id).Reaches fs text start inherited j b ↔
      ((∃ rest, text.from? o = some (id ++ rest)) ∧
        ∃ m, (Pattern.wordEnd g.lexicon.ignore g.lexicon.keywords).Answers fs text
          (o + id.byteLength) b (some m)) ∧
      b = (g.endFrame start o a).keep a ∧
      Skips (Pattern.Answers fs text) g.lexicon.ignore (o + id.byteLength) b j := by
  have hopen := isOpen_spelling hg id
  rw [word_eq, reaches_skip_iff (hopen.append (by simp [Instr.IsStraight]))]
  simp only [reaches_ahead_iff hopen, reaches_spelling_iff hg h]
  constructor
  · rintro ⟨_, ⟨⟨hrest, rfl, rfl⟩, r, hend, hr⟩, hk⟩
    obtain ⟨m, rfl⟩ := Option.isSome_iff_exists.1 hr
    exact ⟨⟨hrest, m, hend⟩, rfl, hk⟩
  · rintro ⟨⟨hrest, m, hend⟩, rfl, hk⟩
    exact ⟨_, ⟨⟨hrest, rfl, rfl⟩, _, hend, rfl⟩, hk⟩

end

/-- The word stands at the offset, and what follows it ends it. -/
def WordAt (fs : Forwards α) (text : Text) (g : Grammar α) (words : Option (List Text)) (id : Text)
    (o : Nat) (b : Option α) : Prop :=
  ∃ rest, text.from? o = some (id ++ rest) ∧
    EndsWord fs text g.lexicon.ignore words (o + id.byteLength) b rest

/-- What a word step comes to behind a grammar that ends at the offset `o`. The attribute behind the
word is `b`. -/
structure WordStep (fs : Forwards α) (text : Text) (g : Grammar α) (words : Option (List Text))
    (start : Nat) (inherited : Option α) (o : Nat) (b : Option α) (id : Text) : Prop where
  /-- It goes on where the word stands and ends, behind the ignorable text after it. -/
  reaches_iff : ∀ j c, (g.word id).Reaches fs text start inherited j c ↔
    WordAt fs text g words id o b ∧ c = b ∧
      Skips (Pattern.Answers fs text) g.lexicon.ignore (o + id.byteLength) b j
  /-- If ignorable text comes to an answer behind the word, then the step matches there and fails
  everywhere else. -/
  decides : (∀ p, g.lexicon.ignore = some p → ∃ r, p.Answers fs text (o + id.byteLength) b r) →
    ((∃ j c, (g.word id).Reaches fs text start inherited j c) ↔ WordAt fs text g words id o b) ∧
    ((g.word id).Fails fs text start inherited ↔ ¬ WordAt fs text g words id o b)
  /-- Only a whole token ends the word if ignorable text is not empty there and all beginnings of
  keywords are keywords. -/
  whole : g.lexicon.ignore.isSome ∨ words.isSome →
    (∀ p m, g.lexicon.ignore = some p → p.Answers fs text (o + id.byteLength) b (some m) →
      o + id.byteLength < m.lastIndex) →
    (∀ ws, words = some ws → ∀ w ∈ ws, ∀ v, v <+: w → v ≠ [] → v ∈ ws) →
    (WordAt fs text g words id o b ↔ ∃ rest, text.from? o = some (id ++ rest) ∧
      EndsWordWhole fs text g.lexicon.ignore words (o + id.byteLength) b rest)

section

variable {words : Option (List Text)} {id : Text}

/-- If ignorable text comes to an answer behind it, a word that stands ends or does not end, and the
test behind it matches or fails accordingly. -/
theorem wordAt_iff (hwords : g.lexicon.keywords = words.map .ofList)
    (hig : ∀ p, g.lexicon.ignore = some p → ∃ r, p.Answers fs text (o + id.byteLength) b r) :
    (WordAt fs text g words id o b ↔ (∃ rest, text.from? o = some (id ++ rest)) ∧
      ∃ m, (Pattern.wordEnd g.lexicon.ignore g.lexicon.keywords).Answers fs text
        (o + id.byteLength) b (some m)) ∧
    (¬ WordAt fs text g words id o b → (∀ rest, text.from? o ≠ some (id ++ rest)) ∨
      (Pattern.wordEnd g.lexicon.ignore g.lexicon.keywords).Answers fs text
        (o + id.byteLength) b none) := by
  rw [hwords]
  have hends {rest : Text} (hrest : text.from? o = some (id ++ rest)) {r : Option (Match α)}
      (h : (Pattern.wordEnd g.lexicon.ignore (words.map .ofList)).Answers fs text
        (o + id.byteLength) b r) :
      r.isSome ↔ EndsWord fs text g.lexicon.ignore words (o + id.byteLength) b rest :=
    h.endsWord_iff (Text.from?_add hrest)
  have htest {rest : Text} (hrest : text.from? o = some (id ++ rest)) :
      ∃ r, (Pattern.wordEnd g.lexicon.ignore (words.map .ofList)).Answers fs text
        (o + id.byteLength) b r :=
    Pattern.exists_answers_wordEnd (Text.isBoundary_of_from? (Text.from?_add hrest)) hig
  refine ⟨⟨?_, ?_⟩, ?_⟩
  · rintro ⟨rest, hrest, hend⟩
    obtain ⟨r, hr⟩ := htest hrest
    obtain ⟨m, rfl⟩ := Option.isSome_iff_exists.1 ((hends hrest hr).2 hend)
    exact ⟨⟨rest, hrest⟩, m, hr⟩
  · rintro ⟨⟨rest, hrest⟩, m, hm⟩
    exact ⟨rest, hrest, (hends hrest hm).1 rfl⟩
  · intro hno
    refine or_iff_not_imp_left.2 fun hstands => ?_
    obtain ⟨rest, hrest⟩ := not_forall_not.1 hstands
    obtain ⟨r, hr⟩ := htest hrest
    cases r with
    | none => exact hr
    | some m => exact absurd ⟨rest, hrest, (hends hrest hr).1 rfl⟩ hno

/-- Behind every open grammar a word step goes on where the word stands and ends: what follows it is
the end of the text, ignorable text or the beginning of a keyword. -/
theorem word_ends (hg : g.IsOpen) (hwords : g.lexicon.keywords = words.map .ofList)
    (h : g.Reaches fs text start inherited o a) (id : Text) :
    WordStep fs text g words start inherited o ((g.endFrame start o a).keep a) id := by
  generalize hb : (g.endFrame start o a).keep a = b
  have hreaches (j : Nat) (c : Option α) : (g.word id).Reaches fs text start inherited j c ↔
      WordAt fs text g words id o b ∧ c = b ∧
        Skips (Pattern.Answers fs text) g.lexicon.ignore (o + id.byteLength) b j := by
    rw [reaches_word_iff hg h, hb]
    constructor
    · rintro ⟨hword, rfl, hk⟩
      exact ⟨(wordAt_iff hwords fun _ => hk.exists_answer).1.2 hword, rfl, hk⟩
    · rintro ⟨hword, rfl, hk⟩
      exact ⟨(wordAt_iff hwords fun _ => hk.exists_answer).1.1 hword, rfl, hk⟩
  refine ⟨hreaches, fun hig => ?_, fun hset hahead hclosed => ?_⟩
  · have hmatches : (∃ j c, (g.word id).Reaches fs text start inherited j c) ↔
        WordAt fs text g words id o b := by
      constructor
      · rintro ⟨j, c, hj⟩
        exact ((hreaches j c).1 hj).1
      · intro hword
        obtain ⟨j, hk⟩ := exists_skips hig
        exact ⟨j, b, (hreaches j b).2 ⟨hword, rfl, hk⟩⟩
    refine ⟨hmatches, fun hfails hword => ?_, fun hno => ?_⟩
    · obtain ⟨j, c, hj⟩ := hmatches.2 hword
      exact hj.not_fails hfails
    · exact h.word_fails hg hb.symm ((wordAt_iff hwords hig).2 hno)
  · simp only [WordAt, EndsWord.whole hset hahead hclosed]

end

/-- Before `+` the word `if` is taken, and before `f` the word `i` is not. -/
theorem word_ends_before_plus :
    let l : Lexicon Nat := (Lexicon.empty.withIgnore (some (.literal [' ']))).withKeywords
      [['+'], ['+', '+']]
    l.grammar.Reaches .empty [' ', 'i', 'f', '+'] 0 none 1 none ∧
      (l.grammar.word ['i', 'f']).Reaches .empty [' ', 'i', 'f', '+'] 0 none 3 none ∧
      (l.grammar.word ['i']).Fails .empty [' ', 'i', 'f', '+'] 0 none := by
  intro l
  have h : l.grammar.Reaches .empty [' ', 'i', 'f', '+'] 0 none 1 none :=
    reaches_lexicon l (.moves (m := ⟨[' '], 1, none, []⟩)
      (Pattern.answers_literal_iff.2 ⟨['i', 'f', '+'], rfl, rfl⟩))
  have hwords : l.grammar.lexicon.keywords = (some [['+'], ['+', '+']]).map .ofList := rfl
  have hstep := word_ends (isOpen_of_lexicon l) hwords h
  refine ⟨h, ((hstep ['i', 'f']).reaches_iff 3 none).2 ⟨⟨['+'], rfl, ?_⟩, rfl, ?_⟩,
    ((hstep ['i']).decides ?_).2.2 ?_⟩
  · exact .keyword rfl (by decide) List.prefix_rfl ⟨['+'], by decide, List.prefix_rfl⟩
  · exact .stays (Pattern.answers_of_outcome? 1 (by decide +kernel))
  · rintro p ⟨⟩
    exact ⟨none, Pattern.answers_of_outcome? 1 (by decide +kernel)⟩
  · rintro ⟨rest, hrest, hend⟩
    cases hrest
    cases hend with
    | anything hi => cases hi
    | endOfText h => cases h
    | ignorable hi hp =>
      cases hi
      obtain ⟨rest, hrest, -⟩ := Pattern.answers_literal_iff.1 hp
      cases hrest
    | keyword hw hne hv hbegins =>
      cases hw
      obtain ⟨w, hmem, hvw⟩ := hbegins
      obtain ⟨c, v, rfl⟩ := List.exists_cons_of_ne_nil hne
      obtain ⟨rfl, -⟩ := List.cons_prefix_cons.1 hv
      revert w
      simp

/-- A word is taken where no whole token follows it: where ignorable text may be empty `if` is taken
before `x`, and with the one keyword `++` it is taken before `+x`. -/
theorem word_before_beginnings :
    let l : Lexicon Nat := Lexicon.empty.withIgnore (some (.literal []))
    let k : Lexicon Nat := Lexicon.empty.withKeywords [['+', '+']]
    ((l.grammar.word ['i', 'f']).Reaches .empty ['i', 'f', 'x'] 0 none 2 none ∧
      ¬ ∃ rest, Text.from? ['i', 'f', 'x'] 0 = some (['i', 'f'] ++ rest) ∧
        EndsWordWhole .empty ['i', 'f', 'x'] l.ignore none 2 none rest) ∧
    ((k.grammar.word ['i', 'f']).Reaches .empty ['i', 'f', '+', 'x'] 0 none 2 none ∧
      ¬ ∃ rest, Text.from? ['i', 'f', '+', 'x'] 0 = some (['i', 'f'] ++ rest) ∧
        EndsWordWhole .empty ['i', 'f', '+', 'x'] k.ignore (some [['+', '+']]) 2 none rest) := by
  intro l k
  have hopen (l : Lexicon Nat) : (l.grammar.word ['i', 'f']).IsOpen :=
    (isOpen_of_lexicon l).append (by simp [Instr.IsStraight])
  refine ⟨⟨?_, ?_⟩, ?_, ?_⟩
  · exact reaches_of_answers (m := ⟨['i', 'f'], 2, none, []⟩) (hopen l)
      (Pattern.answers_program_iff.1 (Pattern.answers_of_outcome? 8 (by decide +kernel)))
  · rintro ⟨rest, hrest, hend⟩
    cases hrest
    cases hend with
    | endOfText h => cases h
    | ignorable hi hp hlt =>
      cases hi
      obtain ⟨_, -, rfl⟩ := Pattern.answers_literal_iff.1 hp
      exact absurd hlt (by decide)
    | keyword hw => cases hw
  · exact reaches_of_answers (m := ⟨['i', 'f'], 2, none, []⟩) (hopen k)
      (Pattern.answers_program_iff.1 (Pattern.answers_of_outcome? 8 (by decide +kernel)))
  · rintro ⟨rest, hrest, hend⟩
    cases hrest
    cases hend with
    | endOfText h => cases h
    | ignorable hi => cases hi
    | keyword hw hmem hne hv =>
      cases hw
      obtain rfl := List.mem_singleton.1 hmem
      exact absurd hv (by decide)

end Grammar

end GrammarMachine
