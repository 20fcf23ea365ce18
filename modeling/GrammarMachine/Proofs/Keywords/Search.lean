import GrammarMachine.Proofs.Keywords.Paths
import GrammarMachine.Proofs.Semantics.Reach

/-!
# Which keyword is taken

A search spells the longest beginning of the text that is the beginning of a keyword, and a keyword
step goes on where that is its word. The word itself need not be a keyword.

* `Keywords.StandsAt`: what a search spells, said by the keywords alone;
  `Keywords.search_eq_some_iff` relates it to the walk from node to node.
* `Grammar.reaches_keywordIn_iff`, `Grammar.fails_keywordIn_iff`: a keyword step, by the search.
* `Grammar.KeywordSteps`: what this comes to for the keyword steps behind a grammar.
  `Grammar.keywordSteps` has it for every grammar and every list of keywords.
* `Keywords.LongestWord`: the longest keyword that a text begins with. It is what a keyword step
  takes if the keywords are closed under prefixes and there is one at all.
-/

namespace GrammarMachine

namespace Keywords

/-- The longest beginning of a text that is the beginning of a keyword, and the empty one if there
is no keyword. -/
structure LongestBeginning (words : List Text) (rest v : Text) : Prop where
  starts : v <+: rest
  begins : v = [] ∨ ∃ w ∈ words, v <+: w
  longest : ∀ u, u <+: rest → (∃ w ∈ words, u <+: w) → u.length ≤ v.length

/-- The longest keyword that a text begins with. -/
structure LongestWord (words : List Text) (rest w : Text) : Prop where
  mem : w ∈ words
  starts : w <+: rest
  longest : ∀ v ∈ words, v <+: rest → v.length ≤ w.length

/-- The text is the longest beginning of what follows the offset that begins a keyword. -/
def StandsAt (words : List Text) (text : Text) (index : Nat) (v : Text) : Prop :=
  ∃ rest, text.from? index = some rest ∧ LongestBeginning words rest v

variable {words : List Text} {text rest v w : Text} {i : Nat}

theorem LongestBeginning.unique (hv : LongestBeginning words rest v)
    (hw : LongestBeginning words rest w) : v = w := by
  have hle {v w : Text} (hv : LongestBeginning words rest v) (hw : LongestBeginning words rest w) :
      v.length ≤ w.length := by
    rcases hv.begins with rfl | hbegins
    · exact Nat.zero_le _
    · exact hw.longest v hv.starts hbegins
  have hprefix := List.prefix_of_prefix_length_le hv.starts hw.starts (hle hv hw)
  exact hprefix.eq_of_length_le (hle hw hv)

/-- A walk goes along the longest beginning of a keyword. -/
theorem longestBeginning_walk (words : List Text) (rest : Text) :
    LongestBeginning words rest ((ofList words).walk rest) where
  starts := walk_prefix rest _
  begins := (hasPath_ofList.1 (hasPath_walk rest _)).symm
  longest := fun _ hu hbegins =>
    ((hasPath_ofList.2 (.inl hbegins)).prefix_walk hu).length_le

/-- A search finds what stands at the offset, and ends behind it. -/
theorem search_eq_some_iff {found : Found} :
    (ofList words).search text i = some found ↔
      StandsAt words text i found.matched ∧
        found.lastIndex = i + Text.byteLength found.matched := by
  obtain ⟨v, stop⟩ := found
  rw [search_eq, Option.map_eq_some_iff]
  constructor
  · rintro ⟨rest, hrest, hfound⟩
    cases hfound
    exact ⟨⟨rest, hrest, longestBeginning_walk words rest⟩, rfl⟩
  · rintro ⟨⟨rest, hrest, hv⟩, hstop⟩
    obtain rfl : (ofList words).walk rest = v := (longestBeginning_walk words rest).unique hv
    exact ⟨rest, hrest, congrArg (Found.mk _) hstop.symm⟩

/-- What stands at an offset is what a search from there finds. -/
theorem standsAt_iff_search : StandsAt words text i w ↔
    ∃ found, (ofList words).search text i = some found ∧ found.matched = w := by
  simp only [search_eq_some_iff]
  constructor
  · intro h
    exact ⟨⟨w, i + w.byteLength⟩, ⟨h, rfl⟩, rfl⟩
  · rintro ⟨found, ⟨h, -⟩, rfl⟩
    exact h

theorem standsAt_iff (hrest : text.from? i = some rest) :
    StandsAt words text i w ↔ LongestBeginning words rest w := by
  constructor
  · rintro ⟨rest', hrest', hw⟩
    obtain rfl := Option.some.inj (hrest.symm.trans hrest')
    exact hw
  · exact fun hw => ⟨rest, hrest, hw⟩

theorem StandsAt.unique (hv : StandsAt words text i v) (hw : StandsAt words text i w) : v = w := by
  obtain ⟨rest, hrest, hv⟩ := hv
  exact hv.unique ((standsAt_iff hrest).1 hw)

/-- What stands at an offset is not shorter than a keyword that starts there. -/
theorem StandsAt.length_le (hv : StandsAt words text i v) (hrest : text.from? i = some rest)
    (hw : w ∈ words) (hstarts : w <+: rest) : w.length ≤ v.length := by
  exact ((standsAt_iff hrest).1 hv).longest w hstarts ⟨w, hw, List.prefix_rfl⟩

/-- If there is a keyword, and with every keyword its prefixes are keywords, then the longest
beginning of a keyword is the longest keyword. -/
theorem longestBeginning_iff_longestWord (hne : words ≠ [])
    (hclosed : ∀ w ∈ words, ∀ v, v <+: w → v ∈ words) :
    LongestBeginning words rest v ↔ LongestWord words rest v := by
  constructor
  · intro hv
    have hbegins : ∃ w ∈ words, v <+: w := by
      rcases hv.begins with rfl | hbegins
      · obtain ⟨w, hw⟩ := List.exists_mem_of_ne_nil words hne
        exact ⟨w, hw, List.nil_prefix⟩
      · exact hbegins
    obtain ⟨w, hw, hvw⟩ := hbegins
    exact ⟨hclosed w hw v hvw, hv.starts, fun u hu hstarts =>
      hv.longest u hstarts ⟨u, hu, List.prefix_rfl⟩⟩
  · intro hv
    refine ⟨hv.starts, .inr ⟨v, hv.mem, List.prefix_rfl⟩, ?_⟩
    rintro u hu ⟨w, hw, huw⟩
    exact hv.longest u (hclosed w hw u huw) hu

end Keywords

/-! ## Keyword steps -/

section

variable {π α : Type} {V : Verdicts π α} {code : Code π α} {text : Text} {words : Keywords}
  {w : Text} {f : Frame α}

theorem Step.of_keyword (hi : code.instrs[f.pc]? = some (.keyword words w))
    {o : Option (Frame α)} (h : Step V code text f o) :
    ((∀ found, words.search text f.index = some found → found.matched ≠ w) ∧ o = none) ∨
      ∃ found i, words.search text f.index = some found ∧ found.matched = w ∧
        Skips V code.ignore found.lastIndex f.attr i ∧ o = some (f.next i f.attr) := by
  cases h with
  | keyword hj hf hw hs =>
    cases hi.symm.trans hj
    exact .inr ⟨_, _, hf, hw, hs, rfl⟩
  | keywordFails hj hf =>
    cases hi.symm.trans hj
    exact .inl ⟨hf, rfl⟩
  | consume hj | consumeFails hj | loopStart hj | loopEnds hj | loopAgain hj | choice hj
  | choiceFails hj | ahead hj | aheadFails hj | guard hj | guardFails hj | assign hj
  | transform hj | dropAttributes hj | skip hj => cases hi.symm.trans hj

theorem Exec.of_keyword (hi : code.instrs[f.pc]? = some (.keyword words w))
    {r : Option (Final α)} (h : Exec V code text f r) :
    ((∀ found, words.search text f.index = some found → found.matched ≠ w) ∧ r = none) ∨
      ∃ found i, words.search text f.index = some found ∧ found.matched = w ∧
        Skips V code.ignore found.lastIndex f.attr i ∧
        Exec V code text (f.next i f.attr) r := by
  cases h with
  | halt hj => cases hi.symm.trans hj
  | step hs h =>
    rcases hs.of_keyword hi with ⟨-, ho⟩ | ⟨found, i, hf, hw, hsk, ho⟩
    · cases ho
    · cases ho
      exact .inr ⟨found, i, hf, hw, hsk, h⟩
  | fail hs =>
    rcases hs.of_keyword hi with ⟨hno, -⟩ | ⟨_, _, _, _, _, ho⟩
    · exact .inl ⟨hno, rfl⟩
    · cases ho
  | kept hj | tooFew hj | left hj => cases hi.symm.trans hj

end

namespace Grammar

variable {α : Type} {fs : Forwards α} {text : Text} {g : Grammar α} {start o j : Nat}
  {inherited a b : Option α}

/-- A grammar goes on behind a keyword step where the search finds just its word. -/
theorem reaches_keywordIn_iff (hg : g.IsOpen) {words : Keywords} {w : Text} :
    (g.keywordIn w words).Reaches fs text start inherited j b ↔
      ∃ o found, g.Reaches fs text start inherited o b ∧ words.search text o = some found ∧
        found.matched = w ∧
        Skips (Pattern.Answers fs text) g.lexicon.ignore found.lastIndex b j := by
  constructor
  · intro h
    rcases (exec_front_iff hg).1 h with ⟨o, a, hlead, hgo⟩ | ⟨-, hno⟩
    · rcases Exec.of_keyword (append_instr _) hgo with ⟨-, hno⟩ | ⟨found, i, hf, hw, hs, hlast⟩
      · cases hno
      · cases hlast.unique (.halt (by simp [append, program, endFrame, Frame.next]))
        exact ⟨o, found, hlead, hf, hw, hs⟩
    · cases hno
  · rintro ⟨o, found, hlead, hf, rfl, hs⟩
    exact hlead.next hg (.keyword (append_instr _) hf rfl hs)

/-- A keyword step fails where the grammar before it does, or where the search does not find its
word. -/
theorem fails_keywordIn_iff (hg : g.IsOpen) {words : Keywords} {w : Text} :
    (g.keywordIn w words).Fails fs text start inherited ↔
      g.Fails fs text start inherited ∨
        ∃ o a, g.Reaches fs text start inherited o a ∧
          ∀ found, words.search text o = some found → found.matched ≠ w := by
  constructor
  · intro h
    rcases (exec_front_iff hg).1 h with ⟨o, a, hlead, hgo⟩ | ⟨hno, -⟩
    · rcases Exec.of_keyword (append_instr _) hgo with ⟨hf, -⟩ | ⟨_, _, _, _, _, hlast⟩
      · exact .inr ⟨o, a, hlead, hf⟩
      · cases hlast.unique (.halt (by simp [append, program, endFrame, Frame.next]))
    · exact .inl hno
  · rintro (hno | ⟨o, a, hlead, hf⟩)
    · exact hno.append hg _
    · exact hlead.keywordIn_fails hg hf

/-- What the keyword steps behind a grammar come to that ends at the offset `o` with the attribute
`a`. A step is given its word and a set of keywords. -/
structure KeywordSteps (fs : Forwards α) (text : Text) (g : Grammar α) (words : List Text)
    (start : Nat) (inherited : Option α) (o : Nat) (a : Option α) : Prop where
  /-- A step goes on, behind its word and the ignorable text after it, where its word is the longest
  beginning of a keyword. -/
  reaches_iff : ∀ w j b, (g.keywordIn w (.ofList words)).Reaches fs text start inherited j b ↔
    Keywords.StandsAt words text o w ∧ b = a ∧
      Skips (Pattern.Answers fs text) g.lexicon.ignore (o + w.byteLength) a j
  /-- It fails everywhere else. -/
  fails_iff : ∀ w, (g.keywordIn w (.ofList words)).Fails fs text start inherited ↔
    ¬ Keywords.StandsAt words text o w
  /-- Of two words one is not taken. -/
  atMostOne : ∀ v w, v ≠ w →
    (g.keywordIn v (.ofList words)).Fails fs text start inherited ∨
      (g.keywordIn w (.ofList words)).Fails fs text start inherited
  /-- No word is taken where a longer keyword starts. -/
  longer : ∀ rest, text.from? o = some rest → ∀ w, ∀ v ∈ words, v <+: rest → w.length < v.length →
    (g.keywordIn w (.ofList words)).Fails fs text start inherited
  /-- That no keyword starts is not accepted where one does that is not empty. -/
  noKeyword : ∀ rest, text.from? o = some rest → ∀ v ∈ words, v <+: rest → v ≠ [] →
    (g.noKeywordIn (.ofList words)).Fails fs text start inherited
  /-- If there is a keyword, and all prefixes of keywords are keywords, then the word that is taken
  is the longest keyword. -/
  longestWord : words ≠ [] → (∀ w ∈ words, ∀ v, v <+: w → v ∈ words) →
    ∀ rest, text.from? o = some rest → ∀ w,
      ((g.keywordIn w (.ofList words)).Fails fs text start inherited ↔
        ¬ Keywords.LongestWord words rest w) ∧
      ∀ j b, (g.keywordIn w (.ofList words)).Reaches fs text start inherited j b ↔
        Keywords.LongestWord words rest w ∧ b = a ∧
          Skips (Pattern.Answers fs text) g.lexicon.ignore (o + w.byteLength) a j
  /-- A step that is not given a set of keywords has the set of the grammar. -/
  inSet : g.lexicon.keywordSet = .ofList words →
    (∀ w, g.keyword w = g.keywordIn w (.ofList words)) ∧ g.noKeyword = g.noKeywordIn (.ofList words)

theorem reaches_keywordIn_ofList_iff (hg : g.IsOpen)
    (h : g.Reaches fs text start inherited o a) {words : List Text} {w : Text} :
    (g.keywordIn w (.ofList words)).Reaches fs text start inherited j b ↔
      Keywords.StandsAt words text o w ∧ b = a ∧
        Skips (Pattern.Answers fs text) g.lexicon.ignore (o + w.byteLength) a j := by
  rw [reaches_keywordIn_iff hg]
  constructor
  · rintro ⟨o', found, hlead, hf, rfl, hs⟩
    obtain ⟨rfl, rfl⟩ := h.unique hlead
    obtain ⟨hstands, hstop⟩ := Keywords.search_eq_some_iff.1 hf
    exact ⟨hstands, rfl, hstop ▸ hs⟩
  · rintro ⟨hstands, rfl, hs⟩
    exact ⟨o, ⟨w, o + w.byteLength⟩, h, Keywords.search_eq_some_iff.2 ⟨hstands, rfl⟩, rfl, hs⟩

theorem fails_keywordIn_ofList_iff (hg : g.IsOpen)
    (h : g.Reaches fs text start inherited o a) {words : List Text} {w : Text} :
    (g.keywordIn w (.ofList words)).Fails fs text start inherited ↔
      ¬ Keywords.StandsAt words text o w := by
  rw [fails_keywordIn_iff hg, Keywords.standsAt_iff_search]
  constructor
  · rintro (hno | ⟨o', a', hlead, hf⟩) ⟨found, hfound, hw⟩
    · exact h.not_fails hno
    · obtain ⟨rfl, -⟩ := h.unique hlead
      exact hf found hfound hw
  · intro hno
    exact .inr ⟨o, a, h, fun found hfound hw => hno ⟨found, hfound, hw⟩⟩

/-- Behind every open grammar the keyword steps take the longest beginning of a keyword. -/
theorem keywordSteps (hg : g.IsOpen) (h : g.Reaches fs text start inherited o a)
    (words : List Text) : KeywordSteps fs text g words start inherited o a where
  reaches_iff := fun _ _ _ => reaches_keywordIn_ofList_iff hg h
  fails_iff := fun _ => fails_keywordIn_ofList_iff hg h
  atMostOne := by
    intro v w hvw
    rw [fails_keywordIn_ofList_iff hg h, fails_keywordIn_ofList_iff hg h]
    by_cases hv : Keywords.StandsAt words text o v
    · exact .inr fun hw => hvw (hv.unique hw)
    · exact .inl hv
  longer := by
    intro rest hrest w v hv hstarts hlt
    rw [fails_keywordIn_ofList_iff hg h]
    intro hw
    exact absurd (hw.length_le hrest hv hstarts) (Nat.not_le.2 hlt)
  noKeyword := by
    intro rest hrest v hv hstarts hne
    rw [noKeywordIn, fails_keywordIn_ofList_iff hg h]
    intro hw
    exact hne (List.length_eq_zero_iff.1 (Nat.le_zero.1 (hw.length_le hrest hv hstarts)))
  longestWord := by
    intro hne hclosed rest hrest w
    have hiff : Keywords.StandsAt words text o w ↔ Keywords.LongestWord words rest w :=
      (Keywords.standsAt_iff hrest).trans (Keywords.longestBeginning_iff_longestWord hne hclosed)
    rw [fails_keywordIn_ofList_iff hg h, hiff]
    refine ⟨.rfl, fun j b => ?_⟩
    rw [reaches_keywordIn_ofList_iff hg h, hiff]
  inSet := by
    intro hset
    refine ⟨fun w => ?_, ?_⟩
    · rw [keyword, hset]
    · rw [noKeyword, keyword, hset, noKeywordIn]

/-- A search has an answer at the boundaries of the text, and there it spells the longest beginning
of a keyword; so do the keyword steps behind an open grammar, wherever that ends. It is all the same
whether the places of the nodes are kept as they are or with 32 bits, unless there are too many
characters. -/
theorem keywords_take_longest (words : List Text) (text : Text) :
    (words.flatten.length < Nat.pow 2 32 →
      Keywords.ofWords (.bits 32) words = Keywords.ofList words) ∧
    (∀ i, (Keywords.ofList words).search text i = none ↔ ¬ text.isBoundary i) ∧
    (∀ i found, (Keywords.ofList words).search text i = some found ↔
      Keywords.StandsAt words text i found.matched ∧
        found.lastIndex = i + Text.byteLength found.matched) ∧
    ∀ (fs : Forwards α) (g : Grammar α), g.IsOpen → ∀ start inherited o a,
      g.Reaches fs text start inherited o a →
        KeywordSteps fs text g words start inherited o a :=
  ⟨Keywords.ofWords_bits, fun _ => Keywords.search_eq_none_iff,
    fun _ _ => Keywords.search_eq_some_iff, fun _ _ hg _ _ _ _ h => keywordSteps hg h words⟩

/-- Of the keywords `in` and `i` only the first is taken where `in` stands. -/
theorem keywords_take_longest_in :
    Keywords.ofWords (.bits 32) [['i', 'n'], ['i']] = Keywords.ofList [['i', 'n'], ['i']] ∧
      (empty.keywordIn ['i'] (.ofList [['i', 'n'], ['i']])).Fails (α := Nat) .empty
        ['i', 'n', '!'] 0 none ∧
      (empty.keywordIn ['i', 'n'] (.ofList [['i', 'n'], ['i']])).Reaches (α := Nat) .empty
        ['i', 'n', '!'] 0 none 2 none := by
  obtain ⟨hbits, -, -, hsteps⟩ :=
    keywords_take_longest (α := Nat) [['i', 'n'], ['i']] ['i', 'n', '!']
  have h := hsteps .empty empty (isOpen_of_lexicon _) 0 none 0 none (reaches_empty_iff.2 ⟨rfl, rfl⟩)
  refine ⟨hbits (by decide), h.longer _ rfl ['i'] ['i', 'n'] (by decide) (by decide) (by decide),
    ?_⟩
  rw [h.reaches_iff]
  exact ⟨Keywords.standsAt_iff_search.2 ⟨⟨['i', 'n'], 2⟩, by decide, rfl⟩, rfl, .nothing⟩

/-- Without keywords the empty word is taken everywhere, though it is not a keyword and all prefixes
of keywords are. -/
theorem empty_word_without_keywords :
    (∀ w ∈ ([] : List Text), ∀ v, v <+: w → v ∈ ([] : List Text)) ∧
      (empty.keywordIn [] (.ofList [])).Reaches (α := Nat) .empty ['a', 'b', 'c'] 0 none 0 none ∧
      ¬ Keywords.LongestWord [] ['a', 'b', 'c'] [] ∧
      (Keywords.ofList []).search ['a', 'b', 'c'] 0 = some ⟨[], 0⟩ ∧
      ¬ ∃ w ∈ ([] : List Text), [] <+: w := by
  refine ⟨by simp, ?_, fun h => (nomatch h.mem), by decide, by simp⟩
  exact (reaches_keywordIn_iff (isOpen_of_lexicon _)).2
    ⟨0, ⟨[], 0⟩, reaches_empty_iff.2 ⟨rfl, rfl⟩, by decide, rfl, .nothing⟩

end Grammar

end GrammarMachine
