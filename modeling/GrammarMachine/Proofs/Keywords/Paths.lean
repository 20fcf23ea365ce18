import GrammarMachine.Proofs.Keywords.Arena

/-!
# Paths of a keyword set

* `Keywords.HasPath s k`: the text `s` leads from the root to some node.
* `Keywords.hasPath_ofList`: the paths of a keyword set are the prefixes of its words.
* `Keywords.prefix_walk_iff`: a walk goes along the longest path that the text begins with.
* `Keywords.search_congr`, `Keywords.search_perm`: a search depends on the paths alone, so the words
  may be given in any order. The nodes then lie in another order, and the sets are not the same.
-/

namespace GrammarMachine.Keywords

variable {k : Keywords} {s s' t : Text} {i : Nat}

/-- The text leads from the node to some node. -/
def HasPathFrom (k : Keywords) : Nat → Text → Prop
  | _, [] => True
  | i, c :: s => ∃ j, k.child? i c = some j ∧ k.HasPathFrom j s

/-- The text is a path from the root. -/
def HasPath (s : Text) (k : Keywords) : Prop := k.HasPathFrom 0 s

theorem Labelled.hasPathFrom_iff {labels : List Text} (hk : Labelled k labels)
    (hi : labels[i]? = some s) {u : Text} : k.HasPathFrom i u ↔ s ++ u ∈ labels := by
  induction u generalizing i s with
  | nil =>
    rw [List.append_nil]
    exact iff_of_true trivial (List.mem_of_getElem? hi)
  | cons c u ih =>
    rw [HasPathFrom, List.append_cons]
    constructor
    · rintro ⟨j, hj, hu⟩
      exact (ih ((hk.child?_iff i s hi c j).1 hj)).1 hu
    · intro hu
      obtain ⟨j, hj⟩ := List.getElem?_of_mem (hk.mem_of_append hu)
      exact ⟨j, (hk.child?_iff i s hi c j).2 hj, (ih hj).2 hu⟩

/-- The paths of a keyword set are the prefixes of its words. -/
theorem hasPath_ofList {ws : List Text} {s : Text} :
    HasPath s (ofList ws) ↔ (∃ w ∈ ws, s <+: w) ∨ s = [] := by
  obtain ⟨labels, hk, hlabels⟩ := labelled_ofList ws
  rw [HasPath, hk.hasPathFrom_iff ((hk.root_iff 0).2 rfl), List.nil_append, hlabels, or_comm]

/-! ## Walks -/

theorem hasPathFrom_walkFrom (t : Text) (i : Nat) : k.HasPathFrom i (k.walkFrom i t) := by
  induction t generalizing i with
  | nil => trivial
  | cons c t ih =>
    rw [walkFrom]
    split
    · exact ⟨_, ‹_›, ih _⟩
    · trivial

theorem hasPath_walk (t : Text) (k : Keywords) : HasPath (k.walk t) k := hasPathFrom_walkFrom t 0

theorem HasPathFrom.prefix_walkFrom (h : k.HasPathFrom i s) (hs : s <+: t) :
    s <+: k.walkFrom i t := by
  induction s generalizing t i with
  | nil => exact List.nil_prefix
  | cons c s ih =>
    obtain ⟨j, hj, h⟩ := h
    cases t with
    | nil => simp at hs
    | cons d t =>
      obtain ⟨rfl, hst⟩ := List.cons_prefix_cons.1 hs
      simp only [walkFrom, hj]
      exact List.cons_prefix_cons.2 ⟨rfl, ih h hst⟩

theorem HasPath.prefix_walk (h : HasPath s k) (hs : s <+: t) : s <+: k.walk t :=
  HasPathFrom.prefix_walkFrom h hs

theorem HasPathFrom.of_isPrefix (h : k.HasPathFrom i s) (hs : s' <+: s) : k.HasPathFrom i s' := by
  induction s' generalizing s i with
  | nil => trivial
  | cons c s' ih =>
    cases s with
    | nil => simp at hs
    | cons d s =>
      obtain ⟨rfl, hss⟩ := List.cons_prefix_cons.1 hs
      obtain ⟨j, hj, h⟩ := h
      exact ⟨j, hj, ih h hss⟩

theorem HasPath.of_isPrefix (h : HasPath s k) (hs : s' <+: s) : HasPath s' k :=
  HasPathFrom.of_isPrefix h hs

/-- A walk goes along the longest path that the text begins with. -/
theorem prefix_walk_iff :
    s <+: k.walk t ↔ s <+: t ∧ HasPath s k := by
  have hwalk := walk_prefix t k
  exact ⟨fun h => ⟨h.trans hwalk, (hasPath_walk t k).of_isPrefix h⟩,
    fun ⟨hs, h⟩ => h.prefix_walk hs⟩

theorem walk_congr {k' : Keywords} (h : ∀ s, HasPath s k ↔ HasPath s k') (t : Text) :
    k.walk t = k'.walk t := by
  have hle {k k' : Keywords} (h : ∀ s, HasPath s k ↔ HasPath s k') : k.walk t <+: k'.walk t := by
    have hpath : HasPath (k.walk t) k' := (h _).1 (hasPath_walk t k)
    exact hpath.prefix_walk ( walk_prefix t k)
  exact (hle h).eq_of_length_le (hle fun s => (h s).symm).length_le

/-- Sets with the same paths are searched alike. -/
theorem search_congr {k' : Keywords} (h : ∀ s, HasPath s k ↔ HasPath s k') :
    k.search = k'.search := by
  funext t i
  simp only [search_eq, walk_congr h]

/-- The words of a keyword set may be given in any order. -/
theorem search_perm {vs ws : List Text} (h : vs.Perm ws) :
    (ofList vs).search = (ofList ws).search :=
  search_congr fun s => by simp only [hasPath_ofList, h.mem_iff]

/-- A walk over a word stops behind it if no word has the character that follows. -/
theorem walk_word {ws : List Text} {w t : Text} (hw : w ∈ ws)
    (h : ∀ c, t.head? = some c → ∀ v ∈ ws, c ∉ v) : (ofList ws).walk (w ++ t) = w := by
  have hpre : w <+: (ofList ws).walk (w ++ t) :=
    (hasPath_ofList.2 (.inl ⟨w, hw, List.prefix_rfl⟩)).prefix_walk (List.prefix_append w t)
  obtain ⟨u, hu⟩ := hpre
  cases u with
  | nil => rw [← hu, List.append_nil]
  | cons c u =>
    -- One more character would be on the path of some word.
    have hmax : w ++ c :: u <+: (ofList ws).walk (w ++ t) := hu ▸ List.prefix_rfl
    obtain ⟨hc, hpath⟩ := prefix_walk_iff.1 hmax
    obtain ⟨t', rfl⟩ := (List.prefix_append_right_inj w).1 hc
    rcases hasPath_ofList.1 hpath with ⟨v, hv, hwv⟩ | hnil
    · exact (h c rfl v hv (hwv.subset (by simp))).elim
    · simp at hnil

/-- A walk goes nowhere if no word has the first character. -/
theorem walk_eq_nil {ws : List Text} {t : Text} (h : ∀ c, t.head? = some c → ∀ v ∈ ws, c ∉ v) :
    (ofList ws).walk t = [] := by
  cases hw : (ofList ws).walk t with
  | nil => rfl
  | cons c u =>
    have hmax : c :: u <+: (ofList ws).walk t := hw ▸ List.prefix_rfl
    obtain ⟨⟨t', rfl⟩, hpath⟩ := prefix_walk_iff.1 hmax
    rcases hasPath_ofList.1 hpath with ⟨v, hv, huv⟩ | hnil
    · exact (h c rfl v hv (huv.subset List.mem_cons_self)).elim
    · simp at hnil

end GrammarMachine.Keywords
