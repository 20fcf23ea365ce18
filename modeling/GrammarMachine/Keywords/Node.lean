/-!
# Nodes of a keyword set

A node has one child for each character that goes on from it. The children are kept in the order of
their characters, so that a character is found by halving.

* `Node.slot`: the child under a character, or the place where it is missing.
* `Node.insert`: puts a child where it is missing. It stays in order.
* `Node.child?_eq_some_iff`: a child is found wherever it stands.
-/

namespace GrammarMachine

namespace Keywords

/-- The indices of the nodes that characters lead to, in the order of the characters. -/
structure Node where
  children : List (Char × Nat)
  sorted : children.Pairwise (·.1 < ·.1)

/-- What a search among children comes to. -/
inductive Slot where
  /-- The character leads to this node. -/
  | occupied (child : Nat)
  /-- The character leads nowhere, and its child belongs at this place. -/
  | vacant (pos : Nat)

/-- Searches the places from `lo` to before `hi`, of which half are left with every unit of fuel. -/
def searchBetween (children : List (Char × Nat)) (c : Char) : Nat → Nat → Nat → Slot
  | 0, lo, _ => .vacant lo
  | fuel + 1, lo, hi =>
    if lo < hi then
      let mid := lo + (hi - lo) / 2
      match children[mid]? with
      | some (d, child) =>
        if d = c then .occupied child
        else if d < c then searchBetween children c fuel (mid + 1) hi
        else searchBetween children c fuel lo mid
      | none => .vacant lo
    else .vacant lo

/-- The place splits the children into those with smaller and those with greater characters. -/
structure Splits (children : List (Char × Nat)) (c : Char) (pos : Nat) : Prop where
  le_length : pos ≤ children.length
  below : ∀ e ∈ children.take pos, e.1 < c
  above : ∀ e ∈ children.drop pos, c < e.1

variable {children : List (Char × Nat)} {c d : Char} {child pos mid : Nat}

theorem mem_of_searchBetween_occupied {fuel lo hi : Nat}
    (h : searchBetween children c fuel lo hi = .occupied child) : (c, child) ∈ children := by
  induction fuel generalizing lo hi with
  | zero => cases h
  | succ fuel ih =>
    rw [searchBetween] at h
    split at h
    · dsimp only at h
      split at h
      · rename_i d child' hmid
        split at h
        · subst d
          cases h
          exact List.mem_of_getElem? hmid
        · split at h
          · exact ih h
          · exact ih h
      · cases h
    · cases h

/-- A child splits the others of sorted children. -/
theorem lt_of_getElem? (hs : children.Pairwise (·.1 < ·.1)) (h : children[mid]? = some (d, child)) :
    (∀ e ∈ children.take mid, e.1 < d) ∧ ∀ e ∈ children.drop (mid + 1), d < e.1 := by
  obtain ⟨hmid, hget⟩ := List.getElem?_eq_some_iff.1 h
  rw [← List.take_append_drop mid children, List.drop_eq_getElem_cons hmid, hget,
    List.pairwise_append, List.pairwise_cons] at hs
  exact ⟨fun e he => hs.2.2 e he _ List.mem_cons_self, hs.2.1.1⟩

/-- Between places below which all characters are smaller and above which all are greater, the
search stops at a place that splits the children. -/
theorem splits_of_searchBetween_vacant (hs : children.Pairwise (·.1 < ·.1)) {fuel lo hi : Nat}
    (hbelow : ∀ e ∈ children.take lo, e.1 < c) (habove : ∀ e ∈ children.drop hi, c < e.1)
    (hle : lo ≤ hi) (hlen : hi ≤ children.length) (hfuel : hi - lo ≤ fuel)
    (h : searchBetween children c fuel lo hi = .vacant pos) : Splits children c pos := by
  induction fuel generalizing lo hi with
  | zero =>
    cases h
    have heq : pos = hi := by omega
    exact ⟨by omega, hbelow, heq ▸ habove⟩
  | succ fuel ih =>
    rw [searchBetween] at h
    split at h
    · rename_i hlt
      generalize hmid : lo + (hi - lo) / 2 = mid at h
      dsimp only at h
      split at h
      · rename_i d child hget
        obtain ⟨hbefore, hbehind⟩ := lt_of_getElem? hs hget
        split at h
        · cases h
        · rename_i hne
          split at h
          · rename_i hdc
            refine ih (fun e he => ?_) habove (by omega) hlen (by omega) h
            obtain ⟨hlen', hget⟩ := List.getElem?_eq_some_iff.1 hget
            rw [List.take_succ_eq_append_getElem hlen', List.mem_append, List.mem_singleton] at he
            rcases he with he | rfl
            · exact Char.lt_trans (hbefore e he) hdc
            · rwa [hget]
          · rename_i hdc
            have hcd : c < d := Std.lt_of_le_of_ne (Std.not_lt.1 hdc) (Ne.symm hne)
            refine ih hbelow (fun e he => ?_) (by omega) (by omega) (by omega) h
            obtain ⟨hlen', hget⟩ := List.getElem?_eq_some_iff.1 hget
            rw [List.drop_eq_getElem_cons hlen', List.mem_cons] at he
            rcases he with rfl | he
            · rwa [hget]
            · exact Char.lt_trans hcd (hbehind e he)
      · rename_i hget
        rw [List.getElem?_eq_none_iff] at hget
        omega
    · cases h
      have heq : pos = hi := by omega
      exact ⟨by omega, hbelow, heq ▸ habove⟩

/-- A place splits the children only if none of them has the character. -/
theorem Splits.notMem (h : Splits children c pos) : (c, child) ∉ children := by
  intro hmem
  rw [← List.take_append_drop pos children, List.mem_append] at hmem
  rcases hmem with hmem | hmem
  · exact Char.lt_irrefl _ (h.below _ hmem)
  · exact Char.lt_irrefl _ (h.above _ hmem)

theorem Splits.pairwise_insertIdx (hs : children.Pairwise (·.1 < ·.1)) (h : Splits children c pos) :
    (children.insertIdx pos (c, child)).Pairwise (·.1 < ·.1) := by
  induction pos generalizing children with
  | zero => exact List.pairwise_cons.2 ⟨h.above, hs⟩
  | succ pos ih =>
    cases children with
    | nil => exact absurd h.le_length (Nat.not_succ_le_zero _)
    | cons e children =>
      obtain ⟨he, hs⟩ := List.pairwise_cons.1 hs
      obtain ⟨hlen, hbelow, habove⟩ := h
      have hpos : pos ≤ children.length := Nat.le_of_succ_le_succ hlen
      rw [List.insertIdx_succ_cons, List.pairwise_cons]
      refine ⟨fun e' he' => ?_, ih hs ⟨hpos, fun e' he' => ?_, habove⟩⟩
      · rcases (List.mem_insertIdx hpos).1 he' with rfl | he'
        · exact hbelow e List.mem_cons_self
        · exact he e' he'
      · exact hbelow e' (List.mem_cons_of_mem _ he')

namespace Node

/-- The node without children. -/
def leaf : Node := ⟨[], .nil⟩

/-- The child under a character, or the place where it is missing. -/
def slot (n : Node) (c : Char) : Slot :=
  searchBetween n.children c n.children.length 0 n.children.length

/-- The child under a character. -/
def child? (n : Node) (c : Char) : Option Nat :=
  match n.slot c with
  | .occupied child => some child
  | .vacant _ => none

theorem mem_of_slot_occupied {n : Node} (h : n.slot c = .occupied child) :
    (c, child) ∈ n.children := mem_of_searchBetween_occupied h

theorem splits_of_slot_vacant {n : Node} (h : n.slot c = .vacant pos) :
    Splits n.children c pos :=
  splits_of_searchBetween_vacant n.sorted (by simp) (by simp) (Nat.zero_le _) (Nat.le_refl _)
    (Nat.sub_le ..) h

/-- Puts a child at the place where it is missing. -/
def insert (n : Node) (c : Char) (child pos : Nat) (h : n.slot c = .vacant pos) : Node :=
  ⟨n.children.insertIdx pos (c, child), (splits_of_slot_vacant h).pairwise_insertIdx n.sorted⟩

theorem mem_insert {n : Node} (h : n.slot c = .vacant pos) {e : Char × Nat} :
    e ∈ (n.insert c child pos h).children ↔ e = (c, child) ∨ e ∈ n.children :=
  List.mem_insertIdx (splits_of_slot_vacant h).le_length

/-- No character has two children. -/
theorem eq_of_mem {n : Node} {q q' : Nat} (h : (c, q) ∈ n.children) (h' : (c, q') ∈ n.children) :
    q = q' := by
  obtain ⟨i, hi⟩ := List.getElem?_of_mem h
  obtain ⟨hbefore, hbehind⟩ := lt_of_getElem? n.sorted hi
  obtain ⟨hlt, hget⟩ := List.getElem?_eq_some_iff.1 hi
  rw [← List.take_append_drop i n.children, List.drop_eq_getElem_cons hlt, hget, List.mem_append,
    List.mem_cons] at h'
  rcases h' with h' | h' | h'
  · exact absurd (hbefore _ h') (Char.lt_irrefl _)
  · exact (Prod.mk.inj h').2.symm
  · exact absurd (hbehind _ h') (Char.lt_irrefl _)

theorem child?_eq_some_iff {n : Node} : n.child? c = some child ↔ (c, child) ∈ n.children := by
  rw [child?]
  split
  · rename_i child' h
    have hmem := mem_of_slot_occupied h
    exact ⟨fun h => Option.some.inj h ▸ hmem, fun h => congrArg some (eq_of_mem hmem h)⟩
  · rename_i pos h
    exact ⟨nofun, fun hmem => absurd hmem (splits_of_slot_vacant h).notMem⟩

end Node

end Keywords

end GrammarMachine
