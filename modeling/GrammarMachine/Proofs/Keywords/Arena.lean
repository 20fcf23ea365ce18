import GrammarMachine.Keywords
import Mathlib.Data.List.Induction

/-!
# The arena of a keyword set

Nodes are found by index, and while words are added the arena grows and children are put between
others. What stays is that every node is reached by exactly one text. So the texts that lead to the
nodes are listed beside the arena, and with every new node the list grows by one text.

* `Keywords.child?_addChild`: a new child is found, and all others are where they were.
* `Keywords.Labelled k labels`: the texts lead to the nodes at the same places.
  `Keywords.Labelled.childOrInsert` and `Keywords.Labelled.insert` keep it up.
* `Keywords.labelled_ofList`: the texts that lead to the nodes of a keyword set are the prefixes of
  its words.
* `Keywords.ofWords_bits`: if the number of characters fits into the bits of an index, no index is
  cut off.
-/

namespace GrammarMachine.Keywords

variable {k : Keywords} {labels : List Text} {s w : Text} {c d : Char} {i j parent index pos : Nat}

/-! ## New children -/

theorem child?_eq_some_iff : k.child? i c = some j ↔ (c, j) ∈ (k.node i).children :=
  Node.child?_eq_some_iff

theorem node_of_size_le (h : k.nodes.size ≤ i) : k.node i = .leaf := by
  rw [node, Array.getElem?_eq_none h, Option.getD_none]

theorem lt_size_of_child? (h : k.child? i c = some j) : j < k.nodes.size :=
  lt_size_of_mem_node (child?_eq_some_iff.1 h)

theorem child?_of_size_le (h : k.nodes.size ≤ i) : k.child? i c = none := by
  rw [child?, node_of_size_le h]
  rfl

variable {h : (k.node parent).slot c = .vacant pos} {hindex : index ≤ k.nodes.size}

theorem size_addChild : (k.addChild parent c index pos h hindex).nodes.size = k.nodes.size + 1 := by
  simp [addChild]

theorem node_addChild_self (hp : parent < k.nodes.size) :
    (k.addChild parent c index pos h hindex).node parent =
      (k.node parent).insert c index pos h := by
  have hlt : parent < (k.nodes.push .leaf).size := by
    rw [Array.size_push]
    exact Nat.lt_succ_of_lt hp
  simp only [addChild, node, Array.getElem?_setIfInBounds, if_pos hlt]
  rfl

theorem node_addChild_ne (hi : i ≠ parent) :
    (k.addChild parent c index pos h hindex).node i = k.node i := by
  simp only [addChild, node, Array.getElem?_setIfInBounds, if_neg (Ne.symm hi), Array.getElem?_push]
  split
  · subst i
    simp
  · rfl

/-- A new child is found, and all others are where they were. -/
theorem child?_addChild (hp : parent < k.nodes.size) :
    (k.addChild parent c index pos h hindex).child? i d = some j ↔
      (i = parent ∧ d = c ∧ j = index) ∨ k.child? i d = some j := by
  rw [child?_eq_some_iff, child?_eq_some_iff]
  by_cases hi : i = parent
  · subst i
    rw [node_addChild_self hp, Node.mem_insert, Prod.mk.injEq]
    simp
  · rw [node_addChild_ne hi]
    simp [hi]

/-! ## Texts that lead to the nodes -/

/-- The texts lead to the nodes at the same places. -/
structure Labelled (k : Keywords) (labels : List Text) : Prop where
  length_eq : labels.length = k.nodes.size
  root_iff : ∀ i : Nat, labels[i]? = some [] ↔ i = 0
  exists_parent : ∀ (i : Nat) (s : Text) (c : Char), labels[i]? = some (s ++ [c]) →
    ∃ p : Nat, labels[p]? = some s
  child?_iff : ∀ (p : Nat) (s : Text), labels[p]? = some s → ∀ (c : Char) (i : Nat),
    k.child? p c = some i ↔ labels[i]? = some (s ++ [c])

theorem labelled_empty : Labelled empty [[]] where
  length_eq := rfl
  root_iff := by
    intro i
    cases i <;> simp
  exists_parent := by
    intro i s c h
    cases i <;> simp at h
  child?_iff := by
    intro p s hp c i
    have hnone : empty.child? p c = none := by
      cases p with
      | zero => rfl
      | succ p => exact child?_of_size_le (Nat.succ_le_succ (Nat.zero_le p))
    rw [hnone]
    cases i <;> simp

/-- No two nodes are reached by the same text. -/
theorem Labelled.unique (hk : Labelled k labels) (hi : labels[i]? = some s)
    (hj : labels[j]? = some s) : i = j := by
  rcases List.eq_nil_or_concat s with rfl | ⟨u, c, rfl⟩
  · exact ((hk.root_iff i).1 hi).trans ((hk.root_iff j).1 hj).symm
  · rw [List.concat_eq_append] at hi hj
    obtain ⟨p, hp⟩ := hk.exists_parent i u c hi
    have hchild := (hk.child?_iff p u hp c i).2 hi
    exact Option.some.inj (hchild.symm.trans ((hk.child?_iff p u hp c j).2 hj))

theorem Labelled.lt_size (hk : Labelled k labels) (hi : labels[i]? = some s) :
    i < k.nodes.size := by
  rw [← hk.length_eq]
  exact (List.getElem?_eq_some_iff.1 hi).choose

/-- A prefix of a text that leads to a node leads to a node. -/
theorem Labelled.mem_of_append (hk : Labelled k labels) {u : Text} (h : s ++ u ∈ labels) :
    s ∈ labels := by
  induction u using List.reverseRecOn with
  | nil => rwa [List.append_nil] at h
  | append_singleton u c ih =>
    obtain ⟨i, hi⟩ := List.getElem?_of_mem h
    rw [← List.append_assoc] at hi
    obtain ⟨p, hp⟩ := hk.exists_parent i _ c hi
    exact ih (List.mem_of_getElem? hp)

/-- What stands in a list with one more entry at its end. -/
theorem getElem?_append_singleton {t u : Text} :
    (labels ++ [t])[i]? = some u ↔ labels[i]? = some u ∨ i = labels.length ∧ u = t := by
  grind

/-- A new node is reached by the text of its parent and one character more. -/
theorem Labelled.addChild (hk : Labelled k labels) (hp : labels[parent]? = some s)
    (h : (k.node parent).slot c = .vacant pos) :
    Labelled (k.addChild parent c k.nodes.size pos h (Nat.le_refl _)) (labels ++ [s ++ [c]]) := by
  have hnew {i : Nat} {t : Text} : (labels ++ [s ++ [c]])[i]? = some t ↔
      labels[i]? = some t ∨ i = k.nodes.size ∧ t = s ++ [c] := by
    rw [getElem?_append_singleton, hk.length_eq]
  have hmissing (i : Nat) : labels[i]? ≠ some (s ++ [c]) := by
    intro hi
    have hmem := child?_eq_some_iff.1 ((hk.child?_iff parent s hp c i).2 hi)
    exact (Node.splits_of_slot_vacant h).notMem hmem
  refine ⟨?_, fun i => ?_, fun i t d ht => ?_, fun p t ht d i => ?_⟩
  · rw [size_addChild, List.length_append, hk.length_eq]
    rfl
  · rw [hnew, hk.root_iff]
    simp
  · simp only [hnew] at ht ⊢
    rcases ht with ht | ⟨-, ht⟩
    · obtain ⟨p, hp⟩ := hk.exists_parent i t d ht
      exact ⟨p, .inl hp⟩
    · obtain ⟨rfl, -⟩ := List.append_inj' ht rfl
      exact ⟨parent, .inl hp⟩
  · rw [child?_addChild (hk.lt_size hp), hnew]
    rcases hnew.1 ht with ht' | ⟨rfl, rfl⟩
    · rw [hk.child?_iff p t ht', or_comm]
      refine or_congr_right ⟨?_, ?_⟩
      · rintro ⟨rfl, rfl, rfl⟩
        obtain rfl := Option.some.inj (ht'.symm.trans hp)
        exact ⟨rfl, rfl⟩
      · rintro ⟨rfl, htc⟩
        obtain ⟨rfl, hdc⟩ := List.append_inj' htc rfl
        exact ⟨hk.unique ht' hp, List.singleton_inj.1 hdc, rfl⟩
    · -- The new node has no children, and no text goes on from its own.
      refine iff_of_false ?_ ?_
      · rintro (⟨rfl, -⟩ | hchild)
        · exact Nat.lt_irrefl _ (hk.lt_size hp)
        · cases (child?_of_size_le (Nat.le_refl _)).symm.trans hchild
      · rintro (hi | ⟨-, hd⟩)
        · obtain ⟨p, hp⟩ := hk.exists_parent i _ d hi
          exact hmissing p hp
        · have hlen := congrArg List.length hd
          simp at hlen

/-- What a step leaves: a node at the text of the parent and one character more, and no other new
one. -/
theorem Labelled.childOrInsert (hk : Labelled k labels) (hp : labels[parent]? = some s)
    (c : Char) : ∃ labels', Labelled (Keywords.childOrInsert .unbounded k parent c).1 labels' ∧
      labels'[(Keywords.childOrInsert .unbounded k parent c).2]? = some (s ++ [c]) ∧
      ∀ u, u ∈ labels' ↔ u ∈ labels ∨ u = s ++ [c] := by
  rw [Keywords.childOrInsert]
  split
  · rename_i child h
    have hchild : labels[child]? = some (s ++ [c]) :=
      (hk.child?_iff parent s hp c child).1 (child?_eq_some_iff.2 (Node.mem_of_slot_occupied h))
    refine ⟨labels, hk, hchild, fun u => ⟨.inl, ?_⟩⟩
    rintro (hu | rfl)
    · exact hu
    · exact List.mem_of_getElem? hchild
  · rename_i pos h
    refine ⟨labels ++ [s ++ [c]], hk.addChild hp h, ?_, fun u => by simp⟩
    show (labels ++ [s ++ [c]])[k.nodes.size]? = _
    rw [← hk.length_eq]
    simp

/-- Words are paths from the node where they are added, and so are their prefixes. -/
theorem Labelled.insertFrom (hk : Labelled k labels) (hp : labels[i]? = some s) (w : Text) :
    ∃ labels', Labelled (Keywords.insertFrom .unbounded (k, i) w).1 labels' ∧
      ∀ u, u ∈ labels' ↔ u ∈ labels ∨ ∃ v, v <+: w ∧ u = s ++ v := by
  induction w generalizing k labels i s with
  | nil =>
    refine ⟨labels, hk, fun u => ⟨.inl, ?_⟩⟩
    rintro (hu | ⟨v, hv, rfl⟩)
    · exact hu
    · rw [List.prefix_nil.1 hv, List.append_nil]
      exact List.mem_of_getElem? hp
  | cons c w ih =>
    obtain ⟨labels₁, hk₁, hchild, hlabels₁⟩ := hk.childOrInsert hp c
    obtain ⟨labels', hk', hlabels'⟩ := ih hk₁ hchild
    refine ⟨labels', hk', fun u => ?_⟩
    rw [hlabels', hlabels₁]
    refine ⟨?_, ?_⟩
    · rintro ((hu | rfl) | ⟨v, hv, rfl⟩)
      · exact .inl hu
      · exact .inr ⟨[c], List.cons_prefix_cons.2 ⟨rfl, List.nil_prefix⟩, rfl⟩
      · exact .inr ⟨c :: v, List.cons_prefix_cons.2 ⟨rfl, hv⟩, List.append_assoc ..⟩
    · rintro (hu | ⟨v, hv, rfl⟩)
      · exact .inl (.inl hu)
      · cases v with
        | nil =>
          rw [List.append_nil]
          exact .inl (.inl (List.mem_of_getElem? hp))
        | cons d v =>
          obtain ⟨rfl, hprefix⟩ := List.cons_prefix_cons.1 hv
          exact .inr ⟨v, hprefix, List.append_cons s d v⟩

/-- A word that is added leads to its prefixes. -/
theorem Labelled.insert (hk : Labelled k labels) (w : Text) :
    ∃ labels', Labelled (k.insert .unbounded w) labels' ∧
      ∀ u, u ∈ labels' ↔ u ∈ labels ∨ u <+: w := by
  obtain ⟨labels', hk', hlabels'⟩ := hk.insertFrom ((hk.root_iff 0).2 rfl) w
  exact ⟨labels', hk', fun u => by simp [hlabels']⟩

theorem Labelled.foldl_insert (hk : Labelled k labels) (words : List Text) :
    ∃ labels', Labelled (words.foldl (Keywords.insert .unbounded) k) labels' ∧
      ∀ u, u ∈ labels' ↔ u ∈ labels ∨ ∃ w ∈ words, u <+: w := by
  induction words generalizing k labels with
  | nil => exact ⟨labels, hk, fun u => by simp⟩
  | cons w words ih =>
    obtain ⟨labels₁, hk₁, hlabels₁⟩ := hk.insert w
    obtain ⟨labels', hk', hlabels'⟩ := ih hk₁
    exact ⟨labels', hk', fun u => by simp [hlabels', hlabels₁, or_assoc]⟩

/-- The nodes of a keyword set are reached by the prefixes of its words. -/
theorem labelled_ofList (words : List Text) :
    ∃ labels, Labelled (ofList words) labels ∧
      ∀ u, u ∈ labels ↔ u = [] ∨ ∃ w ∈ words, u <+: w := by
  obtain ⟨labels, hk, hlabels⟩ := labelled_empty.foldl_insert words
  exact ⟨labels, hk, fun u => by rw [hlabels, List.mem_singleton]⟩

/-! ## Indices with bits -/

/-- A step makes at most one node, and cuts no index off that has enough bits. -/
theorem childOrInsert_bits {b : Nat} (hb : k.nodes.size < Nat.pow 2 b) (parent : Nat) (c : Char) :
    childOrInsert (.bits b) k parent c = childOrInsert .unbounded k parent c ∧
      (childOrInsert .unbounded k parent c).1.nodes.size ≤ k.nodes.size + 1 := by
  rw [childOrInsert, childOrInsert]
  split
  · exact ⟨rfl, Nat.le_succ _⟩
  · simp only [Index.bits, Index.unbounded, Nat.mod_eq_of_lt hb, id]
    exact ⟨trivial, Nat.le_of_eq size_addChild⟩

theorem insertFrom_bits {b : Nat} (w : Text) (s : Keywords × Nat)
    (hb : s.1.nodes.size + w.length ≤ Nat.pow 2 b) :
    insertFrom (.bits b) s w = insertFrom .unbounded s w ∧
      (insertFrom .unbounded s w).1.nodes.size ≤ s.1.nodes.size + w.length := by
  induction w generalizing s with
  | nil => exact ⟨rfl, Nat.le_refl _⟩
  | cons c w ih =>
    rw [List.length_cons] at hb
    have hroom : s.1.nodes.size < Nat.pow 2 b := by omega
    obtain ⟨heq, hsize⟩ := childOrInsert_bits hroom s.2 c
    obtain ⟨heq', hsize'⟩ := ih (childOrInsert .unbounded s.1 s.2 c) (by omega)
    refine ⟨?_, ?_⟩
    · rw [insertFrom, List.foldl_cons, heq]
      exact heq'
    · refine Nat.le_trans hsize' ?_
      rw [List.length_cons]
      omega

theorem foldl_insert_bits {b : Nat} (words : List Text) (k : Keywords)
    (hb : k.nodes.size + words.flatten.length ≤ Nat.pow 2 b) :
    words.foldl (insert (.bits b)) k = words.foldl (insert .unbounded) k := by
  induction words generalizing k with
  | nil => rfl
  | cons w words ih =>
    rw [List.flatten_cons, List.length_append] at hb
    have hroom : k.nodes.size + w.length ≤ Nat.pow 2 b := by omega
    obtain ⟨heq, hsize⟩ := insertFrom_bits w (k, 0) hroom
    rw [List.foldl_cons, List.foldl_cons, insert, insert, heq]
    exact ih _ (by simp only at hsize; omega)

/-- As many characters as there are indices cut none off: one index is the root's. -/
theorem ofWords_bits {b : Nat} {words : List Text} (hb : words.flatten.length < Nat.pow 2 b) :
    ofWords (.bits b) words = ofList words := by
  refine foldl_insert_bits words empty ?_
  show 1 + _ ≤ _
  omega

end GrammarMachine.Keywords
