import GrammarMachine.Keywords.Node
import GrammarMachine.Text.Basic

/-!
# Keyword sets

A keyword set is a tree whose edges are characters: every path from the root is a prefix of some
keyword. Its nodes lie one after the other in an arena, in the order in which they were made, and a
node refers to its children by their places there. A search walks from the root for as long as the
text follows an edge, so it reports the longest prefix of the text that begins some keyword, whether
or not a keyword ends there.

* `Keywords.childOrInsert` goes to a child, which is made if it is missing.
* `Keywords.ofWords` builds the set of some words. The places of the nodes are kept as an `Index`,
  with a number of bits or without; `Keywords.ofList` keeps them as they are.
* `Keywords.search` walks along a text from a byte offset; `Keywords.search_eq` says where to.
-/

namespace GrammarMachine

/-- A set of keywords: the nodes in the order in which they were made, the root first. No node
refers to a place where there is none. -/
structure Keywords where
  nodes : Array Keywords.Node
  size_pos : 0 < nodes.size
  inRange : ∀ n ∈ nodes, ∀ e ∈ n.children, e.2 < nodes.size

namespace Keywords

/-- How the place of a node is kept. -/
structure Index where
  ofPlace : Nat → Nat
  ofPlace_le : ∀ n, ofPlace n ≤ n

namespace Index

/-- As it is. -/
def unbounded : Index := ⟨id, Nat.le_refl⟩

/-- With so many bits; higher ones are cut off. -/
def bits (w : Nat) : Index := ⟨(· % Nat.pow 2 w), fun n => Nat.mod_le n _⟩

end Index

/-! ## Nodes -/

/-- The set without keywords. -/
def empty : Keywords where
  nodes := #[.leaf]
  size_pos := Nat.one_pos
  inRange := by simp [Node.leaf]

def node (k : Keywords) (i : Nat) : Node := k.nodes[i]?.getD .leaf

def isEmpty (k : Keywords) : Bool := (k.node 0).children.isEmpty

/-- The child of a node under a character. -/
def child? (k : Keywords) (i : Nat) (c : Char) : Option Nat := (k.node i).child? c

theorem lt_size_of_mem_node {k : Keywords} {i : Nat} {e : Char × Nat}
    (h : e ∈ (k.node i).children) : e.2 < k.nodes.size := by
  rw [node] at h
  cases hi : k.nodes[i]? with
  | none =>
    rw [hi] at h
    cases h
  | some n =>
    rw [hi] at h
    exact k.inRange n (Array.mem_of_getElem? hi) e h

/-- Makes a node, and puts it among the children of another one where it is missing. It is referred
to by an index that is no higher than its place. -/
def addChild (k : Keywords) (parent : Nat) (c : Char) (index pos : Nat)
    (h : (k.node parent).slot c = .vacant pos) (hindex : index ≤ k.nodes.size) : Keywords where
  nodes := (k.nodes.push .leaf).setIfInBounds parent ((k.node parent).insert c index pos h)
  size_pos := by simp
  inRange := by
    intro n hn e he
    rw [Array.size_setIfInBounds, Array.size_push]
    rcases Array.mem_or_eq_of_mem_setIfInBounds hn with hn | rfl
    · rcases Array.mem_push.1 hn with hn | rfl
      · exact Nat.lt_succ_of_lt (k.inRange n hn e he)
      · cases he
    · rcases (Node.mem_insert h).1 he with rfl | he
      · exact Nat.lt_succ_of_le hindex
      · exact Nat.lt_succ_of_lt (lt_size_of_mem_node he)

/-- Goes to the child under a character. A child that is missing is made. -/
def childOrInsert (ix : Index) (k : Keywords) (parent : Nat) (c : Char) : Keywords × Nat :=
  match h : (k.node parent).slot c with
  | .occupied child => (k, child)
  | .vacant pos =>
    let child := ix.ofPlace k.nodes.size
    (k.addChild parent c child pos h (ix.ofPlace_le _), child)

/-! ## Words -/

/-- Goes along a word from a node. What is missing is made. -/
def insertFrom (ix : Index) (s : Keywords × Nat) (w : Text) : Keywords × Nat :=
  w.foldl (fun s c => childOrInsert ix s.1 s.2 c) s

/-- Adds the path of a word. -/
def insert (ix : Index) (k : Keywords) (w : Text) : Keywords := (insertFrom ix (k, 0) w).1

/-- The set of the given words, added one after the other. -/
def ofWords (ix : Index) (words : List Text) : Keywords := words.foldl (insert ix) empty

/-- The set of the given words, with the places of its nodes as they are. -/
def ofList (words : List Text) : Keywords := ofWords .unbounded words

/-! ## Searching -/

/-- What a search found: the prefix walked, and the offset after it. -/
structure Found where
  matched : Text
  lastIndex : Nat
deriving Repr, DecidableEq

/-- Where a walk along the characters from a node ends; `last` is the offset after the characters
before them. Their offsets are counted from `start`. -/
def walkEnd (k : Keywords) (start : Nat) : List (Nat × Char) → Nat → Nat → Nat
  | [], _, last => last
  | (offset, c) :: chars, i, last =>
    match k.child? i c with
    | some next => walkEnd k start chars next (start + offset + c.utf8Size)
    | none => last

/-- Walks from a byte offset; absent for an offset past the end or inside a character. -/
def search (k : Keywords) (t : Text) (index : Nat) : Option Found := do
  let rest ← t.from? index
  let last := k.walkEnd index rest.charIndices 0 index
  return ⟨← rest.upTo? (last - index), last⟩

/-- The longest prefix of the text along which there is a path from the node. -/
def walkFrom (k : Keywords) : Nat → Text → Text
  | _, [] => []
  | i, c :: t =>
    match k.child? i c with
    | some next => c :: k.walkFrom next t
    | none => []

/-- The longest prefix of the text that is a path from the root. -/
def walk (k : Keywords) (t : Text) : Text := k.walkFrom 0 t

theorem walkFrom_prefix (t : Text) (k : Keywords) (i : Nat) : k.walkFrom i t <+: t := by
  induction t generalizing i with
  | nil => exact List.prefix_rfl
  | cons c t ih =>
    rw [walkFrom]
    split
    · exact List.cons_prefix_cons.2 ⟨rfl, ih _⟩
    · exact List.nil_prefix

/-- A walk goes along a prefix of the text. -/
theorem walk_prefix (t : Text) (k : Keywords) : k.walk t <+: t := walkFrom_prefix t k 0

theorem walkEnd_charIndicesFrom (k : Keywords) (start : Nat) (t : Text) (i offset : Nat) :
    k.walkEnd start (t.charIndicesFrom offset) i (start + offset) =
      start + offset + Text.byteLength (k.walkFrom i t) := by
  induction t generalizing i offset with
  | nil => rfl
  | cons c t ih =>
    rw [Text.charIndicesFrom, walkEnd, walkFrom]
    cases k.child? i c with
    | none => rfl
    | some next =>
      dsimp only
      rw [Nat.add_assoc, ih, Text.byteLength_cons]
      omega

/-- A search finds what a walk from the root goes along. -/
theorem search_eq (k : Keywords) (t : Text) (index : Nat) :
    k.search t index = (t.from? index).map fun rest =>
      ⟨k.walk rest, index + Text.byteLength (k.walk rest)⟩ := by
  rw [search]
  cases t.from? index with
  | none => rfl
  | some rest =>
    obtain ⟨u, hu⟩ := walk_prefix rest k
    have hlast : k.walkEnd index rest.charIndices 0 index =
        index + Text.byteLength (k.walk rest) := walkEnd_charIndicesFrom k index rest 0 0
    have hmatched : rest.upTo? (Text.byteLength (k.walk rest)) = some (k.walk rest) := by
      have h := Text.upTo?_append (k.walk rest) u
      rwa [hu] at h
    simp only [Option.bind_eq_bind, Option.bind_some, hlast, Nat.add_sub_cancel_left, hmatched]
    rfl

/-- A search has no answer exactly at offsets that are no boundaries. -/
theorem search_eq_none_iff {k : Keywords} {t : Text} {i : Nat} :
    k.search t i = none ↔ ¬ t.isBoundary i := by
  simp [search_eq, Text.isBoundary]

end Keywords

end GrammarMachine
