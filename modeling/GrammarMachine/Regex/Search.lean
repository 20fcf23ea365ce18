import GrammarMachine.Regex.Node
import GrammarMachine.Text.Basic

/-!
# Searching for a regular expression

A search keeps an ordered list of threads. A thread waits for one character and knows what remains
to be matched after it; earlier threads are preferred. Between two characters, `explore` follows a
node along every path that consumes nothing and collects the threads at their ends in order of
preference. A remainder that was met before at the same place is not followed again, since the
earlier visit is preferred. This bounds the work at one place, and ends a repetition whose body
consumed nothing. Reaching the end of the expression accepts, and drops all less preferred threads.

* `walk` takes the threads through the rest of a text; the last acceptance wins.
* `search` tries one start after the other.
* `search_eq_some`: a match splits the text into what precedes it, itself and what follows.
-/

namespace GrammarMachine

namespace Regex

/-- One part of what remains to be matched. -/
inductive Item where
  | node (n : Node)
  /-- A repetition after one turn: another turn, or the end. -/
  | again (body : Node) (greedy : Bool)
  /-- The end of a group. -/
  | close (index : Nat)
deriving Repr, DecidableEq

/-- What remains to be matched, in order. -/
abbrev Rest := List Item

/-- Where groups begin and end: the group with index `i` at places `2 i - 2` and `2 i - 1`. -/
abbrev Slots := List (Option Nat)

/-- A thread waits for a character of `set`. -/
structure Thread where
  set : CharSet
  rest : Rest
  slots : Slots
deriving Repr

/-- What an exploration at one place has met so far. Threads are collected latest first. -/
structure Front where
  visited : List Rest
  threads : List Thread
  accepted : Option Slots
deriving Repr

/-- A place in a text: the offset and the characters on both sides. -/
structure Place where
  offset : Nat
  before : Option Char
  after : Option Char
deriving Repr

namespace Front

/-- The front before anything was met. -/
def empty : Front := ⟨[], [], none⟩

/-- Follows a remainder unless it was met before or a preferred path has accepted. -/
def visit (rest : Rest) (follow : Front → Front) (f : Front) : Front :=
  if f.accepted.isSome || f.visited.contains rest then f
  else follow { f with visited := rest :: f.visited }

/-- Adds a thread unless a preferred path has accepted. -/
def addThread (t : Thread) (f : Front) : Front :=
  if f.accepted.isSome then f else { f with threads := t :: f.threads }

end Front

/-- A number of mandatory turns of a body, then what `done` does. `tail n` is the item for `n` more
turns. The continuation given to `body` visits the remainder given with it. -/
def turns (body : Rest → (Slots → Front → Front) → Slots → Front → Front) (tail : Nat → Item)
    (rest : Rest) (done : Slots → Front → Front) : Nat → Slots → Front → Front
  | 0 => done
  | n + 1 => body (tail n :: rest) fun slots =>
      Front.visit (tail n :: rest) (turns body tail rest done n slots)

/-- Up to a number of optional turns of a body, more or fewer of them preferred. -/
def optionalTurns (body : Rest → (Slots → Front → Front) → Slots → Front → Front)
    (tail : Nat → Item) (rest : Rest) (done : Slots → Front → Front) (greedy : Bool) :
    Nat → Slots → Front → Front
  | 0 => done
  | n + 1 => fun slots f =>
      let turn := body (tail n :: rest) fun slots =>
        Front.visit (tail n :: rest) (optionalTurns body tail rest done greedy n slots)
      if greedy then done slots (turn slots f) else turn slots (done slots f)

/-- Follows a node along all paths that consume nothing. `rest` remains to be matched after the
node, and `next` visits it. -/
def explore (p : Place) :
    Node → Rest → (Slots → Front → Front) → Slots → Front → Front
  | .empty, _, next => next
  | .char s, rest, _ | .asciiChar s, rest, _ => fun slots => Front.addThread ⟨s, rest, slots⟩
  | .look l, _, next => fun slots f => if l.holds p.before p.after then next slots f else f
  | .seq a b, rest, next =>
    explore p a (.node b :: rest) fun slots =>
      Front.visit (.node b :: rest) (explore p b rest next slots)
  | .alt a b, rest, next => fun slots f =>
    Front.visit (.node b :: rest) (explore p b rest next slots)
      (Front.visit (.node a :: rest) (explore p a rest next slots) f)
  | .group i body, rest, next => fun slots =>
    explore p body (.close i :: rest)
      (fun slots => Front.visit (.close i :: rest)
        (next (slots.set (2 * i - 1) (some p.offset))))
      (slots.set (2 * i - 2) (some p.offset))
  | .loop body min max greedy, rest, next =>
    match max with
    | none =>
      let oneOrMore : Slots → Front → Front :=
        explore p body (.again body greedy :: rest) fun slots =>
          Front.visit (.again body greedy :: rest) (next slots)
      let more : Slots → Front → Front := fun slots =>
        Front.visit (.node (.loop body 1 none greedy) :: rest) (oneOrMore slots)
      match min with
      | 0 => fun slots f =>
        if greedy then next slots (more slots f) else more slots (next slots f)
      | m + 1 => turns (explore p body) (fun n => .node (.loop body (n + 1) none greedy)) rest
        oneOrMore m
    | some max =>
      turns (explore p body)
        (fun n => .node (.loop body n (some (max - min + n)) greedy)) rest
        (optionalTurns (explore p body) (fun n => .node (.loop body 0 (some n) greedy)) rest
          next greedy (max - min)) min

/-- Follows everything that remains, up to acceptance. -/
def exploreRest (p : Place) : Rest → Slots → Front → Front
  | [], slots, f => if f.accepted.isSome then f else { f with accepted := some slots }
  | .node n :: rest, slots, f =>
    Front.visit (.node n :: rest) (explore p n rest (exploreRest p rest) slots) f
  | .close i :: rest, slots, f =>
    Front.visit (.close i :: rest)
      (exploreRest p rest (slots.set (2 * i - 1) (some p.offset))) f
  | .again body greedy :: rest, slots, f =>
    Front.visit (.again body greedy :: rest)
      (explore p (.loop body 0 none greedy) rest (exploreRest p rest) slots) f

/-- A match of a regular expression: where it starts and ends, and the slots of its groups. -/
structure Span where
  start : Nat
  stop : Nat
  slots : Slots
deriving Repr, DecidableEq

/-- Takes threads through the rest of a text. `best` is the preferred match so far. -/
def walk (start : Nat) : List Thread → Option Span → Nat → Text → Option Span
  | _, best, _, [] => best
  | threads, best, offset, c :: cs =>
    if threads.isEmpty then best
    else
      let place : Place := ⟨offset + c.utf8Size, some c, cs.head?⟩
      let front := threads.foldl (fun f t =>
        if t.set.contains c then exploreRest place t.rest t.slots f else f) Front.empty
      walk start front.threads.reverse
        ((front.accepted.map fun slots => ⟨start, place.offset, slots⟩).or best)
        place.offset cs

/-- The preferred match of a node that starts at this place. -/
def matchAt (n : Node) (offset : Nat) (before : Option Char) (cs : Text) : Option Span :=
  let place : Place := ⟨offset, before, cs.head?⟩
  let front := exploreRest place [.node n] (List.replicate (2 * n.groupCount) none) Front.empty
  walk offset front.threads.reverse
    (front.accepted.map fun slots => ⟨offset, offset, slots⟩) offset cs

/-- The match with the first start, from this place on. -/
def searchFrom (n : Node) (offset : Nat) (before : Option Char) : Text → Option Span
  | [] => matchAt n offset before []
  | c :: cs =>
    (matchAt n offset before (c :: cs)).or (searchFrom n (offset + c.utf8Size) (some c) cs)

/-- The match with the first start in a text; of these, the preferred one. -/
def search (n : Node) (t : Text) : Option Span :=
  if n.isAnchored then matchAt n 0 none t else searchFrom n 0 none t

/-! ## Where matches lie -/

section

variable {n : Node} {t cs : Text} {offset : Nat} {s : Span}

/-- A walk that accepts further on does so behind characters of the text. -/
theorem walk_eq_some {start : Nat} {threads : List Thread} {best : Option Span}
    (h : walk start threads best offset cs = some s) :
    best = some s ∨
      ∃ u v, cs = u ++ v ∧ s.start = start ∧ s.stop = offset + Text.byteLength u := by
  induction cs generalizing threads best offset with
  | nil => exact .inl h
  | cons c cs ih =>
    rw [walk] at h
    split at h
    · exact .inl h
    · rcases ih h with hbest | ⟨u, v, rfl, hstart, hstop⟩
      · rcases Option.or_eq_some_iff.1 hbest with hnew | ⟨-, hold⟩
        · obtain ⟨slots, -, rfl⟩ := Option.map_eq_some_iff.1 hnew
          exact .inr ⟨[c], cs, rfl, rfl, rfl⟩
        · exact .inl hold
      · refine .inr ⟨c :: u, v, rfl, hstart, ?_⟩
        rw [hstop, Text.byteLength_cons, Nat.add_assoc]

/-- A match that is tried at a place begins there. -/
theorem matchAt_eq_some {before : Option Char} (h : matchAt n offset before cs = some s) :
    ∃ u v, cs = u ++ v ∧ s.start = offset ∧ s.stop = offset + Text.byteLength u := by
  rcases walk_eq_some h with hempty | hwalk
  · obtain ⟨slots, -, rfl⟩ := Option.map_eq_some_iff.1 hempty
    exact ⟨[], cs, rfl, rfl, rfl⟩
  · exact hwalk

theorem searchFrom_eq_some {before : Option Char} (h : searchFrom n offset before cs = some s) :
    ∃ l u v, cs = l ++ (u ++ v) ∧ s.start = offset + Text.byteLength l ∧
      s.stop = s.start + Text.byteLength u := by
  induction cs generalizing offset before with
  | nil =>
    obtain ⟨u, v, huv, hstart, hstop⟩ := matchAt_eq_some h
    exact ⟨[], u, v, huv, hstart, by rw [hstart, hstop]⟩
  | cons c cs ih =>
    rcases Option.or_eq_some_iff.1 h with hfirst | ⟨-, hlater⟩
    · obtain ⟨u, v, huv, hstart, hstop⟩ := matchAt_eq_some hfirst
      exact ⟨[], u, v, huv, hstart, by rw [hstart, hstop]⟩
    · obtain ⟨l, u, v, rfl, hstart, hstop⟩ := ih hlater
      refine ⟨c :: l, u, v, rfl, ?_, hstop⟩
      rw [hstart, Text.byteLength_cons, Nat.add_assoc]

/-- A match splits the text into what precedes it, itself and what follows it. -/
theorem search_eq_some (h : search n t = some s) :
    ∃ l u v, t = l ++ (u ++ v) ∧ s.start = Text.byteLength l ∧
      s.stop = s.start + Text.byteLength u := by
  rw [search] at h
  split at h
  · obtain ⟨u, v, rfl, hstart, hstop⟩ := matchAt_eq_some h
    exact ⟨[], u, v, rfl, hstart, by rw [hstart, hstop]⟩
  · obtain ⟨l, u, v, rfl, hstart, hstop⟩ := searchFrom_eq_some h
    exact ⟨l, u, v, rfl, by rw [hstart, Nat.zero_add], hstop⟩

/-- An expression that begins with the start of the text finds nothing behind it. -/
theorem start_eq_zero_of_isAnchored (hn : n.isAnchored) (h : search n t = some s) :
    s.start = 0 := by
  rw [search, if_pos hn] at h
  obtain ⟨u, v, -, hstart, -⟩ := matchAt_eq_some h
  exact hstart

end

end Regex

end GrammarMachine
