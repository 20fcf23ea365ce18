import GrammarMachine.Matching
import GrammarMachine.Proofs.Semantics.Exec
import GrammarMachine.Proofs.Text.Offsets

/-!
# Texts behind other texts

In front of a text another one is put, and offsets are moved on by its length.

* `Text.from?_shift`, `Text.slice?_shift`: what lies behind an offset, and between two, is the same.
* `literalEnd?_shift`, `lineBreakEnd?_shift`, `Regex.findAt_shift`, `Keywords.search_shift`: so is
  what is found there, further on.
* `Match.shift`, `Captures.shift`, `Frame.shift`: matches, captures and frames further on.
-/

namespace GrammarMachine

variable {α : Type}

/-! ## Texts -/

namespace Text

/-- What lies behind an offset of the second of two texts. -/
theorem from?_shift (u v : Text) (i : Nat) : (u ++ v).from? (u.byteLength + i) = v.from? i := by
  apply Option.ext
  intro r
  simp only [from?_eq_some_iff]
  constructor
  · rintro ⟨s, h, hs⟩
    rcases List.append_eq_append_iff.1 h with ⟨w, rfl, rfl⟩ | ⟨w, rfl, rfl⟩
    · exact ⟨w, rfl, by rw [byteLength_append] at hs; omega⟩
    · -- The offset is behind the first text, so nothing of that is left.
      rw [byteLength_append] at hs
      obtain rfl := byteLength_eq_zero.1 (by omega : byteLength w = 0)
      exact ⟨[], rfl, by rw [byteLength_nil] at hs ⊢; omega⟩
  · rintro ⟨s, rfl, rfl⟩
    exact ⟨u ++ s, (List.append_assoc ..).symm, byteLength_append u s⟩

/-- What lies between two offsets of the second of two texts. -/
theorem slice?_shift (u v : Text) (i j : Nat) :
    (u ++ v).slice? (u.byteLength + i) (u.byteLength + j) = v.slice? i j := by
  rw [slice?, slice?, from?_shift, Nat.add_sub_add_left]
  simp only [Nat.add_le_add_iff_left]

theorem byteLength_le_shift (u v : Text) (i : Nat) :
    (u ++ v).byteLength ≤ u.byteLength + i ↔ v.byteLength ≤ i := by
  rw [byteLength_append]
  omega

end Text

/-! ## Matches -/

/-- The match that many bytes further on. -/
def Match.shift (n : Nat) (m : Match α) : Match α := { m with lastIndex := n + m.lastIndex }

/-- What a search found, that many bytes further on. -/
def Keywords.Found.shift (n : Nat) (r : Keywords.Found) : Keywords.Found :=
  { r with lastIndex := n + r.lastIndex }

variable (u v : Text) (i : Nat)

theorem Match.span?_shift (j : Nat) :
    (Match.span? (u ++ v) (u.byteLength + i) (u.byteLength + j) : Option (Match α)) =
      (Match.span? v i j).map (Match.shift u.byteLength) := by
  rw [Match.span?, Match.span?, Text.slice?_shift, Option.map_map]
  rfl

theorem literalEnd?_shift (t : Text) :
    literalEnd? t (u ++ v) (u.byteLength + i) =
      (literalEnd? t v i).map (u.byteLength + ·) := by
  rw [literalEnd?, literalEnd?, Text.from?_shift]
  cases v.from? i with
  | none => rfl
  | some rest =>
    dsimp only [Option.bind_eq_bind, Option.bind_some]
    split
    · rw [Option.map_some, Nat.add_assoc]
    · rfl

theorem lineBreakEnd?_shift :
    lineBreakEnd? (u ++ v) (u.byteLength + i) = (lineBreakEnd? v i).map (u.byteLength + ·) := by
  rw [lineBreakEnd?, lineBreakEnd?, Text.from?_shift]
  cases v.from? i with
  | none => rfl
  | some rest =>
    dsimp only [Option.bind_eq_bind, Option.bind_some]
    cases lineBreakLength? rest with
    | none => rfl
    | some n => exact congrArg some (Nat.add_assoc ..)

theorem Regex.findAt_shift (r : Regex) :
    (r.findAt (u ++ v) (u.byteLength + i) : Option (Match α)) =
      (r.findAt v i).map (Match.shift u.byteLength) := by
  rw [Regex.findAt, Regex.findAt, Text.from?_shift]
  cases v.from? i with
  | none => rfl
  | some rest =>
    dsimp only [Option.bind_eq_bind, Option.bind_some]
    cases r.find rest with
    | none => rfl
    | some found =>
      show some _ = some _
      rw [Match.shift, Nat.add_assoc]

theorem Keywords.search_shift (k : Keywords) :
    k.search (u ++ v) (u.byteLength + i) =
      (k.search v i).map (Found.shift u.byteLength) := by
  rw [search_eq, search_eq, Text.from?_shift, Option.map_map]
  refine congrArg (Option.map · _) (funext fun rest => ?_)
  simp only [Function.comp_apply, Found.shift, Nat.add_assoc]

theorem Pattern.startsKeyword_shift (words : Option Keywords) :
    find.startsKeyword (u ++ v) words (u.byteLength + i) = find.startsKeyword v words i := by
  cases words with
  | none => rfl
  | some k =>
    simp only [find.startsKeyword, Option.any_some, Keywords.search_shift]
    cases k.search v i with
    | none => rfl
    | some found => simp [Keywords.Found.shift]

/-! ## Frames -/

variable (n : Nat)

/-- The captures that many bytes further on. -/
def Captures.shift (cs : Captures α) : Captures α := cs.map (Option.map (List.map (Match.shift n)))

@[simp] theorem Captures.length_shift (cs : Captures α) : (cs.shift n).length = cs.length :=
  List.length_map ..

@[simp] theorem Captures.closed_shift (captures : Nat) :
    (Captures.closed captures : Captures α).shift n = .closed captures :=
  List.map_replicate ..

theorem Captures.modify_shift (cs : Captures α) (id : Nat)
    {f f' : Option (List (Match α)) → Option (List (Match α))}
    (h : ∀ l, f' (l.map (List.map (Match.shift n))) = (f l).map (List.map (Match.shift n))) :
    List.modify (cs.shift n) id f' = shift n (List.modify cs id f) := by
  refine List.ext_getElem? fun k => ?_
  simp only [shift, List.getElem?_modify, List.getElem?_map]
  cases cs[k]? with
  | none => rfl
  | some l => by_cases hk : id = k <;> simp [hk, h]

theorem Captures.start_shift (cs : Captures α) (id : Nat) :
    (cs.shift n).start id = (cs.start id).shift n :=
  cs.modify_shift n id fun l => by cases l <;> rfl

theorem Captures.record_shift (cs : Captures α) (id : Nat) (m : Match α) :
    (cs.shift n).record id (m.shift n) = (cs.record id m).shift n :=
  cs.modify_shift n id fun l => by cases l <;> simp

theorem Captures.recorded_shift (cs : Captures α) (id : Nat) :
    (cs.shift n).recorded id = (cs.recorded id).map (Match.shift n) := by
  simp only [recorded, shift, List.getElem?_map]
  cases cs[id]? with
  | none => rfl
  | some l => cases l <;> rfl

/-- The frame that many bytes further on. -/
def Frame.shift (f : Frame α) : Frame α :=
  { f with start := n + f.start, index := n + f.index, captures := f.captures.shift n }

@[simp] theorem Frame.pc_shift (f : Frame α) : (f.shift n).pc = f.pc := rfl

@[simp] theorem Frame.count_shift (f : Frame α) : (f.shift n).count = f.count := rfl

/-- The end of a call that many bytes further on. -/
def Final.shift (r : Final α) : Final α :=
  { r with index := n + r.index, captures := r.captures.shift n }

theorem Frame.initial_shift (captures start : Nat) (inherited : Option α) :
    (Frame.initial captures start inherited).shift n =
      .initial captures (n + start) inherited := by
  rw [Frame.shift, Frame.initial, Frame.initial, Captures.closed_shift]

end GrammarMachine
