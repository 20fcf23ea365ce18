import GrammarMachine.Proofs.Nesting.Links
import GrammarMachine.Proofs.Repetition.Delimited
import GrammarMachine.Proofs.Settlement.Calls

/-!
# A repetition is settled once

A call of a program with a repetition settles it once if it ends well: with the iterations that it
keeps, and behind the first element if it has one. The fold is called for each of these in order,
and for no iteration that is given up. A call that does not end well settles nothing, or, if no
iteration came to an end and what follows failed, what stood recorded before the iterations.

* `Seal.Begins`: where the iterations begin, and what is recorded before them.
* `Seal.Settles`: what a call comes to, and what it tells of its repetition.
* `Seal.loop_sound`: the iterations that a call keeps, whatever the attribute steers.
* `Seal.settled_once`: a call comes to that. What patterns write when they are tested stands between
  the events of the call.
-/

namespace GrammarMachine

variable {α : Type}

namespace Seal

/-! ## The iterations -/

/-- The bounds of the repetition are accepted. -/
def IsAccepted : Seal α → Prop
  | times min max _ => checkBounds min max = .ok ()
  | delimited _ _ => True

def min : Seal α → Nat
  | times min _ _ => min
  | delimited _ _ => 0

def max : Seal α → Option Nat
  | times _ max _ => max
  | delimited _ _ => none

/-- What one iteration comes to. -/
def iterates (V : Verdicts (Pattern α) α) (ignore : Option (Pattern α)) (dropping : Bool) :
    Seal α → IterationVerdicts α
  | times _ _ p => Iterates V ignore dropping p
  | delimited element delimiter => Separated V ignore dropping element delimiter

/-- Run from an offset, the program comes to its iterations. They begin at the offset `o` with the
attribute `a`; before them `lead` is recorded, and `seed` is the attribute before that. -/
inductive Begins (fs : Forwards α) (text : Text) (g : Grammar α) (start : Nat)
    (inherited : Option α) : Seal α → Option α → List (Match α) → Nat → Option α → Prop
  | times {min max p o a} : g.Reaches fs text start inherited o a →
      Begins fs text g start inherited (.times min max p) a [] o a
  | delimited {element delimiter o a m j} : g.Reaches fs text start inherited o a →
      element.Answers fs text o a (some m) →
      Skips (Pattern.Answers fs text) g.lexicon.ignore m.lastIndex
        (if g.drops then none else merge a m.attr) j →
      Begins fs text g start inherited (.delimited element delimiter) a [m] j
        (if g.drops then none else merge a m.attr)

/-- What a call of the program comes to, and which of its events tell of the repetition.

* A call that ends well settles once, with what is recorded before the iterations and with those that
  are kept: the most after which the terminals match.
* A call that does not settles with what is recorded before the iterations, or not at all. -/
inductive Settles (fs : Forwards α) (text : Text) (g : Grammar α) (start : Nat)
    (inherited : Option α) (s : Seal α) (fold : Option (Action α × Option α)) (ts : List Terminal) :
    Except Stop (Final α) → List (Event (Pattern α) α) → Prop
  | once {seed lead o a its n fin} : s.Begins fs text g start inherited seed lead o a →
      Unrolls (s.iterates (Pattern.Answers fs text) g.lexicon.ignore g.drops) s.max 0 o a its →
      Keeps (fun i e => ∃ b, FollowUnder (Pattern.Answers fs text) g.lexicon.ignore b ts i e)
        s.min 0 o its n fin.index →
      Settles fs text g start inherited s fold ts (.ok fin)
        (settlement g.drops (fold.map (·.1)) (if g.drops then none else merge seed (fold.bind (·.2)))
          (lead ++ (its.take n).map (·.found)))
  | early {seed lead o a} (e) : s.Begins fs text g start inherited seed lead o a →
      Settles fs text g start inherited s fold ts (.error e)
        (settlement g.drops (fold.map (·.1)) (if g.drops then none else merge seed (fold.bind (·.2)))
          lead)
  | never (e) : Settles fs text g start inherited s fold ts (.error e) []

section

variable {fs : Forwards α} {text : Text} {g : Grammar α} {s : Seal α}
  {fold : Option (Action α × Option α)} {ts : List Terminal} {start : Nat} {inherited : Option α}

/-- The loop of the repetition. The terminals behind it match under some attribute or other. -/
def loop (g : Grammar α) (fs : Forwards α) (text : Text) (fold : Option (Action α × Option α))
    (ts : List Terminal) (s : Seal α) : Loop α where
  address := g.instrs.length + 1 + (s.repetition g).opening.length
  length := (s.repetition g).body.length
  min := s.min
  max := s.max
  fold := fold.map (·.1)
  init := fold.bind (·.2)
  dropping := g.drops
  iterates := s.iterates (Pattern.Answers fs text) g.lexicon.ignore g.drops
  follows i e := ∃ b, FollowUnder (Pattern.Answers fs text) g.lexicon.ignore b ts i e

/-- The frame in which the first iteration is attempted. -/
def frame (g : Grammar α) (start : Nat) (s : Seal α) (seed : Option α) (lead : List (Match α))
    (o : Nat) (a : Option α) : Frame α :=
  ⟨start, g.instrs.length + 1 + (s.repetition g).opening.length, o, a, 0, g.drops, seed,
    [some lead]⟩

/-- What stands behind the loop. -/
theorem drop_instrs : ((Ending.sealed s fold ts).close g).instrs.drop
      ((s.loop g fs text fold ts).address + ((s.loop g fs text fold ts).length + 2)) =
    ts.map fun t => .token t.pattern := by
  cases s with
  | times min max p => exact Grammar.repetition_instrs_drop 4
  | delimited element delimiter => exact Grammar.delimited_instrs_drop 6

theorem close_ignore : ((Ending.sealed s fold ts).close g).ignore = g.lexicon.ignore := by
  rw [Ending.close_eq]

theorem getElem?_loopStart :
    ((Ending.sealed s fold ts).close g).instrs[g.instrs.length]? =
      some (.loopStart loopCapture) := by
  cases s with
  | times min max p => exact Grammar.repetition_instrs_get? 0 rfl
  | delimited element delimiter => exact Grammar.delimited_instrs_get? 0 rfl

theorem getElem?_loopTry : ((Ending.sealed s fold ts).close g).instrs[
      (s.loop g fs text fold ts).address]? =
    some (.loopTry loopCapture s.min ((s.loop g fs text fold ts).length + 2) (fold.map (·.1))
      (fold.bind (·.2))) := by
  cases s with
  | times min max p => exact Grammar.repetition_instrs_get? 1 rfl
  | delimited element delimiter => exact Grammar.delimited_instrs_get? 2 rfl

/-- Whatever a call of the loop comes to, it keeps iterations. -/
theorem loop_sound (hs : s.IsAccepted) : (s.loop g fs text fold ts).Sound (Pattern.Answers fs text)
    ((Ending.sealed s fold ts).close g) text := by
  have htrail {f : Frame α} {r : Option (Final α)}
      (hpc : f.pc = (s.loop g fs text fold ts).address + ((s.loop g fs text fold ts).length + 2))
      (hf : f.IsClean)
      (h : Exec (Pattern.Answers fs text) ((Ending.sealed s fold ts).close g) text f r) :
      ∃ e, (s.loop g fs text fold ts).follows f.index e ∧
        r = e.map fun e => ⟨e, f.attr, f.captures⟩ := by
    obtain ⟨e, he, rfl⟩ := (exec_terminals_under hf (hpc ▸ drop_instrs)).1 h
    exact ⟨e, ⟨f.attr, close_ignore ▸ he⟩, rfl⟩
  cases s with
  | times min max p =>
    exact {
      attempt := getElem?_loopTry
      back := Grammar.repetition_instrs_get? 3 rfl
      bounds := fun m hm => (Grammar.le_of_checkBounds hs hm).2
      body := fun hpc hd h => hpc ▸ h.of_iterated Grammar.repetition_ignore
        (Grammar.repetition_instrs_get? 2 hpc) hd
      carries := fun h => Iterates.carries h
      trail := fun hpc _ hf h => htrail hpc hf h }
  | delimited element delimiter =>
    exact {
      attempt := getElem?_loopTry
      back := Grammar.delimited_instrs_get? 5 rfl
      bounds := fun m hm => nomatch hm
      body := fun hpc hd h => Grammar.execIn_separated hpc hd h
      carries := fun h => Separated.carries h
      trail := fun hpc _ hf h => htrail hpc hf h }

theorem loop_reached (hs : s.IsAccepted) (seed : Option α) (lead : List (Match α)) (o : Nat)
    (a : Option α) :
    (s.loop g fs text fold ts).Reached (s.frame g start seed lead o a) lead where
  pc := rfl
  dropping := rfl
  captures := rfl
  below m hm := by
    cases s with
    | times min max p => exact (Grammar.le_of_checkBounds hs hm).1
    | delimited => cases hm
  clean h := absurd h (Nat.lt_irrefl 0)

/-! ## The call -/

section

variable {probe : Probe (Pattern α) α} (hprobe : ∀ p i a, ∃ r, (probe p i a).Writes r [])
  (hV : ∀ p i a r, probe.verdicts p i a r → Pattern.Answers fs text p i a r)

include hprobe hV

/-- In front of the iterations a call settles nothing: it stops, or comes to the first attempt. -/
theorem exec_begins (hg : g.IsOpen) (s : Seal α) (fold : Option (Action α × Option α))
    (ts : List Terminal) (start : Nat) (inherited : Option α) (fuel : Nat) :
    (∃ e, (exec probe ((Ending.sealed s fold ts).close g) text fuel
      (.initial 1 start inherited)).Tells (.error e) []) ∨
    ∃ seed lead o a fuel', s.Begins fs text g start inherited seed lead o a ∧
      ∀ r ss, (exec probe ((Ending.sealed s fold ts).close g) text fuel'
          (s.frame g start seed lead o a)).Tells r ss →
        (exec probe ((Ending.sealed s fold ts).close g) text fuel
          (.initial 1 start inherited)).Tells r ss := by
  have hclose : (Ending.sealed s fold ts).close g =
      ⟨g.instrs ++ (Ending.sealed s fold ts).instrs, g.lexicon.ignore, 1⟩ := Ending.close_eq g _
  have hagree : (Frame.initial 1 start inherited).Agrees (.initial 0 start inherited) :=
    ⟨rfl, rfl, rfl⟩
  have hfront := exec_front hprobe hg (Ending.sealed s fold ts).instrs g.lexicon.ignore 0 1
    (Nat.zero_le _) hagree rfl text fuel
  rw [← hclose] at hfront
  rcases hfront with he | ⟨⟨o, a, cs⟩, fuel₁, hfin, hon₁⟩
  · exact .inl he
  have hfin := hfin.mono hV
  obtain rfl : cs = .closed 0 := Grammar.captures_of_isOpen hg hfin _ rfl
  rw [Grammar.past_initial] at hon₁
  have hstart : ((Ending.sealed s fold ts).close g).instrs[(g.frontFrame 1 start o a).pc]? =
      some (.loopStart loopCapture) := getElem?_loopStart
  rcases exec_next hprobe hstart id text fuel₁ with ⟨e, he⟩ | ⟨f, fuel₂, hs, hon₂⟩
  · exact .inl ⟨e, hon₁ _ _ he⟩
  cases hs.of_loopStart hstart
  cases s with
  | times min max p =>
    exact .inr ⟨a, [], o, a, fuel₂, .times hfin, fun r ss h => hon₁ r ss (hon₂ r ss h)⟩
  | delimited element delimiter =>
    let f : Frame α := { (g.frontFrame 1 start o a).next o a with
      seed := a, captures := (Captures.closed 1).start loopCapture }
    have hfirst : ((Ending.sealed (.delimited element delimiter) fold ts).close g).instrs[f.pc]? =
        some (.consume element none (some loopCapture) true) := Grammar.delimited_instrs_get? 1 rfl
    rcases exec_next (f := f) hprobe hfirst id text fuel₂ with ⟨e, he⟩ | ⟨f, fuel₃, hs, hon₃⟩
    · exact .inl ⟨e, hon₁ _ _ (hon₂ _ _ he)⟩
    rcases hs.of_consume hfirst with ⟨-, hno⟩ | ⟨m, j, hm, hskip, hf⟩
    · cases hno
    cases hf
    have hattr : f.matchAttr none m = if g.drops then none else merge a m.attr :=
      Frame.matchAttr_none rfl m
    rw [if_pos rfl, close_ignore, hattr] at hskip
    rw [hattr] at hon₃
    exact .inr ⟨a, [m], j, _, fuel₃, .delimited hfin (hV _ _ _ _ hm) (hskip.mono hV),
      fun r ss h => hon₁ r ss (hon₂ r ss (hon₃ r ss h))⟩

/-- A call of the program settles its repetition once if it ends well. -/
theorem exec_settles (hg : g.IsOpen) (hs : s.IsAccepted) (fold : Option (Action α × Option α))
    (ts : List Terminal) (start : Nat) (inherited : Option α) (fuel : Nat) :
    ∃ r ss, (exec probe ((Ending.sealed s fold ts).close g) text fuel
        (.initial 1 start inherited)).Tells r ss ∧
      s.Settles fs text g start inherited fold ts r ss := by
  rcases exec_begins hprobe hV hg s fold ts start inherited fuel with
    ⟨e, he⟩ | ⟨seed, lead, o, a, fuel', hbegins, hon⟩
  · exact ⟨_, _, he, .never e⟩
  have hreached : (s.loop g fs text fold ts).Reached (s.frame g start seed lead o a) lead :=
    loop_reached hs seed lead o a
  have hbehind (k : Nat) (x : Instr (Pattern α) α)
      (hk : (s.frame g start seed lead o a).pc + ((s.loop g fs text fold ts).length + 2) ≤ k)
      (hx : ((Ending.sealed s fold ts).close g).instrs[k]? = some x) : x.IsStraight := by
    obtain ⟨i, rfl⟩ := Nat.exists_eq_add_of_le hk
    have hdrop : List.drop ((s.frame g start seed lead o a).pc +
        ((s.loop g fs text fold ts).length + 2)) ((Ending.sealed s fold ts).close g).instrs =
      ts.map fun t => .token t.pattern := drop_instrs
    rw [← List.getElem?_drop, hdrop] at hx
    obtain ⟨t, -, rfl⟩ := List.mem_map.1 (List.mem_of_getElem? hx)
    trivial
  have htry : ((Ending.sealed s fold ts).close g).instrs[(s.frame g start seed lead o a).pc]? =
      some (.loopTry loopCapture s.min ((s.loop g fs text fold ts).length + 2) (fold.map (·.1))
        (fold.bind (·.2))) := getElem?_loopTry
  rcases exec_attempt hprobe htry rfl hbehind text fuel' with ⟨fin, hfin⟩ | ⟨e, he | he⟩
  · obtain ⟨es, hes, hss⟩ := hfin
    obtain ⟨its, hits, hfinished⟩ := (loop_sound hs).finished hreached
      ((exec_sound (hes.ends .empty)).mono hV)
    cases hfinished with
    | ends hk hrec _ =>
      refine ⟨.ok fin, _, hon _ _ ⟨es, hes, hss⟩, ?_⟩
      rw [hrec]
      exact .once hbegins hits hk
  · exact ⟨_, _, hon _ _ he, .never e⟩
  · exact ⟨_, _, hon _ _ he, .early e hbegins⟩

end

/-- Every call of a program with a repetition comes to an end or to an error, and settles the
repetition so. What the run of the program writes is what its call writes: its own events, which are
those that are left if the tests of patterns keep silent, and between them what these tests write. A
run that matches is one whose call ends well. -/
theorem settled_once (hg : g.IsOpen) (hs : s.IsAccepted) (fold : Option (Action α × Option α))
    (ts : List Terminal) (env : Env α) (text : Text) (start : Nat) (inherited : Option α) :
    let p := (Ending.sealed s fold ts).close g
    let probe := Pattern.find env.forwards text env.fuel
    ∃ r own all, s.Settles env.forwards text g start inherited fold ts r
        (own.filter Event.isSettlement) ∧
      (exec probe.silent p text env.fuel (.initial p.captures start inherited)).Writes r own ∧
      Woven probe.Notes own all ∧
      (exec probe p text env.fuel (.initial p.captures start inherited)).Writes r all ∧
      (p.match? env text start inherited).Writes (r.bind (Final.toMatch text start)) all := by
  intro p probe
  have hwrites : ∀ q i a, ∃ r es, (probe q i a).Writes r es := Pattern.find_writes _ _ _
  have hsilent (q : Pattern α) (i : Nat) (a : Option α) :
      ∃ r, (probe.silent q i a).Writes r [] := by
    obtain ⟨r, es, hes⟩ := hwrites q i a
    exact ⟨r, Probe.silent_writes hes⟩
  obtain ⟨r, all, own, hall, hown, hwoven⟩ := exec_weaves (Probe.weaves_silent hwrites) p text
    env.fuel (.initial p.captures start inherited)
  obtain ⟨r', ss, ⟨own', hown', rfl⟩, hsettles⟩ := exec_settles hsilent
    (fun q i a o h => Pattern.answers_of_find (Probe.verdicts_of_silent hwrites h)) hg hs fold ts
    start inherited env.fuel
  obtain ⟨rfl, rfl⟩ := hown.unique hown'
  exact ⟨r, own, all, hsettles, hown, hwoven, hall, Code.run_writes hall⟩

/-- The second line break would be an iteration, but then none is left for the terminal. -/
theorem settled_once_line_feeds :
    let count : Action Nat := ⟨fun c => c.inherited.map (· + 1), none⟩
    let s : Seal Nat := .times 0 none (.literal ['\n'])
    let p := (Ending.sealed s (some (count, some 0)) [.lineBreak]).close Grammar.empty
    (Grammar.empty : Grammar Nat).IsOpen ∧ s.IsAccepted ∧
      ∃ own all : List (Event (Pattern Nat) Nat),
        s.Settles .empty ['\n', '\n'] Grammar.empty 0 none (some (count, some 0)) [.lineBreak]
          (.ok ⟨2, some 1, [some [⟨['\n'], 1, none, []⟩]]⟩) (own.filter Event.isSettlement) ∧
        (p.match? ⟨.empty, 16⟩ ['\n', '\n'] 0 none).Writes
          (.ok ⟨['\n', '\n'], 2, some 1, []⟩) all := by
  intro count s p
  have hopen : (Grammar.empty : Grammar Nat).IsOpen := Grammar.retains_empty.isOpen
  obtain ⟨r, own, all, hsettles, hown, -, -, hmatch⟩ := settled_once (s := s) hopen rfl
    (some (count, some 0)) [.lineBreak] ⟨.empty, 16⟩ ['\n', '\n'] 0 none
  have hrun : (exec (Pattern.find .empty ['\n', '\n'] 16).silent p ['\n', '\n'] 16
      (.initial 1 0 none)).outcome? = some (some ⟨2, some 1, [some [⟨['\n'], 1, none, []⟩]]⟩) := by
    decide +kernel
  obtain ⟨j, hj⟩ := Trial.exists_ends_of_outcome? hrun
  have hends := (hown .empty).symm.trans (Trial.ends_some_iff.1 hj)
  cases r with
  | error e => cases hends
  | ok fin =>
    obtain ⟨rfl, -⟩ := EStateM.Result.ok.inj hends
    exact ⟨hopen, rfl, own, all, hsettles, hmatch⟩

/-- A call that ends well settles, though its run may not match: behind the end of the text the end
of the input is found, but nothing can be sliced out of the text there. -/
theorem folded_without_match :
    let count : Action Nat := ⟨fun c => c.inherited.map (· + 1), none⟩
    let r := Grammar.empty.endOfInput.repeated 0 none (.literal [])
    Grammar.empty.endOfInput.tokenTimes 0 none (.literal []) = .ok r ∧
      ∃ j, (r.withFold count none).program.match? ⟨.empty, 12⟩ ['a', 'b', 'c'] 100 none .empty =
          .error .mismatch j ∧
        .foldCalled none ⟨[], none, none, []⟩ ∈ j.events :=
  ⟨rfl, _, rfl, List.mem_of_getElem? (i := 7) rfl⟩

end

end Seal

end GrammarMachine
