import GrammarMachine.Text.Basic

/-!
# The shortest decimal form of a float

A finite float is `m * 2 ^ q`, and every real number between the midpoints to its neighbours is
rounded to it. The shortest form is the decimal number with the fewest digits in that interval; of
those, the one nearest to the float. `shortest` finds it in exact arithmetic: for one digit, then
two, and so on, it tests the two neighbours of the float on the grid of numbers with that many
digits. Seventeen digits are always enough.

* `Binary.ofFloat` gives `m` and `q` of a finite float.
* `positional` writes a float without an exponent.
-/

namespace GrammarMachine

namespace Decimal

/-- The magnitude of a finite float as `m * 2 ^ q`. -/
structure Binary where
  m : Nat
  q : Int
  /-- Whether the float below is only half as far away as the float above. -/
  closeBelow : Bool

/-- The magnitude of a float, taken from its bits. -/
def Binary.ofFloat (x : Float) : Binary :=
  let bits := x.toBits.toNat
  let fraction : Nat := bits % Nat.pow 2 52
  let exponent : Nat := bits / Nat.pow 2 52 % Nat.pow 2 11
  if exponent = 0 then ⟨fraction, -1074, false⟩
  else ⟨fraction + Nat.pow 2 52, (exponent : Int) - 1075, fraction = 0 ∧ 1 < exponent⟩

/-- A decimal number: `digits * 10 ^ exponent`. -/
structure Digits where
  digits : Nat
  exponent : Int
deriving Repr, DecidableEq

/-- A nonnegative fraction times a power of ten, as numerator and denominator. -/
def scaled (num den : Nat) (e : Int) : Nat × Nat :=
  if 0 ≤ e then (num * Nat.pow 10 e.toNat, den) else (num, den * Nat.pow 10 (-e).toNat)

/-- The power of ten of the first digit of `num / den`, looked for upwards from `e`; `n` bounds the
number of steps. -/
def leadingPower (num den : Nat) : Nat → Int → Int
  | 0, e => e
  | n + 1, e =>
    let (a, b) := scaled num den (-(e + 1))
    if a < b then e else leadingPower num den n (e + 1)

/-- The neighbours of `v / den` among the multiples of `10 ^ e` that lie between `lo / den` and
`hi / den`, ends included or not: the nearer one if both do, the upper one if they are as near. -/
def gridPoint? (lo v hi den : Nat) (inclusive : Bool) (e : Int) : Option Nat :=
  let (a, b) := scaled v den (-e)
  let below := a / b
  let inside (d : Nat) : Bool :=
    let (l, b) := scaled lo den (-e)
    let (h, _) := scaled hi den (-e)
    if inclusive then l ≤ d * b && d * b ≤ h else l < d * b && d * b < h
  match inside below, inside (below + 1) with
  | true, true => some (if 2 * (a - below * b) < b then below else below + 1)
  | true, false => some below
  | false, true => some (below + 1)
  | false, false => none

/-- The shortest decimal number that is rounded to a nonzero float. -/
def shortest (x : Binary) : Digits :=
  let num := fun n => if 0 ≤ x.q then n * Nat.pow 2 x.q.toNat else n
  let den := if 0 ≤ x.q then 4 else 4 * Nat.pow 2 (-x.q).toNat
  let lo := num (if x.closeBelow then 4 * x.m - 1 else 4 * x.m - 2)
  let v := num (4 * x.m)
  let hi := num (4 * x.m + 2)
  let top := leadingPower v den 700 (-330)
  let candidates := (List.range 17).filterMap fun (n : Nat) =>
    let e := top - n
    (gridPoint? lo v hi den (x.m % 2 = 0) e).map fun d =>
      if d % 10 = 0 then (⟨d / 10, e + 1⟩ : Digits) else ⟨d, e⟩
  candidates.head?.getD ⟨v / den, 0⟩

/-- A decimal number without an exponent. -/
def Digits.positional (d : Digits) : String :=
  let ds := Nat.toDigits 10 d.digits
  if 0 ≤ d.exponent then String.ofList (ds ++ List.replicate d.exponent.toNat '0')
  else
    let places := (-d.exponent).toNat
    let padded := List.replicate (places + 1 - ds.length) '0' ++ ds
    let whole := padded.take (padded.length - places)
    let fraction := padded.drop (padded.length - places)
    String.ofList (whole ++ '.' :: fraction)

/-- The shortest form of a float without an exponent. Zero keeps its sign. -/
def positional (x : Float) : String :=
  if x.isNaN then "NaN"
  else
    let sign := if x.toBits.toNat ≥ Nat.pow 2 63 then "-" else ""
    if x.isInf then sign ++ "inf"
    else
      let b := Binary.ofFloat x
      if b.m = 0 then sign ++ "0" else sign ++ (shortest b).positional

end Decimal

end GrammarMachine
