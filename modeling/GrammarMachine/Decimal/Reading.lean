import GrammarMachine.Text.Basic

/-!
# Reading numbers

* `readInt64?` reads a signed decimal integer that fits into 64 bits.
* `readFloat?` reads a decimal number: digits with an optional point and an optional exponent, at
  least one digit before the exponent, or the words for infinity and NaN. The result is the nearest
  float; a number too large for any float is infinite.
-/

namespace GrammarMachine

namespace Decimal

/-- The number that decimal digits write. -/
def ofDigits (ds : Text) : Nat := ds.foldl (fun n d => n * 10 + (d.toNat - '0'.toNat)) 0

/-- A sign at the front, and what follows it. The flag is set for a minus sign. -/
def sign : Text → Bool × Text
  | '-' :: t => (true, t)
  | '+' :: t => (false, t)
  | t => (false, t)

/-- A nonempty text of digits as a number. -/
def readNat? (t : Text) : Option Nat :=
  if t.isEmpty || !t.all Char.isDigit then none else some (ofDigits t)

/-- A signed integer. -/
def readInt? (t : Text) : Option Int :=
  let (negative, t) := sign t
  (readNat? t).map fun n => if negative then -n else n

/-- A signed integer that fits into 64 bits. -/
def readInt64? (t : Text) : Option Int64 :=
  (readInt? t).bind fun n =>
    if Int64.minValue.toInt ≤ n ∧ n ≤ Int64.maxValue.toInt then some (Int64.ofInt n) else none

/-- The nearest float to `m * 10 ^ e`. Far outside the range of floats the result is infinite or
zero, whatever the digits are. -/
def nearestFloat (m : Nat) (e : Int) : Float :=
  let magnitude := ((Nat.toDigits 10 m).length : Int) + e
  if m = 0 ∨ magnitude < -400 then 0.0
  else if magnitude > 400 then 1.0 / 0.0
  else Float.ofScientific m (e < 0) e.natAbs

/-- The digits behind a point at the front, and what follows them. -/
def fraction : Text → Text × Text
  | '.' :: t => (t.takeWhile Char.isDigit, t.dropWhile Char.isDigit)
  | t => ([], t)

/-- The parts of an unsigned decimal number: a mantissa and the power of ten it is multiplied by. -/
def readScientific? (t : Text) : Option (Nat × Int) :=
  let whole := t.takeWhile Char.isDigit
  let (fraction, rest) := fraction (t.dropWhile Char.isDigit)
  if whole.isEmpty && fraction.isEmpty then none
  else
    let mantissa := ofDigits (whole ++ fraction)
    match rest with
    | [] => some (mantissa, -fraction.length)
    | c :: rest =>
      if c = 'e' ∨ c = 'E' then (readInt? rest).map fun e => (mantissa, e - fraction.length)
      else none

/-- A decimal number without a sign, or a word for infinity or NaN in any case. -/
def readMagnitude? (t : Text) : Option Float :=
  match String.ofList (t.map Char.toLower) with
  | "inf" | "infinity" => some (1.0 / 0.0)
  | "nan" => some (0.0 / 0.0)
  | _ => (readScientific? t).map fun (m, e) => nearestFloat m e

/-- A decimal number or one of the words, with or without a sign. -/
def readFloat? (t : Text) : Option Float :=
  let (negative, t) := sign t
  (readMagnitude? t).map fun x => if negative then -x else x

end Decimal

end GrammarMachine
