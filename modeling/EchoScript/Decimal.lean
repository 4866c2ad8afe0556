/-!
# EchoScript.Decimal

Decimal fractions `coefficient / 10 ^ places`, the digits they are read from and their canonical
positional text, and the rounding of a quotient to the nearest whole number.
-/

namespace EchoScript

/-- The whole number nearest to `num / den`; a tie goes to the even one. -/
def roundHalfEven (num den : Nat) : Nat :=
  let whole := num / den
  let twice := 2 * (num % den)
  if twice < den then whole
  else if twice = den ∧ whole % 2 = 0 then whole
  else whole + 1

/-- The decimal fraction `coefficient / 10 ^ places`. -/
structure Decimal where
  coefficient : Nat
  places : Nat
deriving DecidableEq

namespace Decimal

/-- The fraction written as `whole`, a point, and the digits `fraction`. -/
def ofDigits (whole fraction : List Char) : Decimal where
  coefficient := Nat.ofDigitChars 10 (whole ++ fraction) 0
  places := fraction.length

/-- `coefficient / 10 ^ places` with as few places as the value allows. -/
def reduce (coefficient : Nat) : Nat → Decimal
  | 0 => ⟨coefficient, 0⟩
  | places + 1 =>
    if coefficient % 10 = 0 then reduce (coefficient / 10) places
    else ⟨coefficient, places + 1⟩

/-- The same value with as few places as it allows. -/
def trim (d : Decimal) : Decimal := reduce d.coefficient d.places

/-- The digits before the point, without superfluous zeros. -/
def wholeDigits (d : Decimal) : List Char :=
  Nat.toDigits 10 (d.coefficient / Nat.pow 10 d.places)

/-- The digits after the point, one for each place. -/
def fractionDigits (d : Decimal) : List Char :=
  if d.places = 0 then []
  else (Nat.toDigits 10 (d.coefficient % Nat.pow 10 d.places)).leftpad d.places '0'

/-- All digits: the point and the fraction are written only if there are places. -/
def positional (d : Decimal) : List Char :=
  if d.places = 0 then d.wholeDigits else d.wholeDigits ++ '.' :: d.fractionDigits

/-- The canonical text of the value: no superfluous zero on either side of the point. -/
def text (d : Decimal) : String := String.ofList d.trim.positional

end Decimal

end EchoScript
