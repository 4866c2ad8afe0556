import EchoScript.Number.Shortest

/-!
# EchoScript.Number.Text

The three ways a number is written: `print` is what scripts see, rounded to eight places; `full` is
the shortest text that reads back, always positional; `dump` is the same with a mark of being
fractional, and with an exponent for the very large and the very small.
-/

namespace EchoScript
namespace Number

/-- A printed number has at most eight places. -/
def printPlaces : Nat := 8

def signed (negative : Bool) (text : String) : String :=
  if negative then "-" ++ text else text

/-- The magnitude of a rank rounded to the places of printing; an exact tie goes to the even last
digit. -/
def rounded (rank : Nat) : Decimal :=
  ⟨roundHalfEven (units rank * Nat.pow 10 printPlaces) resolution, printPlaces⟩

/-- The print form. What rounds to zero is written without a sign. -/
def print : Number → String
  | .nan => "NaN"
  | .infinite negative => signed negative "Infinity"
  | .finite negative rank =>
    let d := rounded rank
    signed (negative && d.coefficient ≠ 0) d.text

/-- The shortest positional text that reads back as the number. -/
def full : Number → String
  | .nan => "NaN"
  | .infinite negative => signed negative "inf"
  | .finite negative rank => signed negative (shortest rank).text

/-- Scientific notation of a fraction: one digit before the point, no superfluous zero, and the
exponent of ten. -/
def scientific (d : Decimal) : String :=
  let digits := Nat.toDigits 10 d.coefficient
  let fraction := (digits.drop 1).reverse.dropWhile (· = '0') |>.reverse
  let exponent : Int := (digits.length : Int) - 1 - d.places
  let mantissa := digits.take 1 ++ (if fraction.isEmpty then [] else '.' :: fraction)
  String.ofList mantissa ++ "e" ++ exponent.repr

/-- Whether a fraction is dumped positionally: zero, and all from `10 ^ (-4)` to below `10 ^ 16`. -/
def isPositional (d : Decimal) : Bool :=
  d.coefficient = 0 ||
    (Nat.pow 10 d.places ≤ d.coefficient * Nat.pow 10 4 &&
      d.coefficient < Nat.pow 10 (16 + d.places))

/-- The dump form of a fraction: a whole number keeps one zero after the point. -/
def dumpDecimal (d : Decimal) : String :=
  if isPositional d then
    if d.places = 0 then d.text ++ ".0" else d.text
  else scientific d

def dump : Number → String
  | .nan => "NaN"
  | .infinite negative => signed negative "inf"
  | .finite negative rank => signed negative (dumpDecimal (shortest rank))

end Number
end EchoScript
