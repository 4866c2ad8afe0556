import EchoScript.Number.Basic

/-!
# EchoScript.Number.OfDecimal

Reading a decimal fraction as the nearest number, a tie going to the even rank.
-/

namespace EchoScript
namespace Number

/-- The rank whose magnitude is nearest to `num / den` units, a tie going to the even rank. A quotient
of more than 53 binary digits is measured in steps of `2 ^ excess`, the distance between neighbours
in its binade. -/
def nearestRank (num den : Nat) : Nat :=
  let excess := (num / den).log2 - 52
  excess * binade + roundHalfEven num (den * Nat.pow 2 excess)

/-- The number nearest to a signed decimal fraction. -/
def ofDecimal (negative : Bool) (d : Decimal) : Number :=
  ofRank negative (nearestRank (d.coefficient * resolution) (Nat.pow 10 d.places))

/-- The number nearest to a count. -/
def ofNat (n : Nat) : Number := ofDecimal false ⟨n, 0⟩

end Number
end EchoScript
