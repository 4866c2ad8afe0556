import EchoScript.Number.OfDecimal

/-!
# EchoScript.Number.Shortest

The shortest decimal fraction that reads back as a given magnitude: of the decimal grids, coarse to
fine, the first that has a point reading back as the magnitude, and on that grid the point nearest to
it. Everything is counted in steps of `10 ^ (-Number.finestPlaces)`, in which every magnitude is whole.
-/

namespace EchoScript
namespace Number

/-- So many places write every magnitude exactly, because a unit is `5 ^ 1074 / 10 ^ 1074`. -/
def finestPlaces : Nat := 1074

/-- The exact magnitude of a rank, in steps of the finest grid. -/
def steps (rank : Nat) : Nat := units rank * Nat.pow 5 finestPlaces

/-- Whether a number of steps reads back as the rank. -/
def readsBack (rank candidate : Nat) : Bool :=
  nearestRank (candidate * resolution) (Nat.pow 10 finestPlaces) == rank

/-- The point of the grid of multiples of `spacing` that fits. What fits lies around the exact
magnitude, so that only its neighbours are tried; of the two the nearer is taken, and the upper one
on a tie. -/
def gridPoint? (fits : Nat → Bool) (exact spacing : Nat) : Option Nat :=
  let below := exact / spacing * spacing
  let above := below + spacing
  match fits below, fits above with
  | true, true => some (if exact - below < above - exact then below else above)
  | true, false => some below
  | false, true => some above
  | false, false => none

/-- The point on the first grid that has one, among those of spacing `10 ^ n` and finer. The finest
grid holds the magnitude itself. -/
def shortestSteps (fits : Nat → Bool) (exact : Nat) : Nat → Nat
  | 0 => exact
  | n + 1 =>
    match gridPoint? fits exact (Nat.pow 10 (n + 1)) with
    | some point => point
    | none => shortestSteps fits exact n

/-- A power of ten above `n`, by its exponent: the logarithm of two is just below `0.30103`. -/
def coarsest (n : Nat) : Nat := (n.log2 + 1) * 30103 / 100000 + 1

/-- The shortest decimal fraction that reads back as the rank, without superfluous places. -/
def shortest (rank : Nat) : Decimal :=
  Decimal.trim ⟨shortestSteps (readsBack rank) (steps rank) (coarsest (steps rank)), finestPlaces⟩

end Number
end EchoScript
