import EchoScript.Decimal

/-!
# EchoScript.Number.Basic

The numbers of the language: double-precision binary floating point, with signed zeros, signed
infinities and one not-a-number. Finite magnitudes are numbered from zero up by their `rank`, and
the magnitude of a rank is a whole number of units of `1 / Number.resolution`, so that every fact
about finite numbers is a fact about natural numbers.
-/

namespace EchoScript

namespace Number

/-- How many ranks share one distance to their neighbour: a binade of magnitudes. -/
def binade : Nat := Nat.pow 2 52

/-- How many finite magnitudes there are. -/
def ranks : Nat := 2047 * binade

/-- How many units make one. -/
def resolution : Nat := Nat.pow 2 1074

/-- The magnitude with the given rank, in units. The first two binades count unit by unit, and the
distance between neighbours doubles with each later one. -/
def units (rank : Nat) : Nat :=
  if rank / binade = 0 then rank
  else (binade + rank % binade) * Nat.pow 2 (rank / binade - 1)

end Number

/-- A double-precision number. -/
inductive Number where
  | nan
  | infinite (negative : Bool)
  | finite (negative : Bool) (rank : Fin Number.ranks)
deriving DecidableEq

namespace Number

/-- The number of a sign and a rank; a rank past the last finite one is infinite. -/
def ofRank (negative : Bool) (rank : Nat) : Number :=
  if h : rank < ranks then .finite negative ⟨rank, h⟩ else .infinite negative

/-- The number that an IEEE interchange word encodes. -/
def ofBits (word : UInt64) : Number :=
  let negative := word.toNat / Nat.pow 2 63 = 1
  let rank := word.toNat % Nat.pow 2 63
  if ranks < rank then .nan else ofRank negative rank

/-- The IEEE interchange word of a sign and a rank. -/
def word (negative : Bool) (rank : Nat) : UInt64 :=
  UInt64.ofNat ((if negative then Nat.pow 2 63 else 0) + rank)

/-- The IEEE interchange word of a number; not-a-number is the quiet one without payload. -/
def toBits : Number → UInt64
  | .nan => word false (ranks + binade / 2)
  | .infinite negative => word negative ranks
  | .finite negative rank => word negative rank

def isNaN : Number → Bool
  | .nan => true
  | _ => false

/-- Equality as the language compares numbers: not-a-number differs from everything, and the two
zeros are equal. -/
def equal : Number → Number → Bool
  | .finite s r, .finite t q => r = q && (s = t || r.val = 0)
  | .infinite s, .infinite t => s = t
  | _, _ => false

end Number

end EchoScript
