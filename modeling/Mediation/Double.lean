import Mediation.Decimal

/-!
# The range of doubles

Whether a number is beyond the largest number in the binary format of 64 bits:
of a decimal as it is, and of one that is computed from rounded parts.
-/

namespace Mediation.Double

/-- The least magnitude that rounds beyond the largest double. -/
def limit : Nat := 2 ^ 1024 - 2 ^ 970

/-- Whether `n · 10^scale` rounds beyond the largest double. -/
def exceeds (n : Nat) (scale : Int) : Bool :=
  let order : Int := (Decimal.digits n).length + scale
  if n = 0 then false
  else if order > 310 then true
  else if order < 300 then false
  else if 0 ≤ scale then limit ≤ n * 10 ^ scale.toNat
  else limit * 10 ^ (-scale).toNat ≤ n

/-- A natural number rounded to 53 binary digits, a tie to the even neighbour. -/
def round (n : Nat) : Nat :=
  if n < 2 ^ 53 then n
  else
    let unit := 2 ^ (n.log2 - 52)
    let q := n / unit
    let r := n % unit
    if unit < 2 * r || (2 * r = unit && q % 2 = 1) then (q + 1) * unit else q * unit

def maxPower : Nat := 308

/-- Whether the product of `n` and a power of ten exceeds the doubles where both
factors are rounded before. -/
def productExceeds (n : Nat) (exponent : Int) : Bool :=
  if n = 0 || exponent < 0 then false
  else if exponent > maxPower then true
  else limit ≤ round n * round (10 ^ exponent.toNat)

end Mediation.Double
