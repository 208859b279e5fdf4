import Mediation.Decimal

/-!
# Amounts

A `Coin` counts the smallest unit of the base currency in 64 bits. Sums and
differences are checked: one that does not fit is none, never a wrapped value.
-/

namespace Mediation

@[ext]
structure Coin where
  units : Nat
  units_lt : units < 2 ^ 64 := by decide
  deriving DecidableEq, Repr

namespace Coin

def zero : Coin := ⟨0, by decide⟩

instance : Inhabited Coin := ⟨zero⟩

def ofNat? (n : Nat) : Option Coin := if h : n < 2 ^ 64 then some ⟨n, h⟩ else none

/-- Whether there is nothing. -/
def isZero (a : Coin) : Bool := a.units = 0

/-- The sum, unless it exceeds 64 bits. -/
def add? (a b : Coin) : Option Coin := ofNat? (a.units + b.units)

/-- The difference, unless it is negative. -/
def sub? (a b : Coin) : Option Coin :=
  if b.units ≤ a.units then ofNat? (a.units - b.units) else none

def unitsPerCoin : Nat := 100000000

def plainText (a : Coin) : String :=
  String.ofList
    (Decimal.digits (a.units / unitsPerCoin) ++ '.' :: Decimal.padded 8 (a.units % unitsPerCoin))

def displayText (a : Coin) : String := a.plainText ++ " BTC"

theorem add?_eq_some_iff (a b c : Coin) : add? a b = some c ↔ a.units + b.units = c.units := by
  simp only [add?, ofNat?]
  split
  · simp [Coin.ext_iff]
  · rename_i h
    have := c.units_lt
    constructor
    · simp
    · intro hc
      omega

end Coin

end Mediation
