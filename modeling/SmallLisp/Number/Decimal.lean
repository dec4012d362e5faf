import SmallLisp.Number.Binary64

/-!
# Decimals of doubles

`Decimal.shortest` finds the decimal with the fewest digits that reads back as a given double, and
of those the one nearest to it.  The search goes from coarse to fine decimal grids: the first grid
with a point that rounds to the double gives the fewest digits.  It must end, because the value of
every double lies on the grid of `10 ^ (-1074)` itself.

`Decimal.magnitude` goes the other way and is correctly rounded.
-/

namespace SmallLisp

/-- The number `digits * 10 ^ exponent`. -/
structure Decimal where
  /-- All significant digits, as one whole number. -/
  digits : Nat
  /-- The power of ten that the last digit counts. -/
  exponent : Int
deriving DecidableEq

namespace Decimal

open Binary64

/-- Whether the fraction `num / den`, counted in units, rounds to the finite magnitude `k`: it
lies between the middles to the two neighbours of `k`, or on one of them if `k` is even. -/
def RoundsTo (k num den : Nat) : Prop :=
  let low := (units (k - 1) + units k) * den
  let high := (units k + units (k + 1)) * den
  low < 2 * num ∧ 2 * num < high ∨ k % 2 = 0 ∧ (low = 2 * num ∨ 2 * num = high)

instance (k num den : Nat) : Decidable (RoundsTo k num den) :=
  inferInstanceAs (Decidable (_ ∨ _))

/-- The point of the grid of `10 ^ exponent` that rounds to the magnitude `k` and is nearest to
its value, if any point rounds to it.  Of two equally near points the larger is taken. -/
def onGrid? (k : Nat) (exponent : Int) : Option Nat :=
  -- the point `d` of the grid has `d * step / scale` units
  let step := Nat.pow 10 exponent.toNat * unity
  let scale := Nat.pow 10 (-exponent).toNat
  let value := units k * scale
  let below := value / step
  let above := below + 1
  if RoundsTo k (above * step) scale ∧
      (¬RoundsTo k (below * step) scale ∨ above * step - value ≤ value - below * step) then
    some above
  else if RoundsTo k (below * step) scale then some below
  else none

/-- The exact value of a magnitude, which lies on the grid of `10 ^ (-precision)`. -/
def exact (k : Nat) : Decimal := ⟨units k * Nat.pow 5 precision, -precision⟩

/-- The first hit among the grids of `10 ^ (n - precision)`, `10 ^ (n - 1 - precision)`, …, where
`hit?` gives the point of a grid that is hit; `last` if none of the `n` is. -/
def firstHit (hit? : Int → Option Nat) (last : Decimal) : Nat → Decimal
  | 0 => last
  | n + 1 =>
    let exponent : Int := (n + 1 : Nat) - (precision : Int)
    match hit? exponent with
    | some digits => ⟨digits, exponent⟩
    | none => firstHit hit? last n

/-- The decimal with the fewest digits that rounds to the positive finite magnitude `k`.  The
search starts at a grid that is too coarse to hold it: `30103 / 100000` exceeds the decimal
logarithm of two. -/
def shortest (k : Nat) : Decimal :=
  let binaryPlace : Int := (units (k + 1)).log2 + 1 - (precision : Int)
  firstHit (onGrid? k) (exact k) (binaryPlace * 30103 / 100000 + 2 + precision).toNat

/-- The magnitude of the double nearest to a decimal.  Decimals far outside the range of the
doubles are settled by the place of their first digit, which bounds the powers of ten that have
to be computed. -/
def magnitude (d : Decimal) : Nat :=
  let place := (Nat.toDigits 10 d.digits).length + d.exponent
  if d.digits = 0 then 0
  else if 400 < place then infinity
  else if place < -400 then 0
  else if 0 ≤ d.exponent then nearest (d.digits * Nat.pow 10 d.exponent.toNat) 1
  else nearest d.digits (Nat.pow 10 (-d.exponent).toNat)

end Decimal

end SmallLisp
