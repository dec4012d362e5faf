/-!
# Rounding quotients

One rule serves integers and doubles alike: a quotient goes to the nearest whole number, and a
half goes to the even one of its two neighbours.
-/

namespace SmallLisp

/-- The whole number nearest to `a / b`; a half goes to the even neighbour. -/
def roundQuotient (a b : Nat) : Nat :=
  let quotient := a / b
  let remainder := a % b
  if 2 * remainder < b then quotient
  else if b < 2 * remainder then quotient + 1
  else quotient + quotient % 2

/-- The multiple of `step` nearest to `n`; of two equally near ones, the even multiple. -/
def roundToMultiple (n : Int) (step : Nat) : Int :=
  n.sign * (roundQuotient n.natAbs step * step : Nat)

end SmallLisp
