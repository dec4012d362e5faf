import SmallLisp.Number.Binary64

/-!
# Arithmetic of doubles

Sums, differences, products and quotients of doubles are rounded correctly, so the operands
determine their bits, with one exception.  An operation that has no result, or an operand that is
no number, gives some double that is no number, and what its sign and its other bits are depends on
the processor.  Here they are a parameter, the `Machine`; the language itself only lets them show
where bits are compared.
-/

namespace SmallLisp

namespace Double

/-- The operations on two doubles. -/
inductive Operation where
  | add | subtract | multiply | divide
deriving DecidableEq

/-- The doubles that are no numbers. -/
abbrev NaN := { x : Double // Binary64.isNaN x }

end Double

/-- What arithmetic of doubles leaves open. -/
class Machine where
  /-- What an operation gives for two operands when the result is no number. -/
  nan : Double.Operation → Double → Double → Double.NaN

namespace Double

/-- The operation on `Float`, which has a single value that is no number. -/
def Operation.onFloats : Operation → Float → Float → Float
  | add => (· + ·)
  | subtract => (· - ·)
  | multiply => (· * ·)
  | divide => (· / ·)

/-- The result of an operation. -/
def Operation.apply [Machine] (op : Operation) (x y : Double) : Double :=
  let result : Double := ⟨(op.onFloats (Float.ofBits x.bits) (Float.ofBits y.bits)).toBits⟩
  if Binary64.isNaN result then Machine.nan op x y else result

instance [Machine] : Add Double := ⟨Operation.apply .add⟩
instance [Machine] : Sub Double := ⟨Operation.apply .subtract⟩
instance [Machine] : Mul Double := ⟨Operation.apply .multiply⟩
instance [Machine] : Div Double := ⟨Operation.apply .divide⟩

end Double

namespace Binary64

/-! ## Powers of ten -/

variable [Machine]

/-- The product `acc * base ^ n`, multiplied up in doubles by repeated squaring of the base. -/
def powLoop (acc base : Double) (n : Nat) : Double :=
  let acc := if n % 2 = 1 then acc * base else acc
  if n < 2 then acc else powLoop acc (base * base) (n / 2)
termination_by n

/-- The `n`-th power of ten as repeated squaring in doubles gives it; exponents that do not fit a
32-bit word give infinity. -/
def tenPow (n : Nat) : Double :=
  if n < 2147483648 then powLoop 1 10 n else ofMagnitude false infinity

/-- The double rounded to `digits` decimal places, or for negative `digits` to tens, hundreds and
so on, in double arithmetic: scale, round to a whole number, scale back. -/
def roundPlaces (x : Double) (digits : Int) : Double :=
  if isFinite x then
    let scale := tenPow digits.natAbs
    if 0 ≤ digits then
      let scaled := x * scale
      if isFinite scaled then roundWhole scaled / scale else x
    else if isFinite scale then roundWhole (x / scale) * scale
    else ofMagnitude (isNegative x) 0
  else x

end Binary64

/-! ## A processor -/

namespace Machine

open Binary64

/-- What is no number, with the bit set that makes it quiet. -/
def quiet (x : Double) : Double :=
  ofMagnitude (isNegative x)
    (if magnitude x < undefined then magnitude x + binade / 2 else magnitude x)

theorem isNaN_quiet {x : Double} (h : isNaN x) : isNaN (quiet x) := by
  have hlt := magnitude_lt x
  have hnan : infinity < magnitude x := of_decide_eq_true h
  unfold isNaN quiet
  unfold undefined infinity binade signBit at *
  rw [magnitude_ofMagnitude]
  · simp only [decide_eq_true_eq]
    split <;> omega
  · show _ < 9223372036854775808
    split <;> omega

/-- The rule of x86-64 processors: the first operand that is no number is given back quiet, and
where there is none, the result is negative. -/
scoped instance x86 : Machine where
  nan _ x y :=
    if hx : isNaN x then ⟨quiet x, isNaN_quiet hx⟩
    else if hy : isNaN y then ⟨quiet y, isNaN_quiet hy⟩
    else ⟨ofMagnitude true undefined, rfl⟩

end Machine

end SmallLisp
