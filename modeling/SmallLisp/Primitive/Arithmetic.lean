import SmallLisp.Number.Machine
import SmallLisp.Primitive.Fault

/-!
# Arithmetic

Two integers are combined exactly, and the result has to fit an integer; as soon as one of the
two numbers is a double, both are, and the result is a double.  Division is always division of
doubles.  Addition also joins strings and lists.
-/

namespace SmallLisp

/-- A value that can be calculated with. -/
inductive Number where
  | int (n : Int64)
  | float (x : Double)

/-- The number, as the double nearest to it. -/
def Number.toDouble : Number → Double
  | int n => Binary64.ofInt n.toInt
  | float x => x

/-- The number that a value is, if it is one. -/
def Value.number? : Value → Option Number
  | int n => some (.int n)
  | float x => some (.float x)
  | _ => none

namespace Arithmetic

variable [Machine]

/-- Combines two numbers, exactly if both are integers. -/
def combine (verb : Verb) (onInts : Int → Int → Int) (onFloats : Double → Double → Double)
    (a b : Value) : Except Fault Answer :=
  match a.number?, b.number? with
  | some (.int m), some (.int n) => Answer.int (onInts m.toInt n.toInt)
  | some x, some y => .ok (.float (onFloats x.toDouble y.toDouble))
  | _, _ => .error (.incompatible verb a.kind b.kind)

/-- The sum of two numbers, or two strings or lists joined. -/
def add : Value → Value → Except Fault Answer
  | .str _ s, .str _ t => .ok (.string (s ++ t))
  | .list _ vs, .list _ ws => .ok (.list (vs ++ ws))
  | a, b => combine .add (· + ·) (· + ·) a b

/-- The difference of two numbers. -/
def subtract (a b : Value) : Except Fault Answer := combine .subtract (· - ·) (· - ·) a b

/-- The product of two numbers. -/
def multiply (a b : Value) : Except Fault Answer := combine .multiply (· * ·) (· * ·) a b

/-- The quotient of two numbers, as a double.  A zero of either sign divides nothing. -/
def divide (a b : Value) : Except Fault Answer :=
  match a.number?, b.number? with
  | some x, some y =>
    if Binary64.equal y.toDouble 0 then .error .divisionByZero
    else .ok (.float (x.toDouble / y.toDouble))
  | _, _ => .error (.incompatible .divide a.kind b.kind)

/-- The absolute value of a number. -/
def abs : Value → Except Fault Answer
  | .int n => Answer.int n.toInt.natAbs
  | .float x => .ok (.float (Binary64.ofMagnitude false (Binary64.magnitude x)))
  | v => .error (.notNumber v.kind)

/-! ## Rounding -/

/-- An integer rounded to the nearest multiple of `10 ^ (-digits)`, a tie going to the even
multiple.  Steps that do not fit an integer, from `10 ^ 19` on, round everything to zero. -/
def roundInt (n : Int64) (digits : Int) : Except Fault Answer :=
  if 0 ≤ digits then .ok (.value (.int n))
  else if 18 < digits.natAbs then .ok (.value (.int 0))
  else Answer.int (roundToMultiple n.toInt (Nat.pow 10 digits.natAbs))

/-- Without a second argument, the integer nearest to a number, a half going to the even one; with
one, the number rounded to that many decimal places, and still of the same kind. -/
def round : Value → Option Value → Except Fault Answer
  | .int n, none => .ok (.value (.int n))
  | .float x, none =>
    match (Binary64.toInt? x).bind Integer.ofInt? with
    | some n => .ok (.value (.int n))
    | none => .error (.notConvertible (Binary64.roundWhole x))
  | .int n, some (.int digits) => roundInt n digits.toInt
  | .float x, some (.int digits) => .ok (.float (Binary64.roundPlaces x digits.toInt))
  | v, none | v, some (.int _) => .error (.notNumber v.kind)
  | _, some digits => .error (.digitsNotInteger digits.kind)

end Arithmetic

end SmallLisp
