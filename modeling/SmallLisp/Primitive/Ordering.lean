import SmallLisp.Primitive.Arithmetic

/-!
# Order

Two numbers can be compared, and two strings.  Integers are compared exactly with each other, and
as doubles with a double; strings are compared character by character, by code point.  What is no
number stands in no order to anything.
-/

namespace SmallLisp

namespace Value

/-- The order of two numbers or two strings; `none` when a double that is no number is involved. -/
def compare? : Value → Value → Except Fault (Option Ordering)
  | int m, int n => .ok (some (compare m.toInt n.toInt))
  | str _ s, str _ t => .ok (some (compare s t))
  | a, b =>
    match a.number?, b.number? with
    | some x, some y => .ok (Binary64.compare? x.toDouble y.toDouble)
    | _, _ => .error (.incompatible .compare a.kind b.kind)

/-- Whether two values stand in an order that passes the test. -/
def ordered (test : Ordering → Bool) (a b : Value) : Except Fault Answer := do
  return .bool ((← a.compare? b).any test)

end Value

namespace Extreme

/-- How a candidate has to compare with the best one so far to take its place. -/
def isBetter : Extreme → Ordering → Bool
  | max => Ordering.isGT
  | min => Ordering.isLT

/-- The better one of the best candidate so far and the next one; of equals, the earlier. -/
def pick (extreme : Extreme) (best candidate : Value) : Except Fault Value := do
  return if (← candidate.compare? best).any extreme.isBetter then candidate else best

/-- The candidates are the arguments, or the elements of a list that is the only argument. -/
def candidates : Value → List Value → List Value
  | .list _ items, [] => items
  | first, rest => first :: rest

/-- The first candidate that is better than all before it and not beaten by those after it. -/
def choose (extreme : Extreme) (first : Value) (rest : List Value) : Except Fault Answer :=
  match candidates first rest with
  | [] => .error (.noCandidate extreme)
  | first :: rest => return .value (← rest.foldlM extreme.pick first)

end Extreme

end SmallLisp
