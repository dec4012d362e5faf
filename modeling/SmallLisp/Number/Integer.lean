/-!
# Integers of the language

An integer is a 64-bit word with a sign.  Every operation on integers is computed on unbounded
integers and then checked: a result that does not fit is refused, never wrapped around.
-/

namespace SmallLisp.Integer

/-- Whether `n` can be stored in a 64-bit word with a sign. -/
def Fits (n : Int) : Prop := -9223372036854775808 ≤ n ∧ n < 9223372036854775808

instance (n : Int) : Decidable (Fits n) := inferInstanceAs (Decidable (_ ∧ _))

/-- The word that stores `n`, if there is one. -/
def ofInt? (n : Int) : Option Int64 := if Fits n then some (Int64.ofInt n) else none

/-- The decimal digits of an integer, after a minus sign if it is negative. -/
def text (n : Int64) : String := toString n.toInt

end SmallLisp.Integer
