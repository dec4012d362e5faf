import SmallLisp.Value
import SmallLisp.Number.Binary64

/-!
# Three equalities

* `Value.identical` (the procedure `eq?`) tells objects apart by their identity, and doubles by
  their bits.
* `Value.same` compares contents; values of different kinds are never the same.
* `Value.equal` (the procedure `equal?`) compares contents too, but an integer equals the double
  to which it converts, at any depth inside lists.

Procedures have no contents to compare, so all three compare them by identity.
-/

namespace SmallLisp.Value

/-- Whether two values are one and the same. -/
def identical : Value → Value → Bool
  | int m, int n => m == n
  | float x, float y => x.bits == y.bits
  | bool a, bool b => a == b
  | nil, nil => true
  | str i _, str j _ => i == j
  | list i _, list j _ => i == j
  | closure i _, closure j _ => i == j
  | primitive p, primitive q => p == q
  | _, _ => false

mutual

/-- Whether two values have the same kind and the same contents. -/
def same : Value → Value → Bool
  | int m, int n => m == n
  | float x, float y => Binary64.equal x y
  | str _ s, str _ t => s == t
  | bool a, bool b => a == b
  | nil, nil => true
  | list _ vs, list _ ws => sameAll vs ws
  | closure i _, closure j _ => i == j
  | primitive p, primitive q => p == q
  | _, _ => false

/-- Whether two lists of values are the same, element by element. -/
def sameAll : List Value → List Value → Bool
  | [], [] => true
  | v :: vs, w :: ws => v.same w && sameAll vs ws
  | _, _ => false

end

mutual

/-- Whether two values have equal contents, where an integer may equal a double. -/
def equal : Value → Value → Bool
  | int n, float x | float x, int n => Binary64.equal (Binary64.ofInt n.toInt) x
  | list _ vs, list _ ws => equalAll vs ws
  | v, w => v.same w

/-- Whether two lists of values are equal, element by element. -/
def equalAll : List Value → List Value → Bool
  | [], [] => true
  | v :: vs, w :: ws => v.equal w && equalAll vs ws
  | _, _ => false

end

end SmallLisp.Value
