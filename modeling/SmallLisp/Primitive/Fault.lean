import SmallLisp.Value

/-!
# What primitive procedures give back

A primitive procedure either answers or finds a fault with its arguments.  An answer that is a new
string or list has no identity yet: identities are handed out by the evaluator, so that the
procedures themselves are plain functions.
-/

namespace SmallLisp

/-- What a pair of arguments was to be used for. -/
inductive Verb where
  | add | subtract | multiply | divide | compare
deriving DecidableEq

/-- The verb in words. -/
def Verb.text : Verb → String
  | add => "add"
  | subtract => "subtract"
  | multiply => "multiply"
  | divide => "divide"
  | compare => "compare"

/-- The two ends of an order. -/
inductive Extreme where
  | max | min
deriving DecidableEq

/-- The name of an extreme. -/
def Extreme.name : Extreme → String
  | max => "max"
  | min => "min"

/-- Why a primitive procedure refuses its arguments. -/
inductive Fault where
  /-- Two values of these kinds do not go together. -/
  | incompatible (verb : Verb) (left right : Kind)
  /-- The exact result does not fit an integer. -/
  | overflow
  /-- The divisor is zero. -/
  | divisionByZero
  /-- A number was needed. -/
  | notNumber (got : Kind)
  /-- The number of digits to round to was not an integer. -/
  | digitsNotInteger (got : Kind)
  /-- The double is no integer that fits. -/
  | notConvertible (x : Double)
  /-- There is nothing to choose an extreme from. -/
  | noCandidate (extreme : Extreme)
  /-- The empty list has no first element. -/
  | emptyList
  /-- The argument had to be a list. -/
  | argumentNotList (got : Kind)
  /-- The second argument had to be a list. -/
  | secondNotList (got : Kind)
  /-- Only lists and strings have a length. -/
  | noLength (got : Kind)
  /-- There are more elements than an integer can count. -/
  | lengthOutOfRange
  /-- Only procedures can be applied. -/
  | notApplicable (got : Kind)
  /-- Only procedures can be mapped over lists. -/
  | notMappable (got : Kind)
deriving DecidableEq

def Fault.message : Fault → String
  | incompatible verb left right => s!"cannot {verb.text} {left.name} and {right.name}"
  | overflow => "integer overflow"
  | divisionByZero => "division by zero"
  | notNumber got => s!"expected a number, got {got.name}"
  | digitsNotInteger got => s!"number of digits must be an integer, got {got.name}"
  | notConvertible x => s!"cannot convert {Layout.compact.write x} to an integer"
  | noCandidate extreme => s!"{extreme.name} of an empty list"
  | emptyList => "car of an empty list"
  | argumentNotList got => s!"argument must be a list, got {got.name}"
  | secondNotList got => s!"second argument must be a list, got {got.name}"
  | noLength got => s!"cannot take the length of {got.name}"
  | lengthOutOfRange => "length out of range"
  | notApplicable got => s!"cannot apply {got.name}"
  | notMappable got => s!"cannot map with {got.name}"

/-- What a primitive procedure answers. -/
inductive Answer where
  /-- A value that exists already, or that has no identity. -/
  | value (v : Value)
  | string (text : String)
  | list (items : List Value)

namespace Answer

def bool (b : Bool) : Answer := .value (.bool b)

def float (x : Double) : Answer := .value (.float x)

/-- The answer that is an integer, if it fits. -/
def int (n : Int) : Except Fault Answer :=
  match Integer.ofInt? n with
  | some n => .ok (.value (.int n))
  | none => .error .overflow

end Answer

end SmallLisp
