/-!
# Primitive procedures: names and arities

The procedures that every program can use without defining them.  Here they are only named and
counted; what they compute is said in the modules below `SmallLisp.Primitive`.
-/

namespace SmallLisp

/-! ## Argument counts -/

/-- The numbers of arguments that a procedure accepts. -/
inductive Arity where
  /-- This many. -/
  | exactly (n : Nat)
  /-- This many or more. -/
  | atLeast (n : Nat)
  /-- Any number from the first to the second. -/
  | between (low high : Nat)
deriving DecidableEq

namespace Arity

/-- Whether a procedure of this arity accepts `count` arguments. -/
def accepts : Arity → Nat → Bool
  | exactly n, count => count == n
  | atLeast n, count => n ≤ count
  | between low high, count => low ≤ count && count ≤ high

/-- The noun for `n` arguments. -/
def noun (n : Nat) : String := if n = 1 then "argument" else "arguments"

/-- The arity in words. -/
def text : Arity → String
  | exactly n => s!"{n} {noun n}"
  | atLeast n => s!"at least {n} {noun n}"
  | between low high => s!"{low} to {high} {noun high}"

end Arity

/-! ## The procedures -/

/-- The primitive procedures. -/
inductive Primitive where
  | add | subtract | multiply | divide
  | greater | atLeast | less | atMost | equal | unequal
  | abs | round | max | min
  | append | car | cdr | cons | list | length
  | apply | map
  | isSame | isEqual | isList | isNull | isProcedure | not
  | writeLine
deriving DecidableEq

namespace Primitive

/-- Every primitive procedure, in the order in which they are installed. -/
def all : List Primitive :=
  [add, subtract, multiply, divide, greater, atLeast, less, atMost, equal, unequal, abs, round,
    max, min, append, car, cdr, cons, list, length, apply, map, isSame, isEqual, isList, isNull,
    isProcedure, not, writeLine]

/-- The name to which the procedure is bound. -/
def name : Primitive → String
  | add => "+"
  | subtract => "-"
  | multiply => "*"
  | divide => "/"
  | greater => ">"
  | atLeast => ">="
  | less => "<"
  | atMost => "<="
  | equal => "="
  | unequal => "!="
  | abs => "abs"
  | round => "round"
  | max => "max"
  | min => "min"
  | append => "append"
  | car => "car"
  | cdr => "cdr"
  | cons => "cons"
  | list => "list"
  | length => "length"
  | apply => "apply"
  | map => "map"
  | isSame => "eq?"
  | isEqual => "equal?"
  | isList => "list?"
  | isNull => "null?"
  | isProcedure => "procedure?"
  | not => "not"
  | writeLine => "write-line"

/-- The primitive procedure of a name. -/
def ofName? (name : String) : Option Primitive := all.find? (·.name == name)

/-- The numbers of arguments that the procedure accepts. -/
def arity : Primitive → Arity
  | add | subtract | multiply | divide => .exactly 2
  | greater | atLeast | less | atMost | equal | unequal => .exactly 2
  | abs | car | cdr | length | isList | isNull | isProcedure | not | writeLine => .exactly 1
  | append | cons | apply | isSame | isEqual => .exactly 2
  | round => .between 1 2
  | max | min => .atLeast 1
  | list => .atLeast 0
  | map => .atLeast 2

end Primitive

end SmallLisp
