import SmallLisp.Primitive.Ordering
import SmallLisp.Primitive.Lists
import SmallLisp.Value.Equality

/-!
# What the primitive procedures compute

A body is a function of a fixed or variable number of arguments.  It cannot be run on any other
number of them (`Body.run?`), so nothing has to be said about missing or surplus arguments.

Most procedures only look at their arguments, and `Primitive.meaning` gives their bodies.  The
three others call back into the evaluator or print; their bodies are defined with the evaluator.
-/

namespace SmallLisp

/-- A function of the arguments of a procedure, with results in `α`. -/
inductive Body (α : Type) where
  /-- One argument. -/
  | one (f : Value → α)
  /-- Two arguments. -/
  | two (f : Value → Value → α)
  /-- One argument, and possibly a second one. -/
  | oneOrTwo (f : Value → Option Value → α)
  /-- Any number of arguments. -/
  | any (f : List Value → α)
  /-- One argument and any number of further ones. -/
  | oneOrMore (f : Value → List Value → α)
  /-- Two arguments and any number of further ones. -/
  | twoOrMore (f : Value → Value → List Value → α)

namespace Body

/-- The numbers of arguments on which the body is defined. -/
def arity {α : Type} : Body α → Arity
  | one _ => .exactly 1
  | two _ => .exactly 2
  | oneOrTwo _ => .between 1 2
  | any _ => .atLeast 0
  | oneOrMore _ => .atLeast 1
  | twoOrMore _ => .atLeast 2

/-- The result of the body on a list of arguments; `none` if it is not defined on that many. -/
def run? {α : Type} : Body α → List Value → Option α
  | one f, [a] => some (f a)
  | two f, [a, b] => some (f a b)
  | oneOrTwo f, [a] => some (f a none)
  | oneOrTwo f, [a, b] => some (f a (some b))
  | any f, args => some (f args)
  | oneOrMore f, a :: rest => some (f a rest)
  | twoOrMore f, a :: b :: rest => some (f a b rest)
  | _, _ => none

/-- The body followed by a function on its results. -/
def map {α β : Type} (g : α → β) : Body α → Body β
  | one f => one fun a => g (f a)
  | two f => two fun a b => g (f a b)
  | oneOrTwo f => oneOrTwo fun a b => g (f a b)
  | any f => any fun args => g (f args)
  | oneOrMore f => oneOrMore fun a rest => g (f a rest)
  | twoOrMore f => twoOrMore fun a b rest => g (f a b rest)

/-- A body is defined on exactly the numbers of arguments of its arity. -/
theorem run?_isSome {α : Type} (body : Body α) (args : List Value) :
    (body.run? args).isSome = body.arity.accepts args.length := by
  rcases args with _ | ⟨a, _ | ⟨b, _ | ⟨c, rest⟩⟩⟩ <;> cases body <;>
    simp [run?, arity, Arity.accepts]

/-- Following a body with a function follows its results with it. -/
theorem run?_map {α β : Type} (g : α → β) (body : Body α) (args : List Value) :
    (body.map g).run? args = (body.run? args).map g := by
  rcases args with _ | ⟨a, _ | ⟨b, _ | ⟨c, rest⟩⟩⟩ <;> cases body <;> rfl

end Body

/-- What a primitive procedure does. -/
inductive Meaning where
  /-- It looks at its arguments only. -/
  | operation (body : Body (Except Fault Answer))
  /-- It calls a procedure with the elements of a list. -/
  | application
  /-- It calls a procedure with the elements of lists in turn. -/
  | mapping
  /-- It prints its argument. -/
  | printing

/-- What each primitive procedure does. -/
def Primitive.meaning [Machine] : Primitive → Meaning
  | add | append => .operation (.two Arithmetic.add)
  | subtract => .operation (.two Arithmetic.subtract)
  | multiply => .operation (.two Arithmetic.multiply)
  | divide => .operation (.two Arithmetic.divide)
  | greater => .operation (.two (Value.ordered Ordering.isGT))
  | atLeast => .operation (.two (Value.ordered Ordering.isGE))
  | less => .operation (.two (Value.ordered Ordering.isLT))
  | atMost => .operation (.two (Value.ordered Ordering.isLE))
  | equal | isEqual => .operation (.two fun a b => .ok (.bool (a.equal b)))
  | unequal => .operation (.two fun a b => .ok (.bool (!a.equal b)))
  | abs => .operation (.one Arithmetic.abs)
  | round => .operation (.oneOrTwo Arithmetic.round)
  | max => .operation (.oneOrMore (Extreme.choose .max))
  | min => .operation (.oneOrMore (Extreme.choose .min))
  | car => .operation (.one Lists.car)
  | cdr => .operation (.one Lists.cdr)
  | cons => .operation (.two Lists.cons)
  | list => .operation (.any fun args => .ok (.list args))
  | length => .operation (.one Lists.length)
  | isSame => .operation (.two fun a b => .ok (.bool (a.identical b)))
  | isList => .operation (.one fun v => .ok (.bool v.items?.isSome))
  | isNull => .operation (.one fun v => .ok (.bool (Lists.isNull v)))
  | isProcedure => .operation (.one fun v => .ok (.bool v.isProcedure))
  | not => .operation (.one fun v => .ok (.bool (!v.isTruthy)))
  | apply => .application
  | map => .mapping
  | writeLine => .printing

end SmallLisp
