import SmallLisp.Form
import SmallLisp.Primitive

/-!
# Values

A value is what a form evaluates to.  Strings, lists and closures are *objects*: beside their
contents they have an identity, so that two lists with equal elements can be told apart.  Numbers,
booleans, `nil` and the primitive procedures have none.

A closure refers to the frame in which it was made by the number of that frame in the store; no
value contains a frame.
-/

namespace SmallLisp

/-- The number of a frame in the store. -/
abbrev FrameId := Nat

/-- What tells an object from every other one. -/
inductive Identity where
  /-- The object of the string literal at a place in a source; evaluating the literal again gives
  the same object.  Sources are numbered in the order in which they are read. -/
  | literal (source : Nat) (span : Span)
  /-- An object made while the program runs; these are numbered as they are made. -/
  | fresh (serial : Nat)
deriving DecidableEq

/-- A procedure made by a `lambda` form. -/
structure Closure where
  params : List String
  /-- The form that a call evaluates. -/
  body : Form
  /-- The number of the source that the body was read from. -/
  source : Nat
  /-- The frame in which the `lambda` form was evaluated. -/
  env : FrameId

/-- What a form evaluates to. -/
inductive Value where
  | int (n : Int64)
  | float (x : Double)
  | str (id : Identity) (text : String)
  | bool (b : Bool)
  /-- The value of forms that are evaluated for their effect. -/
  | nil
  | list (id : Identity) (items : List Value)
  /-- A procedure of the program. -/
  | closure (id : Identity) (closure : Closure)
  /-- A procedure of the language. -/
  | primitive (p : Primitive)

inductive Kind where
  | int | float | str | bool | nil | list | closure | primitive
deriving DecidableEq

def Kind.name : Kind → String
  | int => "integer"
  | float => "float"
  | str => "string"
  | bool => "boolean"
  | nil => "nil"
  | list => "list"
  | closure => "closure"
  | primitive => "primitive"

namespace Value

def kind : Value → Kind
  | int _ => .int
  | float _ => .float
  | str .. => .str
  | bool _ => .bool
  | nil => .nil
  | list .. => .list
  | closure .. => .closure
  | primitive _ => .primitive

/-- Whether the value counts as true: all values do, except the boolean `false`. -/
def isTruthy : Value → Bool
  | bool b => b
  | _ => true

/-- Whether the value can be called. -/
def isProcedure : Value → Bool
  | closure .. | primitive _ => true
  | _ => false

/-- The elements, if the value is a list. -/
def items? : Value → Option (List Value)
  | list _ items => some items
  | _ => none

end Value

end SmallLisp
