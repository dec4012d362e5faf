import SmallLisp.Primitive.Fault

/-!
# Lists

Lists are never changed: each procedure here that gives back a list gives back a new one, also
where its elements are those of its argument.
-/

namespace SmallLisp.Lists

/-- The elements of a list that is the only, or the first, argument. -/
def argument (v : Value) : Except Fault (List Value) :=
  match v.items? with
  | some items => .ok items
  | none => .error (.argumentNotList v.kind)

/-- The elements of a list that is the second argument. -/
def second (v : Value) : Except Fault (List Value) :=
  match v.items? with
  | some items => .ok items
  | none => .error (.secondNotList v.kind)

def car (v : Value) : Except Fault Answer := do
  match ← argument v with
  | first :: _ => return .value first
  | [] => throw .emptyList

/-- All elements but the first; the empty list has none to lose. -/
def cdr (v : Value) : Except Fault Answer := return .list (← argument v).tail

/-- The list with one more element in front. -/
def cons (v list : Value) : Except Fault Answer := return .list (v :: (← second list))

/-- The number of elements of a list, or of characters of a string. -/
def length (v : Value) : Except Fault Answer :=
  let count : Option Nat := match v with
    | .list _ items => some items.length
    | .str _ text => some text.length
    | _ => none
  match count with
  | none => .error (.noLength v.kind)
  | some n =>
    match Integer.ofInt? n with
    | some n => .ok (.value (.int n))
    | none => .error .lengthOutOfRange

def isNull (v : Value) : Bool :=
  match v.items? with
  | some items => items.isEmpty
  | none => false

/-- The argument lists for mapping over one or more lists: the first elements of all of them, the
second elements, and so on while no list is at its end. -/
def columns : List Value → List (List Value) → List (List Value)
  | [], _ => []
  | v :: vs, rows =>
    if rows.any List.isEmpty then []
    else (v :: rows.filterMap List.head?) :: columns vs (rows.map List.tail)

end SmallLisp.Lists
