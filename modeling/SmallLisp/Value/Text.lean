import SmallLisp.Value

/-!
# How values are printed

A string that is printed by itself is its bare text; inside a list it stands between quotes, so
that a printed list of data can be read again.  Procedures are printed between angle brackets.
-/

namespace SmallLisp

/-- A closure is printed with its parameters only. -/
def Closure.text (c : Closure) : String := "<lambda (" ++ " ".intercalate c.params ++ ")>"

namespace Value

mutual

/-- The text of a value that is an element of a list. -/
def itemText : Value → String
  | int n => Integer.text n
  | float x => Layout.positional.write x
  | str _ text => "\"" ++ text ++ "\""
  | bool b => if b then "true" else "false"
  | nil => "nil"
  | list _ items => "(" ++ " ".intercalate (itemTexts items) ++ ")"
  | closure _ c => c.text
  | primitive p => "<primitive " ++ p.name ++ ">"

def itemTexts : List Value → List String
  | [] => []
  | v :: vs => v.itemText :: itemTexts vs

end

def text : Value → String
  | str _ text => text
  | v => v.itemText

end Value

end SmallLisp
