import SmallLisp.Store
import SmallLisp.Text.Quoted
import SmallLisp.Value.Text

/-!
# Inspecting values and frames

The diagnostic text of a value shows its kind and its contents, at every level.  That of a frame
shows how deep it lies and which names it binds, without their values, because a closure among
them may refer back to the frame.
-/

namespace SmallLisp

namespace Value

mutual

def inspect : Value → String
  | int n => "Int(" ++ Integer.text n ++ ")"
  | float x => "Float(" ++ Layout.compact.write x ++ ")"
  | str _ text => "Str(" ++ quoted text ++ ")"
  | bool b => if b then "Bool(true)" else "Bool(false)"
  | nil => "Nil"
  | list _ items => "List([" ++ ", ".intercalate (inspectAll items) ++ "])"
  | closure _ c => "Closure(" ++ c.text ++ ")"
  | primitive p => "Primitive(" ++ p.name ++ ")"

def inspectAll : List Value → List String
  | [] => []
  | v :: vs => v.inspect :: inspectAll vs

end

end Value

/-- The diagnostic text of a frame. -/
def Store.inspect (s : Store) (env : FrameId) : String :=
  let names := ", ".intercalate ((s.locals env).sortedNames.map quoted)
  s!"Environment \x7b depth: {s.depth env}, names: [{names}] \x7d"

end SmallLisp
