import SmallLisp.Span
import SmallLisp.Number.Integer
import SmallLisp.Number.Layout

/-!
# Forms

A form is a piece of program text that has been read: a number, a string, a symbol, or a list of
forms.  Every form knows where it stands in its source.  `Form.text` writes a form back as source
text, in one line and without the spans.
-/

namespace SmallLisp

/-- A program, or a part of one, as data. -/
inductive Form where
  | int (value : Int64) (span : Span)
  | float (value : Double) (span : Span)
  /-- A string literal, without its quotes. -/
  | str (text : String) (span : Span)
  | symbol (name : String) (span : Span)
  /-- Forms between parentheses. -/
  | list (items : List Form) (span : Span)

namespace Form

/-- Where the form stands in its source; for a list, from its opening to its closing
parenthesis. -/
def span : Form → Span
  | int _ span | float _ span | str _ span | symbol _ span | list _ span => span

/-- The name, if the form is a symbol. -/
def symbol? : Form → Option String
  | symbol name _ => some name
  | _ => none

mutual

/-- The form as source text: strings between quotes, and one space between the elements of a
list. -/
def text : Form → String
  | int value _ => Integer.text value
  | float value _ => Layout.positional.write value
  | str text _ => "\"" ++ text ++ "\""
  | symbol name _ => name
  | list items _ => "(" ++ " ".intercalate (texts items) ++ ")"

def texts : List Form → List String
  | [] => []
  | form :: forms => form.text :: texts forms

end

mutual

/-- The form and all forms inside it, each before its elements. -/
def nodes : Form → List Form
  | int value span => [int value span]
  | float value span => [float value span]
  | str text span => [str text span]
  | symbol name span => [symbol name span]
  | list items span => list items span :: nodesAll items

def nodesAll : List Form → List Form
  | [] => []
  | form :: forms => form.nodes ++ nodesAll forms

end

end Form

end SmallLisp
