import SmallLisp.Form

/-!
# Special forms

What a list means is decided by its shape alone, before anything is evaluated: four symbols at the
head of a list have a meaning of their own, whatever they may be bound to, and every other list is
a call.  `Shape.ofList` makes that decision, and finds every malformed list while doing so.
-/

namespace SmallLisp

/-- The constructs that are no calls. -/
inductive SpecialForm where
  | lambda | conditional | define | sequence
deriving DecidableEq

namespace SpecialForm

/-- The symbol that introduces the construct. -/
def name : SpecialForm → String
  | lambda => "lambda"
  | conditional => "if"
  | define => "define"
  | sequence => "begin"

/-- The construct that a symbol introduces. -/
def ofName? (name : String) : Option SpecialForm :=
  [lambda, conditional, define, sequence].find? (·.name == name)

end SpecialForm

/-- What can be wrong with the shape of a list. -/
inductive Malformation where
  /-- The empty list calls nothing. -/
  | emptyCall
  /-- An `if` needs two or three parts. -/
  | conditionalParts
  /-- A `define` needs two parts. -/
  | defineParts
  /-- What a `define` defines must be a symbol. -/
  | defineTarget
  /-- A `lambda` needs two parts. -/
  | lambdaParts
  /-- The parameters of a `lambda` must be a list. -/
  | lambdaParams
  /-- Each parameter of a `lambda` must be a symbol. -/
  | lambdaParam
  /-- The parameters of a `lambda` must be distinct. -/
  | duplicateParam
deriving DecidableEq

namespace Malformation

/-- The construct that is malformed. -/
def construct : Malformation → String
  | emptyCall => "application"
  | conditionalParts => SpecialForm.conditional.name
  | defineParts | defineTarget => SpecialForm.define.name
  | lambdaParts | lambdaParams | lambdaParam | duplicateParam => SpecialForm.lambda.name

/-- What is wrong, in words. -/
def reason : Malformation → String
  | emptyCall => "cannot evaluate an empty list"
  | conditionalParts => "expected (if cond then [else])"
  | defineParts => "expected (define name value)"
  | defineTarget => "name must be a symbol"
  | lambdaParts => "expected (lambda (params...) body)"
  | lambdaParams => "parameters must be a list"
  | lambdaParam => "parameter must be a symbol"
  | duplicateParam => "duplicate parameter"

end Malformation

/-- What a list asks for. -/
inductive Shape where
  | lambda (params : List String) (body : Form)
  /-- Evaluate a condition and one of the branches; without a second branch it counts as `nil`. -/
  | conditional (condition consequent : Form) (alternative : Option Form)
  | define (name : String) (value : Form)
  /-- Evaluate forms in order. -/
  | sequence (forms : List Form)
  /-- Call what the head evaluates to. -/
  | call (head : Form) (args : List Form)

namespace Shape

/-- The parameter names of a `lambda`, given those that stand before them. -/
def paramNames (before : List String) :
    List Form → Except (Malformation × Span) (List String)
  | [] => .ok before
  | .symbol name span :: rest =>
    if name ∈ before then .error (.duplicateParam, span) else paramNames (before ++ [name]) rest
  | form :: _ => .error (.lambdaParam, form.span)

/-- The shape of a special form, from the parts after its head. -/
def ofParts (span : Span) : SpecialForm → List Form → Except (Malformation × Span) Shape
  | .lambda, [.list params _, body] => return .lambda (← paramNames [] params) body
  | .lambda, [params, _] => .error (.lambdaParams, params.span)
  | .lambda, _ => .error (.lambdaParts, span)
  | .conditional, [condition, consequent] => .ok (.conditional condition consequent none)
  | .conditional, [condition, consequent, alternative] =>
    .ok (.conditional condition consequent (some alternative))
  | .conditional, _ => .error (.conditionalParts, span)
  | .define, [.symbol name _, value] => .ok (.define name value)
  | .define, [target, _] => .error (.defineTarget, target.span)
  | .define, _ => .error (.defineParts, span)
  | .sequence, forms => .ok (.sequence forms)

/-- The shape of a list that stands at `span`. -/
def ofList (span : Span) : List Form → Except (Malformation × Span) Shape
  | [] => .error (.emptyCall, span)
  | head :: rest =>
    match head.symbol?.bind SpecialForm.ofName? with
    | some special => ofParts span special rest
    | none => .ok (.call head rest)

end Shape

end SmallLisp
