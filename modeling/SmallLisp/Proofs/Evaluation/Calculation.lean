import SmallLisp.Proofs.Evaluation.Run
import SmallLisp.Proofs.Primitive.Rounding

/-!
# Integer expressions

An expression of integer literals and of the operations `+`, `-` and `*`, each on two operands, is
calculated as on paper, as long as every result on the way fits an integer.  If some result does
not, then the first one of them ends the evaluation with an overflow, and the operation that has
this result is the one that is blamed (`eval_calculation`).  First means in the order in which the
operations are carried out (`Calculation.results`): operands come before the operation on them, and
the left operand before the right one.

Nothing is changed on the way, so that both operands are evaluated in the same state, and the names
of the operations mean the same everywhere in the expression.
-/

namespace SmallLisp

open EvalM

/-- The operations that are exact on integers, unless they overflow. -/
inductive Operator where
  | add | subtract | multiply
deriving DecidableEq

namespace Operator

def primitive : Operator → Primitive
  | add => .add
  | subtract => .subtract
  | multiply => .multiply

/-- The operation on unbounded integers. -/
def exact : Operator → Int → Int → Int
  | add => (· + ·)
  | subtract => (· - ·)
  | multiply => (· * ·)

/-- What the procedure does with two integers. -/
lemma callPrimitive_ints [Machine] (op : Operator)
    (call : FrameId → Value → List Value → EvalM Value) (env : FrameId) (m n : Int64) :
    callPrimitive call env op.primitive [.int m, .int n] =
      op.primitive.answer (Answer.int (op.exact m.toInt n.toInt)) := by
  cases op <;> exact Primitive.callPrimitive_of_operation rfl rfl

end Operator

/-! ## Calculations -/

/-- An integer expression. -/
inductive Calculation where
  | literal (n : Int64)
  | operation (op : Operator) (left right : Calculation)

namespace Calculation

/-- The number for which the expression stands, of any size. -/
def value : Calculation → Int
  | literal n => n.toInt
  | operation op left right => op.exact left.value right.value

/-- The operations with their exact results, in the order in which they are carried out. -/
def results : Calculation → List (Operator × Int)
  | literal _ => []
  | operation op left right =>
    left.results ++ right.results ++ [(op, op.exact left.value right.value)]

/-- The operation whose result is the first one that does not fit an integer. -/
def overflow? (c : Calculation) : Option Operator :=
  (c.results.find? fun r => ¬ Integer.Fits r.2).map Prod.fst

lemma overflow?_eq_none_iff {c : Calculation} :
    c.overflow? = none ↔ ∀ r ∈ c.results, Integer.Fits r.2 := by
  simp [overflow?]

/-- The operands overflow before the operation on them does. -/
lemma overflow?_operation (op : Operator) (left right : Calculation) :
    (operation op left right).overflow? = (left.overflow?.or right.overflow?).or
      (if Integer.Fits (op.exact left.value right.value) then none else some op) := by
  simp only [overflow?, results, List.find?_append, Option.map_or, List.find?_singleton]
  split <;> simp_all

end Calculation

/-- The form is the integer expression, with its parts at whatever places. -/
inductive Form.Calculates : Form → Calculation → Prop
  | literal (n : Int64) (span : Span) : Calculates (.int n span) (.literal n)
  | operation (op : Operator) {left right : Form} {c d : Calculation} (place span : Span)
      (hleft : left.Calculates c) (hright : right.Calculates d) :
      Calculates (.list [.symbol op.primitive.name place, left, right] span) (.operation op c d)

/-! ## Evaluation -/

/-- How an integer expression can end that is evaluated in the state `s`. -/
inductive Calculation.Leads (c : Calculation) (s : State) : Outcome Value → Prop
  | exact {n : Int64} (fits : c.overflow? = none) (value : n.toInt = c.value) :
      Leads c s (.ok (.int n) s)
  | overflow {op : Operator} (first : c.overflow? = some op) :
      Leads c s (.error (.primitive op.primitive .overflow) s)

lemma Calculation.Leads.ne_exhausted {c : Calculation} {s : State} {o : Outcome Value}
    (h : c.Leads s o) : o ≠ .exhausted := by
  cases h <;> exact nofun

/-- An operation on two integers answers the exact result if that fits, and overflows otherwise. -/
lemma Operator.leads_answer {op : Operator} {c d : Calculation} {m n : Int64} {s : State}
    (hc : c.overflow? = none) (hd : d.overflow? = none) (hm : m.toInt = c.value)
    (hn : n.toInt = d.value) :
    (Calculation.operation op c d).Leads s
      (op.primitive.answer (Answer.int (op.exact m.toInt n.toInt)) s) := by
  have hoverflow := Calculation.overflow?_operation op c d
  rw [hc, hd, Option.none_or, Option.none_or] at hoverflow
  rw [hm, hn]
  by_cases h : Integer.Fits (op.exact c.value d.value)
  · rw [if_pos h] at hoverflow
    rw [Answer.int, Integer.ofInt?, if_pos h]
    exact .exact hoverflow (Int64.toInt_ofInt_of_le h.1 h.2)
  · rw [if_neg h] at hoverflow
    rw [Answer.int_of_not_fits h]
    exact .overflow hoverflow

/-- In a state in which the operators are bound to the procedures of the language, an integer
expression ends as it would on paper, in the state in which it was begun. -/
lemma Form.Calculates.exists_ends [Machine] {form : Form} {c : Calculation} (h : form.Calculates c)
    (config : Config) {site : Site} {s : State}
    (hnames : ∀ op : Operator,
      s.store.lookup site.env op.primitive.name = some (.primitive op.primitive)) :
    ∃ o, Settles (fun n => eval config n site form) s o ∧ c.Leads s o := by
  induction h with
  | literal n span => exact ⟨_, Task.ends_eval_iff.mpr (.of_forall fun _ => rfl), .exact rfl rfl⟩
  | @operation op left right c d place span _ _ ihLeft ihRight =>
    have hplain : SpecialForm.ofName? op.primitive.name = none := by cases op <;> rfl
    have hends {o : Outcome Value} := (@Task.ends_named_call_iff _ config s o site _ place span
      [left, right] _ hplain (hnames op) rfl).mpr
    have hoverflow := Calculation.overflow?_operation op c d
    obtain ⟨_, hleft, hleads⟩ := ihLeft
    cases hleads with
    | overflow first =>
      rw [first, Option.some_or, Option.some_or] at hoverflow
      exact ⟨_, hends hleft.bind_error.bind_error, .overflow hoverflow⟩
    | @exact m hc hm =>
      obtain ⟨_, hright, hleads⟩ := ihRight
      cases hleads with
      | overflow first =>
        rw [hc, first, Option.none_or, Option.some_or] at hoverflow
        have hrest : Settles (fun n => each (eval config n site) [right]) s _ := hright.bind_error
        exact ⟨_, hends (hleft.each_cons_error hrest).bind_error, .overflow hoverflow⟩
      | @exact n hd hn =>
        have hargs := hleft.each_cons (hright.each_cons (Settles.each_nil _ s))
        have hleads := @Operator.leads_answer op _ _ _ _ s hc hd hm hn
        refine ⟨_, hends (hargs.bind (Task.ends_call_iff.mpr ?_)), hleads⟩
        exact .of_forall (fun _ => congrFun (op.callPrimitive_ints _ _ m n) s) hleads.ne_exhausted

/-- In a frame in which `+`, `-` and `*` are seen as the procedures of the language, an integer
expression evaluates to its exact value if the results of all operations in it fit an integer.
Otherwise it fails with an overflow of the first operation whose result does not, in the order of
`Calculation.results`.  Both leave the state as it was. -/
theorem eval_calculation [Machine] {form : Form} {c : Calculation} (h : form.Calculates c)
    (config : Config) (site : Site) (s : State)
    (hnames : ∀ op : Operator,
      s.store.lookup site.env op.primitive.name = some (.primitive op.primitive)) :
    ((∀ r ∈ c.results, Integer.Fits r.2) →
      ∃ n : Int64, n.toInt = c.value ∧ (Task.eval site form).Ends config s (.ok (.int n) s)) ∧
    (¬ (∀ r ∈ c.results, Integer.Fits r.2) →
      ∃ op fault, c.overflow? = some op ∧ fault.message = "integer overflow" ∧
        (Task.eval site form).Ends config s (.error (.primitive op.primitive fault) s)) := by
  rw [← Calculation.overflow?_eq_none_iff]
  obtain ⟨o, hends, hleads⟩ := h.exists_ends config hnames
  cases hleads with
  | @exact n fits value => exact ⟨fun _ => ⟨n, value, hends⟩, fun hnot => absurd fits hnot⟩
  | @overflow op first =>
    refine ⟨fun hfits => ?_, fun _ => ⟨op, .overflow, first, rfl, hends⟩⟩
    cases hfits.symm.trans first

section

open scoped Machine

/-- In the expression `(- (* 2 3) (+ (* 4294967296 2147483648) (- 0 1)))` the product in the second
operand does not fit an integer, although the sum would fit again. -/
theorem eval_calculation_first :
    let op (op : Operator) (left right : Form) : Form :=
      .list [.symbol op.primitive.name .nowhere, left, right] .nowhere
    let int (n : Int64) : Form := .int n .nowhere
    let square := op .multiply (int (-3037000499)) (int 3037000499)
    let difference := op .subtract (op .multiply (int 2) (int 3))
      (op .add (op .multiply (int 4294967296) (int 2147483648)) (op .subtract (int 0) (int 1)))
    (∀ o : Operator, Run.start.store.lookup 0 o.primitive.name = some (.primitive o.primitive)) ∧
      (∃ n : Int64, n.toInt = -9223372030926249001 ∧
        (Task.eval ⟨0, 0⟩ square).Ends {} Run.start (.ok (.int n) Run.start)) ∧
      ∃ fault, fault.message = "integer overflow" ∧ (Task.eval ⟨0, 0⟩ difference).Ends {} Run.start
        (.error (.primitive .multiply fault) Run.start) := by
  intro op int square difference
  have hnames : ∀ o : Operator,
      Run.start.store.lookup 0 o.primitive.name = some (.primitive o.primitive) := by
    rintro ⟨⟩ <;> cbv
  have hint (n : Int64) : (int n).Calculates (.literal n) := .literal n _
  have hop (o : Operator) {left right : Form} {c d : Calculation} (hleft : left.Calculates c)
      (hright : right.Calculates d) : (op o left right).Calculates (.operation o c d) :=
    .operation o _ _ hleft hright
  have hsquare : square.Calculates _ := hop .multiply (hint _) (hint _)
  have hdifference : difference.Calculates _ := hop .subtract (hop .multiply (hint _) (hint _))
    (hop .add (hop .multiply (hint _) (hint _)) (hop .subtract (hint _) (hint _)))
  refine ⟨hnames, (eval_calculation hsquare {} ⟨0, 0⟩ _ hnames).1 (by decide), ?_⟩
  obtain ⟨o, fault, hfirst, hmessage, hends⟩ :=
    (eval_calculation hdifference {} ⟨0, 0⟩ _ hnames).2 (by decide)
  obtain rfl : o = .multiply := (Option.some.inj hfirst).symm
  exact ⟨fault, hmessage, hends⟩

end

end SmallLisp
