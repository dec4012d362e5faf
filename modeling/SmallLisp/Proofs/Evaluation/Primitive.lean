import Mathlib
import SmallLisp.Evaluation.Eval

/-!
# The four kinds of primitive procedures

A primitive procedure looks at its arguments and answers, or applies, maps or prints.  This module
says so of the evaluation that a call of one comes down to (`Primitive.called_or_refused`), so that
nothing else has to go through the table of procedures.
-/

namespace SmallLisp

/-- The evaluation for which an operation stands: its answer is allocated, its fault is an
error. -/
def Primitive.answer (p : Primitive) (result : Except Fault Answer) : EvalM Value := do
  let answer ← orFault p result
  .update (·.allocate answer)

section

variable [Machine]

/-- A call of a primitive procedure with a number of arguments that it accepts is one of four
things. -/
inductive Primitive.Called (call : FrameId → Value → List Value → EvalM Value) (env : FrameId) :
    Primitive → List Value → EvalM Value → Prop
  | operation {p : Primitive} {body : Body (Except Fault Answer)} {args : List Value}
      {result : Except Fault Answer} (meaning : p.meaning = .operation body)
      (run : body.run? args = some result) : Called call env p args (p.answer result)
  | application (f list : Value) : Called call env .apply [f, list] (applyBody call env f list)
  | mapping (f list : Value) (lists : List Value) :
      Called call env .map (f :: list :: lists) (mapBody call env f list lists)
  | printing (v : Value) : Called call env .writeLine [v] (printBody v)

theorem Primitive.called_of_run?_body {call : FrameId → Value → List Value → EvalM Value}
    {env : FrameId} {p : Primitive} {args : List Value} {m : EvalM Value}
    (h : (p.body call env).run? args = some m) : Called call env p args m := by
  cases hm : p.meaning with
  | operation body =>
    rw [Primitive.body, hm, Body.run?_map] at h
    obtain ⟨result, hr, rfl⟩ := Option.map_eq_some_iff.mp h
    exact .operation hm hr
  | application =>
    obtain rfl : p = .apply := by cases p <;> first | rfl | cases hm
    match args, h with
    | [f, v], h => cases h; exact .application f v
  | mapping =>
    obtain rfl : p = .map := by cases p <;> first | rfl | cases hm
    match args, h with
    | f :: v :: vs, h => cases h; exact .mapping f v vs
  | printing =>
    obtain rfl : p = .writeLine := by cases p <;> first | rfl | cases hm
    match args, h with
    | [v], h => cases h; exact .printing v

namespace Primitive

variable {call : FrameId → Value → List Value → EvalM Value} {env : FrameId} {p : Primitive}
variable {args : List Value}

lemma callPrimitive_of_operation {body : Body (Except Fault Answer)}
    {result : Except Fault Answer} (meaning : p.meaning = .operation body)
    (run : body.run? args = some result) : callPrimitive call env p args = p.answer result := by
  have hrun : (p.body call env).run? args = some (p.answer result) := by
    rw [Primitive.body, meaning, Body.run?_map, run]
    rfl
  rw [callPrimitive, hrun]

lemma callPrimitive_of_refused (h : p.arity.accepts args.length = false) :
    callPrimitive call env p args = .fail (.arityMismatch p.name p.arity args.length) := by
  rw [← arity_body call env p, ← Body.run?_isSome, Option.isSome_eq_false_iff,
    Option.isNone_iff_eq_none] at h
  rw [callPrimitive, h]

/-- A primitive procedure accepts its arguments, and then it is one of four things, or refuses
their number. -/
theorem called_or_refused (call : FrameId → Value → List Value → EvalM Value) (env : FrameId)
    (p : Primitive) (args : List Value) :
    (∃ m, callPrimitive call env p args = m ∧ Called call env p args m) ∨
      p.arity.accepts args.length = false := by
  cases hm : (p.body call env).run? args with
  | some m => exact .inl ⟨m, by rw [callPrimitive, hm], called_of_run?_body hm⟩
  | none =>
    right
    rw [← arity_body call env p, ← Body.run?_isSome, hm]
    rfl

end Primitive

end

/-! ## Lists among the arguments -/

/-- If a computation that goes on from a first one has a result, then both have one. -/
lemma exists_of_bind_eq_ok {ε α β : Type} {x : Except ε α} {f : α → Except ε β} {b : β}
    (h : x >>= f = .ok b) : ∃ a, x = .ok a ∧ f a = .ok b := by
  cases x with
  | error e => cases h
  | ok a => exact ⟨a, rfl, h⟩

namespace Lists

lemma eq_list_of_argument {v : Value} {items : List Value} (h : argument v = .ok items) :
    ∃ id, v = .list id items := by
  cases v with
  | list id items' =>
    cases h
    exact ⟨id, rfl⟩
  | _ => cases h

lemma eq_list_of_second {v : Value} {items : List Value} (h : second v = .ok items) :
    ∃ id, v = .list id items := by
  cases v with
  | list id items' =>
    cases h
    exact ⟨id, rfl⟩
  | _ => cases h

/-- The rows to map over are the elements of the first list and those of the others. -/
lemma exists_rows_of_cons {v : Value} {rest : List Value} {rows : List (List Value)}
    (h : (v :: rest).mapM argument = .ok rows) :
    ∃ id items others, v = .list id items ∧ rest.mapM argument = .ok others ∧
      rows = items :: others := by
  rw [List.mapM_cons] at h
  obtain ⟨items, hv, h⟩ := exists_of_bind_eq_ok h
  obtain ⟨others, hrest, h⟩ := exists_of_bind_eq_ok h
  cases h
  obtain ⟨id, rfl⟩ := eq_list_of_argument hv
  exact ⟨id, items, others, rfl, hrest, rfl⟩

/-- Each row that is mapped over is the content of a list among the arguments. -/
lemma exists_list_of_mem_rows {lists : List Value} {rows : List (List Value)}
    (h : lists.mapM argument = .ok rows) {row : List Value} (hrow : row ∈ rows) :
    ∃ id, .list id row ∈ lists := by
  induction lists generalizing rows with
  | nil =>
    cases h
    cases hrow
  | cons v rest ih =>
    obtain ⟨id, items, others, rfl, hrest, rfl⟩ := exists_rows_of_cons h
    rcases List.mem_cons.mp hrow with rfl | hrow
    · exact ⟨id, List.mem_cons_self⟩
    · obtain ⟨id, hid⟩ := ih hrest hrow
      exact ⟨id, List.mem_cons_of_mem _ hid⟩

end Lists

end SmallLisp
