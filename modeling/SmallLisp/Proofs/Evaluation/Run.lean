import SmallLisp.Interpreter
import SmallLisp.Proofs.Evaluation.Task

/-!
# Runs of a single source

A source that can be read is evaluated as a list of forms, in a state that is the same for all
sources and all settings (`Run.ofSource_eq`).  What is printed on the way is only ever added to
(`Output.Extends`, `respected_output`), and no further source is read (`respected_sources`).
-/

namespace SmallLisp

/-! ## Output and sources -/

namespace Output

/-- The second output is the first one after some more lines. -/
def Extends (o o' : Output) : Prop :=
  ∃ lines : List String, o' = lines.foldl (fun o line => o.writeLine line) o

variable {o o' o'' : Output}

lemma Extends.refl (o : Output) : o.Extends o := ⟨[], rfl⟩

lemma Extends.trans (h : o.Extends o') (h' : o'.Extends o'') : o.Extends o'' := by
  obtain ⟨lines, rfl⟩ := h
  obtain ⟨lines', rfl⟩ := h'
  exact ⟨lines ++ lines', (List.foldl_append ..).symm⟩

/-- The lines that were kept are still there after some more of them. -/
lemma Extends.captured (h : o.Extends o') : ∃ more, o'.captured = o.captured ++ more := by
  obtain ⟨lines, rfl⟩ := h
  induction lines generalizing o with
  | nil => exact ⟨"", by simp⟩
  | cons line lines ih =>
    obtain ⟨more, hmore⟩ := @ih (o.writeLine line)
    cases o with
    | buffer text => exact ⟨line ++ "\n" ++ more, by
        rw [List.foldl_cons, hmore]
        simp [Output.captured, writeLine, String.append_assoc]⟩
    | console | silent => exact ⟨more, hmore⟩

end Output

/-- An evaluation adds lines to the output and does nothing else to it. -/
lemma respected_output : Respected fun s t => s.output.Extends t.output where
  refl s := .refl s.output
  trans _ _ _ := .trans
  object s := .refl s.output
  define s _ _ _ := .refl s.output
  print _ line := ⟨[line], rfl⟩
  body _ _ _ h := h

/-- No evaluation reads a source. -/
lemma respected_sources : Respected fun s t => t.sources = s.sources where
  refl _ := rfl
  trans _ _ _ hst htu := htu.trans hst
  object _ := rfl
  define _ _ _ _ := rfl
  print _ _ := rfl
  body _ _ _ h := h

/-! ## Runs -/

namespace Run

/-- The site of the forms of a single source. -/
def site : Site := ⟨0, 0⟩

/-- The state in which the forms of a single source are evaluated. -/
def start : State := ((Interpreter.new {} (.buffer "")).site 0).2.state

/-- What comes of a source whose forms are evaluated with this outcome. -/
def ofOutcome : Outcome Value → Option Run
  | .ok value s => some ⟨.ok value, s.output.captured⟩
  | .error e s => some ⟨.error (.eval e), s.output.captured⟩
  | .exhausted => none

/-- Evaluates forms in an interpreter of their own, and keeps what they print. -/
def ofForms [Machine] (fuel : Nat) (config : Config) (forms : List Form) : Option Run :=
  ofOutcome ((Task.sequence site forms).run config fuel start)

/-- A source that can be read is evaluated as its forms are. -/
theorem ofSource_eq [Machine] (fuel : Nat) (config : Config) (source : String) :
    ofSource fuel config source =
      match read source with
      | .error e => some ⟨.error e, ""⟩
      | .ok forms => ofForms fuel config forms := by
  unfold ofSource Interpreter.run
  cases read source with
  | error e => rfl
  | ok forms =>
    change (Interpreter.perform _ (EvalM.sequence (eval config fuel site) .nil forms)).map _ =
      ofOutcome (EvalM.sequence (eval config fuel site) .nil forms start)
    generalize EvalM.sequence (eval config fuel site) .nil forms = m
    change Option.map _ (match m start with
      | .ok value state => some ((.ok value : Except Error Value), _)
      | .error e state => some (.error (.eval e), _)
      | .exhausted => none) = _
    cases m start <;> rfl

/-- The error that ended the evaluation, if one did. -/
def error? (r : Run) : Option Error :=
  match r.result with
  | .ok _ => none
  | .error e => some e

lemma error?_eq_some_iff {r : Run} {e : Error} : r.error? = some e ↔ r.result = .error e := by
  unfold error?
  cases r.result <;> simp

lemma ofOutcome_eq_some {o : Outcome Value} {r : Run} (h : ofOutcome o = some r) :
    (∃ value s, o = .ok value s ∧ r = ⟨.ok value, s.output.captured⟩) ∨
      ∃ e s, o = .error e s ∧ r = ⟨.error (.eval e), s.output.captured⟩ := by
  cases o with
  | ok value s =>
    cases h
    exact .inl ⟨value, s, rfl, rfl⟩
  | error e s =>
    cases h
    exact .inr ⟨e, s, rfl, rfl⟩
  | exhausted => cases h

/-- A larger bound changes nothing about what comes of forms. -/
lemma ofForms_of_le [Machine] {config : Config} {forms : List Form} {r : Run} {fuel fuel' : Nat}
    (hfuel : fuel ≤ fuel') (h : ofForms fuel config forms = some r) :
    ofForms fuel' config forms = some r := by
  have hrising := Task.rising_run config (.sequence site forms) hfuel start
  unfold ofForms at h ⊢
  rcases hrising with hex | hsame
  · cases (congrArg ofOutcome hex).symm.trans h
  · exact (congrArg ofOutcome hsame).trans h

/-- No error of reading is one of evaluation. -/
lemma ne_eval_of_read {source : String} {e : Error} (h : read source = .error e) (e' : EvalError) :
    e ≠ .eval e' := by
  rintro rfl
  unfold read at h
  split at h
  · cases h
  · cases h
  · next tokens _ _ =>
    cases hforms : parseAll tokens with
    | ok forms =>
      rw [hforms] at h
      cases h
    | error e =>
      rw [hforms] at h
      cases h

end Run

end SmallLisp
