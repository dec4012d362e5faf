import SmallLisp.Proofs.Evaluation.Mapping
import SmallLisp.Proofs.Interpreter.Parameters

/-!
# `map` and the program for it, in interpreters

What an interpreter has defined refers only to frames and objects that exist, whatever sources it
has run (`Interpreter.Ran.closed`), and still does when further lists are made
(`State.Closed.newList`).  So all that is known of `map` and of the program for it holds there: in a
state that is closed, they do the same for every procedure and every list
(`map_agrees_with_program`).
-/

namespace SmallLisp

open EvalM

/-! ## Closed states -/

/-- Running sources leaves the state of an interpreter closed. -/
theorem Interpreter.Ran.closed [Machine] {it : Interpreter} (h : it.Ran) : it.state.Closed := by
  induction h with
  | new config output =>
    refine ⟨?_, ((Ran.new config output).session.1.founded .empty).1.ordered⟩
    generalize (Interpreter.new config output).state.extent = e
    have hframe : (({} : Store).push {}).Bound (·.Inside e) :=
      Store.Bound.empty.push fun x v hx => by cases hx
    exact hframe.definePrelude 0 (fun p o ho => by cases ho) fun o ho => by cases ho
  | @run it it' fuel source result before ran ih =>
    obtain ⟨-, -, rfl⟩ | ⟨forms, t, -, rfl, hend⟩ := run_eq_some ran
    · exact ih
    · have hread : it.state.newSource.2.Closed := ⟨ih.bound, ih.ordered⟩
      have htask : Extent.inventory.task it.state.extent
          (.sequence ⟨it.state.sources, it.global⟩ forms) :=
        fun _ _ => before.session.2
      exact (hread.ends htask hend).2

/-! ## The two procedures -/

/-- Under lexical scoping and without a limit on calls, take any state in which nothing refers to
what does not exist, and in which the program `(define m (lambda (f l) (if (null? l) (list) (cons (f
(car l)) (m f (cdr l))))))` was evaluated in a frame `g` where `null?`, `list`, `cons`, `car` and
`cdr` are the procedures of the language.  For every procedure and every list that exist there, the
call of `m` ends if and only if that of the primitive procedure `map` does, from wherever they are
made.  Then they have the same error, or lists as results that are the same up to the numbers of the
objects and frames that the calls have made; they have printed the same, and no frame has changed
that was there before. -/
theorem map_agrees_with_program [Machine] {s : State} {g : FrameId} {id lid : Identity}
    {c : Closure}
    {f : Value} {items : List Value} (closed : s.Closed) (program : s.store.DefinesMap g id c)
    (proc : f.isProcedure) (hf : f.Inside s.extent)
    (hlist : (Value.list lid items).Inside s.extent) (env env' : FrameId) :
    ((∃ o, (Task.call env (.primitive .map) [f, .list lid items]).Ends ⟨.lexical, none⟩ s o) ↔
      ∃ o, (Task.call env' (.closure id c) [f, .list lid items]).Ends ⟨.lexical, none⟩ s o) ∧
    ∀ o o', (Task.call env (.primitive .map) [f, .list lid items]).Ends ⟨.lexical, none⟩ s o →
      (Task.call env' (.closure id c) [f, .list lid items]).Ends ⟨.lexical, none⟩ s o' →
      (∃ r : Renumbering, Renumbering.refl.Agree r s.extent ∧
        r.Outcomes (Value.renumber r) o o') ∧
      ∀ t t', o.state? = some t → o'.state? = some t' → t'.output = t.output ∧
        s.store.Unchanged t.store ∧ s.store.Unchanged t'.store := by
  have hinside : ∀ v ∈ f :: items, v.Inside s.extent :=
    List.forall_mem_cons.mpr ⟨hf, (Value.inside_list_iff.mp hlist).2⟩
  have hstart : Renumbering.refl.AtMap s s g id c f items :=
    ⟨.refl s, closed, program, proc, hinside⟩
  have houtcomes {o : Outcome Value} := hstart.exists_outcomes (o := o) env env' lid
  have hends {o' : Outcome Value} :=
    @Renumbering.AtMap.exists_ends s s g id c f items o' _ _ hstart env env' lid lid
  simp only [Value.renumber_refl, Value.map_renumber_refl] at houtcomes hends
  constructor
  · constructor
    · rintro ⟨o, ho⟩
      obtain ⟨o', _, ho', -⟩ := houtcomes ho
      exact ⟨o', ho'⟩
    · rintro ⟨o', ho'⟩
      exact hends ho'
  · intro o o' ho ho'
    obtain ⟨o'', r, ho'', hagree, hr⟩ := houtcomes ho
    obtain rfl := ho'.unique ho''
    refine ⟨⟨r, hagree, hr⟩, ?_⟩
    intro t t' ht ht'
    exact ⟨hr.output ht ht', ho.unchanged ht, ho'.unchanged ht'⟩

section

open scoped Machine

/-- The program is evaluated, and then called with the procedure `write-line` and a list of two
numbers.  It prints both numbers and gives a list of two `nil`s, as `map` does; only the numbers of
the lists may differ. -/
theorem map_agrees_with_program_printing :
    ∃ form c t s u u' id, ∃ r : Renumbering,
      let args : List Value := [.primitive .writeLine, .list (.fresh 1) [.int 1, .int 2]]
      let mapped : Outcome Value := .ok (.list (.fresh 2) [.nil, .nil]) u
      let programmed : Outcome Value := .ok (.list id [.nil, .nil]) u'
      form.text =
        "(define m (lambda (f l) (if (null? l) (list) (cons (f (car l)) (m f (cdr l))))))" ∧
      (Task.eval Run.site form).Ends ⟨.lexical, none⟩ Run.start (.ok .nil t) ∧
      t.store.DefinesMap Run.site.env (.fresh 0) c ∧
      t.newList [.int 1, .int 2] = (.list (.fresh 1) [.int 1, .int 2], s) ∧
      (Task.call 0 (.primitive .map) args).Ends ⟨.lexical, none⟩ s mapped ∧
      (Task.call 0 (.closure (.fresh 0) c) args).Ends ⟨.lexical, none⟩ s programmed ∧
      u.output = .buffer "1\n2\n" ∧ u'.output = .buffer "1\n2\n" ∧
      Renumbering.refl.Agree r s.extent ∧ r.Outcomes (Value.renumber r) mapped programmed ∧
      s.store.Unchanged u.store ∧ s.store.Unchanged u'.store := by
  have hstart : Run.start.Closed := by
    have hnew := (Interpreter.Ran.new {} (.buffer "")).closed
    exact ⟨hnew.bound, hnew.ordered⟩
  have hprimitives : ∀ p ∈ mappingPrimitives,
      Run.start.store.lookup Run.site.env p.name = some (.primitive p) := by
    simp only [mappingPrimitives, List.forall_mem_cons]
    refine ⟨?_, ?_, ?_, ?_, ?_, List.forall_mem_nil _⟩ <;> cbv
  have hsite : Run.site.env < Run.start.store.next := by
    rw [Lockstep.next_start]
    exact Nat.zero_lt_one
  obtain ⟨c, t, hdefine, hprogram⟩ := @Store.DefinesMap.of_define ⟨.lexical, none⟩ Run.start
    Run.site _ Form.mappingDefinition rfl hstart.ordered hsite hprimitives
  -- the definition makes one object and prints nothing
  have hdefined : (t.output, t.objects) = (.buffer "", 1) := by
    have hrun := hdefine.unique ((Task.rising_run _ _).settles (n := 3) rfl (by intro h; cases h))
    exact Option.some.inj (congrArg (fun o => o.state?.map fun s => (s.output, s.objects)) hrun)
  obtain ⟨houtput, hobjects⟩ := Prod.mk.inj hdefined
  have hitems : ∀ v ∈ [Value.int 1, .int 2], v.Inside t.extent := by
    simp [Value.Inside, Value.objects]
  obtain ⟨-, ht, -⟩ := hstart.eval hsite hdefine
  obtain ⟨hclosed, hlist⟩ := ht.newList hitems
  obtain ⟨s, hnew, hstore, hempty, htwo⟩ : ∃ s,
      t.newList [.int 1, .int 2] = (.list (.fresh 1) [.int 1, .int 2], s) ∧
        s.store = t.store ∧ s.output = .buffer "" ∧ s.objects = 2 := by
    refine ⟨(t.newList [.int 1, .int 2]).2, ?_, rfl, houtput, congrArg (· + 1) hobjects⟩
    exact congrArg (fun n => (Value.list (.fresh n) _, (t.newList [.int 1, .int 2]).2)) hobjects
  have hprogram' : s.store.DefinesMap Run.site.env (.fresh 0) c := hstore ▸ hprogram
  simp only [hnew] at hclosed hlist
  have hwrite : (Value.primitive .writeLine).Inside s.extent := fun o ho => by cases ho
  let args : List Value := [.primitive .writeLine, .list (.fresh 1) [.int 1, .int 2]]
  obtain ⟨u, hprinted, hmap⟩ : ∃ u, u.output = .buffer "1\n2\n" ∧
      (Task.call 0 (.primitive .map) args).Ends ⟨.lexical, none⟩ s
        (.ok (.list (.fresh 2) [.nil, .nil]) u) := by
    let printed : State := { s with output := (s.output.writeLine "1").writeLine "2" }
    refine ⟨(printed.newList [.nil, .nil]).2, ?_, ?_⟩
    · change (s.output.writeLine "1").writeLine "2" = _
      rw [hempty]
      rfl
    · rw [← htwo]
      exact (Task.rising_run _ _).settles (n := 2) rfl (by intro h; cases h)
  obtain ⟨hiff, hagree⟩ := map_agrees_with_program hclosed hprogram' rfl hwrite hlist 0 0
  obtain ⟨o', ho'⟩ := hiff.mp ⟨_, hmap⟩
  obtain ⟨⟨r, hr, houtcomes⟩, hstates⟩ := hagree _ o' hmap ho'
  obtain ⟨u', id, rfl⟩ : ∃ u' id, o' = .ok (.list id [.nil, .nil]) u' := by
    cases houtcomes
    exact ⟨_, _, by rw [Value.renumber_list]; rfl⟩
  obtain ⟨hsame, hunchanged, hunchanged'⟩ := hstates u u' rfl rfl
  exact ⟨Form.mappingDefinition, c, t, s, u, u', id, r, by decide, hdefine, hprogram, hnew, hmap,
    ho', hprinted, hsame.trans hprinted, hr, houtcomes, hunchanged, hunchanged'⟩

end

end SmallLisp
