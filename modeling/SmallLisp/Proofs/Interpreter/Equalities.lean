import SmallLisp.Proofs.Evaluation.Heap
import SmallLisp.Proofs.Interpreter.Parameters
import SmallLisp.Proofs.Primitive.Ordering

/-!
# Three equalities on the heap

The owner of a state comes by values in many ways: they make strings and lists, look up what is
bound, take lists apart, read sources and call procedures, and are given what these come to
(`Held`).  Whatever they do, all values that they hold are in one heap (`Held.described`), together
with everything that is bound.  So two of them with the same identity have the same contents, and
the three equalities are each finer than the next (`equalities_ordered`).

A NaN is the exception.  It is identical to itself, but no comparison of contents finds it equal to
anything.
-/

namespace SmallLisp

/-! ## What the owner of a state holds -/

/-- The owner of the state `s`, who holds these values, can have the task begun.  It is to evaluate
the forms of a source that is read for that, or to call a value with others. -/
inductive Task.Offered (s : State) (held : List Value) : Task → State → Prop
  | forms {source : String} {forms : List Form} (env : FrameId) (reads : read source = .ok forms) :
      Offered s held (.sequence ⟨s.sources, env⟩ forms) s.newSource.2
  | form {source : String} {form : Form} (env : FrameId) (reads : readOne source = .ok form) :
      Offered s held (.eval ⟨s.sources, env⟩ form) s.newSource.2
  | call {callee : Value} {args : List Value} (env : FrameId) (known : callee :: args ⊆ held) :
      Offered s held (.call env callee args) s

/-- A state, and values that its owner can have come by. -/
inductive Held [Machine] : State → List Value → Prop
  | start : Held {} []
  /-- A value is thought up that is no object and has none in it. -/
  | plain {s held v} (h : Held s held) (none : v.objects = []) : Held s (v :: held)
  | string {s held} (h : Held s held) (text : String) :
      Held (s.newString text).2 ((s.newString text).1 :: held)
  | list {s held items} (h : Held s held) (known : items ⊆ held) :
      Held (s.newList items).2 ((s.newList items).1 :: held)
  | element {s held id items v} (h : Held s held) (known : .list id items ∈ held)
      (mem : v ∈ items) : Held s (v :: held)
  | bound {s held frame v} {id : FrameId} {x : String} (h : Held s held)
      (found : s.store.frames[id]? = some frame) (binds : frame.bindings.find? x = some v) :
      Held s (v :: held)
  /-- Values are forgotten, or come to mind in another order. -/
  | fewer {s held held'} (h : Held s held) (known : held' ⊆ held) : Held s held'
  | frame {s held} {frame : Frame} (h : Held s held)
      (known : ∀ entry ∈ frame.bindings.entries, entry.2 ∈ held) : Held (s.newFrame frame).2 held
  | define {s held v} (h : Held s held) (env : FrameId) (name : String) (known : v ∈ held) :
      Held (s.define env name v) held
  /-- The calls in progress are no longer counted, and the output goes elsewhere. -/
  | settings {s held} (h : Held s held) (depth : Nat) (output : Output) :
      Held { s with depth := depth, output := output } held
  /-- While a task is done, a procedure is called and gets hold of its arguments. -/
  | passed {s held config k env callee args} {task : Task} {s' t : State} (h : Held s held)
      (offered : task.Offered s held s')
      (reaches : Reaches config task s' k (.call env callee args) t) :
      Held t (callee :: args ++ held)
  | result {s held config n v} {task : Task} {s' t : State} (h : Held s held)
      (offered : task.Offered s held s') (ended : task.run config n s' = .ok v t) :
      Held t (v :: held)
  | failed {s held config n e} {task : Task} {s' t : State} (h : Held s held)
      (offered : task.Offered s held s') (ended : task.run config n s' = .error e t) : Held t held

/-! ## All in one heap -/

/-- Everything that is bound in the state and all these values are in the heap; literals are those
of sources that were read. -/
structure Heap.Describes (literals : Nat → Span → Option String) (w : Heap) (s : State)
    (held : List Value) : Prop where
  state : (inventory literals).holds w s
  values : ∀ v ∈ held, (inventory literals).value w v
  unread : ∀ n span, s.sources ≤ n → literals n span = none

namespace Heap.Describes

variable {literals : Nat → Span → Option String} {w : Heap} {s s' t : State} {held : List Value}
variable {config : Config} {task : Task}

/-- A source that is read now has the next number, and brings literals of its own. -/
lemma newSource (h : w.Describes literals s held) (source : String) :
    w.Describes (Function.update literals s.sources (Span.literal? source)) s.newSource.2 held := by
  have hmore {o : Value} (ho : w.Has literals o) :
      w.Has (Function.update literals s.sources (Span.literal? source)) o := by
    refine ho.of_literals fun n span text htext => ?_
    have hne : n ≠ s.sources := by
      rintro rfl
      cases (h.unread s.sources span le_rfl).symm.trans htext
    rwa [Function.update_of_ne hne]
  refine ⟨⟨h.state.1, h.state.2.mono fun v hv o ho => hmore (hv o ho)⟩,
    fun v hv o ho => hmore (h.values v hv o ho), fun n span hn => ?_⟩
  rw [Function.update_of_ne (Nat.ne_of_gt hn)]
  exact h.unread n span (Nat.le_of_lt hn)

/-- What can be begun is in the heap as well. -/
lemma offered (h : w.Describes literals s held) (hoffered : task.Offered s held s') :
    ∃ literals', w.Describes literals' s' held ∧ (inventory literals').task w task := by
  have hcode {source : String} {forms : List Form} (reads : read source = .ok forms) (env : FrameId)
      (form : Form) (hform : form ∈ forms) :
      (inventory (Function.update literals s.sources (Span.literal? source))).code w
        ⟨s.sources, env⟩ form := by
    change form.WrittenIn (Function.update literals s.sources (Span.literal? source) s.sources)
    rw [Function.update_self]
    exact Form.writtenIn_of_read reads form hform
  cases hoffered with
  | @forms source forms env reads => exact ⟨_, h.newSource source, hcode reads env⟩
  | @form source form env reads =>
    exact ⟨_, h.newSource source,
      hcode (read_of_readOne reads) env form (List.mem_singleton_self form)⟩
  | call env known => exact ⟨literals, h, fun v hv => h.values v (known hv)⟩

/-- The heap grows, and the number of sources stays the same. -/
lemma grown {v : Heap} (h : w.Describes literals s held) (hle : w ≤ v)
    (ht : (inventory literals).holds v t) (hsources : t.sources = s.sources) :
    v.Describes literals t held where
  state := ht
  values a ha := Inventory.value_mono hle (h.values a ha)
  unread := hsources ▸ h.unread

lemma cons {a : Value} (h : w.Describes literals s held) (ha : (inventory literals).value w a) :
    w.Describes literals s (a :: held) where
  state := h.state
  values := List.forall_mem_cons.mpr ⟨ha, h.values⟩
  unread := h.unread

end Heap.Describes

/-- All that is held is in one heap, with everything that is bound. -/
theorem Held.described [Machine] {s : State} {held : List Value} (h : Held s held) :
    ∃ literals w, Heap.Describes literals w s held := by
  induction h with
  | start =>
    exact ⟨fun _ _ => none, ⟨[]⟩, ⟨rfl, .empty⟩, List.forall_mem_nil _, fun _ _ _ => rfl⟩
  | plain _ none ih =>
    obtain ⟨literals, w, hw⟩ := ih
    refine ⟨literals, w, hw.cons fun o ho => ?_⟩
    rw [none] at ho
    cases ho
  | @string s _ _ text ih =>
    obtain ⟨literals, w, hw⟩ := ih
    obtain ⟨v, hle, hstate, hobject⟩ := (Heap.kept_inventory literals {}).string text hw.state
    have ht : (Heap.inventory literals).holds v (s.newString text).2 := hstate
    exact ⟨literals, v, (hw.grown hle ht rfl).cons (List.forall_mem_singleton.mpr hobject)⟩
  | @list s _ items _ known ih =>
    obtain ⟨literals, w, hw⟩ := ih
    obtain ⟨v, hle, hstate, hobject⟩ :=
      (Heap.kept_inventory literals {}).list hw.state fun a ha => hw.values a (known ha)
    have ht : (Heap.inventory literals).holds v (s.newList items).2 := hstate
    have hgrown := hw.grown hle ht rfl
    exact ⟨literals, v, hgrown.cons
      (Inventory.value_list_iff.mpr ⟨hobject, fun a ha => hgrown.values a (known ha)⟩)⟩
  | element _ known mem ih =>
    obtain ⟨literals, w, hw⟩ := ih
    exact ⟨literals, w, hw.cons ((Inventory.value_list_iff.mp (hw.values _ known)).2 _ mem)⟩
  | bound _ found binds ih =>
    obtain ⟨literals, w, hw⟩ := ih
    exact ⟨literals, w, hw.cons (hw.state.2 _ _ _ _ found binds)⟩
  | fewer _ known ih =>
    obtain ⟨literals, w, hw⟩ := ih
    exact ⟨literals, w, hw.state, fun v hv => hw.values v (known hv), hw.unread⟩
  | frame _ known ih =>
    obtain ⟨literals, w, hw⟩ := ih
    refine ⟨literals, w, ⟨hw.state.1, hw.state.2.push fun x v hx => ?_⟩, hw.values, hw.unread⟩
    exact hw.values v (known (x, v) (mem_entries_of_find hx))
  | define _ env name known ih =>
    obtain ⟨literals, w, hw⟩ := ih
    exact ⟨literals, w, ⟨hw.state.1, hw.state.2.define (hw.values _ known)⟩, hw.values, hw.unread⟩
  | settings _ depth output ih =>
    obtain ⟨literals, w, hw⟩ := ih
    exact ⟨literals, w, hw.state, hw.values, hw.unread⟩
  | @passed s held config k env callee args task s' t _ offered reaches ih =>
    obtain ⟨_, w, hw⟩ := ih
    obtain ⟨literals, hw, htask⟩ := hw.offered offered
    obtain ⟨v, hle, hvalues, ht⟩ :=
      (Heap.kept_inventory literals config).reaches htask hw.state reaches
    have hsources := reaches.keeps respected_sources fun _ _ _ _ => rfl
    have hgrown := hw.grown hle ht hsources
    exact ⟨literals, v, ht, List.forall_mem_append.mpr ⟨hvalues, hgrown.values⟩, hgrown.unread⟩
  | @result s held config n a task s' t _ offered ended ih =>
    obtain ⟨_, w, hw⟩ := ih
    obtain ⟨literals, hw, htask⟩ := hw.offered offered
    obtain ⟨v, hle, ht, ha⟩ :=
      (Heap.kept_inventory literals config).result n htask hw.state ended
    have hsources := task.keeps_run respected_sources config n s' t (by rw [ended]; rfl)
    exact ⟨literals, v, (hw.grown hle ht hsources).cons ha⟩
  | @failed s held config n e task s' t _ offered ended ih =>
    obtain ⟨_, w, hw⟩ := ih
    obtain ⟨literals, hw, htask⟩ := hw.offered offered
    have hstate : (task.run config n s').state? = some t := by rw [ended]; rfl
    obtain ⟨v, hle, ht⟩ := (Heap.kept_inventory literals config).ends n htask hw.state hstate
    have hsources := task.keeps_run respected_sources config n s' t hstate
    exact ⟨literals, v, hw.grown hle ht hsources⟩

/-- No two objects of the values that are held have the same identity. -/
theorem Held.coherent [Machine] {s : State} {held : List Value} (h : Held s held) :
    Value.Coherent held := by
  obtain ⟨literals, w, hw⟩ := h.described
  exact Heap.coherent hw.values

/-! ## Running sources -/

namespace Held

variable [Machine] {s : State} {held : List Value}

/-- A value without objects can be bound at any time. -/
lemma definePlain {v : Value} (h : Held s held) (none : v.objects = []) (env : FrameId)
    (name : String) : Held (s.define env name v) held :=
  ((h.plain none).define env name List.mem_cons_self).fewer (List.subset_cons_self v held)

lemma definePrelude (h : Held s held) (env : FrameId) :
    Held { s with store := s.store.definePrelude env } held := by
  have hprimitives := List.foldlRecOn (motive := fun store => Held { s with store := store } held)
    Primitive.all (fun store p => store.define env p.name (.primitive p)) h
    fun _ hstore p _ => hstore.definePlain rfl env p.name
  exact hprimitives.definePlain rfl env "nil"

/-- When a task ends, be it with an error, the owner has still what they had. -/
lemma ended {config : Config} {n : Nat} {task : Task} {s' t : State} (h : Held s held)
    (hoffered : task.Offered s held s') (hend : (task.run config n s').state? = some t) :
    Held t held := by
  cases hrun : task.run config n s' with
  | ok v u =>
    rw [hrun] at hend
    cases hend
    exact (h.result hoffered hrun).fewer (List.subset_cons_self v held)
  | error e u =>
    rw [hrun] at hend
    cases hend
    exact h.failed hoffered hrun
  | exhausted =>
    rw [hrun] at hend
    cases hend

end Held

namespace Interpreter

/-- Running sources, one comes by no values at first. -/
theorem Ran.held [Machine] {it : Interpreter} (h : it.Ran) : Held it.state [] := by
  induction h with
  | new config output =>
    have hframe : Held (({} : State).newFrame {}).2 [] :=
      Held.start.frame fun entry hentry => by cases hentry
    exact (hframe.definePrelude 0).settings 0 output
  | run _ ran ih =>
    obtain ⟨-, -, rfl⟩ | ⟨forms, t, hread, rfl, hend⟩ := run_eq_some ran
    · exact ih
    · exact ih.ended (.forms _ hread) hend

/-- The value of a source that is run is there to be held. -/
theorem Ran.held_result [Machine] {it it' : Interpreter} {fuel : Nat} {source : String} {v : Value}
    (h : it.Ran) (ran : it.run fuel source = some (.ok v, it')) : Held it'.state [v] := by
  unfold Interpreter.run at ran
  cases hread : read source with
  | error e =>
    rw [hread] at ran
    cases ran
  | ok forms =>
    rw [hread] at ran
    change perform _ ((Task.sequence ⟨it.state.sources, it.global⟩ forms).run it.config fuel) = _
      at ran
    unfold perform at ran
    split at ran
    · next hrun =>
      cases ran
      exact h.held.result (.forms it.global hread) hrun
    · cases ran
    · cases ran

end Interpreter

/-! ## The order of the equalities -/

/-- Of two values that the owner of a state holds, if they are identical then their contents are the
same, unless there is a NaN in them; and if their contents are the same then they are equal.  So
where the procedure `eq?` holds, `equal?` does too, but for NaNs; a value with a NaN in it is one
for which `eq?` holds and `equal?` does not.  To be identical is an equivalence, and the other two
are symmetric, for any values at all. -/
theorem equalities_ordered [Machine] (s : State) (held : List Value) (h : Held s held) :
    (Equivalence fun a b : Value => a.identical b = true) ∧
    (∀ a b : Value, a.same b = b.same a ∧ a.equal b = b.equal a) ∧
    ∀ a ∈ held, ∀ b ∈ held,
      (a.hasNaN = false → a.identical b = true → a.same b = true) ∧
      (a.same b = true → a.equal b = true) ∧
      (a.hasNaN = false → Primitive.isSame.Answers a b true → Primitive.isEqual.Answers a b true) ∧
      (a.hasNaN = true →
        Primitive.isSame.Answers a a true ∧ Primitive.isEqual.Answers a a false) := by
  refine ⟨⟨Value.identical_self, ?_, ?_⟩, fun a b => ⟨Value.same_comm a b, Value.equal_comm a b⟩,
    fun a ha b hb => ?_⟩
  · intro a b hab
    rwa [Value.identical_comm]
  · intro a b c hab hbc
    exact Value.identical_trans hab hbc
  · have hsub : [a, b] ⊆ held := by simp [ha, hb]
    have hcoherent := h.coherent.subset hsub
    refine ⟨Value.same_of_identical hcoherent, Value.equal_of_same, fun hnan hidentical => ?_,
      fun hnan => ?_⟩
    · have hanswers := Primitive.answers_isSame a b
      rw [hanswers.true_iff] at hidentical
      have hsame := Value.same_of_identical hcoherent hnan hidentical
      have hequal := Primitive.answers_isEqual a b
      rwa [Value.equal_of_same hsame] at hequal
    · have hidentical := Primitive.answers_isSame a a
      have hequal := Primitive.answers_isEqual a a
      rw [Value.identical_self] at hidentical
      rw [Value.equal_self, hnan] at hequal
      exact ⟨hidentical, hequal⟩

/-- Of a result that is a list of two: whether there is a NaN in the first, and whether the two are
identical. -/
def shownPair? : Except Error Value → Option (Bool × Bool)
  | .ok (.list _ [a, b]) => some (a.hasNaN, a.identical b)
  | _ => none

section

open scoped Machine

/-- One list is given back twice.  It is identical to itself, the contents are the same at each
depth, and `equal?` holds. -/
theorem equalities_ordered_twice :
    ∃ it id a b, (Interpreter.new {} .silent).run 9
        "(begin (define l (list 1 (list \"x\" 2.5))) (list l l))" =
          some (.ok (.list id [a, b]), it) ∧
      Held it.state [a, b] ∧ a.hasNaN = false ∧ a.identical b = true ∧ a.same b = true ∧
      a.equal b = true ∧ Primitive.isEqual.Answers a b true := by
  have hrun : ((Interpreter.new {} .silent).run 9
      "(begin (define l (list 1 (list \"x\" 2.5))) (list l l))").map (fun p => shownPair? p.1) =
        some (some (false, true)) := by
    decide +kernel
  obtain ⟨⟨r, it⟩, hran, hshown⟩ := Option.map_eq_some_iff.mp hrun
  simp only [shownPair?] at hshown
  split at hshown
  · next id a b =>
    obtain ⟨hnan, hidentical⟩ := Prod.mk.inj (Option.some.inj hshown)
    have hlist := (Interpreter.Ran.new {} .silent).held_result hran
    have ha := hlist.element List.mem_cons_self (show a ∈ [a, b] by simp)
    have hb := ha.element (show Value.list id [a, b] ∈ [a, .list id [a, b]] by simp)
      (show b ∈ [a, b] by simp)
    have hheld : Held it.state [a, b] := hb.fewer (by simp)
    obtain ⟨-, -, hordered⟩ := equalities_ordered it.state [a, b] hheld
    obtain ⟨hsame, hequal, hanswers, -⟩ := hordered a (by simp) b (by simp)
    have hcontents := hsame hnan hidentical
    refine ⟨it, id, a, b, hran, hheld, hnan, hidentical, hcontents, hequal hcontents,
      hanswers hnan ?_⟩
    rw [(Primitive.answers_isSame a b).true_iff]
    exact hidentical
  · cases hshown

/-- A NaN is identical to itself, whichever it is.  It is not identical to one with another sign,
which is what the machine gives back for `(- inf inf)`. -/
example : (Run.ofSource 9 {}
    "(list (eq? nan nan) (eq? nan -nan) (eq? -nan (- inf inf)) (equal? nan nan))").map Run.output =
      some "(true false true false)" := by
  decide +kernel

end

end SmallLisp
