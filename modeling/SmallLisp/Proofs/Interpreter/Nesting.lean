import SmallLisp.Proofs.Evaluation.Nesting
import SmallLisp.Proofs.Interpreter.Reachable
import SmallLisp.Proofs.Interpreter.Sessions

/-!
# Nesting in a session

Sources are run one after the other under lexical scoping (`Interpreter.Runs`), in a global frame
that may itself be inside of others.  However the programs call each other's closures, and however
deep they recurse, code is always evaluated as many frames above the global one as there are
`lambda` forms around it (`depth_follows_nesting`).

Sources that were read earlier may have left closures, of which nothing is known here but that the
frames in which they were made exist.  That they come from older sources is no restriction
(`Interpreter.Reachable.binds`).
-/

namespace SmallLisp

/-- Sources that can be read are run one after the other, and these are their programs. -/
inductive Interpreter.Runs [Machine] (it₀ : Interpreter) : List (List Form) → Interpreter → Prop
  | start : Runs it₀ [] it₀
  | run {it it' : Interpreter} {programs : List (List Form)} {source : String}
      {program : List Form} {fuel : Nat} {result : Except Error Value}
      (before : Runs it₀ programs it) (reads : read source = .ok program)
      (ran : it.run fuel source = some (result, it')) :
      Runs it₀ (programs ++ [program]) it'

namespace Library

variable {lib : Library} {w s : Store} {it it' : Interpreter} {program : List Form}

/-! ## How deep exactly -/

/-- Something in the program of this number is enclosed by some number of forms, and by whatever
number it is, the frame is as far from the outermost one.  Nothing is said of programs that are
older than the library. -/
def Exact (lib : Library) (s : Store) (source : Nat) (env : FrameId)
    (enclosed : List Form → Nat → Prop) : Prop :=
  source < lib.first ∨ ∃ program, lib.program? source = some program ∧ (∃ k, enclosed program k) ∧
    ∀ k, enclosed program k → s.depth env = lib.depth + k

/-- However many `lambda` forms enclose the `lambda` form that the closure comes from, there are so
many frames between the frame in which the closure was made and the global one. -/
def ExactClosure (lib : Library) (s : Store) (c : Closure) : Prop :=
  lib.Exact s c.source c.env fun program k => ∃ form, Form.Enclosed program k form ∧ form.Makes c

/-- However many `lambda` forms enclose the form, there are so many frames between the frame in
which it is evaluated and the global one. -/
def ExactCode (lib : Library) (s : Store) (site : Site) (form : Form) : Prop :=
  lib.Exact s site.source site.env fun program k => Form.Enclosed program k form

/-- All programs of the library were read from sources. -/
def WasRead (lib : Library) : Prop := ∀ program ∈ lib.programs, ∃ source, read source = .ok program

lemma exists_source (hread : lib.WasRead) {n : Nat} (h : lib.program? n = some program) :
    ∃ source, read source = .ok program := by
  unfold program? at h
  split at h
  · exact hread program (List.mem_of_getElem? h)
  · cases h

lemma Nested.exact {source : Nat} {env : FrameId} {enclosed : List Form → Nat → Prop}
    (h : lib.Nested s source env enclosed) (hunique : ∀ program k k',
      lib.program? source = some program → enclosed program k → enclosed program k' → k = k') :
    lib.Exact s source env enclosed := by
  refine h.2.imp id ?_
  rintro ⟨program, k, hprogram, hk, hdepth⟩
  refine ⟨program, hprogram, ⟨k, hk⟩, fun k' hk' => ?_⟩
  rw [hunique program k' k hprogram hk' hk, hdepth]

lemma NestedCode.exact (hread : lib.WasRead) {site : Site} {form : Form}
    (h : lib.NestedCode s site form) : lib.ExactCode s site form := by
  refine Nested.exact h fun program k k' hprogram hk hk' => ?_
  obtain ⟨source, hsource⟩ := exists_source hread hprogram
  exact hk.unique hsource hk'

lemma NestedClosure.exact (hread : lib.WasRead) {c : Closure} (h : lib.NestedClosure s c) :
    lib.ExactClosure s c := by
  refine Nested.exact h ?_
  rintro program k k' hprogram ⟨_, hform, items, span, rfl, hshape⟩
    ⟨_, hform', items', span', rfl, hshape'⟩
  obtain ⟨source, hsource⟩ := exists_source hread hprogram
  -- there may be two such forms only if they have the same body, at the same place
  have hbody := hform.item (Shape.body_mem hshape).1
  have hbody' := hform'.item (Shape.body_mem hshape').1
  rw [if_pos (Shape.body_mem hshape).2] at hbody
  rw [if_pos (Shape.body_mem hshape').2] at hbody'
  exact Nat.succ.inj (hbody.unique hsource hbody')

/-! ## Runs -/

lemma SameDepths.refl (s : Store) : SameDepths s s := ⟨rfl, fun _ _ => rfl⟩

lemma store_self (h : lib.nesting.store w s) : lib.nesting.store s s := by
  obtain ⟨hsame, hordered, hbinds⟩ := h
  exact ⟨.refl s, hordered, hbinds.mono fun c hc => hc.of_sameDepths hsame⟩

/-- The programs of the library were run, and the interpreter is ready for the next one. -/
structure Describes (lib : Library) (it : Interpreter) : Prop where
  lexical : it.config.scoping = .lexical
  sources : it.state.sources = lib.next
  store : lib.nesting.store it.state.store it.state.store
  global : it.global < it.state.store.next
  depth : it.state.store.depth it.global = lib.depth

namespace Describes

/-- The forms of the next program can be evaluated. -/
lemma task (h : lib.Describes it) (program : List Form) :
    (lib.add program).nesting.task it.state.store
      (.sequence ⟨it.state.sources, it.global⟩ program) := by
  intro form hform
  refine ⟨h.global, .inr ⟨program, 0, ?_, .top hform, h.depth⟩⟩
  rw [h.sources]
  exact program?_next lib program

lemma store_add (h : lib.Describes it) (program : List Form) :
    (lib.add program).nesting.store it.state.store it.state.store := by
  obtain ⟨hsame, hordered, hbinds⟩ := h.store
  exact ⟨hsame, hordered, hbinds.mono fun c hc => hc.add program⟩

/-- After the next program, the interpreter is described by the library with that program. -/
lemma run [Machine] (h : lib.Describes it) {source : String} (hread : read source = .ok program)
    {fuel : Nat} {result : Except Error Value} (ran : it.run fuel source = some (result, it')) :
    (lib.add program).Describes it' := by
  obtain ⟨e, herror, -⟩ | ⟨forms, s, hforms, rfl, hs⟩ := Interpreter.run_eq_some ran
  · cases hread.symm.trans herror
  obtain rfl := Except.ok.inj (hread.symm.trans hforms)
  let task : Task := .sequence ⟨it.state.sources, it.global⟩ program
  have hkept := kept_nesting (lib.add program) h.lexical
  obtain ⟨v, hgrown, hstore⟩ :=
    hkept.ends (s := it.state.newSource.2) (t := task) fuel (h.task program)
      (h.store_add program) hs
  have hsources : s.sources = it.state.sources + 1 :=
    task.keeps_run respected_sources it.config fuel it.state.newSource.2 s hs
  have hglobal : it.global < v.next := Nat.lt_of_lt_of_le h.global (Store.Grows.next_le hgrown)
  refine ⟨h.lexical, ?_, store_self hstore, hstore.1.next ▸ hglobal, ?_⟩
  · change s.sources = _
    rw [hsources, h.sources, next, next, add, List.length_append]
    rfl
  · change s.store.depth it.global = lib.depth
    rw [hstore.1.depth _ hglobal, Store.Grows.depth_eq hgrown h.global, h.depth]

end Describes

/-- Whatever is begun and whatever ends while the next program is run, code is evaluated as deep as
it is nested, and closures were made as deep as their `lambda` forms are. -/
lemma Describes.reaches [Machine] (h : lib.Describes it) (hread : (lib.add program).WasRead)
    {k : Nat} {task : Task} {s : State}
    (hreaches : Reaches it.config (.sequence ⟨it.state.sources, it.global⟩ program)
      it.state.newSource.2 k task s) :
    s.store.Binds ((lib.add program).ExactClosure s.store) ∧
      (∀ site form, task = .eval site form → (lib.add program).ExactCode s.store site form) ∧
      (∀ env callee args, task = .call env callee args → ∀ v ∈ callee :: args, ∀ c ∈ v.closures,
        (lib.add program).ExactClosure s.store c) ∧
      ∀ fuel t, (task.run it.config fuel s).state? = some t →
        t.store.Binds ((lib.add program).ExactClosure t.store) ∧
          ∀ value, task.run it.config fuel s = .ok value t → ∀ c ∈ value.closures,
            (lib.add program).ExactClosure t.store c := by
  have hkept := kept_nesting (lib.add program) h.lexical
  have hexact {w s : Store} {c : Closure} (hsame : SameDepths w s)
      (hc : (lib.add program).NestedClosure w c) : (lib.add program).ExactClosure s c :=
    NestedClosure.exact hread (hc.of_sameDepths hsame)
  have hstore : (lib.add program).nesting.store it.state.store it.state.newSource.2.store :=
    h.store_add program
  obtain ⟨v, -, htask, hsame, hordered, hbinds⟩ := hkept.reaches (h.task program) hstore hreaches
  refine ⟨hbinds.mono fun c hc => hexact hsame hc, ?_, ?_, fun fuel t ht => ⟨?_, ?_⟩⟩
  · rintro site form rfl
    exact NestedCode.exact hread (Nested.of_sameDepths htask hsame)
  · rintro env callee args rfl value hvalue c hc
    exact hexact hsame (htask value hvalue c hc)
  · obtain ⟨v', -, hsame', -, hbinds'⟩ := hkept.ends fuel htask ⟨hsame, hordered, hbinds⟩ ht
    exact hbinds'.mono fun c hc => hexact hsame' hc
  · intro value hvalue c hc
    obtain ⟨v', -, ⟨hsame', -⟩, hvalues⟩ :=
      hkept.result fuel htask ⟨hsame, hordered, hbinds⟩ hvalue
    exact hexact hsame' (hvalues c hc)

/-- After several runs, the interpreter is described by the programs that were run. -/
lemma describes_of_runs [Machine] {it₀ : Interpreter} {programs : List (List Form)}
    (hlexical : it₀.config.scoping = .lexical) (hfounded : it₀.state.store.Founded)
    (hglobal : it₀.global < it₀.state.store.next)
    (hclosures : it₀.state.store.Binds (·.source < it₀.state.sources))
    (hruns : it₀.Runs programs it) :
    (⟨it₀.state.sources, it₀.state.store.depth it₀.global, programs⟩ : Library).Describes it ∧
      (⟨it₀.state.sources, it₀.state.store.depth it₀.global, programs⟩ : Library).WasRead := by
  induction hruns with
  | start =>
    refine ⟨⟨hlexical, rfl, ⟨.refl _, hfounded.ordered, ?_⟩, hglobal, rfl⟩, nofun⟩
    intro id frame name v hframe hfound c hc
    exact ⟨hfounded.within id frame name v hframe hfound c hc,
      .inl (hclosures id frame name v hframe hfound c hc)⟩
  | @run it it' programs source program fuel result _ reads ran ih =>
    obtain ⟨hdescribes, hread⟩ := ih
    refine ⟨hdescribes.run reads ran, fun program' hprogram => ?_⟩
    rcases List.mem_append.mp hprogram with hprogram | hprogram
    · exact hread program' hprogram
    · obtain rfl := List.mem_singleton.mp hprogram
      exact ⟨source, reads⟩

end Library

/-- A source that can be read has a program. -/
lemma exists_program {source : String} (h : (read source).toBool = true) :
    ∃ program, read source = .ok program := by
  cases hread : read source with
  | ok program => exact ⟨program, rfl⟩
  | error e => rw [hread] at h; cases h

/-! ## Depth is nesting -/

/-- Let sources be run one after the other under lexical scoping, from an interpreter in whose store
all closures come from older sources; let `g` be the depth of its global frame.  Then between two
runs, and whenever something is begun or ends in a further one:

* If a form of one of the programs is evaluated that `k` `lambda` forms enclose, then the frame in
  which it is evaluated has the depth `g + k`.
* If a closure that is bound in any frame, or is a part of an argument or a result, comes from a
  `lambda` form of one of the programs that `k` other ones enclose, then the frame in which it was
  made has the depth `g + k`. -/
theorem depth_follows_nesting [Machine] (it₀ it : Interpreter) (programs : List (List Form))
    (source : String) (program : List Form) (hlexical : it₀.config.scoping = .lexical)
    (hfounded : it₀.state.store.Founded) (hglobal : it₀.global < it₀.state.store.next)
    (hclosures : it₀.state.store.Binds (·.source < it₀.state.sources))
    (hruns : it₀.Runs programs it) (hread : read source = .ok program) :
    let g := it₀.state.store.depth it₀.global
    let lib : Library := ⟨it₀.state.sources, g, programs ++ [program]⟩
    it.state.store.Binds (lib.ExactClosure it.state.store) ∧
    ∀ k task s, Reaches it.config (.sequence ⟨it.state.sources, it.global⟩ program)
        it.state.newSource.2 k task s →
      s.store.Binds (lib.ExactClosure s.store) ∧
      (∀ site form, task = .eval site form → lib.ExactCode s.store site form) ∧
      (∀ env callee args, task = .call env callee args → ∀ v ∈ callee :: args, ∀ c ∈ v.closures,
        lib.ExactClosure s.store c) ∧
      ∀ fuel t, (task.run it.config fuel s).state? = some t →
        t.store.Binds (lib.ExactClosure t.store) ∧
          ∀ value, task.run it.config fuel s = .ok value t → ∀ c ∈ value.closures,
            lib.ExactClosure t.store c := by
  intro g lib
  obtain ⟨hdescribes, hprograms⟩ :=
    Library.describes_of_runs hlexical hfounded hglobal hclosures hruns
  have hwasRead : lib.WasRead := by
    intro program' hprogram
    rcases List.mem_append.mp hprogram with hprogram | hprogram
    · exact hprograms program' hprogram
    · obtain rfl := List.mem_singleton.mp hprogram
      exact ⟨source, hread⟩
  refine ⟨?_, fun k task s hreaches => hdescribes.reaches hwasRead hreaches⟩
  exact (hdescribes.store_add program).2.2.mono fun c hc => Library.NestedClosure.exact hwasRead hc

section

open scoped Machine

/-- However deep `f` calls itself, the `lambda` form in it is nested no deeper.  Besides the global
frame there are those of the three calls, but only one of them is above `leaf`. -/
theorem depth_follows_nesting_recursion :
    let source :=
      "(define f (lambda (n) (if (= n 0) (lambda () n) (f (- n 1))))) (define leaf (f 2))"
    ∃ program more result it leaf,
      read source = .ok program ∧ read "(leaf)" = .ok more ∧
      (Interpreter.new {} .silent).run 30 source = some (result, it) ∧
      it.lookup "leaf" = some leaf ∧ it.state.store.next = 4 ∧
      leaf.closures.map (fun c => it.state.store.depth c.env) = [2] ∧
      ∀ c ∈ leaf.closures, Library.ExactClosure ⟨0, 1, [program, more]⟩ it.state.store c := by
  intro source
  let it₀ := Interpreter.new {} .silent
  have hprogram : (read source).toBool = true := by decide +kernel
  have hmore : (read "(leaf)").toBool = true := by decide +kernel
  have hrun : (it₀.run 30 source).bind (fun ended => (ended.2.lookup "leaf").map fun leaf =>
      (ended.2.state.store.next, leaf.closures.map fun c => ended.2.state.store.depth c.env)) =
        some (4, [2]) := by
    decide +kernel
  obtain ⟨program, hprogram⟩ := exists_program hprogram
  obtain ⟨more, hmore⟩ := exists_program hmore
  obtain ⟨⟨result, it⟩, hrun, hleaf⟩ := Option.bind_eq_some_iff.mp hrun
  obtain ⟨leaf, hleaf, hdepths⟩ := Option.map_eq_some_iff.mp hleaf
  obtain ⟨hnext, hdepths⟩ := Prod.mk.inj hdepths
  have hfounded := ((Interpreter.session_new {} .silent).founded .empty).1
  have hglobal : it₀.global < it₀.state.store.next := by decide +kernel
  have hdepth : it₀.state.store.depth it₀.global = 1 := by decide +kernel
  have hexact := (depth_follows_nesting it₀ it [program] "(leaf)" more rfl hfounded hglobal
    (Interpreter.Reachable.new {} .silent).binds (.run .start hprogram hrun) hmore).1
  rw [hdepth] at hexact
  exact ⟨program, more, result, it, leaf, hprogram, hmore, hrun, hleaf, hnext, hdepths,
    hexact.lookup hleaf⟩

end

end SmallLisp
