import SmallLisp.Proofs.Evaluation.Invariant
import SmallLisp.Proofs.Form.Nesting
import SmallLisp.Proofs.Store.Parents

/-!
# How deep code is evaluated

Under lexical scoping a call makes its frame inside that in which the closure was made, wherever the
call comes from.  So the way from a frame up to the outermost one is as long as the nesting of the
`lambda` forms around the code that is evaluated in the frame, and does not depend on how that code
was reached (`Library.kept_nesting`).

This is an invariant of code together with the frame where it is evaluated, and of closures with the
frame in which they were made.  The world is the store itself, which only grows: the way up from a
frame that exists never changes (`Store.Grows.depth_eq`).

Several programs may be evaluated one after the other, and use each other's closures.  A `Library`
holds them under the numbers that tell where a piece of code comes from.
-/

namespace SmallLisp

/-- A store lies before those that it can grow to. -/
instance : Preorder Store where
  le := Store.Grows
  le_refl := Store.Grows.refl
  le_trans _ _ _ h h' := h.trans h'

/-! ## Where code comes from -/

/-- Programs that are evaluated one after the other in the same frame. -/
structure Library where
  /-- The number of the first program. -/
  first : Nat
  /-- The number of frames from that in which the programs are evaluated to the outermost one. -/
  depth : Nat
  programs : List (List Form)

namespace Library

/-- The program of a number. -/
def program? (lib : Library) (source : Nat) : Option (List Form) :=
  if lib.first ≤ source then lib.programs[source - lib.first]? else none

/-- The library with one more program. -/
def add (lib : Library) (program : List Form) : Library :=
  { lib with programs := lib.programs ++ [program] }

/-- The number of the next program. -/
def next (lib : Library) : Nat := lib.first + lib.programs.length

variable {lib : Library} {source : Nat} {program : List Form}

lemma program?_next (lib : Library) (program : List Form) :
    (lib.add program).program? lib.next = some program := by
  simp [program?, add, next]

lemma program?_add (h : lib.program? source = some program) (more : List Form) :
    (lib.add more).program? source = some program := by
  unfold program? at h ⊢
  split at h
  · next hle =>
    rw [add, if_pos hle, List.getElem?_append_left (List.getElem?_eq_some_iff.mp h).1]
    exact h
  · cases h

end Library

/-- The closure is one that comes of the form. -/
def Form.Makes (form : Form) (c : Closure) : Prop :=
  ∃ items span, form = .list items span ∧
    Shape.ofList span items = .ok (.lambda c.params c.body)

/-- What is evaluated where a list is evaluated stands in the list, which is no `lambda` form. -/
lemma Shape.mem_of_evaluated {span : Span} {items : List Form} {shape : Shape} {form : Form}
    (hshape : Shape.ofList span items = .ok shape) (h : form ∈ shape.evaluated) :
    form ∈ items ∧ Form.isLambda items = false := by
  cases written_of_ofList hshape with
  | lambda => cases h
  | conditional => exact ⟨List.mem_cons_of_mem _ h, rfl⟩
  | define =>
    obtain rfl := List.mem_singleton.mp h
    exact ⟨by simp, rfl⟩
  | sequence => exact ⟨List.mem_cons_of_mem _ h, rfl⟩
  | call plain => exact ⟨h, Form.isLambda_of_plain plain⟩

/-- The body stands in the `lambda` form. -/
lemma Shape.body_mem {span : Span} {items : List Form} {params : List String} {body : Form}
    (hshape : Shape.ofList span items = .ok (.lambda params body)) :
    body ∈ items ∧ Form.isLambda items = true := by
  cases written_of_ofList hshape with
  | lambda distinct => exact ⟨by simp, rfl⟩

/-! ## The invariant -/

namespace Library

variable {lib : Library} {v w s : Store} {source : Nat} {env : FrameId}
variable {enclosed : List Form → Nat → Prop}

/-- The frame is as far from the outermost one as something in the program of this number is nested,
namely enclosed by `k` forms.  Nothing is said of programs that are older than the library. -/
def Nested (lib : Library) (w : Store) (source : Nat) (env : FrameId)
    (enclosed : List Form → Nat → Prop) : Prop :=
  env < w.next ∧ (source < lib.first ∨ ∃ program k, lib.program? source = some program ∧
    enclosed program k ∧ w.depth env = lib.depth + k)

/-- The closure was made in a frame that is as far from the outermost one as its `lambda` form is
nested. -/
def NestedClosure (lib : Library) (w : Store) (c : Closure) : Prop :=
  lib.Nested w c.source c.env fun program k => ∃ form, Form.Enclosed program k form ∧ form.Makes c

/-- The form is evaluated in a frame that is as far from the outermost one as the form is nested. -/
def NestedCode (lib : Library) (w : Store) (site : Site) (form : Form) : Prop :=
  lib.Nested w site.source site.env fun program k => Form.Enclosed program k form

/-- Every frame is as far from the outermost one in the one store as in the other one. -/
structure SameDepths (w s : Store) : Prop where
  next : s.next = w.next
  depth : ∀ env, env < w.next → s.depth env = w.depth env

lemma Nested.of_sameDepths (h : lib.Nested w source env enclosed) (hs : SameDepths w s) :
    lib.Nested s source env enclosed := by
  obtain ⟨henv, hnested⟩ := h
  rw [← hs.depth env henv] at hnested
  exact ⟨hs.next ▸ henv, hnested⟩

lemma Nested.mono (h : lib.Nested v source env enclosed) (hle : v ≤ w) :
    lib.Nested w source env enclosed := by
  obtain ⟨henv, hnested⟩ := h
  rw [← Store.Grows.depth_eq hle henv] at hnested
  exact ⟨Nat.lt_of_lt_of_le henv (Store.Grows.next_le hle), hnested⟩

lemma Nested.add (h : lib.Nested w source env enclosed) (more : List Form) :
    (lib.add more).Nested w source env enclosed := by
  obtain ⟨henv, hold | ⟨program, k, hprogram, hk⟩⟩ := h
  · exact ⟨henv, .inl hold⟩
  · exact ⟨henv, .inr ⟨program, k, program?_add hprogram more, hk⟩⟩

/-- Code is evaluated as deep as it is nested, and closures were made as deep as their `lambda`
forms are. -/
def nesting (lib : Library) : Invariant Store where
  closure := lib.NestedClosure
  store w s := SameDepths w s ∧ s.Ordered ∧ s.Binds (lib.NestedClosure w)
  code := lib.NestedCode
  closure_mono hle h := h.mono hle
  code_mono hle h := h.mono hle

namespace SameDepths

lemma define (h : SameDepths w s) (env : FrameId) (name : String) (a : Value) :
    SameDepths w (s.define env name a) where
  next := (Store.next_define s env name a).trans h.next
  depth env' henv := by
    rw [(Store.Grows.define s env name a).depth_eq (h.next ▸ henv)]
    exact h.depth env' henv

/-- The same frame is made in both stores, inside of one that exists. -/
lemma push (h : SameDepths w s) {frame : Frame} {parent : FrameId}
    (hparent : frame.parent = some parent) (hlt : parent < w.next) :
    SameDepths (w.push frame) (s.push frame) where
  next := by rw [Store.next_push, Store.next_push, h.next]
  depth env henv := by
    rw [Store.next_push] at henv
    rcases Nat.lt_succ_iff_lt_or_eq.mp henv with henv | rfl
    · rw [(Store.Grows.push w frame).depth_eq henv,
        (Store.Grows.push s frame).depth_eq (h.next ▸ henv), h.depth env henv]
    · have hnew := @Store.depth_push_next s frame parent hparent (h.next ▸ hlt)
      rw [h.next] at hnew
      rw [hnew, Store.depth_push_next hparent hlt, h.depth parent hlt]

end SameDepths

/-- The body of a closure is evaluated one step deeper than the closure was made. -/
lemma NestedClosure.body {c : Closure} (h : lib.NestedClosure w c) {frame : Frame}
    (hparent : frame.parent = some c.env) :
    lib.NestedCode (w.push frame) ⟨c.source, w.next⟩ c.body := by
  obtain ⟨henv, hnested⟩ := h
  refine ⟨by simp, hnested.imp id ?_⟩
  rintro ⟨program, k, hprogram, ⟨form, hform, items, span, rfl, hshape⟩, hdepth⟩
  obtain ⟨hbody, hlambda⟩ := Shape.body_mem hshape
  refine ⟨program, k + 1, hprogram, ?_, ?_⟩
  · have hitem := hform.item hbody
    rwa [if_pos hlambda] at hitem
  · rw [Store.depth_push_next hparent henv, hdepth, Nat.add_assoc]

/-- Under lexical scoping, no step of an evaluation goes beyond the invariant. -/
theorem kept_nesting (lib : Library) {config : Config} (hlexical : config.scoping = .lexical) :
    lib.nesting.Kept config where
  lookup hs hfound := hs.2.2.lookup hfound
  part := by
    rintro w site items span shape form ⟨henv, hcode⟩ hshape hform
    refine ⟨henv, hcode.imp id ?_⟩
    rintro ⟨program, k, hprogram, hlist, hdepth⟩
    obtain ⟨hmem, hplain⟩ := Shape.mem_of_evaluated hshape hform
    have hitem := hlist.item hmem
    rw [if_neg (by simp [hplain])] at hitem
    exact ⟨program, k, hprogram, hitem, hdepth⟩
  lambda := by
    rintro w site items span params body ⟨henv, hcode⟩ hshape
    refine ⟨henv, hcode.imp id ?_⟩
    rintro ⟨program, k, hprogram, hlist, hdepth⟩
    exact ⟨program, k, hprogram, ⟨_, hlist, items, span, rfl, hshape⟩, hdepth⟩
  define := by
    rintro v w s site items span name form a - - - ⟨hsame, hordered, hbinds⟩ ha
    exact ⟨hsame.define _ _ _, hordered.define _ _ _, hbinds.define ha⟩
  enter := by
    rintro w s c args env ⟨hsame, hordered, hbinds⟩ hc hargs -
    have henv : c.env < w.next := hc.1
    have hparent : (config.callFrame s env c args).parent = some c.env := by
      rw [Config.callFrame, hlexical]
      rfl
    have hgrown : w ≤ w.push (config.callFrame s env c args) := Store.Grows.push w _
    refine ⟨_, hgrown, ⟨hsame.push hparent henv, ?_, ?_⟩, ?_⟩
    · refine hordered.push fun parent h => ?_
      obtain rfl := Option.some.inj (hparent.symm.trans h)
      exact hsame.next ▸ henv
    · exact (hbinds.push (hbinds.callFrame config c hargs)).mono fun c hc => hc.mono hgrown
    · rw [hsame.next]
      exact NestedClosure.body hc hparent

end Library

end SmallLisp
