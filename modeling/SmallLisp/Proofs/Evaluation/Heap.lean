import SmallLisp.Proofs.Evaluation.Inventory
import SmallLisp.Proofs.Evaluation.Nesting
import SmallLisp.Proofs.Form.Literals
import SmallLisp.Proofs.Value.Identity

/-!
# The heap

An evaluation passes whole objects around, and nothing in it looks up an identity.  Still an
identity belongs to one object only, as if the objects were kept in one place and identities were
addresses there.  A `Heap` is such a place: the objects that were made, in the order in which they
were made.  All that an evaluation has to do with can be found there (`Heap.kept_inventory`), the
objects of string literals excepted, which are as the sources say.

A made object is never changed, so that a heap only grows.
-/

namespace SmallLisp

/-- The objects that were made so far, in order. -/
structure Heap where
  objects : List Value

namespace Heap

/-- A heap lies before those that it can grow to. -/
instance : Preorder Heap where
  le v w := v.objects <+: w.objects
  le_refl w := List.prefix_refl w.objects
  le_trans _ _ _ := List.IsPrefix.trans

/-- The object is in the heap, or it is a string literal of a source. -/
inductive Has (literals : Nat → Span → Option String) (w : Heap) : Value → Prop
  | literal {source : Nat} {span : Span} {text : String}
      (written : literals source span = some text) :
      Has literals w (.str (.literal source span) text)
  | made {n : Nat} {o : Value} (found : w.objects[n]? = some o)
      (identity : o.identity? = some (.fresh n))
      (body : ∀ c, o.closure? = some c → c.body.WrittenIn (literals c.source)) : Has literals w o

variable {literals literals' : Nat → Span → Option String} {v w : Heap} {o o' : Value}

namespace Has

lemma mono (hle : v ≤ w) (h : v.Has literals o) : w.Has literals o := by
  cases h with
  | literal written => exact .literal written
  | made found identity body =>
    obtain ⟨more, hmore⟩ := hle
    refine .made ?_ identity body
    rw [← hmore, List.getElem?_append_left (List.getElem?_eq_some_iff.mp found).1]
    exact found

/-- There may be more literals in further sources. -/
lemma of_literals
    (hmore : ∀ source span text, literals source span = some text →
      literals' source span = some text)
    (h : w.Has literals o) : w.Has literals' o := by
  cases h with
  | literal written => exact .literal (hmore _ _ _ written)
  | made found identity body =>
    exact .made found identity fun c hc text span hnode =>
      hmore c.source span text (body c hc text span hnode)

/-- An identity belongs to one object only. -/
theorem eq (h : w.Has literals o) (h' : w.Has literals o') (hid : o.identity? = o'.identity?) :
    o = o' := by
  cases h with
  | literal written =>
    cases h' with
    | literal written' =>
      cases hid
      cases written.symm.trans written'
      rfl
    | made found identity body => cases hid.trans identity
  | made found identity body =>
    cases h' with
    | literal written => cases identity.symm.trans hid
    | made found' identity' body' =>
      cases identity.symm.trans (hid.trans identity')
      exact Option.some.inj (found.symm.trans found')

end Has

/-- The inventory of what is in the heap. -/
def inventory (literals : Nat → Span → Option String) : Inventory Heap where
  object w o := w.Has literals o
  state w s n := w.objects.length = n ∧ s.Bound fun v => ∀ o ∈ v.objects, w.Has literals o
  code _ site form := form.WrittenIn (literals site.source)
  object_mono := Has.mono
  code_mono _ h := h

/-- One more object is made. -/
lemma exists_made {s : Store} {n : Nat} (hs : (inventory literals).state w s n)
    (hid : o.identity? = some (.fresh n))
    (hbody : ∀ c, o.closure? = some c → c.body.WrittenIn (literals c.source)) :
    ∃ v, w ≤ v ∧ (inventory literals).state v s (n + 1) ∧ (inventory literals).object v o := by
  obtain ⟨rfl, hbound⟩ := hs
  have hgrown : w ≤ ⟨w.objects ++ [o]⟩ := List.prefix_append _ _
  refine ⟨⟨w.objects ++ [o]⟩, hgrown, ⟨List.length_append, ?_⟩, .made ?_ hid hbody⟩
  · exact hbound.mono fun v hv o ho => (hv o ho).mono hgrown
  · exact List.getElem?_concat_length

/-- No step of an evaluation leaves the heap. -/
theorem kept_inventory (literals : Nat → Span → Option String) (config : Config) :
    (inventory literals).Kept config where
  lookup hs hfound := hs.2.lookup hfound
  part hcode hshape hform := hcode.item (Shape.mem_of_evaluated hshape hform).1
  literal hcode := .literal (hcode _ _ (Form.mem_nodes_self _))
  string text hs := exists_made hs rfl fun c hc => by cases hc
  list hs _ := exists_made hs rfl fun c hc => by cases hc
  lambda hs hcode hshape := by
    refine exists_made hs rfl fun c hc => ?_
    cases hc
    exact hcode.item (Shape.body_mem hshape).1
  define hs _ _ ha := ⟨hs.1, hs.2.define ha⟩
  enter env hs hc hargs _ := by
    refine ⟨_, le_rfl, ⟨hs.1, hs.2.push (hs.2.callFrame _ _ hargs)⟩, ?_⟩
    cases hc with
    | made found identity body => exact body _ rfl

/-- No two objects of values in the heap have the same identity. -/
theorem coherent {vs : List Value} (h : ∀ a ∈ vs, (inventory literals).value w a) :
    Value.Coherent vs := by
  have hobjects := Inventory.objectsAll_iff.mpr h
  exact fun o ho o' ho' hid => (hobjects o ho).eq (hobjects o' ho') hid

end Heap

end SmallLisp
