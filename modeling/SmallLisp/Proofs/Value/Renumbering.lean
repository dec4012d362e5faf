import SmallLisp.Proofs.Value.Objects

/-!
# Other numbers for frames and objects

Frames and the objects made by a program are numbered as they are made, and a program that makes
some more of them in between gives other numbers to the rest.  A `Renumbering` says which numbers.
It keeps the order of the old ones, so that no two of them become one, and a frame that is older
than another one still is.

Nothing can be observed of a value that depends on these numbers: a value and the renumbered one are
indiscernible (`Value.Renumbered.indiscernible`).
-/

namespace SmallLisp

/-- Other numbers for frames and objects, in the same order. -/
structure Renumbering where
  frame : FrameId → FrameId
  serial : Nat → Nat
  frame_mono : StrictMono frame
  serial_mono : StrictMono serial

/-- All numbers stay the same. -/
def Renumbering.refl : Renumbering := ⟨id, id, strictMono_id, strictMono_id⟩

variable {r r' : Renumbering}

/-! ## What is renumbered -/

def Identity.renumber (r : Renumbering) : Identity → Identity
  | literal source span => literal source span
  | fresh n => fresh (r.serial n)

def Closure.renumber (r : Renumbering) (c : Closure) : Closure := { c with env := r.frame c.env }

namespace Value

mutual

/-- The value with other numbers for its objects, and for the frames in which its closures were
made. -/
def renumber (r : Renumbering) : Value → Value
  | int n => int n
  | float x => float x
  | str id text => str (id.renumber r) text
  | bool b => bool b
  | nil => nil
  | list id items => list (id.renumber r) (renumberAll r items)
  | closure id c => closure (id.renumber r) (c.renumber r)
  | primitive p => primitive p

def renumberAll (r : Renumbering) : List Value → List Value
  | [] => []
  | v :: vs => v.renumber r :: renumberAll r vs

end

@[simp] lemma renumberAll_eq_map (vs : List Value) : renumberAll r vs = vs.map (renumber r) := by
  induction vs with
  | nil => rfl
  | cons v vs ih => rw [renumberAll, ih, List.map_cons]

@[simp] lemma renumber_list (id : Identity) (items : List Value) :
    (list id items).renumber r = list (id.renumber r) (items.map (renumber r)) := by
  rw [renumber, renumberAll_eq_map]

lemma map_renumber_refl (vs : List Value) : vs.map (renumber .refl) = vs := by
  induction vs using values_induction with
  | nil => rfl
  | scalar v vs hv ih =>
    rw [List.map_cons, ih]
    congr 1
    cases v with
    | list => cases hv
    | str id | closure id => cases id <;> rfl
    | _ => rfl
  | list id items vs ihItems ih =>
    rw [List.map_cons, ih, renumber_list, ihItems]
    cases id <;> rfl

@[simp] lemma renumber_refl (v : Value) : v.renumber .refl = v := by
  simpa using map_renumber_refl [v]

end Value

def Answer.renumber (r : Renumbering) : Answer → Answer
  | value v => value (v.renumber r)
  | string text => string text
  | list items => list (items.map (Value.renumber r))

/-! ## What can be observed -/

lemma Identity.renumber_injective (r : Renumbering) : Function.Injective (renumber r) := by
  intro i j h
  cases i with
  | literal source span =>
    cases j with
    | literal => exact h
    | fresh => cases h
  | fresh m =>
    cases j with
    | literal => cases h
    | fresh n => rw [r.serial_mono.injective (Identity.fresh.inj h)]

/-- What takes the place of what when numbers are changed. -/
def Renumbering.exchange (r : Renumbering) : Exchange where
  identity i j := i.renumber r = j
  unique := by
    rintro i _ i' _ rfl rfl
    exact (Identity.renumber_injective r).eq_iff.symm
  closure c d := c.renumber r = d
  text _ := True
  append _ _ := trivial

/-- Lists are related by a function, element by element, if it maps one of them to the other. -/
lemma forall₂_apply_iff {α β : Type} {f : α → β} {l : List α} {l' : List β} :
    List.Forall₂ (fun a b => f a = b) l l' ↔ l.map f = l' := by
  have h : List.Forall₂ Eq (l.map f) l' ↔ List.Forall₂ (fun a b => f a = b) l l' :=
    List.forall₂_map_left_iff
  rw [← h, List.forall₂_eq_eq_eq]

namespace Value

/-- The second value is the first one with other numbers. -/
abbrev Renumbered (r : Renumbering) (v w : Value) : Prop := v.renumber r = w

lemma forall₂_renumbered_iff {vs ws : List Value} :
    List.Forall₂ (Renumbered r) vs ws ↔ vs.map (renumber r) = ws :=
  forall₂_apply_iff

lemma forall₂_renumbered (r : Renumbering) (vs : List Value) :
    List.Forall₂ (Renumbered r) vs (vs.map (renumber r)) :=
  forall₂_renumbered_iff.mpr rfl

lemma forall₂_rows_renumbered_iff {rows rows' : List (List Value)} :
    List.Forall₂ (List.Forall₂ (Renumbered r)) rows rows' ↔
      rows.map (List.map (renumber r)) = rows' := by
  have hrow : List.Forall₂ (Renumbered r) = fun row row' => row.map (renumber r) = row' := by
    funext row row'
    exact propext forall₂_renumbered_iff
  rw [hrow, forall₂_apply_iff]

lemma Renumbered.indiscernible : Indiscernible r.exchange (Renumbered r) where
  layer := by
    rintro v _ rfl
    cases v with
    | int n => exact .int n
    | float x => exact .float x
    | str id text => exact .str rfl trivial
    | bool b => exact .bool b
    | nil => exact .nil
    | list id items =>
      rw [renumber_list]
      exact .list rfl (forall₂_renumbered r items)
    | closure id c => exact .closure rfl rfl
    | primitive p => exact .primitive p
  int _ := rfl
  float _ := rfl
  bool _ := rfl

@[simp] lemma kind_renumber (v : Value) : (v.renumber r).kind = v.kind :=
  Renumbered.indiscernible.kind_eq rfl

@[simp] lemma isTruthy_renumber (v : Value) : (v.renumber r).isTruthy = v.isTruthy :=
  Renumbered.indiscernible.isTruthy_eq rfl

@[simp] lemma isProcedure_renumber (v : Value) : (v.renumber r).isProcedure = v.isProcedure :=
  Renumbered.indiscernible.isProcedure_eq rfl

@[simp] lemma text_renumber (v : Value) : (v.renumber r).text = v.text := by
  refine Renumbered.indiscernible.text_eq ?_ rfl
  rintro c _ rfl
  rfl

end Value

lemma Answer.Alike.renumber_eq {answer answer' : Answer}
    (h : answer.Alike r.exchange (Value.Renumbered r) answer') : answer.renumber r = answer' := by
  cases h with
  | value h => rw [Answer.renumber, h]
  | string => rfl
  | list h =>
    rw [Answer.renumber, Value.forall₂_renumbered_iff.mp h]

/-! ## When only some numbers matter -/

/-- A number of frames, and a number of objects that were made. -/
structure Extent where
  frames : Nat
  objects : Nat

instance : Preorder Extent where
  le e e' := e.frames ≤ e'.frames ∧ e.objects ≤ e'.objects
  le_refl e := ⟨le_rfl, le_rfl⟩
  le_trans _ _ _ h h' := ⟨h.1.trans h'.1, h.2.trans h'.2⟩

/-- The object is a literal or one of the first objects, and if it is a closure then it was made in
one of the first frames. -/
structure Extent.Has (e : Extent) (o : Value) : Prop where
  object : ∀ n, o.identity? = some (.fresh n) → n < e.objects
  frame : ∀ c, o.closure? = some c → c.env < e.frames

/-- All objects in the value are in the extent. -/
def Value.Inside (e : Extent) (v : Value) : Prop := ∀ o ∈ v.objects, e.Has o

/-- The renumberings agree on all that is in the extent. -/
structure Renumbering.Agree (r r' : Renumbering) (e : Extent) : Prop where
  frame : ∀ i < e.frames, r'.frame i = r.frame i
  serial : ∀ n < e.objects, r'.serial n = r.serial n

variable {e e' : Extent}

lemma Extent.Has.mono {o : Value} (h : e.Has o) (hle : e ≤ e') : e'.Has o where
  object n hn := (h.object n hn).trans_le hle.2
  frame c hc := (h.frame c hc).trans_le hle.1

lemma Value.Inside.mono {v : Value} (h : v.Inside e) (hle : e ≤ e') : v.Inside e' :=
  fun o ho => (h o ho).mono hle

lemma Value.inside_list_iff {id : Identity} {items : List Value} :
    (list id items).Inside e ↔ e.Has (list id items) ∧ ∀ v ∈ items, v.Inside e := by
  simp only [Inside, objects, List.forall_mem_cons, mem_objectsAll]
  exact and_congr_right fun _ =>
    ⟨fun h v hv o ho => h o ⟨v, hv, ho⟩, fun h o ⟨v, hv, ho⟩ => h v hv o ho⟩

namespace Renumbering.Agree

lemma trans {r'' : Renumbering} (h : r.Agree r' e) (h' : r'.Agree r'' e) : r.Agree r'' e where
  frame i hi := (h'.frame i hi).trans (h.frame i hi)
  serial n hn := (h'.serial n hn).trans (h.serial n hn)

lemma mono (h : r.Agree r' e') (hle : e ≤ e') : r.Agree r' e where
  frame i hi := h.frame i (hi.trans_le hle.1)
  serial n hn := h.serial n (hn.trans_le hle.2)

variable (h : r.Agree r' e)
include h

lemma identity {o : Value} {id : Identity} (ho : e.Has o) (hid : o.identity? = some id) :
    id.renumber r' = id.renumber r := by
  cases id with
  | literal => rfl
  | fresh n => rw [Identity.renumber, Identity.renumber, h.serial n (ho.object n hid)]

lemma values {vs : List Value} (hvs : ∀ v ∈ vs, v.Inside e) :
    vs.map (Value.renumber r') = vs.map (Value.renumber r) := by
  induction vs using Value.values_induction with
  | nil => rfl
  | scalar v vs hv ih =>
    obtain ⟨hinside, hrest⟩ := List.forall_mem_cons.mp hvs
    rw [List.map_cons, List.map_cons, ih hrest]
    congr 1
    cases v with
    | list => cases hv
    | str id text =>
      rw [Value.renumber, Value.renumber, h.identity (hinside _ List.mem_cons_self) rfl]
    | closure id c =>
      have ho : e.Has (.closure id c) := hinside _ List.mem_cons_self
      simp only [Value.renumber, Closure.renumber, h.identity ho rfl,
        h.frame c.env (ho.frame c rfl)]
    | _ => rfl
  | list id items vs ihItems ih =>
    obtain ⟨hinside, hrest⟩ := List.forall_mem_cons.mp hvs
    obtain ⟨ho, hitems⟩ := Value.inside_list_iff.mp hinside
    rw [List.map_cons, List.map_cons, ih hrest, Value.renumber_list, Value.renumber_list,
      ihItems hitems, h.identity ho rfl]

lemma value {v : Value} (hv : v.Inside e) : v.renumber r' = v.renumber r := by
  simpa using h.values (List.forall_mem_singleton.mpr hv)

end Renumbering.Agree

end SmallLisp
