import SmallLisp.Proofs.Store.Parents

/-!
# Who sees a binding

A name is looked up from parent to parent, up to the first frame that binds it.  So a definition in
a frame is seen from all frames from which one comes to that frame on the way up without meeting the
name before (`Store.Exposes`), and from no other one (`Store.Ordered.seenWith_define`).  Nothing is
said there about when a frame was made: making a frame inside another one and defining a name in an
older frame can be done in either order (`Store.push_define`).

A snapshot collects what is seen into a frame of its own.  The frames on the way up are gone through
from the outermost one, so that inner bindings overwrite outer ones; the order of the bindings
within a frame does not matter, because none of its names is bound twice (`Bindings.find?_gather`).
-/

namespace SmallLisp

/-! ## Bindings in any order -/

/-- Where no name is bound twice, what is found are the entries. -/
lemma findBinding?_eq_some_iff {x : String} {v : Value} {entries : List (String × Value)}
    (h : (entries.map Prod.fst).Nodup) : findBinding? x entries = some v ↔ (x, v) ∈ entries := by
  refine ⟨mem_entries_of_find, fun hmem => ?_⟩
  induction entries with
  | nil => cases hmem
  | cons entry entries ih =>
    obtain ⟨n, w⟩ := entry
    rw [List.map_cons, List.nodup_cons] at h
    rw [findBinding?]
    rcases List.mem_cons.mp hmem with heq | hmem
    · cases heq
      rw [if_pos rfl]
    · have hne : n ≠ x := by
        rintro rfl
        exact h.1 (List.mem_map.mpr ⟨(n, v), hmem, rfl⟩)
      rw [if_neg hne]
      exact ih h.2 hmem

/-- The order of the entries does not matter if no name is bound twice. -/
lemma findBinding?_perm {x : String} {l l' : List (String × Value)} (h : l.Perm l')
    (hnodup : (l.map Prod.fst).Nodup) : findBinding? x l = findBinding? x l' := by
  have hnodup' : (l'.map Prod.fst).Nodup := (h.map Prod.fst).nodup_iff.mp hnodup
  apply Option.ext
  intro v
  rw [findBinding?_eq_some_iff hnodup, findBinding?_eq_some_iff hnodup', h.mem_iff]

namespace Bindings

/-- The bindings of several frames, of which the last is entered first, and `entries` over them. -/
def gather (orders : List (List (String × Value))) (entries : List (String × Value)) : Bindings :=
  (orders.foldr (fun order (outer : Bindings) => outer.insertAll order) ∅).insertAll entries

/-- The frames are gone through in order, but the bindings of a frame in any order. -/
theorem find?_gather {orders : List (List (String × Value))} {frames : List Frame}
    (h : List.Forall₂ (fun order frame => order.Perm frame.bindings.entries) orders frames)
    (entries : List (String × Value)) (x : String) :
    (gather orders entries).find? x =
      (findBinding? x entries.reverse).or (frames.findSome? (·.bindings.find? x)) := by
  rw [gather, find?_insertAll]
  congr 1
  induction h with
  | nil => rfl
  | @cons order frame orders frames hperm _ ih =>
    have hnodup : (order.map Prod.fst).Nodup :=
      (hperm.map Prod.fst).nodup_iff.mpr frame.bindings.nodup
    rw [List.foldr_cons, find?_insertAll, findBinding?_reverse hnodup,
      findBinding?_perm hperm hnodup, ih, List.findSome?_cons]
    show (frame.bindings.find? x).or _ = _
    cases frame.bindings.find? x <;> rfl

/-! ## Names in order -/

lemma mem_sortedNames {b : Bindings} {x : String} :
    x ∈ b.sortedNames ↔ (b.find? x).isSome := by
  rw [sortedNames, (List.mergeSort_perm _ _).mem_iff, isSome_find?_iff]

/-- The sorted names are in strictly increasing order; so none of them is there twice. -/
theorem pairwise_sortedNames (b : Bindings) : b.sortedNames.Pairwise (· < ·) := by
  have hle : b.sortedNames.Pairwise (· ≤ ·) := by
    have h := @List.pairwise_mergeSort _ (fun m n : String => decide (m ≤ n))
      (fun a b c hab hbc => by simpa using le_trans (of_decide_eq_true hab) (of_decide_eq_true hbc))
      (fun a b => by simpa using le_total a b) b.names
    exact h.imp fun h => of_decide_eq_true h
  have hne : b.sortedNames.Nodup := (List.mergeSort_perm _ _).nodup_iff.mpr b.nodup
  exact (hle.and hne).imp fun h => lt_of_le_of_ne h.1 h.2

end Bindings

namespace Store

variable {s : Store} {past past' : Frame → Prop} {env id e : FrameId} {x y : String} {v : Value}

/-! ## The way up to a frame -/

/-- Going from the frame `env` to its parent, and from there to the parent of that one, one comes to
the frame `id`; all frames that are left behind on the way have the property `past`. -/
inductive Ascends (s : Store) (past : Frame → Prop) (id : FrameId) : FrameId → Prop
  | here : Ascends s past id id
  | up {env parent : FrameId} {frame : Frame} (found : s.frames[env]? = some frame)
      (left : past frame) (up : frame.parent = some parent) (outer : Ascends s past id parent) :
      Ascends s past id env

/-- The frame `id` is `env` itself, or on the way up from there. -/
def Encloses (s : Store) (id env : FrameId) : Prop := s.Ascends (fun _ => True) id env

/-- Looking up a name from `env`, one comes to the frame `id` without meeting the name before. -/
def Exposes (s : Store) (id : FrameId) (x : String) (env : FrameId) : Prop :=
  s.Ascends (fun frame => frame.bindings.find? x = none) id env

lemma Ascends.mono (h : s.Ascends past id env) (hpast : ∀ frame, past frame → past' frame) :
    s.Ascends past' id env := by
  induction h with
  | here => exact .here
  | up found left up _ ih => exact .up found (hpast _ left) up ih

lemma Exposes.encloses (h : s.Exposes id x env) : s.Encloses id env := h.mono fun _ _ => trivial

/-! ## Definitions -/

lemma getElem?_define (s : Store) (e : FrameId) (x : String) (v : Value) (id : FrameId) :
    (s.define e x v).frames[id]? = (s.frames[id]?).map fun frame =>
      if e = id then { frame with bindings := frame.bindings.insert x v } else frame := by
  rw [define, Array.getElem?_modify]
  split
  · rfl
  · simp

lemma getElem?_define_of_ne (h : env ≠ id) : (s.define env x v).frames[id]? = s.frames[id]? := by
  rw [define, Array.getElem?_modify, if_neg h]

/-- A definition leaves a frame its parent, and all bindings but the one that is made. -/
lemma exists_define_frame {frame : Frame} (h : s.frames[id]? = some frame) (e : FrameId)
    (x : String) (v : Value) :
    ∃ frame', (s.define e x v).frames[id]? = some frame' ∧ frame'.parent = frame.parent ∧
      ∀ y, frame'.bindings.find? y =
        if y = x ∧ e = id then some v else frame.bindings.find? y := by
  have hframe := getElem?_define s e x v id
  rw [h, Option.map_some] at hframe
  by_cases hself : e = id
  · rw [if_pos hself] at hframe
    refine ⟨_, hframe, rfl, fun y => ?_⟩
    simp only [Bindings.find?_insert, hself, and_true]
  · rw [if_neg hself] at hframe
    exact ⟨_, hframe, rfl, fun y => by rw [if_neg fun hy => hself hy.2]⟩

/-- From a frame to which a frame is exposed, a definition in the latter is seen. -/
theorem lookup_define_of_exposes (h : s.Ordered) (he : e < s.next) (hexposes : s.Exposes e x env) :
    (s.define e x v).lookup env x = some v := by
  have hordered : (s.define e x v).Ordered := h.define e x v
  induction hexposes with
  | here =>
    obtain ⟨frame, hframe, -, hfind⟩ := exists_define_frame (Array.getElem?_eq_getElem he) e x v
    rw [lookup_of_frame hframe, hfind, if_pos ⟨rfl, rfl⟩, Option.some_or]
  | @up env parent frame found left up _ ih =>
    obtain ⟨frame', hframe', hparent, hfind⟩ := exists_define_frame found e x v
    rw [← hparent] at up
    rw [lookup_of_parent hframe' up (hordered _ _ _ hframe' up), hfind]
    by_cases hself : e = env
    · rw [if_pos ⟨rfl, hself⟩, Option.some_or]
    · rw [if_neg fun hx => hself hx.2, left, Option.none_or, ih]

/-- What is seen otherwise is what was seen before: other names, and the same name from frames to
which the frame of the definition is not exposed. -/
theorem lookup_define_of_not_exposes (h : ¬ (y = x ∧ s.Exposes e x env)) :
    (s.define e x v).lookup env y = s.lookup env y := by
  induction env using Nat.strongRecOn with
  | _ env ih =>
    cases hold : s.frames[env]? with
    | none =>
      have hnone := getElem?_define s e x v env
      rw [hold, Option.map_none] at hnone
      rw [lookup_of_none hold, lookup_of_none hnone]
    | some frame =>
      obtain ⟨frame', hframe', hparent, hfind⟩ := exists_define_frame hold e x v
      have hne : ¬ (y = x ∧ e = env) := by
        rintro ⟨rfl, rfl⟩
        exact h ⟨rfl, .here⟩
      rw [lookup_of_frame hframe', lookup_of_frame hold, hparent, hfind, if_neg hne]
      cases hy : frame.bindings.find? y with
      | some w => rfl
      | none =>
        rw [Option.none_or, Option.none_or]
        apply Option.bind_congr
        intro parent hmem
        obtain ⟨hup, hlt⟩ := Option.filter_eq_some_iff.mp hmem
        refine ih parent (by simpa using hlt) ?_
        rintro ⟨rfl, hexposes⟩
        exact h ⟨rfl, .up hold hy hup hexposes⟩

/-- What is seen in `t` is what is seen in `s`, except that from all frames to which the frame `e`
is exposed the name `x` is seen bound to `v`. -/
structure SeenWith (s : Store) (e : FrameId) (x : String) (v : Value) (t : Store) : Prop where
  exposed : ∀ env, s.Exposes e x env → t.lookup env x = some v
  others : ∀ env y, ¬ (y = x ∧ s.Exposes e x env) → t.lookup env y = s.lookup env y

/-- A definition is seen from the frames to which its frame is exposed, and changes nothing else. -/
theorem Ordered.seenWith_define (h : s.Ordered) (he : e < s.next) (x : String) (v : Value) :
    s.SeenWith e x v (s.define e x v) where
  exposed _ := lookup_define_of_exposes h he
  others _ _ := lookup_define_of_not_exposes

/-- A frame may be made before or after a definition in another one. -/
lemma push_define (s : Store) (frame : Frame) (he : e < s.next) :
    (s.define e x v).push frame = (s.push frame).define e x v := by
  have hframes : ((s.define e x v).push frame).frames =
      ((s.push frame).define e x v).frames := by
    apply Array.ext_getElem?
    intro id
    rw [getElem?_define]
    rcases Nat.lt_trichotomy id s.next with hlt | rfl | hgt
    · rw [(Unchanged.push _ frame).frames id (by simpa using hlt), getElem?_define,
        (Unchanged.push s frame).frames id hlt]
    · have hnext : s.next = (s.define e x v).next := (next_define s e x v).symm
      rw [getElem?_push_next, hnext, getElem?_push_next, Option.map_some, ← hnext,
        if_neg (Nat.ne_of_lt he)]
    · rw [Array.getElem?_eq_none, Array.getElem?_eq_none]
      · rfl
      · exact (next_push s frame).trans_le hgt
      · exact ((next_push _ frame).trans (by rw [next_define])).trans_le hgt
  exact congrArg Store.mk hframes

end Store

end SmallLisp
