import SmallLisp.Proofs.Evaluation.Isolation

/-!
# What is seen from a frame

Looking up a name goes from parent to parent, and a snapshot copies what is seen.  Here is said what
each of them finds, in terms of single frames (`Store.lookup_of_frame`, `Store.find?_visible`), that
both find the same after an evaluation that defines nothing (`Store.ChangedAt.lookup_eq`), and what
is seen from the frames that are made for a call (`Store.lookup_inside`, `Store.lookup_snapshot`).
-/

namespace SmallLisp

variable {x : String} {v : Value}

/-! ## Bindings -/

lemma findBinding?_append (l r : List (String × Value)) :
    findBinding? x (l ++ r) = (findBinding? x l).or (findBinding? x r) := by
  induction l with
  | nil => rfl
  | cons entry l ih =>
    obtain ⟨n, w⟩ := entry
    rw [List.cons_append, findBinding?, findBinding?, ih]
    split <;> rfl

lemma mem_entries_of_find {entries : List (String × Value)} (h : findBinding? x entries = some v) :
    (x, v) ∈ entries := by
  induction entries with
  | nil => cases h
  | cons entry entries ih =>
    obtain ⟨n, w⟩ := entry
    rw [findBinding?] at h
    split at h
    · next hn =>
      cases h
      rw [hn]
      exact List.mem_cons_self
    · exact List.mem_cons_of_mem _ (ih h)

lemma findBinding?_eq_none_iff {entries : List (String × Value)} :
    findBinding? x entries = none ↔ x ∉ entries.map Prod.fst := by
  induction entries with
  | nil => simp [findBinding?]
  | cons entry entries ih =>
    obtain ⟨n, w⟩ := entry
    rw [findBinding?]
    split
    · next hn => simp [hn]
    · next hn => simp [ih, Ne.symm hn]

/-- The order of entries does not matter if no name is bound twice. -/
lemma findBinding?_reverse {entries : List (String × Value)} (h : (entries.map Prod.fst).Nodup) :
    findBinding? x entries.reverse = findBinding? x entries := by
  induction entries with
  | nil => rfl
  | cons entry entries ih =>
    obtain ⟨n, w⟩ := entry
    rw [List.map_cons, List.nodup_cons] at h
    rw [List.reverse_cons, findBinding?_append, ih h.2]
    simp only [findBinding?]
    split
    · next hn =>
      subst hn
      rw [findBinding?_eq_none_iff.mpr h.1]
      rfl
    · exact Option.or_none

namespace Bindings

/-- The last of several bindings of a name wins, and all of them win over earlier ones. -/
theorem find?_insertAll (b : Bindings) (entries : List (String × Value)) :
    (b.insertAll entries).find? x = (findBinding? x entries.reverse).or (b.find? x) := by
  induction entries generalizing b with
  | nil => rfl
  | cons entry entries ih =>
    obtain ⟨n, w⟩ := entry
    change ((b.insert n w).insertAll entries).find? x = _
    rw [ih, List.reverse_cons, findBinding?_append, Option.or_assoc, find?_insert, findBinding?]
    congr 1
    by_cases hn : n = x
    · simp [hn]
    · simp [hn, Ne.symm hn, findBinding?]

/-- Adding all bindings of another map, those of the latter win. -/
lemma find?_insertAll_entries (b b' : Bindings) :
    (b.insertAll b'.entries).find? x = (b'.find? x).or (b.find? x) := by
  rw [find?_insertAll, findBinding?_reverse b'.nodup]
  rfl

lemma mem_or_find?_of_insertAll {b : Bindings} {entries : List (String × Value)}
    (h : (b.insertAll entries).find? x = some v) : (x, v) ∈ entries ∨ b.find? x = some v := by
  rw [find?_insertAll] at h
  cases hentry : findBinding? x entries.reverse with
  | some w =>
    rw [hentry] at h
    cases h
    exact .inl (List.mem_reverse.mp (mem_entries_of_find hentry))
  | none =>
    rw [hentry] at h
    exact .inr h

end Bindings

/-! ## Looking up -/

namespace Store

variable {s t : Store} {env : FrameId} {frame : Frame}

lemma lookup_of_none (h : s.frames[env]? = none) : s.lookup env x = none := by
  rw [lookup, chain, h]
  rfl

/-- A name is looked up in the frame, and then in its parent. -/
theorem lookup_of_frame (h : s.frames[env]? = some frame) :
    s.lookup env x = (frame.bindings.find? x).or
      ((frame.parent.filter (· < env)).bind fun parent => s.lookup parent x) := by
  rw [lookup, chain, h]
  cases hparent : frame.parent with
  | none =>
    simp only [hparent, List.findSome?_cons, List.findSome?_nil, Option.filter_none,
      Option.bind_none, Option.or_none]
    cases frame.bindings.find? x <;> rfl
  | some parent =>
    by_cases hlt : parent < env
    · simp only [hparent, hlt, if_true, List.findSome?_cons, Option.filter_some, decide_true,
        Option.bind_some]
      cases frame.bindings.find? x <;> rfl
    · simp only [hparent, hlt, if_false, List.findSome?_cons, List.findSome?_nil,
        Option.filter_some, decide_false, Bool.false_eq_true, Option.bind_none, Option.or_none]
      cases frame.bindings.find? x <;> rfl

/-- Without a parent, what a frame binds is all that is seen from it. -/
lemma lookup_of_root (h : s.frames[env]? = some frame) (hroot : frame.parent = none) :
    s.lookup env x = frame.bindings.find? x := by
  rw [lookup_of_frame h, hroot]
  exact Option.or_none

lemma lookup_of_parent {parent : FrameId} (h : s.frames[env]? = some frame)
    (hparent : frame.parent = some parent) (hlt : parent < env) :
    s.lookup env x = (frame.bindings.find? x).or (s.lookup parent x) := by
  rw [lookup_of_frame h, hparent]
  simp only [Option.filter_some, hlt, decide_true, if_true, Option.bind_some]

/-- What is seen from a frame are the names that can be looked up. -/
theorem find?_visible (s : Store) (env : FrameId) (x : String) :
    (s.visible env).find? x = s.lookup env x := by
  unfold visible lookup
  induction s.chain env with
  | nil => rfl
  | cons frame chain ih =>
    rw [List.foldr_cons, Bindings.find?_insertAll_entries, ih, List.findSome?_cons]
    cases frame.bindings.find? x <;> rfl

/-- What is found is bound in some frame. -/
lemma exists_frame_of_lookup (h : s.lookup env x = some v) :
    ∃ (id : FrameId) (frame : Frame), s.frames[id]? = some frame ∧
      frame.bindings.find? x = some v := by
  induction env using Nat.strongRecOn with
  | _ env ih =>
    cases hframe : s.frames[env]? with
    | none =>
      rw [lookup_of_none hframe] at h
      cases h
    | some frame =>
      rw [lookup_of_frame hframe] at h
      cases hx : frame.bindings.find? x with
      | some w =>
        rw [hx] at h
        cases h
        exact ⟨env, frame, hframe, hx⟩
      | none =>
        rw [hx, Option.none_or, Option.bind_eq_some_iff] at h
        obtain ⟨parent, hparent, h⟩ := h
        have hlt : parent < env := by simpa using (Option.filter_eq_some_iff.mp hparent).2
        exact ih parent hlt h

/-! ## After an evaluation -/

namespace ChangedAt

/-- An evaluation that defines nothing leaves every frame with its parent and its bindings. -/
lemma frame_of_nil (h : s.ChangedAt env [] t) {id : FrameId} (hframe : s.frames[id]? = some frame) :
    ∃ frame', t.frames[id]? = some frame' ∧ frame'.parent = frame.parent ∧
      ∀ x, frame'.bindings.find? x = frame.bindings.find? x := by
  by_cases hid : id = env
  · subst hid
    obtain ⟨frame', hframe', hparent, hfind⟩ := h.own frame hframe
    exact ⟨frame', hframe', hparent, fun x => hfind x List.not_mem_nil⟩
  · exact ⟨frame, (h.others id (lt_next_of_getElem? hframe) hid).trans hframe, rfl, fun _ => rfl⟩

/-- An evaluation that defines nothing leaves what is seen as it was. -/
theorem lookup_eq (h : s.ChangedAt env [] t) {id : FrameId} (hid : id < s.next) (x : String) :
    t.lookup id x = s.lookup id x := by
  induction id using Nat.strongRecOn with
  | _ id ih =>
    obtain ⟨frame, hframe⟩ : ∃ frame, s.frames[id]? = some frame :=
      ⟨_, Array.getElem?_eq_getElem hid⟩
    obtain ⟨frame', hframe', hparent, hfind⟩ := h.frame_of_nil hframe
    rw [lookup_of_frame hframe, lookup_of_frame hframe', hfind, hparent]
    congr 1
    apply Option.bind_congr
    intro parent hmem
    have hlt : parent < id := by simpa using (Option.filter_eq_some_iff.mp hmem).2
    exact ih parent hlt (Nat.lt_trans hlt hid)

end ChangedAt

lemma Unchanged.lookup_eq (h : s.Unchanged t) {id : FrameId} (hid : id < s.next) (x : String) :
    t.lookup id x = s.lookup id x :=
  (h.changedAt id []).lookup_eq hid x

/-- A new frame leaves what is seen from the others as it was. -/
lemma lookup_push (frame : Frame) {id : FrameId} (hid : id < s.next) (x : String) :
    (s.push frame).lookup id x = s.lookup id x :=
  (Unchanged.push s frame).lookup_eq hid x

lemma getElem?_push_next (s : Store) (frame : Frame) :
    (s.push frame).frames[s.next]? = some frame := by
  simp [push, next]

/-- A frame of the store after a new one is one from before, or the new one. -/
lemma getElem?_push_cases {frame frame' : Frame} {id : FrameId}
    (h : (s.push frame).frames[id]? = some frame') :
    s.frames[id]? = some frame' ∨ id = s.next ∧ frame' = frame := by
  rcases Nat.lt_or_ge id s.next with hlt | hge
  · exact .inl ((Unchanged.push s frame).frames id hlt ▸ h)
  · have hle : id < s.next + 1 := next_push s frame ▸ lt_next_of_getElem? h
    obtain rfl : id = s.next := Nat.le_antisymm (Nat.le_of_lt_succ hle) hge
    rw [getElem?_push_next] at h
    exact .inr ⟨rfl, (Option.some.inj h).symm⟩

/-- A frame of the store after a definition is one from before, and no name in it is bound to
anything but what it was bound to before or the new value. -/
lemma exists_frame_of_define {env id : FrameId} {x : String} {v : Value} {frame : Frame}
    (h : (s.define env x v).frames[id]? = some frame) :
    ∃ old, s.frames[id]? = some old ∧ frame.parent = old.parent ∧
      ∀ y, frame.bindings.find? y = old.bindings.find? y ∨
        frame.bindings.find? y = some v := by
  rw [define, Array.getElem?_modify] at h
  split at h
  · obtain ⟨old, hold, rfl⟩ := Option.map_eq_some_iff.mp h
    refine ⟨old, hold, rfl, fun y => ?_⟩
    rw [Bindings.find?_insert]
    split
    · exact .inr rfl
    · exact .inl rfl
  · exact ⟨frame, h, rfl, fun _ => .inl rfl⟩

/-! ## Frames made from others -/

variable {entries : List (String × Value)}

/-- In a new frame inside an older one, what the latter sees is behind the entries. -/
theorem lookup_inside (henv : env < s.next) :
    (s.push (Frame.inside env entries)).lookup s.next x =
      (findBinding? x entries.reverse).or (s.lookup env x) := by
  rw [lookup_of_parent (getElem?_push_next s _) rfl henv, lookup_push _ henv, Frame.inside,
    Bindings.find?_insertAll, Bindings.find?_empty, Option.or_none]

/-- In a snapshot, what was seen when it was made is behind the entries. -/
theorem lookup_snapshot :
    (s.push (s.snapshot env entries)).lookup s.next x =
      (findBinding? x entries.reverse).or (s.lookup env x) := by
  rw [lookup_of_root (getElem?_push_next s _) rfl, snapshot, Bindings.find?_insertAll,
    find?_visible]

end Store

end SmallLisp
