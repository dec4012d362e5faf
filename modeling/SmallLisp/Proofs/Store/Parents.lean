import SmallLisp.Proofs.Evaluation.Lookup

/-!
# From parent to parent

Looking up a name, taking a snapshot and counting frames all go from a frame to its parent, and on
to the outermost frame.  Nothing in a frame keeps that from going round in circles.  What does is
that a frame is made with a parent that is there already, and keeps it: then parents are older than
the frames that refer to them (`Store.Ordered`), and the way up always ends
(`Store.Ordered.climbs_iff`).

Stores only ever grow (`Store.Grows`): no frame disappears, none gets another parent, and none
loses a name.  So what is seen from a frame stays there to be seen (`Store.Grows.isSome_lookup`).
-/

namespace SmallLisp

lemma Bindings.isSome_find?_iff {b : Bindings} {x : String} : (b.find? x).isSome ↔ x ∈ b.names := by
  rw [Option.isSome_iff_ne_none, Ne, Bindings.find?, findBinding?_eq_none_iff, not_not]
  rfl

/-- Only under lexical scoping is a frame for a call made inside another one, namely inside that in
which the closure was made. -/
lemma Config.parent_callFrame {config : Config} {s : Store} {env parent : FrameId} {c : Closure}
    {args : List Value} (h : (config.callFrame s env c args).parent = some parent) :
    config.scoping = .lexical ∧ parent = c.env := by
  unfold Config.callFrame at h
  split at h
  · next hlexical => exact ⟨hlexical, (Option.some.inj h).symm⟩
  · cases h

namespace Store

variable {s t u : Store} {env id : FrameId} {frame : Frame} {x : String} {v : Value}

/-! ## The way up -/

/-- Going from the frame `env` to its parent, and from there to the parent of that one, leads
through these frames, and then there is no further parent. -/
inductive Climbs (s : Store) : FrameId → List Frame → Prop
  | outermost {env : FrameId} {frame : Frame} (found : s.frames[env]? = some frame)
      (root : frame.parent = none) : Climbs s env [frame]
  | inside {env parent : FrameId} {frame : Frame} {rest : List Frame}
      (found : s.frames[env]? = some frame) (up : frame.parent = some parent)
      (outer : Climbs s parent rest) : Climbs s env (frame :: rest)

/-- Every parent is older than the frame that refers to it. -/
def Ordered (s : Store) : Prop :=
  ∀ (id : FrameId) (frame : Frame) (parent : FrameId), s.frames[id]? = some frame →
    frame.parent = some parent → parent < id

lemma chain_of_root (h : s.frames[env]? = some frame) (root : frame.parent = none) :
    s.chain env = [frame] := by
  rw [chain, h]
  simp only [root]

lemma chain_of_parent {parent : FrameId} (h : s.frames[env]? = some frame)
    (up : frame.parent = some parent) (hlt : parent < env) :
    s.chain env = frame :: s.chain parent := by
  rw [chain, h]
  simp only [up, hlt, if_true]

namespace Ordered

/-- The frames that are passed on the way up are those that lookups and snapshots go through. -/
lemma chain_eq (h : s.Ordered) {frames : List Frame} (hclimbs : s.Climbs env frames) :
    frames = s.chain env := by
  induction hclimbs with
  | outermost found root => rw [chain_of_root found root]
  | inside found up _ ih => rw [chain_of_parent found up (h _ _ _ found up), ih]

/-- From every frame the way up ends. -/
lemma climbs_chain (h : s.Ordered) (henv : env < s.next) : s.Climbs env (s.chain env) := by
  induction env using Nat.strongRecOn with
  | _ env ih =>
    obtain ⟨frame, hframe⟩ : ∃ frame, s.frames[env]? = some frame :=
      ⟨_, Array.getElem?_eq_getElem henv⟩
    cases hparent : frame.parent with
    | none =>
      rw [chain_of_root hframe hparent]
      exact .outermost hframe hparent
    | some parent =>
      have hlt : parent < env := h _ _ _ hframe hparent
      rw [chain_of_parent hframe hparent hlt]
      exact .inside hframe hparent (ih parent hlt (Nat.lt_trans hlt henv))

/-- From every frame there is one way up, which ends, and it is the one that lookups go. -/
theorem climbs_iff (h : s.Ordered) (henv : env < s.next) {frames : List Frame} :
    s.Climbs env frames ↔ frames = s.chain env := by
  refine ⟨h.chain_eq, ?_⟩
  rintro rfl
  exact h.climbs_chain henv

lemma empty : Ordered {} := by
  intro id frame parent hframe
  cases hframe

/-- A frame is made whose parent is there already. -/
lemma push (h : s.Ordered) (hframe : ∀ parent, frame.parent = some parent → parent < s.next) :
    (s.push frame).Ordered := by
  intro id frame' parent hid hparent
  rcases getElem?_push_cases hid with hold | ⟨rfl, rfl⟩
  · exact h id frame' parent hold hparent
  · exact hframe parent hparent

/-- Definitions leave parents alone. -/
lemma define (h : s.Ordered) (env : FrameId) (x : String) (v : Value) :
    (s.define env x v).Ordered := by
  intro id frame parent hid hparent
  obtain ⟨old, hold, hsame, -⟩ := exists_frame_of_define hid
  exact h id old parent hold (hsame.symm.trans hparent)

end Ordered

/-! ## Growing -/

/-- Every frame of `s` is still there in `t`, with the same parent and with all its names. -/
def Grows (s t : Store) : Prop :=
  ∀ (id : FrameId) (frame : Frame), s.frames[id]? = some frame →
    ∃ frame', t.frames[id]? = some frame' ∧ frame'.parent = frame.parent ∧
      frame.bindings.names ⊆ frame'.bindings.names

namespace Grows

lemma refl (s : Store) : s.Grows s := fun _ _ h => ⟨_, h, rfl, List.Subset.refl _⟩

lemma trans (hst : s.Grows t) (htu : t.Grows u) : s.Grows u := by
  intro id frame h
  obtain ⟨frame', h', hparent, hnames⟩ := hst id frame h
  obtain ⟨frame'', h'', hparent', hnames'⟩ := htu id frame' h'
  exact ⟨frame'', h'', hparent'.trans hparent, List.Subset.trans hnames hnames'⟩

lemma push (s : Store) (frame : Frame) : s.Grows (s.push frame) := by
  intro id frame' h
  exact ⟨frame', ((Unchanged.push s frame).frames id (lt_next_of_getElem? h)).trans h, rfl,
    List.Subset.refl _⟩

lemma define (s : Store) (env : FrameId) (x : String) (v : Value) : s.Grows (s.define env x v) := by
  intro id frame h
  simp only [Store.define, Array.getElem?_modify, h]
  split
  · refine ⟨_, rfl, rfl, ?_⟩
    rw [Bindings.names_insert]
    split
    · exact List.Subset.refl _
    · exact List.subset_append_left _ _
  · exact ⟨frame, rfl, rfl, List.Subset.refl _⟩

lemma next_le (h : s.Grows t) : s.next ≤ t.next := by
  by_contra hlt
  have hlast : t.next < s.next := Nat.lt_of_not_le hlt
  obtain ⟨frame', hframe', -⟩ := h t.next _ (Array.getElem?_eq_getElem hlast)
  exact absurd (lt_next_of_getElem? hframe') (Nat.lt_irrefl t.next)

/-- A frame stays as far from the outermost one as it was. -/
theorem depth_eq (h : s.Grows t) (henv : env < s.next) : t.depth env = s.depth env := by
  induction env using Nat.strongRecOn with
  | _ env ih =>
    obtain ⟨frame, hframe⟩ : ∃ frame, s.frames[env]? = some frame :=
      ⟨_, Array.getElem?_eq_getElem henv⟩
    obtain ⟨frame', hframe', hparent, -⟩ := h env frame hframe
    unfold depth at ih ⊢
    rw [chain, chain, hframe, hframe']
    simp only [hparent]
    cases frame.parent with
    | none => rfl
    | some parent =>
      simp only
      split
      · next hlt =>
        rw [List.length_cons, List.length_cons, ih parent hlt (Nat.lt_trans hlt henv)]
      · rfl

/-- What is seen from a frame stays visible. -/
theorem isSome_lookup (h : s.Grows t) (hx : (s.lookup env x).isSome) : (t.lookup env x).isSome := by
  induction env using Nat.strongRecOn with
  | _ env ih =>
    cases hframe : s.frames[env]? with
    | none =>
      rw [lookup_of_none hframe] at hx
      cases hx
    | some frame =>
      obtain ⟨frame', hframe', hparent, hnames⟩ := h env frame hframe
      rw [lookup_of_frame hframe, Option.isSome_or, Bool.or_eq_true] at hx
      rw [lookup_of_frame hframe', Option.isSome_or, Bool.or_eq_true, hparent]
      refine hx.imp (fun hx => ?_) ?_
      · exact Bindings.isSome_find?_iff.mpr (hnames (Bindings.isSome_find?_iff.mp hx))
      · cases hup : frame.parent.filter (· < env) with
        | none => exact fun hx => hx
        | some parent =>
          have hlt : parent < env := by simpa using (Option.filter_eq_some_iff.mp hup).2
          exact ih parent hlt

end Grows

/-- A frame that is made inside another one is one step farther from the outermost one. -/
lemma depth_push_next {parent : FrameId} (h : frame.parent = some parent) (hlt : parent < s.next) :
    (s.push frame).depth s.next = s.depth parent + 1 := by
  rw [← (Grows.push s frame).depth_eq hlt, depth,
    chain_of_parent (getElem?_push_next s frame) h hlt, List.length_cons, depth]

end Store

end SmallLisp
