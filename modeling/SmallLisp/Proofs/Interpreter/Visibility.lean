import SmallLisp.Proofs.Interpreter.Sessions
import SmallLisp.Proofs.Store.Visibility

/-!
# Definitions and snapshots in a session

At every point of a session it is the frames themselves that decide who sees a definition: those
from which the way up leads to the frame of the definition before it meets the name elsewhere
(`define_seen_where_exposed`).  A frame is referred to by its number, by however many owners; so it
does not matter through which of them it is extended.

A snapshot has no parent.  What is seen from it is all in its own frame, which changes by
definitions in that frame only, and these are made there or by code that is evaluated there
(`Session.spared`).  So whatever happens elsewhere in the rest of the session, a snapshot goes on
showing what was seen when it was made (`snapshot_detached`).
-/

namespace SmallLisp

/-! ## Definitions -/

/-- At every point of a session, a definition in the frame `e` is seen from exactly those frames
from which one comes to `e` on the way up before the name is met elsewhere; nothing else that is
seen changes.  This holds of frames that are there already, and of a frame inside any one of them
that is made only after the definition, which sees what it would see if it had been made before. -/
theorem define_seen_where_exposed [Machine] (s : State) (hs : Session (fun _ => True) {} s)
    (e : FrameId) (he : e < s.store.next) (x : String) (v : Value) :
    s.store.SeenWith e x v (s.define e x v).store ∧
    ∀ env < s.store.next, ∀ entries : List (String × Value),
      (s.newFrame (Frame.inside env entries)).2.store.SeenWith e x v
        ((s.define e x v).newFrame (Frame.inside env entries)).2.store := by
  have hordered : s.store.Ordered := (hs.founded .empty).1.ordered
  refine ⟨hordered.seenWith_define he x v, fun env henv entries => ?_⟩
  have hderived : (s.store.push (Frame.inside env entries)).Ordered := by
    refine hordered.push ?_
    rintro parent ⟨⟩
    exact henv
  show (s.store.push _).SeenWith e x v ((s.store.define e x v).push _)
  rw [Store.push_define s.store _ he]
  exact hderived.seenWith_define (by rw [Store.next_push]; exact Nat.lt_succ_of_lt he) x v

lemma Value.Within.int {m : Nat} (n : Int64) : (Value.int n).Within m := by
  intro c hc
  cases hc

section

open scoped Machine

/-- The frame 0 binds `x`, the frame 1 inside it does not, and the frame 2 inside that one does.
When `x` is bound again in the frame 0, this is seen from the frame 1 and from a frame that is made
inside it afterwards, but not from the frame 2. -/
theorem define_seen_where_exposed_shadowed :
    let new : State := (({} : State).newFrame {}).2
    let root : State := new.define 0 "x" (.int 1)
    let middle : State := (root.newFrame (Frame.inside 0 [])).2
    let s : State := (middle.newFrame (Frame.inside 1 [("x", .int 2)])).2
    let t : State := s.define 0 "x" (.int 5)
    t.store.lookup 1 "x" = some (.int 5) ∧
      (t.newFrame (Frame.inside 1 [])).2.store.lookup 3 "x" = some (.int 5) ∧
      t.store.lookup 2 "x" = some (.int 2) := by
  intro new root middle s t
  have hnew : Session (fun _ => True) {} new := .of_leads .new trivial trivial rfl
  have hroot : Session (fun _ => True) new root :=
    .of_leads (.define 0 "x" (.int 1)) trivial ⟨Nat.zero_lt_one, .int 1⟩ rfl
  have hmiddle : Session (fun _ => True) root middle :=
    .of_leads (.inside 0 []) trivial ⟨Nat.zero_lt_one, List.forall_mem_nil _⟩ rfl
  have hinner : Session (fun _ => True) middle s :=
    .of_leads (.inside 1 [("x", .int 2)]) trivial
      ⟨Nat.one_lt_two, List.forall_mem_singleton.mpr (.int 2)⟩ rfl
  obtain ⟨hseen, hderived⟩ := define_seen_where_exposed s
    (hnew.trans (hroot.trans (hmiddle.trans hinner))) 0 (by decide) "x" (.int 5)
  have hfar : ¬ s.store.Exposes 0 "x" 2 := by
    intro h
    cases h with
    | up found left up outer =>
      cases (Option.some.inj found : Frame.inside 1 [("x", .int 2)] = _)
      cases left
  refine ⟨hseen.exposed 1 (.up rfl rfl rfl .here), ?_, ?_⟩
  · exact (hderived 1 (by decide) []).exposed 3 (.up rfl rfl rfl (.up rfl rfl rfl .here))
  · rw [hseen.others 2 "x" fun h => hfar h.2]
    have hframe : s.store.frames[2]? = some (Frame.inside 1 [("x", .int 2)]) := rfl
    exact Store.lookup_of_parent hframe rfl Nat.one_lt_two

/-! ## Snapshots -/

end

/-- No code is evaluated in the frame `c` itself when the task is begun. -/
def Task.Avoids (c : FrameId) : Task → Prop
  | eval site _ | sequence site _ => site.env ≠ c
  | call .. => True

/-- The operation defines no name in the frame `c`, and evaluates nothing there. -/
def Operation.Spares (c : FrameId) : Operation → Prop
  | new | inside .. | snapshot .. | copy _ | other => True
  | define env .. => env ≠ c
  | evaluate _ task => task.Avoids c

namespace Invariant

variable {c : FrameId} {frame : Frame}

/-- The frame `c` is `frame`, and code is evaluated in other frames. -/
def spared (c : FrameId) (frame : Frame) : Invariant Unit where
  closure _ _ := True
  store _ s := s.frames[c]? = some frame
  code _ site _ := site.env ≠ c
  closure_mono _ h := h
  code_mono _ h := h

/-- An evaluation defines names where its code is; and the body of a closure, wherever that was
made, is evaluated in a new frame. -/
lemma kept_spared (config : Config) : (spared c frame).Kept config where
  lookup _ _ := fun _ _ => trivial
  part hcode _ _ := hcode
  lambda _ _ := trivial
  define hcode _ _ hs _ := (Store.getElem?_define_of_ne hcode).trans hs
  enter := by
    intro w s closure args env hs _ _ _
    have hlt : c < s.next := Store.lt_next_of_getElem? hs
    exact ⟨w, le_rfl, ((Store.Unchanged.push s _).frames c hlt).trans hs, Nat.ne_of_gt hlt⟩

end Invariant

variable {c : FrameId} {frame : Frame} {s t : State}

/-- An operation that spares a frame leaves it as it is. -/
lemma Operation.Leads.spared [Machine] {op : Operation} (h : op.Leads s t) (hop : op.Spares c)
    (hframe : s.store.frames[c]? = some frame) : t.store.frames[c]? = some frame := by
  have hpush (frame' : Frame) : (s.store.push frame').frames[c]? = some frame :=
    ((Store.Unchanged.push s.store frame').frames c (Store.lt_next_of_getElem? hframe)).trans hframe
  cases op with
  | new | inside | snapshot | copy =>
    obtain rfl := h
    exact hpush _
  | define env name value =>
    obtain rfl := h
    exact (Store.getElem?_define_of_ne hop).trans hframe
  | evaluate config task =>
    have htask : (Invariant.spared c frame).task () task := by
      cases task with
      | eval => exact hop
      | sequence => exact fun _ _ => hop
      | call => exact fun _ _ _ _ => trivial
    obtain ⟨_, _, ht⟩ := (Invariant.kept_spared config).passes htask hframe h
    exact ht
  | other =>
    rw [show t.store = s.store from h]
    exact hframe

/-- A frame stays as it is as long as nothing is defined in it. -/
lemma Session.spared [Machine] (h : Session (Operation.Spares c) s t)
    (hframe : s.store.frames[c]? = some frame) : t.store.frames[c]? = some frame := by
  induction h with
  | refl => exact hframe
  | tail _ hstep ih =>
    obtain ⟨op, hspares, -, hleads⟩ := hstep
    exact hleads.spared hspares ih

/-- At every point of a session, a snapshot of what is seen from `env` can be taken, with `entries`
over it.  It may go through the bindings of each frame in any order.  From the snapshot every name
is seen with the last value that `entries` bind it to, or else as it was seen from `env`; the
snapshot has no parent, and its names in order are those that were seen and those that are bound by
`entries`.  What is seen from it does not change by anything that is done to other frames, and
definitions in it are not seen from frames that do not lie in it. -/
theorem snapshot_detached [Machine] (s : State) (hs : Session (fun _ => True) {} s) (env : FrameId)
    (henv : env < s.store.next) (entries : List (String × Value)) :
    (∃ frames, s.store.Climbs env frames ∧ s.store.snapshot env entries =
      { bindings := .gather (frames.map (·.bindings.entries)) entries }) ∧
    ∀ frames orders, s.store.Climbs env frames →
      List.Forall₂ (fun order frame => order.Perm frame.bindings.entries) orders frames →
      let c := s.store.next
      let t := (s.newFrame { bindings := .gather orders entries }).2
      (∀ x, t.store.lookup c x = (findBinding? x entries.reverse).or (s.store.lookup env x)) ∧
      t.store.depth c = 1 ∧
      (t.store.locals c).sortedNames.Pairwise (· < ·) ∧
      (∀ x, x ∈ (t.store.locals c).sortedNames ↔
        (s.store.lookup env x).isSome ∨ x ∈ entries.map Prod.fst) ∧
      (∀ u, Session (Operation.Spares c) t u →
        ∀ x, u.store.lookup c x = t.store.lookup c x) ∧
      ∀ (u : State) (env' : FrameId), ¬ u.store.Encloses c env' →
        ∀ x v y, (u.define c x v).store.lookup env' y = u.store.lookup env' y := by
  have hordered : s.store.Ordered := (hs.founded .empty).1.ordered
  refine ⟨⟨s.store.chain env, hordered.climbs_chain henv, ?_⟩, ?_⟩
  · rw [Store.snapshot, Store.visible, Bindings.gather, List.foldr_map]
  intro frames orders hclimbs horders c t
  have hframes : frames = s.store.chain env := hordered.chain_eq hclimbs
  let frame : Frame := { bindings := .gather orders entries }
  have hframe : t.store.frames[c]? = some frame := Store.getElem?_push_next s.store frame
  have hfind (x : String) : frame.bindings.find? x =
      (findBinding? x entries.reverse).or (s.store.lookup env x) := by
    rw [Bindings.find?_gather horders, hframes]
    rfl
  have hlocals : t.store.locals c = frame.bindings := by
    rw [Store.locals, hframe]
  refine ⟨fun x => ?_, ?_, ?_, fun x => ?_, fun u hu x => ?_, fun u env' henclosed x v y => ?_⟩
  · rw [Store.lookup_of_root hframe rfl, hfind]
  · rw [Store.depth, Store.chain_of_root hframe rfl, List.length_singleton]
  · rw [hlocals]
    exact frame.bindings.pairwise_sortedNames
  · rw [hlocals, Bindings.mem_sortedNames, hfind, Option.isSome_or, Bool.or_eq_true,
      Option.isSome_iff_ne_none, Ne, findBinding?_eq_none_iff, not_not, List.map_reverse,
      List.mem_reverse, or_comm]
  · rw [Store.lookup_of_root (hu.spared hframe) rfl, Store.lookup_of_root hframe rfl]
  · exact Store.lookup_define_of_not_exposes fun h => henclosed h.2.encloses

section

open scoped Machine

/-- The frame 1 lies inside the frame 0, and both bind `x`.  A snapshot of what is seen from the
frame 1, for which the bindings of the frame 0 are gone through from the last one, shows the inner
`x`, the outer `y` and the last one of the two `z`.  It goes on showing them when `x` and `y` are
bound again outside of it; and when `y` is bound again in it, this is not seen from the frame 1. -/
theorem snapshot_detached_reordered :
    let new : State := (({} : State).newFrame {}).2
    let root : State := (new.define 0 "x" (.int 1)).define 0 "y" (.int 2)
    let s : State := (root.newFrame (Frame.inside 0 [("x", .int 3)])).2
    let orders := [[("x", .int 3)], [("y", .int 2), ("x", .int 1)]]
    let t := (s.newFrame { bindings := .gather orders [("z", .int 4), ("z", .int 5)] }).2
    let u := (t.define 1 "x" (.int 8)).define 0 "y" (.int 9)
    u.store.lookup 2 "x" = some (.int 3) ∧ u.store.lookup 2 "y" = some (.int 2) ∧
      u.store.lookup 2 "z" = some (.int 5) ∧ t.store.depth 2 = 1 ∧
      (u.define 2 "y" (.int 7)).store.lookup 1 "y" = u.store.lookup 1 "y" := by
  intro new root s orders t u
  have hnew : Session (fun _ => True) {} new := .of_leads .new trivial trivial rfl
  have hx : Session (fun _ => True) new (new.define 0 "x" (.int 1)) :=
    .of_leads (.define 0 "x" (.int 1)) trivial ⟨Nat.zero_lt_one, .int 1⟩ rfl
  have hy : Session (fun _ => True) (new.define 0 "x" (.int 1)) root :=
    .of_leads (.define 0 "y" (.int 2)) trivial ⟨Nat.zero_lt_one, .int 2⟩ rfl
  have hs : Session (fun _ => True) root s :=
    .of_leads (.inside 0 [("x", .int 3)]) trivial
      ⟨Nat.zero_lt_one, List.forall_mem_singleton.mpr (.int 3)⟩ rfl
  let outer : Frame := { bindings := ((∅ : Bindings).insert "x" (.int 1)).insert "y" (.int 2) }
  let inner : Frame := Frame.inside 0 [("x", .int 3)]
  have houter : s.store.frames[0]? = some outer := rfl
  have hinner : s.store.frames[1]? = some inner := rfl
  have hclimbs : s.store.Climbs 1 [inner, outer] := .inside hinner rfl (.outermost houter rfl)
  have horders : List.Forall₂ (fun order frame => order.Perm frame.bindings.entries) orders
      [inner, outer] :=
    .cons (.refl _) (.cons (.swap _ _ _) .nil)
  obtain ⟨hlookup, hdepth, -, -, hlater, hdetached⟩ :=
    (snapshot_detached s (hnew.trans (hx.trans (hy.trans hs))) 1 (by decide)
      [("z", .int 4), ("z", .int 5)]).2 [inner, outer] orders hclimbs horders
  have ht : Session (Operation.Spares 2) t (t.define 1 "x" (.int 8)) :=
    .of_leads (.define 1 "x" (.int 8)) (Nat.ne_of_lt Nat.one_lt_two) ⟨by decide, .int 8⟩ rfl
  have hu : Session (Operation.Spares 2) (t.define 1 "x" (.int 8)) u :=
    .of_leads (.define 0 "y" (.int 9)) (Nat.ne_of_lt Nat.zero_lt_two) ⟨by decide, .int 9⟩ rfl
  have hseen (x : String) :
      s.store.lookup 1 x = (inner.bindings.find? x).or (outer.bindings.find? x) := by
    rw [Store.lookup_of_parent hinner rfl Nat.zero_lt_one, Store.lookup_of_root houter rfl]
  have hshown (x : String) : u.store.lookup 2 x =
      (findBinding? x [("z", .int 5), ("z", .int 4)]).or (s.store.lookup 1 x) :=
    (hlater u (ht.trans hu) x).trans (hlookup x)
  refine ⟨?_, ?_, ?_, hdepth, hdetached u 1 ?_ "y" (.int 7) "y"⟩
  · rw [hshown, hseen]
    rfl
  · rw [hshown, hseen]
    rfl
  · rw [hshown]
    rfl
  · intro h
    cases h with
    | up found _ up outer =>
      cases Option.some.inj found
      cases up
      cases outer with
      | up found _ up _ =>
        cases Option.some.inj found
        cases up

end

end SmallLisp
