import SmallLisp.Proofs.Evaluation.Invariant
import SmallLisp.Proofs.Interpreter.Reachable
import SmallLisp.Proofs.Store.Parents

/-!
# Sessions

The owner of a state can make frames, of their own, inside others or as copies, bind names, and
evaluate what they like under any settings.  An `Operation` is one such thing to do, and a `Session`
is any number of them, one after the other.  The owner is free in all that, as long as what they
refer to exists.

Over a whole session the store stays `Store.Founded`: every parent is older than the frame that
refers to it, and closures were made in frames that exist.  This is what it takes for every walk
from parent to parent to end.  And the store grows: frames stay where they are, with their parents
and their names (`session_founded`).  An evaluation is a part of a session at every point, whether
it ends or not.
-/

namespace SmallLisp

/-! ## What exists -/

/-- All closures in the value were made in one of the first `n` frames. -/
def Value.Within (n : Nat) (v : Value) : Prop := ∀ c ∈ v.closures, c.env < n

/-- The task refers to the first `n` frames only. -/
def Task.Within (n : Nat) : Task → Prop
  | eval site _ | sequence site _ => site.env < n
  | call env callee args => env < n ∧ ∀ v ∈ callee :: args, v.Within n

namespace Store

/-- Parents are older than the frames that refer to them, and all closures that are bound were made
in frames that exist. -/
structure Founded (s : Store) : Prop where
  ordered : s.Ordered
  within : s.Binds (·.env < s.next)

/-- No frame but the first `n` has a parent. -/
def ParentlessFrom (n : Nat) (s : Store) : Prop :=
  ∀ (id : FrameId) (frame : Frame), n ≤ id → s.frames[id]? = some frame → frame.parent = none

variable {s t u : Store} {frame : Frame} {env : FrameId} {x : String} {v : Value}

namespace Founded

lemma empty : Founded {} where
  ordered := .empty
  within := by
    intro id frame x v hframe
    cases hframe

lemma push (h : s.Founded) (hparent : ∀ parent, frame.parent = some parent → parent < s.next)
    (hbindings : ∀ x v, frame.bindings.find? x = some v → v.Within s.next) :
    (s.push frame).Founded where
  ordered := h.ordered.push hparent
  within := (h.within.push hbindings).mono fun _ hc => Nat.lt_of_lt_of_le hc (by simp)

lemma define (h : s.Founded) (hv : v.Within s.next) : (s.define env x v).Founded where
  ordered := h.ordered.define env x v
  within := (h.within.define hv).mono fun _ hc => by simpa using hc

end Founded

namespace ParentlessFrom

variable {n : Nat}

lemma push (h : s.ParentlessFrom n) (hframe : frame.parent = none) :
    (s.push frame).ParentlessFrom n := by
  intro id frame' hn hid
  rcases getElem?_push_cases hid with hold | ⟨-, rfl⟩
  · exact h id frame' hn hold
  · exact hframe

lemma define (h : s.ParentlessFrom n) (env : FrameId) (x : String) (v : Value) :
    (s.define env x v).ParentlessFrom n := by
  intro id frame hn hid
  obtain ⟨old, hold, hsame, -⟩ := exists_frame_of_define hid
  exact hsame.trans (h id old hn hold)

end ParentlessFrom

/-- The copy of a frame that exists is that frame. -/
lemma getElem?_copy (h : env < s.next) : s.frames[env]? = some (s.copy env) := by
  rw [copy, Array.getElem?_eq_getElem h]
  rfl

end Store

/-! ## Evaluations -/

namespace Invariant

/-- Evaluations make frames inside older ones only, and take nothing away from a store. -/
lemma kept_ordered (config : Config) (before : Store) :
    (frames fun s => s.Ordered ∧ before.Grows s).Kept config := by
  refine kept_frames ?_ ?_
  · rintro s env name v ⟨hordered, hgrows⟩
    exact ⟨hordered.define env name v, hgrows.trans (.define s env name v)⟩
  · rintro s env c args hc ⟨hordered, hgrows⟩
    refine ⟨hordered.push fun parent hparent => ?_, hgrows.trans (.push s _)⟩
    rwa [(Config.parent_callFrame hparent).2]

/-- Evaluations under flat scoping make frames without parents. -/
lemma kept_parentless {config : Config} (hflat : config.scoping = .flat) (n : Nat) :
    (frames (Store.ParentlessFrom n)).Kept config := by
  refine kept_frames (fun s env name v h => h.define env name v) fun s env c args _ h => ?_
  refine h.push (Option.eq_none_iff_forall_ne_some.mpr fun parent hparent => ?_)
  cases hflat.symm.trans (Config.parent_callFrame hparent).1

/-- A property of the store that evaluations keep holds in all states that a task passes. -/
lemma holds_of_passes [Machine] {P : Store → Prop} {config : Config} {task : Task} {s t : State}
    (hkept : (frames P).Kept config) (hs : s.store.Founded) (hP : P s.store)
    (htask : task.Within s.store.next) (h : task.Passes config s t) :
    t.store.Binds (·.env < t.store.next) ∧ P t.store := by
  have ht : (frames P).task s.store.next task := by
    cases task with
    | eval site form => exact htask
    | sequence site forms => exact fun _ _ => htask
    | call env callee args => exact htask.2
  obtain ⟨n, -, hnext, hbinds, hP⟩ := hkept.passes ht ⟨rfl, hs.within, hP⟩ h
  exact ⟨hnext ▸ hbinds, hP⟩

end Invariant

/-! ## Operations -/

/-- What can be done with a state. -/
inductive Operation where
  /-- An empty frame of its own is made. -/
  | new
  /-- A frame inside another one is made. -/
  | inside (env : FrameId) (entries : List (String × Value))
  /-- A frame of its own is made that binds what is seen from another one. -/
  | snapshot (env : FrameId) (entries : List (String × Value))
  /-- A frame is copied, with its parent. -/
  | copy (env : FrameId)
  | define (env : FrameId) (name : String) (value : Value)
  /-- Something is evaluated, to its end or to any point on the way. -/
  | evaluate (config : Config) (task : Task)
  /-- Something is done that leaves the store as it is, like looking up a name. -/
  | other

namespace Operation

/-- All that the operation refers to is among the first `n` frames. -/
def Within (n : Nat) : Operation → Prop
  | new | other => True
  | inside env entries | snapshot env entries => env < n ∧ ∀ entry ∈ entries, entry.2.Within n
  | copy env => env < n
  | define env _ value => env < n ∧ value.Within n
  | evaluate _ task => task.Within n

variable [Machine]

/-- The operation leads from one state to the other one. -/
def Leads : Operation → State → State → Prop
  | new, s, t => t = (s.newFrame {}).2
  | inside env entries, s, t => t = (s.newFrame (Frame.inside env entries)).2
  | snapshot env entries, s, t => t = (s.newFrame (s.store.snapshot env entries)).2
  | copy env, s, t => t = (s.newFrame (s.store.copy env)).2
  | define env name value, s, t => t = s.define env name value
  | evaluate config task, s, t => task.Passes config s t
  | other, s, t => t.store = s.store

/-- The operation makes no frame inside another one. -/
def Flat : Operation → Prop
  | new | snapshot .. | define .. | other => True
  | inside .. | copy _ => False
  | evaluate config _ => config.scoping = .flat

variable {op : Operation} {s t : State}

namespace Leads

/-- Operations keep the store founded, and it grows by them. -/
theorem founded (h : op.Leads s t) (hop : op.Within s.store.next) (hs : s.store.Founded) :
    t.store.Founded ∧ s.store.Grows t.store := by
  have hpush {frame : Frame}
      (hparent : ∀ parent, frame.parent = some parent → parent < s.store.next)
      (hbindings : ∀ x v, frame.bindings.find? x = some v → v.Within s.store.next) :
      (s.store.push frame).Founded ∧ s.store.Grows (s.store.push frame) :=
    ⟨hs.push hparent hbindings, .push s.store frame⟩
  cases op with
  | new =>
    obtain rfl := h
    exact hpush (fun _ h => by cases h) (fun _ _ h => by cases h)
  | inside env entries =>
    obtain ⟨henv, hentries⟩ := hop
    obtain rfl := h
    refine hpush ?_ (Store.Binds.inside hentries)
    rintro parent ⟨⟩
    exact henv
  | snapshot env entries =>
    obtain rfl := h
    exact hpush (fun _ h => by cases h) (hs.within.snapshot hop.2)
  | copy env =>
    obtain rfl := h
    have hframe := Store.getElem?_copy hop
    refine hpush (fun parent hparent => ?_) fun x v hx => hs.within env _ x v hframe hx
    exact Nat.lt_trans (hs.ordered env _ parent hframe hparent) hop
  | define env name value =>
    obtain rfl := h
    exact ⟨hs.define hop.2, .define s.store env name value⟩
  | evaluate config task =>
    obtain ⟨hwithin, hordered, hgrows⟩ := Invariant.holds_of_passes
      (Invariant.kept_ordered config s.store) hs ⟨hs.ordered, .refl s.store⟩ hop h
    exact ⟨⟨hordered, hwithin⟩, hgrows⟩
  | other =>
    rw [show t.store = s.store from h]
    exact ⟨hs, .refl s.store⟩

/-- Flat operations make no frames with parents. -/
theorem parentless (h : op.Leads s t) (hop : op.Within s.store.next) (hs : s.store.Founded)
    (hflat : op.Flat) {n : Nat} (hn : s.store.ParentlessFrom n) : t.store.ParentlessFrom n := by
  cases op with
  | new | snapshot env entries =>
    obtain rfl := h
    exact hn.push rfl
  | inside | copy => cases hflat
  | define env name value =>
    obtain rfl := h
    exact hn.define env name value
  | evaluate config task =>
    exact (Invariant.holds_of_passes (Invariant.kept_parentless hflat n) hs hn hop h).2
  | other =>
    rw [show t.store = s.store from h]
    exact hn

end Leads

end Operation

/-! ## Sessions -/

/-- Any number of operations of a kind, one after the other. -/
def Session [Machine] (allowed : Operation → Prop) : State → State → Prop :=
  Relation.ReflTransGen fun s t => ∃ op, allowed op ∧ op.Within s.store.next ∧ op.Leads s t

namespace Session

variable [Machine] {allowed : Operation → Prop} {s t : State}

/-- In a session the store stays founded, and it grows. -/
theorem founded (h : Session allowed s t) (hs : s.store.Founded) :
    t.store.Founded ∧ s.store.Grows t.store := by
  induction h with
  | refl => exact ⟨hs, .refl s.store⟩
  | tail _ hstep ih =>
    obtain ⟨op, -, hop, hleads⟩ := hstep
    obtain ⟨ht, hgrows⟩ := ih
    obtain ⟨hu, hgrows'⟩ := hleads.founded hop ht
    exact ⟨hu, hgrows.trans hgrows'⟩

/-- In a flat session no frames with parents are made. -/
theorem parentless (h : Session Operation.Flat s t) (hs : s.store.Founded) {n : Nat}
    (hn : s.store.ParentlessFrom n) : t.store.ParentlessFrom n := by
  induction h with
  | refl => exact hn
  | tail hbefore hstep ih =>
    obtain ⟨op, hflat, hop, hleads⟩ := hstep
    exact hleads.parentless hop (Session.founded hbefore hs).1 hflat ih

lemma mono {allowed' : Operation → Prop} (h : Session allowed s t)
    (hallowed : ∀ op, allowed op → allowed' op) : Session allowed' s t :=
  Relation.ReflTransGen.mono (fun _ _ ⟨op, hop, hleads⟩ => ⟨op, hallowed op hop, hleads⟩) _ _ h

lemma of_leads (op : Operation) (hallowed : allowed op) (hop : op.Within s.store.next)
    (h : op.Leads s t) : Session allowed s t :=
  .single ⟨op, hallowed, hop, h⟩

/-- The names of the prelude are bound one after the other, to values without closures. -/
lemma definePrelude {env : FrameId}
    (hdefine : ∀ name value, value.closures = [] → allowed (.define env name value))
    (henv : env < s.store.next) :
    Session allowed s { s with store := s.store.definePrelude env } := by
  have hnames (ps : List Primitive) : Session allowed s
      { s with store := ps.foldl (fun s p => s.define env p.name (.primitive p)) s.store } ∧
      env < (ps.foldl (fun s p => s.define env p.name (.primitive p)) s.store).next := by
    induction ps using List.reverseRecOn with
    | nil => exact ⟨.refl, henv⟩
    | append_singleton ps p ih =>
      obtain ⟨hsession, henv⟩ := ih
      simp only [List.foldl_append, List.foldl_cons, List.foldl_nil, Store.next_define]
      exact ⟨hsession.trans (of_leads _ (hdefine p.name (.primitive p) rfl) ⟨henv, nofun⟩ rfl),
        henv⟩
  obtain ⟨hsession, henv⟩ := hnames Primitive.all
  exact hsession.trans (of_leads _ (hdefine "nil" .nil rfl) ⟨henv, nofun⟩ rfl)

end Session

namespace Interpreter

variable [Machine] {allowed : Operation → Prop}

/-- Making an interpreter is a session in which values without closures are bound. -/
lemma session_new_of (config : Config) (output : Output) (hnew : allowed .new)
    (hother : allowed .other)
    (hdefine : ∀ env name value, value.closures = [] → allowed (.define env name value)) :
    Session allowed {} (new config output).state := by
  let s : State := (({} : State).newFrame {}).2
  have hframe : Session allowed {} s := Session.of_leads .new hnew trivial rfl
  have hprelude : Session allowed s { s with store := s.store.definePrelude 0 } :=
    Session.definePrelude (hdefine 0) Nat.zero_lt_one
  exact hframe.trans (hprelude.trans (Session.of_leads .other hother trivial rfl))

/-- Making an interpreter is a flat session. -/
lemma session_new (config : Config) (output : Output) :
    Session Operation.Flat {} (new config output).state :=
  session_new_of config output trivial trivial fun _ _ _ _ => trivial

/-- Running a source is a session in which forms are evaluated in the global frame. -/
lemma session_run_sequence {it it' : Interpreter} {fuel : Nat} {source : String}
    {result : Except Error Value} (hother : allowed .other)
    (hevaluate : ∀ n forms, allowed (.evaluate it.config (.sequence ⟨n, it.global⟩ forms)))
    (hglobal : it.global < it.state.store.next) (h : it.run fuel source = some (result, it')) :
    Session allowed it.state it'.state := by
  obtain ⟨e, -, rfl⟩ | ⟨forms, s, -, rfl, hs⟩ := run_eq_some h
  · exact .refl
  · have hread : Session allowed it.state it.state.newSource.2 :=
      Session.of_leads .other hother trivial rfl
    let task : Task := .sequence ⟨it.state.sources, it.global⟩ forms
    have hpasses : task.Passes it.config it.state.newSource.2 s := .ends .here hs
    exact hread.trans
      (Session.of_leads (.evaluate it.config task) (hevaluate _ forms) hglobal hpasses)

/-- Running a source is a session, of flat operations if the settings are. -/
lemma session_run {it it' : Interpreter} {fuel : Nat} {source : String}
    {result : Except Error Value} (hother : allowed .other)
    (hevaluate : ∀ task, allowed (.evaluate it.config task))
    (hglobal : it.global < it.state.store.next) (h : it.run fuel source = some (result, it')) :
    Session allowed it.state it'.state :=
  session_run_sequence hother (fun _ _ => hevaluate _) hglobal h

end Interpreter

/-! ## The store of a session -/

/-- At every point of a session, parents are older than the frames that refer to them, and the way
up from any frame ends; it leads through the frames by which names are looked up, frames are counted
and snapshots are taken.  Up to any later point, frames keep their parents and their names, and what
is seen from a frame stays visible.  As long as all evaluations have flat scoping and no frame is
made inside another one or copied, no new frame has a parent; so if there were no parents to begin
with, there never are. -/
theorem session_founded [Machine] (s t : State) (hs : Session (fun _ => True) {} s)
    (ht : Session (fun _ => True) s t) :
    s.store.Founded ∧
    (∀ env < s.store.next, ∃ frames, (∀ frames', s.store.Climbs env frames' ↔ frames' = frames) ∧
      (∀ name, s.store.lookup env name = frames.findSome? (·.bindings.find? name)) ∧
      s.store.depth env = frames.length ∧
      s.store.visible env =
        frames.foldr (fun frame outer => outer.insertAll frame.bindings.entries) ∅) ∧
    s.store.Grows t.store ∧
    (∀ env name, (s.store.lookup env name).isSome → (t.store.lookup env name).isSome) ∧
    ∀ u n, Session Operation.Flat t u → t.store.ParentlessFrom n → u.store.ParentlessFrom n := by
  obtain ⟨hfounded, -⟩ := hs.founded .empty
  obtain ⟨hfounded', hgrows⟩ := ht.founded hfounded
  refine ⟨hfounded, fun env henv => ?_, hgrows, fun env name => hgrows.isSome_lookup, ?_⟩
  · exact ⟨s.store.chain env, fun _ => hfounded.ordered.climbs_iff henv, fun _ => rfl, rfl, rfl⟩
  · exact fun u n hu hn => hu.parentless hfounded' hn

section

open scoped Machine

/-- The closure `f` is bound in the frame that it was made in.  Its first call makes a frame inside
that one; its second call, under flat scoping, makes a frame of its own. -/
theorem session_founded_closure :
    ∃ it₁ it₂ it₃ r₁ r₂ r₃,
      (Interpreter.new {} .silent).run 9 "(define f (lambda (x) (begin (define y x) f)))" =
        some (r₁, it₁) ∧
      it₁.run 9 "(f 1)" = some (r₂, it₂) ∧
      { it₂ with config := ⟨.flat, none⟩ }.run 9 "(f 2)" = some (r₃, it₃) ∧
      it₂.state.store.Founded ∧ it₁.state.store.Grows it₂.state.store ∧
      it₂.state.store.depth 1 = 2 ∧ it₃.state.store.next = 3 ∧
      it₃.state.store.ParentlessFrom 2 := by
  let counts (it₁ it₂ it₃ : Interpreter) : List Nat :=
    [it₁.global, it₁.state.store.next, it₂.global, it₂.state.store.next,
      it₂.state.store.depth 1, it₃.state.store.next]
  have hruns : ((Interpreter.new {} .silent).run 9
      "(define f (lambda (x) (begin (define y x) f)))").bind (fun p₁ =>
        (p₁.2.run 9 "(f 1)").bind fun p₂ =>
          (Interpreter.run 9 { p₂.2 with config := ⟨.flat, none⟩ } "(f 2)").map fun p₃ =>
            counts p₁.2 p₂.2 p₃.2) = some [0, 1, 0, 2, 2, 3] := by
    decide +kernel
  obtain ⟨⟨r₁, it₁⟩, h₁, hruns⟩ := Option.bind_eq_some_iff.mp hruns
  obtain ⟨⟨r₂, it₂⟩, h₂, hruns⟩ := Option.bind_eq_some_iff.mp hruns
  obtain ⟨⟨r₃, it₃⟩, h₃, hruns⟩ := Option.map_eq_some_iff.mp hruns
  simp only [counts, List.cons.injEq, and_true] at hruns
  obtain ⟨hglobal₁, hnext₁, hglobal₂, hnext₂, hdepth, hnext₃⟩ := hruns
  have hnew : Session (fun _ => True) {} (Interpreter.new {} .silent).state :=
    (Interpreter.session_new {} .silent).mono fun _ _ => trivial
  have hrun₁ : Session (fun _ => True) _ it₁.state :=
    Interpreter.session_run trivial (fun _ => trivial) (by decide +kernel) h₁
  have hexists₁ : it₁.global < it₁.state.store.next := by
    rw [hglobal₁, hnext₁]
    exact Nat.zero_lt_one
  have hexists₂ : it₂.global < it₂.state.store.next := by
    rw [hglobal₂, hnext₂]
    exact Nat.zero_lt_two
  have hrun₂ : Session (fun _ => True) it₁.state it₂.state :=
    Interpreter.session_run trivial (fun _ => trivial) hexists₁ h₂
  have hrun₃ : Session Operation.Flat it₂.state it₃.state :=
    @Interpreter.session_run _ _ { it₂ with config := ⟨.flat, none⟩ } _ _ _ _ trivial
      (fun _ => rfl) hexists₂ h₃
  have hbefore := session_founded it₁.state it₂.state (hnew.trans hrun₁) hrun₂
  obtain ⟨hfounded, -, -, -, hflat⟩ := session_founded it₂.state it₂.state
    (hnew.trans (hrun₁.trans hrun₂)) .refl
  have hnone : it₂.state.store.ParentlessFrom 2 := by
    intro id frame hid hframe
    have hlt := Store.lt_next_of_getElem? hframe
    exact absurd (hnext₂ ▸ hlt) (Nat.not_lt_of_le hid)
  exact ⟨it₁, it₂, it₃, r₁, r₂, r₃, h₁, h₂, h₃, hfounded, hbefore.2.2.1, hdepth, hnext₃,
    hflat it₃.state 2 hrun₃ hnone⟩

end

end SmallLisp
