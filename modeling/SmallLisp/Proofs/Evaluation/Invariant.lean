import SmallLisp.Proofs.Evaluation.Inventory

/-!
# What holds all the time

An `Invariant` says something of the store, of the closures that there are and of the code that is
evaluated.  If single steps keep it (`Invariant.Kept`), then it holds at the end of every
evaluation, and also at every point on the way, be the evaluation one that ends or not
(`Invariant.Kept.passes`).

It is an inventory that asks for nothing from objects other than closures, and does not count them
(`Invariant.Kept.inventory`).

Of a property of the store alone, not much has to be shown: an evaluation changes the store by
definitions and by the frames that it makes for calls (`Invariant.kept_frames`).
-/

namespace SmallLisp

/-- What is to hold of everything an evaluation has to do with, in a world that may only grow. -/
structure Invariant (W : Type) [Preorder W] where
  closure : W → Closure → Prop
  store : W → Store → Prop
  /-- Of a form at the site where it is evaluated. -/
  code : W → Site → Form → Prop
  closure_mono : ∀ {v w c}, v ≤ w → closure v c → closure w c
  code_mono : ∀ {v w site form}, v ≤ w → code v site form → code w site form

namespace Invariant

variable {W : Type} [Preorder W] (I : Invariant W)

/-- All closures in the value have the property. -/
def value (w : W) (v : Value) : Prop := ∀ c ∈ v.closures, I.closure w c

/-- All that the task begins with has the property. -/
def task (w : W) : Task → Prop
  | .eval site form => I.code w site form
  | .sequence site forms => ∀ form ∈ forms, I.code w site form
  | .call _ callee args => ∀ v ∈ callee :: args, I.value w v

/-- Under these settings, no step of an evaluation goes beyond the invariant. -/
structure Kept (config : Config) : Prop where
  lookup : ∀ {w s env name v}, I.store w s → s.lookup env name = some v → I.value w v
  part : ∀ {w site items span shape form}, I.code w site (.list items span) →
    Shape.ofList span items = .ok shape → form ∈ shape.evaluated → I.code w site form
  lambda : ∀ {w site items span params body}, I.code w site (.list items span) →
    Shape.ofList span items = .ok (.lambda params body) →
      I.closure w ⟨params, body, site.source, site.env⟩
  define : ∀ {v w s site items span name form a}, I.code w site (.list items span) →
    Shape.ofList span items = .ok (.define name form) → w ≤ v → I.store v s → I.value v a →
      I.store v (s.define site.env name a)
  /-- The frame for a call can be made, and the body be evaluated there. -/
  enter : ∀ {w s c args} (env : FrameId), I.store w s → I.closure w c →
    (∀ v ∈ args, I.value w v) → args.length = c.params.length →
      ∃ v, w ≤ v ∧ I.store v (s.push (config.callFrame s env c args)) ∧
        I.code v ⟨c.source, s.next⟩ c.body

/-! ## Evaluations -/

/-- The inventory of the closures. -/
def inventory : Inventory W where
  object w o := ∀ c, o.closure? = some c → I.closure w c
  state w s _ := I.store w s
  code := I.code
  object_mono hle h c hc := I.closure_mono hle (h c hc)
  code_mono := I.code_mono

section

variable {I} {config : Config} {v w : W} {s : State} {t : Task}

lemma inventory_value_iff {a : Value} : I.inventory.value w a ↔ I.value w a := by
  simp only [Inventory.value, value, Value.closures_eq, List.mem_filterMap]
  constructor
  · rintro h c ⟨o, ho, hc⟩
    exact h o ho c hc
  · intro h o ho c hc
    exact h c ⟨o, ho, hc⟩

lemma inventory_values_iff {as : List Value} :
    (∀ a ∈ as, I.inventory.value w a) ↔ ∀ a ∈ as, I.value w a := by
  simp only [inventory_value_iff]

lemma inventory_task_iff : I.inventory.task w t ↔ I.task w t := by
  cases t with
  | eval | sequence => rfl
  | call env callee args => exact inventory_values_iff

namespace Kept

variable (h : I.Kept config)
include h

/-- An invariant that is kept is an inventory that is kept. -/
lemma inventory : I.inventory.Kept config where
  lookup hs hfound := inventory_value_iff.mpr (h.lookup hs hfound)
  part := h.part
  literal _ c hc := by cases hc
  string _ hs := ⟨_, le_rfl, hs, fun c hc => by cases hc⟩
  list hs _ := ⟨_, le_rfl, hs, fun c hc => by cases hc⟩
  lambda hs hcode hshape := by
    refine ⟨_, le_rfl, hs, fun c hc => ?_⟩
    cases hc
    exact h.lambda hcode hshape
  define hs hcode hshape ha := h.define hcode hshape le_rfl hs (inventory_value_iff.mp ha)
  enter env hs hc hargs := h.enter env hs (hc _ rfl) (inventory_values_iff.mp hargs)

variable [Machine]

/-- When a task ends, be it with an error, the invariant still holds. -/
lemma ends (n : Nat) {u : State} (ht : I.task w t) (hs : I.store w s.store)
    (hend : (t.run config n s).state? = some u) : ∃ v, w ≤ v ∧ I.store v u.store :=
  h.inventory.ends n (inventory_task_iff.mpr ht) hs hend

/-- The value of a task has the property. -/
lemma result (n : Nat) {a : Value} {u : State} (ht : I.task w t) (hs : I.store w s.store)
    (hend : t.run config n s = .ok a u) : ∃ v, w ≤ v ∧ I.store v u.store ∧ I.value v a := by
  obtain ⟨v, hgrown, hu, ha⟩ := h.inventory.result n (inventory_task_iff.mpr ht) hs hend
  exact ⟨v, hgrown, hu, inventory_value_iff.mp ha⟩

/-- The invariant holds whenever a task is begun in the course of another one. -/
theorem reaches {k : Nat} {t' : Task} {s' : State} (ht : I.task w t) (hs : I.store w s.store)
    (hreaches : Reaches config t s k t' s') : ∃ v, w ≤ v ∧ I.task v t' ∧ I.store v s'.store := by
  obtain ⟨v, hgrown, ht', hs'⟩ := h.inventory.reaches (inventory_task_iff.mpr ht) hs hreaches
  exact ⟨v, hgrown, inventory_task_iff.mp ht', hs'⟩

/-- The invariant holds in every state that a task passes. -/
theorem passes {u : State} (ht : I.task w t) (hs : I.store w s.store)
    (hpasses : t.Passes config s u) : ∃ v, w ≤ v ∧ I.store v u.store :=
  h.inventory.passes (inventory_task_iff.mpr ht) hs hpasses

end Kept

end

/-! ## Properties of the store -/

/-- All frames that are referred to exist, and the store has the property `P`. -/
def frames (P : Store → Prop) : Invariant Nat where
  closure n c := c.env < n
  store n s := s.next = n ∧ s.Binds (·.env < n) ∧ P s
  code n site _ := site.env < n
  closure_mono hle h := Nat.lt_of_lt_of_le h hle
  code_mono hle h := Nat.lt_of_lt_of_le h hle

/-- A property of the store is kept by evaluations if it is kept by definitions and by making the
frames for calls. -/
theorem kept_frames {P : Store → Prop} {config : Config}
    (define : ∀ s env name v, P s → P (s.define env name v))
    (call : ∀ s env c args, c.env < s.next → P s → P (s.push (config.callFrame s env c args))) :
    (frames P).Kept config where
  lookup hs hfound := hs.2.1.lookup hfound
  part hcode _ _ := hcode
  lambda hcode _ := hcode
  define := by
    rintro v w s site items span name form a - - - ⟨rfl, hbinds, hs⟩ ha
    exact ⟨Store.next_define .., hbinds.define ha, define _ _ _ _ hs⟩
  enter := by
    rintro w s c args env ⟨rfl, hbinds, hs⟩ hc hargs -
    refine ⟨s.next + 1, Nat.le_succ _, ⟨Store.next_push .., ?_, call s env c args hc hs⟩,
      Nat.lt_succ_self _⟩
    refine Store.Binds.mono ?_ fun c hc => Nat.lt_succ_of_lt hc
    exact hbinds.push (hbinds.callFrame config c hargs)

end Invariant

end SmallLisp
