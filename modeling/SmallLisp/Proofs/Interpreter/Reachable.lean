import SmallLisp.Proofs.Evaluation.Invariant
import SmallLisp.Proofs.Evaluation.Likeness
import SmallLisp.Proofs.Value.Mirror

/-!
# Reachable interpreters

An interpreter can be made in two ways, and its owner can do many things with it: run sources,
evaluate forms and call procedures anywhere, bind names, make frames and objects.  `Reachable` has
one rule for each of them.  The owner is free in what to bind or to pass on, as long as it refers to
sources that were read already.

Then no value in a reachable interpreter refers to a source that is read later
(`Interpreter.Reachable.states`), and a new source can bring its literals without being confused
with an older one.  Code without literals could still be confused, but closures are told apart by
the source that they come from (`Interpreter.Reachable.binds`).
-/

namespace SmallLisp

/-! ## Values of earlier sources -/

/-- An object that is no literal of a later source than those numbered below `n`. -/
def Identity.Before (n : Nat) : Identity → Prop
  | literal source _ => source < n
  | fresh _ => True

/-- The value itself refers to no source numbered `n` or above. -/
def Value.RefersBefore (n : Nat) : Value → Prop
  | str id _ | list id _ => id.Before n
  | closure id c => id.Before n ∧ c.source < n
  | int _ | float _ | bool _ | nil | primitive _ => True

/-- Nothing in the value refers to a source numbered `n` or above. -/
def Value.Before (n : Nat) (v : Value) : Prop := ∀ part ∈ v.parts, part.RefersBefore n

/-- Nothing differs, and all is from sources numbered below `n`. -/
def Likeness.before (n : Nat) : Likeness where
  matching := .self (·.Before n) (fun _ => trivial) (fun _ => True) fun _ _ => trivial
  span := Eq
  env := Eq

namespace Likeness

lemma sound_before (n : Nat) (config : Config) :
    (before n).correspondence.Sound config config :=
  sound rfl (fun _ => rfl) (fun _ _ _ h => h.symm)

lemma finer_before {m n : Nat} (h : m ≤ n) : (before m).Finer (before n) where
  identity := by
    rintro i _ ⟨rfl, hi⟩
    refine ⟨rfl, ?_⟩
    cases i with
    | literal source span => exact Nat.lt_of_lt_of_le hi h
    | fresh => trivial
  text _ _ := trivial
  span _ _ := id
  env _ _ := id

/-- Code of an earlier source. -/
lemma codes_before {source n : Nat} (h : source < n) (forms : List Form) :
    List.Forall₂ ((before n).Codes source source) forms forms :=
  Form.alike_self (fun _ => rfl) fun _ _ _ => ⟨trivial, rfl, h⟩

lemma values_before {n : Nat} {vs : List Value}
    (h : ∀ part ∈ Value.partsAll vs, part.RefersBefore n) :
    List.Forall₂ (before n).Values vs vs := by
  induction vs using Value.values_induction with
  | nil => exact .nil
  | scalar v vs hv ih =>
    simp only [Value.partsAll, List.mem_append] at h
    refine .cons ?_ (ih fun part hpart => h part (.inr hpart))
    have hself (hparts : v.parts = [v]) : v.RefersBefore n := h v (.inl (by simp [hparts]))
    cases v with
    | list => cases hv
    | int n => exact .int n
    | float x => exact .float x
    | bool b => exact .bool b
    | nil => exact .nil
    | primitive p => exact .primitive p
    | str id text => exact .str ⟨rfl, hself rfl⟩ trivial
    | closure id c =>
      obtain ⟨hid, hsource⟩ := hself rfl
      refine .closure ⟨rfl, hid⟩ ⟨rfl, rfl, ?_⟩
      cases codes_before hsource [c.body] with
      | cons hbody => exact hbody
  | list id items vs ihItems ihRest =>
    simp only [Value.partsAll, Value.parts, List.cons_append, List.mem_cons, List.mem_append] at h
    exact .cons (.list ⟨rfl, h _ (.inl rfl)⟩ (ihItems fun part hpart => h part (.inr (.inl hpart))))
      (ihRest fun part hpart => h part (.inr (.inr hpart)))

end Likeness

lemma Value.Before.values {n : Nat} {v : Value} (h : v.Before n) :
    (Likeness.before n).Values v v := by
  cases @Likeness.values_before n [v] (by simpa [partsAll, Before] using h) with
  | cons h => exact h

/-! ## What can be done with an interpreter -/

namespace Interpreter

/-- The interpreters that come of new ones by all that can be done with them. -/
inductive Reachable [Machine] : Interpreter → Prop
  | new (config : Config) (output : Output) : Reachable (.new config output)
  /-- A further interpreter, on any frame of the same store. -/
  | on {it : Interpreter} (h : it.Reachable) (global : FrameId) (config : Config) (output : Output)
      (withPrelude : Bool) : Reachable (.on it.state global config output withPrelude)
  | run {it it' : Interpreter} {fuel : Nat} {source : String} {result : Except Error Value}
      (h : it.Reachable) (ran : it.run fuel source = some (result, it')) : Reachable it'
  | runOne {it it' : Interpreter} {fuel : Nat} {source : String} {result : Except Error Value}
      (h : it.Reachable) (ran : it.runOne fuel source = some (result, it')) : Reachable it'
  /-- A form that was read before is evaluated in any frame. -/
  | eval {it it' : Interpreter} {fuel : Nat} {site : Site} {form : Form}
      {result : Except Error Value} (h : it.Reachable) (read : site.source < it.state.sources)
      (ran : it.perform (eval it.config fuel site form) = some (result, it')) : Reachable it'
  /-- A procedure is called from any frame. -/
  | call {it it' : Interpreter} {fuel : Nat} {env : FrameId} {callee : Value} {args : List Value}
      {result : Except Error Value} (h : it.Reachable)
      (known : ∀ v ∈ callee :: args, v.Before it.state.sources)
      (ran : it.perform (call it.config fuel env callee args) = some (result, it')) : Reachable it'
  /-- A name is bound in any frame. -/
  | define {it : Interpreter} (h : it.Reachable) (env : FrameId) (name : String) {v : Value}
      (known : v.Before it.state.sources) :
      Reachable { it with state := it.state.define env name v }
  /-- A frame is made. -/
  | frame {it : Interpreter} (h : it.Reachable) {frame : Frame}
      (known : ∀ entry ∈ frame.bindings.entries, entry.2.Before it.state.sources) :
      Reachable { it with state := (it.state.newFrame frame).2 }
  /-- An identity is taken for an object. -/
  | object {it : Interpreter} (h : it.Reachable) : Reachable { it with state := it.state.fresh.2 }
  /-- A number is taken for a source. -/
  | source {it : Interpreter} (h : it.Reachable) :
      Reachable { it with state := it.state.newSource.2 }
  | clear {it : Interpreter} (h : it.Reachable) : Reachable it.clear

/-- Performing something that ends leads to the state in which it ends, and changes nothing else. -/
lemma perform_eq_some {it it' : Interpreter} {m : EvalM Value} {result : Except Error Value}
    (h : it.perform m = some (result, it')) :
    ∃ s, it' = { it with state := s } ∧ (m it.state).state? = some s := by
  unfold perform at h
  cases hm : m it.state with
  | ok value s =>
    rw [hm] at h
    cases h
    exact ⟨s, rfl, rfl⟩
  | error e s =>
    rw [hm] at h
    cases h
    exact ⟨s, rfl, rfl⟩
  | exhausted =>
    rw [hm] at h
    cases h

/-- Running a source that cannot be read changes nothing.  Any other source takes a number, and then
the sequence of its forms leads to the state in which it ends. -/
lemma run_eq_some [Machine] {it it' : Interpreter} {fuel : Nat} {source : String}
    {result : Except Error Value} (h : it.run fuel source = some (result, it')) :
    (∃ e, read source = .error e ∧ it' = it) ∨
      ∃ forms s, read source = .ok forms ∧ it' = { it with state := s } ∧
        ((Task.sequence ⟨it.state.sources, it.global⟩ forms).run it.config fuel
          it.state.newSource.2).state? = some s := by
  unfold run at h
  cases hread : read source with
  | error e =>
    rw [hread] at h
    cases h
    exact .inl ⟨e, rfl, rfl⟩
  | ok forms =>
    rw [hread] at h
    obtain ⟨s, rfl, hs⟩ := perform_eq_some h
    exact .inr ⟨forms, s, rfl, rfl, hs⟩

/-- A source that should be a single form is run likewise. -/
lemma runOne_eq_some [Machine] {it it' : Interpreter} {fuel : Nat} {source : String}
    {result : Except Error Value} (h : it.runOne fuel source = some (result, it')) :
    (∃ e, readOne source = .error e ∧ it' = it) ∨
      ∃ form s, readOne source = .ok form ∧ it' = { it with state := s } ∧
        ((Task.eval ⟨it.state.sources, it.global⟩ form).run it.config fuel
          it.state.newSource.2).state? = some s := by
  unfold runOne at h
  cases hread : readOne source with
  | error e =>
    rw [hread] at h
    cases h
    exact .inl ⟨e, rfl, rfl⟩
  | ok form =>
    rw [hread] at h
    obtain ⟨s, rfl, hs⟩ := perform_eq_some h
    exact .inr ⟨form, s, rfl, rfl, hs⟩

/-- Performing something keeps it that nothing refers to a later source. -/
lemma states_of_perform {it it' : Interpreter} {m : EvalM Value} {result : Except Error Value}
    (hsources : m.Keeps fun s t => t.sources = s.sources)
    (houtcomes : (Likeness.before it.state.sources).Outcomes (m it.state) (m it.state))
    (h : it.perform m = some (result, it')) :
    (Likeness.before it'.state.sources).States it'.state it'.state := by
  obtain ⟨s, rfl, hs⟩ := perform_eq_some h
  rw [show s.sources = it.state.sources from hsources _ _ hs]
  exact Likeness.states_of_outcomes houtcomes hs

namespace Reachable

variable {it : Interpreter}

/-- Reading a source leaves nothing that refers to a source that is read later. -/
lemma states_newSource (h : (Likeness.before it.state.sources).States it.state it.state) :
    (Likeness.before it.state.newSource.2.sources).States it.state.newSource.2
      it.state.newSource.2 := by
  obtain ⟨hobjects, hdepth, houtput, hstore⟩ :=
    (Likeness.finer_before (Nat.le_succ it.state.sources)).states h
  exact ⟨hobjects, hdepth, houtput, hstore⟩

/-- Nothing in a reachable interpreter refers to a source that is read later. -/
theorem states [Machine] (h : it.Reachable) :
    (Likeness.before it.state.sources).States it.state it.state := by
  induction h with
  | new config output =>
    exact ⟨rfl, rfl, rfl, Store.Alike.prelude rfl .primitive .nil⟩
  | @on it _ global config output withPrelude ih =>
    have hprelude := @Store.Alike.definePrelude _ _ _ _ global ih.store rfl .primitive .nil
    refine ⟨rfl, rfl, rfl, ?_⟩
    cases withPrelude with
    | false => exact ih.store
    | true =>
      simp only [Interpreter.on, if_true]
      exact hprelude
  | @run it it' fuel source result _ ran ih =>
    unfold Interpreter.run at ran
    split at ran
    · cases ran
      exact ih
    · next forms hread =>
      have hsound := Likeness.sound_before (it.state.sources + 1) it.config
      have hkeeps := (respected_sources.keeps it.config fuel).1
      have := respected_sources.toIsPreorder
      refine states_of_perform (EvalM.Keeps.sequence (fun form _ => hkeeps _ form) _) ?_ ran
      exact Likeness.sequence hsound fuel _ _ rfl
        (Likeness.codes_before (Nat.lt_succ_self _) forms) (states_newSource ih)
  | @runOne it it' fuel source result _ ran ih =>
    unfold Interpreter.runOne at ran
    split at ran
    · cases ran
      exact ih
    · next form hread =>
      have hsound := Likeness.sound_before (it.state.sources + 1) it.config
      have hkeeps := (respected_sources.keeps it.config fuel).1
      refine states_of_perform (hkeeps _ form) ?_ ran
      cases Likeness.codes_before (Nat.lt_succ_self it.state.sources) [form] with
      | cons hcode => exact (hsound.evaluator fuel).eval ⟨rfl, hcode⟩ (states_newSource ih)
  | @eval it it' fuel site form result _ read ran ih =>
    have hsound := Likeness.sound_before it.state.sources it.config
    refine states_of_perform ((respected_sources.keeps it.config fuel).1 site form) ?_ ran
    cases Likeness.codes_before read [form] with
    | cons hcode => exact (hsound.evaluator fuel).eval ⟨rfl, hcode⟩ ih
  | @call it it' fuel env callee args result _ known ran ih =>
    have hsound := Likeness.sound_before it.state.sources it.config
    refine states_of_perform ((respected_sources.keeps it.config fuel).2 env callee args) ?_ ran
    obtain ⟨hcallee, hargs⟩ := List.forall_mem_cons.mp known
    have hargs : List.Forall₂ (Likeness.before it.state.sources).Values args args :=
      List.forall₂_same.mpr fun v hv => (hargs v hv).values
    exact (hsound.evaluator fuel).call hcallee.values hargs ih
  | define _ env name known ih =>
    exact ⟨rfl, rfl, rfl, ih.store.define Function.injective_id name known.values⟩
  | @frame it _ frame known ih =>
    refine ⟨rfl, rfl, rfl, ih.store.push (fun _ _ => rfl) ⟨?_, rfl⟩⟩
    exact List.forall₂_same.mpr fun entry hentry => ⟨rfl, (known entry hentry).values⟩
  | object _ ih => exact ⟨rfl, rfl, rfl, ih.store⟩
  | source _ ih => exact states_newSource ih
  | clear _ ih => exact ⟨rfl, rfl, rfl, ih.store⟩

end Reachable

end Interpreter

/-! ## Where closures come from -/

/-- All code is from sources numbered below `n`. -/
def Invariant.origins (n : Nat) : Invariant Unit where
  closure _ c := c.source < n
  store _ s := s.Binds (·.source < n)
  code _ site _ := site.source < n
  closure_mono _ h := h
  code_mono _ h := h

lemma Invariant.kept_origins (n : Nat) (config : Config) : (origins n).Kept config where
  lookup hs hfound := hs.lookup hfound
  part hcode _ _ := hcode
  lambda hcode _ := hcode
  define _ _ _ hs ha := hs.define ha
  enter _ hs hc hargs _ := ⟨(), trivial, hs.push (hs.callFrame _ _ hargs), hc⟩

namespace Value

lemma source_lt_of_parts {n : Nat} {vs : List Value}
    (h : ∀ part ∈ partsAll vs, part.RefersBefore n) : ∀ c ∈ closuresAll vs, c.source < n := by
  induction vs using values_induction with
  | nil => nofun
  | scalar v vs hv ih =>
    simp only [partsAll, List.mem_append] at h
    intro c hc
    rw [closuresAll, List.mem_append] at hc
    rcases hc with hc | hc
    · cases v with
      | list => cases hv
      | closure id c' =>
        obtain rfl := List.mem_singleton.mp hc
        exact (h (.closure id c) (.inl (by simp [parts]))).2
      | _ => cases hc
    · exact ih (fun part hpart => h part (.inr hpart)) c hc
  | list id items vs ihItems ihRest =>
    simp only [partsAll, parts, List.cons_append, List.mem_cons, List.mem_append] at h
    intro c hc
    rw [closuresAll, List.mem_append] at hc
    rcases hc with hc | hc
    · exact ihItems (fun part hpart => h part (.inr (.inl hpart))) c hc
    · exact ihRest (fun part hpart => h part (.inr (.inr hpart))) c hc

lemma Before.source_lt {n : Nat} {v : Value} (h : v.Before n) :
    ∀ c ∈ v.closures, c.source < n := by
  have hparts : ∀ part ∈ partsAll [v], part.RefersBefore n := by
    simpa [partsAll, Before] using h
  simpa [closuresAll] using source_lt_of_parts hparts

end Value

/-- If all closures come from sources that were read, then a task leaves it at that. -/
lemma Task.binds_run [Machine] {t : Task} {s u : State} {config : Config} {n : Nat}
    (ht : (Invariant.origins s.sources).task () t)
    (hs : s.store.Binds (·.source < s.sources)) (h : (t.run config n s).state? = some u) :
    u.store.Binds (·.source < u.sources) := by
  obtain ⟨_, -, hu⟩ := (Invariant.kept_origins s.sources config).ends n ht hs h
  have hsources : u.sources = s.sources := t.keeps_run respected_sources config n s u h
  rw [hsources]
  exact hu

/-- In the store of a new interpreter there are no closures. -/
lemma Interpreter.binds_new (config : Config) (output : Output) {K : Closure → Prop} :
    (new config output).state.store.Binds K := by
  have hempty : Store.Binds K {} := by
    intro id frame x v hframe
    cases hframe
  refine (hempty.push ?_).definePrelude 0
  rintro x v ⟨⟩

lemma Interpreter.binds_newSource {it : Interpreter}
    (h : it.state.store.Binds (·.source < it.state.sources)) :
    it.state.newSource.2.store.Binds (·.source < it.state.newSource.2.sources) :=
  h.mono fun _ hc => Nat.lt_succ_of_lt hc

/-- Whatever was done with an interpreter, its closures come from sources that were read. -/
theorem Interpreter.Reachable.binds [Machine] {it : Interpreter} (h : it.Reachable) :
    it.state.store.Binds (·.source < it.state.sources) := by
  induction h with
  | new config output => exact binds_new config output
  | on _ global config output withPrelude ih =>
    cases withPrelude with
    | false => exact ih
    | true =>
      have hprelude := ih.definePrelude global
      simp only [Interpreter.on, if_true]
      exact hprelude
  | @run it it' fuel source result _ ran ih =>
    obtain ⟨e, -, rfl⟩ | ⟨forms, s, -, rfl, hs⟩ := run_eq_some ran
    · exact ih
    · exact Task.binds_run (t := .sequence ⟨it.state.sources, it.global⟩ forms)
        (s := it.state.newSource.2) (fun form _ => Nat.lt_succ_self it.state.sources)
        (binds_newSource ih) hs
  | @runOne it it' fuel source result _ ran ih =>
    obtain ⟨e, -, rfl⟩ | ⟨form, s, -, rfl, hs⟩ := runOne_eq_some ran
    · exact ih
    · exact Task.binds_run (t := .eval ⟨it.state.sources, it.global⟩ form)
        (s := it.state.newSource.2) (Nat.lt_succ_self it.state.sources) (binds_newSource ih) hs
  | @eval it it' fuel site form result _ read ran ih =>
    obtain ⟨s, rfl, hs⟩ := perform_eq_some ran
    exact Task.binds_run (t := .eval site form) read ih hs
  | @call it it' fuel env callee args result _ known ran ih =>
    obtain ⟨s, rfl, hs⟩ := perform_eq_some ran
    have hvalues : (Invariant.origins it.state.sources).task () (.call env callee args) :=
      fun v hv => (known v hv).source_lt
    exact Task.binds_run hvalues ih hs
  | define _ env name known ih => exact ih.define known.source_lt
  | @frame it _ frame known ih =>
    refine ih.push fun x v hx => ?_
    exact (known (x, v) (mem_entries_of_find hx)).source_lt
  | object _ ih => exact ih
  | source _ ih => exact binds_newSource ih
  | clear _ ih => exact ih

end SmallLisp
