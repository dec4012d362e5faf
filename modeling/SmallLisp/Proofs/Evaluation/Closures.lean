import SmallLisp.Proofs.Primitive.Uniform
import SmallLisp.Proofs.Store.Bound

/-!
# Which closures there can be

Evaluating a program makes closures from the `lambda` forms of the program, in frames that exist,
and nothing else makes closures.  `Value.Known` says so of the closures in a value, `Store.Known` of
all values that are bound.  Here is shown that the operations on values and on stores add no other
closures, whatever is to be known of them (`Store.Binds`); that whole evaluations do not is a part
of `Lockstep.evaluator`.
-/

namespace SmallLisp

/-! ## Closures in values -/

namespace Value

mutual

/-- The closures that a value consists of. -/
def closures : Value → List Closure
  | int _ | float _ | str .. | bool _ | nil | primitive _ => []
  | list _ items => closuresAll items
  | closure _ c => [c]

/-- The closures that several values consist of. -/
def closuresAll : List Value → List Closure
  | [] => []
  | v :: vs => v.closures ++ closuresAll vs

end

lemma mem_closuresAll {c : Closure} {vs : List Value} :
    c ∈ closuresAll vs ↔ ∃ v ∈ vs, c ∈ v.closures := by
  induction vs with
  | nil => simp [closuresAll]
  | cons v vs ih => simp [closuresAll, ih]

/-- The closures are among the objects. -/
lemma closuresAll_eq (vs : List Value) : closuresAll vs = (objectsAll vs).filterMap closure? := by
  induction vs using values_induction with
  | nil => rfl
  | scalar v vs hv ih =>
    rw [closuresAll, objectsAll, List.filterMap_append, ih]
    cases v with
    | list => cases hv
    | _ => rfl
  | list id items vs ihItems ihRest =>
    rw [closuresAll, objectsAll, List.filterMap_append, ihRest, closures, ihItems]
    rfl

lemma closures_eq (v : Value) : v.closures = v.objects.filterMap closure? := by
  simpa [closuresAll, objectsAll] using closuresAll_eq [v]

end Value

open Value

/-- The closures that an answer consists of. -/
def Answer.closures : Answer → List Closure
  | value v => v.closures
  | string _ => []
  | list items => closuresAll items

lemma Answer.closures_eq (answer : Answer) :
    answer.closures = answer.objects.filterMap closure? := by
  cases answer with
  | value v => exact v.closures_eq
  | string text => rfl
  | list items => exact closuresAll_eq items

/-- The closures in an answer are in the arguments. -/
lemma Primitive.closures_subset_of_operation [Machine] {p : Primitive}
    {body : Body (Except Fault Answer)}
    {args : List Value} {answer : Answer} (meaning : p.meaning = .operation body)
    (run : body.run? args = some (.ok answer)) : answer.closures ⊆ closuresAll args := by
  rw [answer.closures_eq, closuresAll_eq]
  exact List.filterMap_subset _ (conservative_of_operation meaning args answer run)

/-! ## Closures that match -/

namespace Value

variable {C : Closure → Closure → Prop} {vs vs' : List Value}

/-- Values that match are the same, if that is so for their closures. -/
lemma eq_of_matches (h : List.Forall₂ (Matches .equal C) vs vs')
    (hcode : ∀ c ∈ closuresAll vs, ∀ c', C c c' → c' = c) : vs' = vs := by
  induction vs using values_induction generalizing vs' with
  | nil =>
    cases h
    rfl
  | scalar v vs hv ih =>
    simp only [closuresAll, List.mem_append] at hcode
    cases h with
    | cons h htail =>
      rw [ih htail fun c hc => hcode c (.inr hc)]
      cases h with
      | list => cases hv
      | closure id code => rw [hcode _ (.inl List.mem_cons_self) _ code, id.1]
      | str id => rw [id.1]
      | _ => rfl
  | list id items vs ihItems ihRest =>
    simp only [closuresAll, closures, List.mem_append] at hcode
    cases h with
    | cons h htail =>
      rw [ihRest htail fun c hc => hcode c (.inr hc)]
      cases h with
      | list id items => rw [ihItems items fun c hc => hcode c (.inl hc), id.1]

end Value

/-! ## Closures that are bound -/

/-- All closures in the values that are bound have the property. -/
def Store.Binds (K : Closure → Prop) (s : Store) : Prop :=
  ∀ (id : FrameId) (frame : Frame) name (v : Value), s.frames[id]? = some frame →
    frame.bindings.find? name = some v → ∀ c ∈ v.closures, K c

namespace Store.Binds

variable {K L : Closure → Prop} {s : Store} {env : FrameId} {x : String} {v : Value}

lemma bound (h : s.Binds K) : s.Bound fun v => ∀ c ∈ v.closures, K c := h

lemma mono (h : s.Binds K) (hKL : ∀ c, K c → L c) : s.Binds L :=
  h.bound.mono fun _ hv c hc => hKL c (hv c hc)

lemma lookup (h : s.Binds K) (hx : s.lookup env x = some v) : ∀ c ∈ v.closures, K c :=
  h.bound.lookup hx

lemma push (h : s.Binds K) {frame : Frame}
    (hframe : ∀ x v, frame.bindings.find? x = some v → ∀ c ∈ v.closures, K c) :
    (s.push frame).Binds K :=
  h.bound.push hframe

lemma define (h : s.Binds K) (hv : ∀ c ∈ v.closures, K c) : (s.define env x v).Binds K :=
  h.bound.define hv

lemma inside {entries : List (String × Value)}
    (hentries : ∀ entry ∈ entries, ∀ c ∈ entry.2.closures, K c) :
    ∀ x v, (Frame.inside env entries).bindings.find? x = some v → ∀ c ∈ v.closures, K c :=
  Bound.inside hentries

lemma snapshot (h : s.Binds K) {entries : List (String × Value)}
    (hentries : ∀ entry ∈ entries, ∀ c ∈ entry.2.closures, K c) :
    ∀ x v, (s.snapshot env entries).bindings.find? x = some v → ∀ c ∈ v.closures, K c :=
  h.bound.snapshot hentries

/-- The names bound for a call are bound to arguments, or to what is seen. -/
lemma callFrame (h : s.Binds K) (config : Config) (c : Closure) {args : List Value}
    (hargs : ∀ v ∈ args, ∀ c ∈ v.closures, K c) :
    ∀ x v, (config.callFrame s env c args).bindings.find? x = some v → ∀ c ∈ v.closures, K c :=
  h.bound.callFrame config c hargs

/-- The names of the prelude are bound to values without closures. -/
lemma definePrelude (h : s.Binds K) (env : FrameId) : (s.definePrelude env).Binds K :=
  h.bound.definePrelude env (fun _ _ hc => by cases hc) fun _ hc => by cases hc

end Store.Binds

/-! ## Known closures -/

/-- A closure of a `lambda` form of the program, made in one of the first `n` frames. -/
structure Closure.Known (program : List Form) (n : Nat) (c : Closure) : Prop where
  env : c.env < n
  form : (c.params, c.body) ∈ Form.lambdas program

/-- All closures in the value are known. -/
def Value.Known (program : List Form) (n : Nat) (v : Value) : Prop :=
  ∀ c ∈ v.closures, c.Known program n

/-- All values that are bound consist of known closures. -/
def Store.Known (program : List Form) (s : Store) : Prop :=
  ∀ (id : FrameId) (frame : Frame) name (v : Value), s.frames[id]? = some frame →
    frame.bindings.find? name = some v → v.Known program s.next

section Known

variable {program : List Form} {n n' : Nat}

lemma Closure.Known.mono {c : Closure} (h : c.Known program n) (hn : n ≤ n') :
    c.Known program n' :=
  ⟨Nat.lt_of_lt_of_le h.env hn, h.form⟩

namespace Value

lemma Known.mono {v : Value} (h : v.Known program n) (hn : n ≤ n') : v.Known program n' :=
  fun c hc => (h c hc).mono hn

lemma known_of_closures_eq_nil {v : Value} (h : v.closures = []) : v.Known program n := by
  simp [Known, h]

/-- The elements of a list are known if the list is, and conversely. -/
lemma known_list_iff {id : Identity} {items : List Value} :
    (list id items).Known program n ↔ ∀ v ∈ items, v.Known program n := by
  simp only [Known, closures, mem_closuresAll]
  exact ⟨fun h v hv c hc => h c ⟨v, hv, hc⟩, fun h c ⟨v, hv, hc⟩ => h v hv c hc⟩

end Value

/-- What a primitive procedure answers to known arguments is known. -/
lemma Answer.known_of_operation [Machine] {p : Primitive} {body : Body (Except Fault Answer)}
    {args : List Value} {answer : Answer} (meaning : p.meaning = .operation body)
    (run : body.run? args = some (.ok answer)) (hargs : ∀ v ∈ args, v.Known program n) (s : State) :
    (s.allocate answer).1.Known program n := by
  have hclosures := Primitive.closures_subset_of_operation meaning run
  have hanswer : ∀ c ∈ answer.closures, c.Known program n := by
    intro c hc
    obtain ⟨v, hv, hc⟩ := mem_closuresAll.mp (hclosures hc)
    exact hargs v hv c hc
  cases answer with
  | value v => exact hanswer
  | string text => exact Value.known_of_closures_eq_nil rfl
  | list items => exact hanswer

namespace Store

variable {s : Store} {env : FrameId} {x : String} {v : Value}

lemma Known.lookup (h : s.Known program) (hx : s.lookup env x = some v) :
    v.Known program s.next :=
  Binds.lookup h hx

lemma Known.push (h : s.Known program) {frame : Frame}
    (hframe : ∀ x v, frame.bindings.find? x = some v → v.Known program s.next) :
    (s.push frame).Known program :=
  (Binds.push h hframe).mono fun _ hc => hc.mono (Unchanged.push s frame).grows

lemma Known.define (h : s.Known program) (hv : v.Known program s.next) :
    (s.define env x v).Known program :=
  (Binds.define h hv).mono fun _ hc => hc.mono (next_define s env x v).ge

/-- The names bound for a call are bound to known values. -/
lemma Known.callFrame (h : s.Known program) (config : Config) (c : Closure) {args : List Value}
    (hargs : ∀ v ∈ args, v.Known program s.next) :
    ∀ x v, (config.callFrame s env c args).bindings.find? x = some v →
      v.Known program s.next :=
  Binds.callFrame h config c hargs

end Store

end Known

end SmallLisp
