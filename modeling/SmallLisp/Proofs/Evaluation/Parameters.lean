import SmallLisp.Proofs.Evaluation.Nesting
import SmallLisp.Proofs.Evaluation.Scoping
import SmallLisp.Proofs.Store.Visibility

/-!
# Parameters and arguments

A call binds the parameters of the closure one after the other, and of two bindings of a name the
later one wins.  So each parameter is bound to the argument at its own place only if no name is a
parameter twice.  That is not looked at when a closure is called, but when it is made: a `lambda`
form with a repeated parameter has no shape (`Shape.nodup_of_paramNames`).

Hence what a call binds rests on where closures come from.  Evaluations make them from `lambda`
forms and in no other way, which is an invariant of all values that are bound or passed on
(`Invariant.kept_made`).
-/

namespace SmallLisp

/-! ## Closures of `lambda` forms -/

/-- The parameters of a shape are distinct. -/
lemma Shape.nodup_of_paramNames {before names : List String} {params : List Form}
    (h : paramNames before params = .ok names) (hbefore : before.Nodup) : names.Nodup := by
  fun_induction paramNames before params with
  | case1 before =>
    cases h
    exact hbefore
  | case2 => cases h
  | case3 before name span rest hname ih =>
    refine ih h ?_
    rw [← List.concat_eq_append]
    exact hbefore.concat hname
  | case4 => cases h

/-- A `lambda` form makes the closure. -/
def Closure.Made (c : Closure) : Prop := ∃ form : Form, form.Makes c

/-- No name is a parameter twice. -/
theorem Closure.Made.nodup {c : Closure} (h : c.Made) : c.params.Nodup := by
  obtain ⟨form, items, span, -, hshape⟩ := h
  cases Shape.written_of_ofList hshape with
  | lambda distinct => exact Shape.nodup_of_paramNames distinct List.nodup_nil

/-! ## What a call binds -/

/-- The frame in which the body of a closure looks up what is no parameter, if the closure is called
from `env`. -/
def Config.outer (config : Config) (env : FrameId) (c : Closure) : FrameId :=
  match config.scoping with
  | .lexical => c.env
  | .flat => env

namespace Store

variable {s : Store} {config : Config} {env : FrameId} {c : Closure} {args : List Value}
variable {x : String}

/-- The entry of a parameter is the argument at its place. -/
lemma findBinding?_params (hnodup : c.params.Nodup) (hcount : args.length = c.params.length)
    {i : Nat}
    (hx : c.params[i]? = some x) : findBinding? x (c.params.zip args).reverse = args[i]? := by
  have hnames : ((c.params.zip args).map Prod.fst).Nodup := by
    rwa [List.map_fst_zip (Nat.le_of_eq hcount.symm)]
  obtain ⟨hi, -⟩ := List.getElem?_eq_some_iff.mp hx
  obtain ⟨v, hv⟩ : ∃ v, args[i]? = some v := ⟨_, List.getElem?_eq_getElem (hcount ▸ hi)⟩
  rw [findBinding?_reverse hnames, hv, findBinding?_eq_some_iff hnames]
  exact List.mem_of_getElem? (List.getElem?_zip_eq_some.mpr ⟨hx, hv⟩)

/-- In the new frame for a call, what the outer frame sees is behind the arguments. -/
lemma lookup_callFrame (henv : c.env < s.next) :
    (s.push (config.callFrame s env c args)).lookup s.next x =
      (findBinding? x (c.params.zip args).reverse).or (s.lookup (config.outer env c) x) := by
  cases hscoping : config.scoping with
  | lexical =>
    rw [Config.callFrame, Config.outer, hscoping]
    exact lookup_inside henv
  | flat =>
    rw [Config.callFrame, Config.outer, hscoping]
    exact lookup_snapshot

/-- A parameter is seen as the argument at its place. -/
theorem lookup_callFrame_param (henv : c.env < s.next) (hnodup : c.params.Nodup)
    (hcount : args.length = c.params.length) {i : Nat} (hx : c.params[i]? = some x) :
    (s.push (config.callFrame s env c args)).lookup s.next x = args[i]? := by
  obtain ⟨hi, -⟩ := List.getElem?_eq_some_iff.mp hx
  rw [lookup_callFrame henv, findBinding?_params hnodup hcount hx,
    List.getElem?_eq_getElem (hcount ▸ hi), Option.some_or]

/-- Any other name is seen as from the outer frame. -/
theorem lookup_callFrame_of_not_mem (henv : c.env < s.next) (hcount : args.length = c.params.length)
    (hx : x ∉ c.params) :
    (s.push (config.callFrame s env c args)).lookup s.next x =
      s.lookup (config.outer env c) x := by
  rw [lookup_callFrame henv, (findBinding?_params_eq_none_iff hcount).mpr hx, Option.none_or]

end Store

/-! ## Where closures come from -/

/-- A `lambda` form made the closure in one of the first `n` frames. -/
structure Closure.MadeIn (n : Nat) (c : Closure) : Prop where
  env : c.env < n
  made : c.Made

lemma Closure.MadeIn.mono {m n : Nat} {c : Closure} (h : c.MadeIn m) (hle : m ≤ n) : c.MadeIn n :=
  ⟨Nat.lt_of_lt_of_le h.env hle, h.made⟩

/-- All closures that are bound were made by `lambda` forms, in frames that exist. -/
def Store.BindsMade (s : Store) : Prop := s.Binds (Closure.MadeIn s.next)

namespace Store.BindsMade

variable {s : Store} {env : FrameId} {x : String} {v : Value}

lemma empty : BindsMade {} := by
  intro id frame x v hframe
  cases hframe

lemma push (h : s.BindsMade) {frame : Frame}
    (hframe : ∀ x v, frame.bindings.find? x = some v → ∀ c ∈ v.closures, c.MadeIn s.next) :
    (s.push frame).BindsMade := by
  refine (Binds.push h hframe).mono fun c hc => hc.mono ?_
  rw [next_push]
  exact Nat.le_succ _

lemma define (h : s.BindsMade) (hv : ∀ c ∈ v.closures, c.MadeIn s.next) :
    (s.define env x v).BindsMade :=
  (Binds.define h hv).mono fun _ hc => hc.mono (next_define s env x v).ge

end Store.BindsMade

namespace Invariant

/-- All closures were made by `lambda` forms, in frames that exist. -/
def made : Invariant Nat :=
  { frames fun _ => True with
    closure := Closure.MadeIn
    store := fun n s => s.next = n ∧ s.BindsMade
    closure_mono := fun hle h => h.mono hle }

/-- No step of an evaluation makes a closure from anything but a `lambda` form. -/
theorem kept_made (config : Config) : made.Kept config where
  lookup := by
    rintro w s env name v ⟨rfl, hbinds⟩ hfound
    exact Store.Binds.lookup hbinds hfound
  part hcode _ _ := hcode
  lambda hcode hshape := ⟨hcode, _, _, _, rfl, hshape⟩
  define := by
    rintro v w s site items span name form a - - - ⟨rfl, hbinds⟩ ha
    exact ⟨Store.next_define .., hbinds.define ha⟩
  enter := by
    rintro w s c args env ⟨rfl, hbinds⟩ hc hargs -
    exact ⟨s.next + 1, Nat.le_succ _,
      ⟨Store.next_push .., hbinds.push (Store.Binds.callFrame hbinds config c hargs)⟩,
      Nat.lt_succ_self _⟩

end Invariant

end SmallLisp
