import SmallLisp.Proofs.Evaluation.Closures
import SmallLisp.Proofs.Evaluation.Run
import SmallLisp.Proofs.Evaluation.Simulation
import SmallLisp.Proofs.Form.Renaming
import SmallLisp.Proofs.Store.Alike

/-!
# Renaming a parameter is not noticed

Under lexical scoping it does not matter what a parameter is called (`Run.ofForms_renamed`).  The
frames in which renamed code is evaluated bind `q` instead of `p`, all others bind what they did.
Which frames those are is the world of the simulation (`Marks`).

Code only sees frames of its own kind, up to the first one of the other kind: between two frames of
different kinds there is always a binding of `p`, because a change of kind takes place at a `lambda`
form with that parameter only (`Store.Scoped`).  So code that is not renamed never looks for `p` in
a frame that binds `q` instead, nor the other way round.
-/

namespace SmallLisp

/-- For each frame, whether it was made for code in which the parameter is renamed. -/
structure Marks where
  inside : List Bool

instance : Preorder Marks where
  le v w := v.inside <+: w.inside
  le_refl w := List.prefix_refl w.inside
  le_trans _ _ _ h h' := h.trans h'

namespace Marks

/-- The marks after one more frame. -/
def push (w : Marks) (inside : Bool) : Marks := ⟨w.inside ++ [inside]⟩

lemma le_push (w : Marks) (inside : Bool) : w ≤ w.push inside := List.prefix_append ..

lemma getElem?_of_le {v w : Marks} (h : v ≤ w) {id : FrameId} {inside : Bool}
    (hid : v.inside[id]? = some inside) : w.inside[id]? = some inside := by
  obtain ⟨more, hmore⟩ := h
  rw [← hmore, List.getElem?_append_left (List.getElem?_eq_some_iff.mp hid).1]
  exact hid

end Marks

/-! ## Closures and stores -/

/-- The closure with `q` in place of `p`. -/
def Closure.rename (p q : String) (c : Closure) : Closure :=
  { c with
    params := c.params.map fun name => if name = p then q else name
    body := c.body.rename p q }

/-- The second closure is made in the renamed program where the first one is made in the program:
they are the same, or the renamed form is a part of the body, or the body is inside of that. -/
inductive Closure.Renamed (p q : String) : Closure → Closure → Prop
  | same (c : Closure) : Renamed p q c c
  | around (c : Closure) {body : Form} (h : Form.RenamesParam p q [c.body] [body]) :
      Renamed p q c { c with body := body }
  | inside (c : Closure) : Renamed p q c (c.rename p q)

/-- The closures correspond; `inside` tells whether their bodies are inside of the renamed form. -/
structure Closure.RenamedIn (p q : String) (inside : Bool) (c c' : Closure) : Prop where
  fresh : q ∉ c.params
  params : c'.params = c.params.map (newName p q inside)
  body : c.body.Renamed p q inside c'.body
  source : c'.source = c.source
  env : c'.env = c.env

lemma Closure.RenamedIn.renamed {p q : String} {inside : Bool} {c c' : Closure}
    (h : c.RenamedIn p q inside c') : c.Renamed p q c' := by
  obtain ⟨params', body', source', env'⟩ := c'
  obtain ⟨fresh, hparams, hbody, hsource, henv⟩ := h
  simp only at hparams hbody hsource henv
  subst hparams hsource henv
  cases hbody with
  | same =>
    rw [newName, if_neg Bool.false_ne_true, List.map_id]
    exact .same c
  | around _ h =>
    rw [newName, if_neg Bool.false_ne_true, List.map_id]
    exact .around c h
  | inside =>
    have hparams : c.params.map (newName p q true) =
        c.params.map fun name => if name = p then q else name :=
      List.map_congr_left fun name hname => newName_true_of_ne (ne_of_mem_of_not_mem hname fresh)
    rw [hparams]
    exact .inside c

/-- Frames of one kind are separated from those of the other one by a binding of `p`; and if there
is no frame around, then nothing is renamed. -/
structure Store.Scoped (p : String) (w : Marks) (s : Store) : Prop where
  size : w.inside.length = s.next
  scope : ∀ {id : FrameId} {frame : Frame} {inside : Bool}, s.frames[id]? = some frame →
    w.inside[id]? = some inside → (frame.bindings.find? p).isSome ∨
      match frame.parent with
      | none => inside = false
      | some parent => parent < id ∧ w.inside[parent]? = some inside

/-! ## The correspondence -/

/-- How a name is called in a frame of this number. -/
def Marks.name (p q : String) (w : Marks) (id : FrameId) : String → String :=
  newName p q (w.inside[id]?.getD false)

/-- The closures correspond, and if their bodies are of another kind than the frame in which they
were made, then they have the parameter `p`. -/
def Marks.Closures (p q : String) (w : Marks) (c c' : Closure) : Prop :=
  ∃ inside around, c.RenamedIn p q inside c' ∧ w.inside[c.env]? = some around ∧
    (inside = around ∨ p ∈ c.params)

/-- A program stands for the one in which a parameter `p` is renamed to `q`.  Closures are printed
with their parameters, so nothing is said of what is printed. -/
def Correspondence.renamed (p q : String) : Correspondence Marks where
  matching := .equal
  span a b := b = a
  output _ _ := True
  closure := Marks.Closures p q
  store w s s' := s.Scoped p w ∧ s.Alike (w.name p q) (Value.Matches .equal (w.Closures p q)) s'
  code w site site' form form' := site' = site ∧
    ∃ inside, w.inside[site.env]? = some inside ∧ form.Renamed p q inside form'
  closure_mono := by
    rintro v w c c' hle ⟨inside, around, hc, hmark, hbinds⟩
    exact ⟨inside, around, hc, Marks.getElem?_of_le hle hmark, hbinds⟩
  code_mono := by
    rintro v w site site' form form' hle ⟨hsite, inside, hmark, hform⟩
    exact ⟨hsite, inside, Marks.getElem?_of_le hle hmark, hform⟩

/-- A frame that is made for a call binds all parameters. -/
lemma Frame.isSome_find?_inside {env : FrameId} {entries : List (String × Value)} {x : String}
    (h : x ∈ entries.map Prod.fst) : ((Frame.inside env entries).bindings.find? x).isSome := by
  have hfound : (findBinding? x entries.reverse).isSome := by
    rw [Option.isSome_iff_ne_none, Ne, findBinding?_eq_none_iff, not_not, List.map_reverse,
      List.mem_reverse]
    exact h
  rw [Frame.inside, Bindings.find?_insertAll, Option.isSome_or, hfound, Bool.true_or]

section

variable {p q : String} {w : Marks} {V : Value → Value → Prop} {s s' : Store} {env : FrameId}
variable {inside : Bool}

lemma Marks.name_eq (h : w.inside[env]? = some inside) : w.name p q env = newName p q inside := by
  rw [name, h, Option.getD_some]

namespace Store.Scoped

lemma exists_frame (h : s.Scoped p w) (hmark : w.inside[env]? = some inside) :
    ∃ frame, s.frames[env]? = some frame := by
  have hlt : env < s.next := h.size ▸ (List.getElem?_eq_some_iff.mp hmark).1
  exact ⟨_, Array.getElem?_eq_getElem hlt⟩

lemma exists_mark (h : s.Scoped p w) {frame : Frame} (hframe : s.frames[env]? = some frame) :
    ∃ inside, w.inside[env]? = some inside := by
  have hlt : env < w.inside.length := h.size ▸ lt_next_of_getElem? hframe
  exact ⟨_, List.getElem?_eq_getElem hlt⟩

/-- Inside, the parameter is always bound. -/
lemma isSome_lookup (h : s.Scoped p w) (hmark : w.inside[env]? = some true) :
    (s.lookup env p).isSome := by
  induction env using Nat.strongRecOn with
  | _ env ih =>
    obtain ⟨frame, hframe⟩ := h.exists_frame hmark
    rcases h.scope hframe hmark with hbound | hparent
    · rw [lookup_of_frame hframe, Option.isSome_or, hbound, Bool.true_or]
    · cases hp : frame.parent with
      | none =>
        rw [hp] at hparent
        cases hparent
      | some parent =>
        rw [hp] at hparent
        obtain ⟨hlt, hmark'⟩ := hparent
        rw [lookup_of_parent hframe hp hlt, Option.isSome_or, ih parent hlt hmark', Bool.or_true]

/-- Code of a kind finds the same in frames of its kind, where it looks for the renamed name. -/
theorem lookup (h : s.Scoped p w) (halike : s.Alike (w.name p q) V s') {x : String} (hx : x ≠ q)
    (hmark : w.inside[env]? = some inside) :
    Option.Rel V (s.lookup env x) (s'.lookup env (newName p q inside x)) := by
  induction env using Nat.strongRecOn generalizing inside with
  | _ env ih =>
    obtain ⟨frame, hframe⟩ := h.exists_frame hmark
    obtain ⟨frame', hframe', hframes⟩ : ∃ frame', s'.frames[env]? = some frame' ∧
        frame.Alike (newName p q inside) V frame' := by
      have hrel := halike env
      rw [hframe, Marks.name_eq hmark] at hrel
      generalize s'.frames[env]? = frame?' at hrel
      cases hrel with
      | some hframes => exact ⟨_, rfl, hframes⟩
    rw [lookup_of_frame hframe, lookup_of_frame hframe', hframes.parent]
    have hfound := hframes.bindings.find? (newName_injective inside) x
    cases hvalue : frame.bindings.find? x with
    | some v =>
      rw [hvalue] at hfound
      generalize frame'.bindings.find? (newName p q inside x) = found at hfound
      cases hfound with
      | some hv => exact .some hv
    | none =>
      rw [hvalue] at hfound
      generalize frame'.bindings.find? (newName p q inside x) = found at hfound
      cases hfound
      rw [Option.none_or, Option.none_or]
      cases hparent : frame.parent.filter (· < env) with
      | none => exact .none
      | some parent =>
        obtain ⟨hp, hlt⟩ := Option.filter_eq_some_iff.mp hparent
        have hlt : parent < env := by simpa using hlt
        rw [Option.bind_some, Option.bind_some]
        rcases h.scope hframe hmark with hbound | hscope
        · -- The parent may be of the other kind, but then the name is none of the two.
          have hxp : x ≠ p := by
            rintro rfl
            rw [hvalue] at hbound
            cases hbound
          obtain ⟨outer, houter⟩ : ∃ outer, w.inside[parent]? = some outer :=
            ⟨_, List.getElem?_eq_getElem
              (Nat.lt_trans hlt (List.getElem?_eq_some_iff.mp hmark).1)⟩
          have hfound := ih parent hlt houter
          rw [newName_of_ne hxp hx] at hfound ⊢
          exact hfound
        · rw [hp] at hscope
          exact ih parent hlt hscope.2

/-- The frames that exist are renamed as before when one more is made. -/
lemma name_push (h : s.Scoped p w) {id : FrameId} (hid : id < s.next) (inside : Bool) :
    (w.push inside).name p q id = w.name p q id := by
  obtain ⟨mark, hmark⟩ := h.exists_mark (Array.getElem?_eq_getElem hid)
  rw [Marks.name_eq hmark, Marks.name_eq (Marks.getElem?_of_le (w.le_push inside) hmark)]

/-- A definition takes no binding away. -/
lemma define (h : s.Scoped p w) (x : String) (v : Value) : (s.define env x v).Scoped p w where
  size := by rw [h.size, next_define]
  scope {id frame inside} hframe hmark := by
    obtain ⟨before, hbefore, hparent, hfind⟩ := exists_frame_of_define hframe
    rw [hparent]
    refine (h.scope hbefore hmark).imp_left fun hbound => ?_
    rcases hfind p with hsame | hnew
    · rwa [hsame]
    · rw [hnew]
      rfl

lemma definePrelude (h : s.Scoped p w) (env : FrameId) : (s.definePrelude env).Scoped p w := by
  have hprimitives := List.foldlRecOn (motive := (Scoped p w ·)) Primitive.all
    (fun s p => s.define env p.name (.primitive p)) h fun _ hs p _ => hs.define p.name _
  exact hprimitives.define "nil" .nil

/-- A new interpreter has a single frame, outside of the renamed form. -/
lemma prelude (p : String) : ((({} : Store).push {}).definePrelude 0).Scoped p ⟨[false]⟩ := by
  refine definePrelude ⟨rfl, fun {id frame inside} hframe hmark => ?_⟩ 0
  rcases getElem?_push_cases hframe with hold | ⟨rfl, rfl⟩
  · cases hold
  · cases hmark
    exact .inr rfl

/-- A new frame of some kind is inside of a frame of its kind, or binds the parameter. -/
lemma push (h : s.Scoped p w) {entries : List (String × Value)} {around : Bool}
    (hmark : w.inside[env]? = some around)
    (hbinds : inside = around ∨ ((Frame.inside env entries).bindings.find? p).isSome) :
    (s.push (Frame.inside env entries)).Scoped p (w.push inside) where
  size := by simp [Marks.push, h.size]
  scope {id frame mark} hframe hid := by
    rcases getElem?_push_cases hframe with hold | ⟨rfl, rfl⟩
    · obtain ⟨before, hbefore⟩ := h.exists_mark hold
      have hsame : before = mark :=
        Option.some.inj ((Marks.getElem?_of_le (w.le_push inside) hbefore).symm.trans hid)
      subst hsame
      refine (h.scope hold hbefore).imp_right fun hscope => ?_
      cases hparent : frame.parent with
      | none =>
        rw [hparent] at hscope
        exact hscope
      | some parent =>
        rw [hparent] at hscope
        exact ⟨hscope.1, Marks.getElem?_of_le (w.le_push inside) hscope.2⟩
    · have hnew : mark = inside := by
        rw [← h.size] at hid
        simpa [Marks.push] using hid.symm
      subst hnew
      rcases hbinds with rfl | hbound
      · refine .inr ⟨?_, Marks.getElem?_of_le (w.le_push mark) hmark⟩
        exact h.size ▸ (List.getElem?_eq_some_iff.mp hmark).1
      · exact .inl hbound

end Store.Scoped

end

/-! ## Soundness -/

namespace Correspondence

variable {p q : String} {w : Marks} {s s' : Store}

/-- Lists of renamed items make corresponding shapes: their parts are on the same side as the list
itself, or there is a single part, which is the body of a closure with the parameter `p`. -/
lemma renamed_members (hp : SpecialForm.ofName? p = none) (hq : SpecialForm.ofName? q = none)
    {site : Site} {inside inner : Bool} {items items' : List Form} {span : Span}
    (hmark : w.inside[site.env]? = some inside) (hlacks : (Form.list items span).Lacks q)
    (scope : inner = inside ∨ Form.binds p items)
    (members : List.Forall₂ (Form.Renamed p q inner) items items') :
    Shape.Agree (renamed p q).span ((renamed p q).Shapes w site site) (Shape.ofList span items)
      (Shape.ofList span items') := by
  refine (Shape.ofList_like (F := Form.Renamed p q inner) Form.Renamed.like
    (ofName?_newName hp hq inner) rfl members).imp fun shape shape' hshape hlike => ?_
  have hsame (hplain : ∀ params body, shape ≠ .lambda params body) : inner = inside := by
    refine scope.resolve_right fun hbinds => ?_
    obtain ⟨params, body, hlambda, -⟩ := Form.exists_shape_of_binds hbinds hshape
    exact hplain params body hlambda
  refine .of_like hlike Form.Renamed.span_eq ?_ ?_ ?_
  · intro hplain form form' hform
    obtain rfl := hsame hplain
    exact ⟨rfl, inner, hmark, hform⟩
  · intro params body body' hlambda hbody
    refine ⟨inner, inside, ⟨hlacks.not_mem_params (hlambda ▸ hshape), rfl, hbody, rfl, rfl⟩,
      hmark, scope.imp_right fun hbinds => ?_⟩
    obtain ⟨_, _, hlambda', hmem⟩ := Form.exists_shape_of_binds hbinds hshape
    cases hlambda.symm.trans hlambda'
    exact hmem
  · intro name form hdefine v t t' a a' hgrown ⟨hscoped, halike⟩ hvalue
    obtain rfl := hsame (by simp [hdefine])
    have hname : v.name p q site.env = newName p q inner :=
      Marks.name_eq (Marks.getElem?_of_le hgrown hmark)
    rw [← hname]
    exact ⟨hscoped.define name a, halike.define (hname ▸ newName_injective inner) name hvalue⟩

/-- The renamed form makes a closure whose body is inside of it. -/
lemma renamed_scope {site : Site} {at₁ at₂ span : Span} {params body : List Form}
    (hmark : w.inside[site.env]? = some false)
    (hlacks : (Form.list (.symbol "lambda" at₁ :: .list params at₂ :: body) span).Lacks q)
    (param : ∃ span, .symbol p span ∈ params) :
    Shape.Agree (renamed p q).span ((renamed p q).Shapes w site site)
      (Shape.ofList span (.symbol "lambda" at₁ :: .list params at₂ :: body))
      (Shape.ofList span (.symbol "lambda" at₁ :: .list (Form.renameAll p q params) at₂ ::
        Form.renameAll p q body)) := by
  have hitems := Form.lacks_list_iff.mp hlacks
  refine (Form.ofList_scope (hitems _ (by simp))).imp fun shape shape' hshape hlike => ?_
  obtain ⟨names, form, hform, rfl, rfl⟩ := hlike
  obtain ⟨_, _, hlambda, hmem⟩ := Form.exists_shape_of_binds (Form.binds_of_param param) hshape
  cases hlambda
  exact .lambda ⟨true, false, ⟨hlacks.not_mem_params hshape, rfl,
    .inside (hitems form (by simp [hform])), rfl, rfl⟩, hmark, .inr hmem⟩

lemma renamed_form (hp : SpecialForm.ofName? p = none) (hq : SpecialForm.ofName? q = none)
    {site site' : Site} {form form' : Form} (hs : (renamed p q).store w s s')
    (hform : (renamed p q).code w site site' form form') :
    (renamed p q).Forms w site site' s s' form form' := by
  obtain ⟨rfl, inside, hmark, hrenamed⟩ := hform
  obtain ⟨hscoped, halike⟩ := hs
  cases hrenamed.parts with
  | int n => exact .int n
  | float x => exact .float x
  | str text => exact .str trivial ⟨rfl, trivial⟩
  | @symbol _ name span fresh =>
    refine .symbol (hscoped.lookup halike fresh hmark) fun hmissing => ⟨?_, rfl⟩
    cases inside with
    | false => rfl
    | true =>
      refine newName_of_ne ?_ fresh true
      rintro rfl
      have hbound := hscoped.isSome_lookup hmark
      rw [hmissing] at hbound
      cases hbound
  | members span scope members =>
    exact .list (renamed_members hp hq hmark hrenamed.lacks scope members)
  | scope span param => exact .list (renamed_scope hmark hrenamed.lacks param)

/-- Calls make frames of the kind of the body. -/
lemma renamed_enter {limit : Option Nat} {c c' : Closure} {args args' : List Value} (env : FrameId)
    (hs : (renamed p q).store w s s') (hc : (renamed p q).closure w c c')
    (hargs : List.Forall₂ ((renamed p q).Values w) args args')
    (hcount : args.length = c.params.length) :
    ∃ v, w ≤ v ∧ (renamed p q).store v
        (s.push (Config.callFrame ⟨.lexical, limit⟩ s env c args))
        (s'.push (Config.callFrame ⟨.lexical, limit⟩ s' env c' args')) ∧
      (renamed p q).code v ⟨c.source, s.next⟩ ⟨c'.source, s.next⟩ c.body c'.body := by
  obtain ⟨hscoped, halike⟩ := hs
  obtain ⟨inside, around, hclosure, hmark, hbinds⟩ := hc
  have hgrown := w.le_push inside
  have hnew : (w.push inside).inside[s.next]? = some inside := by
    simp [Marks.push, ← hscoped.size]
  have hmono (v v' : Value) : (renamed p q).Values w v v' →
      (renamed p q).Values (w.push inside) v v' := Values.mono hgrown
  refine ⟨w.push inside, hgrown, ⟨?_, ?_⟩, ?_⟩
  · refine hscoped.push hmark (hbinds.imp_right fun hmem => Frame.isSome_find?_inside ?_)
    rwa [List.map_fst_zip (Nat.le_of_eq hcount.symm)]
  · refine (halike.mono hmono).push (fun _ hid => hscoped.name_push hid inside) ?_
    rw [Marks.name_eq hnew, Config.callFrame, Config.callFrame, hclosure.env, hclosure.params]
    exact .inside (newName_injective inside) c.env
      (zip_alike c.params (hargs.imp hmono))
  · exact ⟨by rw [hclosure.source], inside, hnew, hclosure.body⟩

/-- Renaming a parameter is not noticed under lexical scoping. -/
theorem sound_renamed (hp : SpecialForm.ofName? p = none) (hq : SpecialForm.ofName? q = none)
    (limit : Option Nat) : (renamed p q).Sound ⟨.lexical, limit⟩ ⟨.lexical, limit⟩ where
  limit := rfl
  nowhere := rfl
  env h := by rw [h.1]
  next h := h.2.next_eq
  print _ _ := trivial
  form hs hform := renamed_form hp hq hs hform
  params h := by
    obtain ⟨inside, -, hc, -⟩ := h
    rw [hc.params, List.length_map]
  enter env hs hc hargs hcount := renamed_enter env hs hc hargs hcount

lemma states_renamed_start : (renamed p q).States ⟨[false]⟩ Run.start Run.start where
  objects := rfl
  depth := rfl
  output := trivial
  store := ⟨.prelude p, .prelude rfl .primitive .nil⟩

end Correspondence

/-! ## Programs -/

namespace Run

/-- The results are the same error, or values that are the same up to what a parameter of closures
is called; without closures they are the same. -/
inductive Renamed (p q : String) : Except Error Value → Except Error Value → Prop
  | error (e : Error) : Renamed p q (.error e) (.error e)
  | value {v v' : Value} (values : v.Matches .equal (Closure.Renamed p q) v')
      (data : v.closures = [] → v' = v) : Renamed p q (.ok v) (.ok v')

lemma renamed_of_outcomes {p q : String} {w : Marks} {o o' : Outcome Value}
    (h : (Correspondence.renamed p q).Outcomes w (Correspondence.renamed p q).Values o o') :
    Option.Rel (fun r r' => Renamed p q r.result r'.result) (ofOutcome o) (ofOutcome o') := by
  cases h with
  | ok _ _ values =>
    refine .some (.value ?_ fun hdata => ?_)
    · exact Value.Matches.mono (fun _ _ h => h) (fun _ h => h)
        (fun _ _ ⟨_, _, hc, _⟩ => hc.renamed) values
    · have hall : [_] = [_] :=
        Value.eq_of_matches (.cons values .nil) (by simp [Value.closuresAll, hdata])
      exact List.singleton_injective hall
  | error _ _ errors =>
    rw [errors.eq]
    exact .some (.error _)
  | exhausted => exact .none

/-- Renaming a parameter to a name that does not occur in the program does not change the result
under lexical scoping. -/
theorem ofForms_renamed [Machine] (p q : String) (hp : SpecialForm.ofName? p = none)
    (hq : SpecialForm.ofName? q = none) (program program' : List Form)
    (h : Form.RenamesParam p q program program')
    (fresh : ∀ span, .symbol q span ∉ Form.nodesAll program) (fuel : Nat) (limit : Option Nat) :
    Option.Rel (fun r r' => Renamed p q r.result r'.result)
      (ofForms fuel ⟨.lexical, limit⟩ program) (ofForms fuel ⟨.lexical, limit⟩ program') := by
  have hsteps := (Correspondence.sound_renamed hp hq limit).evaluator fuel
  have hlacks form (hform : form ∈ program) : form.Lacks q := fun span hmem =>
    fresh span (Form.mem_nodesAll.mpr ⟨form, hform, hmem⟩)
  have hforms : List.Forall₂ ((Correspondence.renamed p q).code ⟨[false]⟩ site site) program
      program' :=
    (h.renamed hlacks).imp fun _ _ hform => ⟨rfl, false, rfl, hform⟩
  exact renamed_of_outcomes
    (hsteps.evalSequence hforms Correspondence.states_renamed_start .nil)

section

open scoped Machine

/-- In `((lambda (p) (list p ((lambda (p) p) 2))) 1)` the parameter of the inner form is another
one, although it is called the same. -/
theorem ofForms_renamed_shadowed :
    let inner : Form := .list [.symbol "lambda" ⟨23, 29⟩, .list [.symbol "p" ⟨31, 32⟩] ⟨30, 33⟩,
      .symbol "p" ⟨34, 35⟩] ⟨22, 36⟩
    let body (x : String) : Form := .list [.symbol "list" ⟨14, 18⟩, .symbol x ⟨19, 20⟩,
      .list [inner, .int 2 ⟨37, 38⟩] ⟨21, 39⟩] ⟨13, 40⟩
    let program (x : String) : List Form := [.list [.list [.symbol "lambda" ⟨2, 8⟩,
      .list [.symbol x ⟨10, 11⟩] ⟨9, 12⟩, body x] ⟨1, 41⟩, .int 1 ⟨42, 43⟩] ⟨0, 44⟩]
    SpecialForm.ofName? "p" = none ∧ SpecialForm.ofName? "q" = none ∧
      Form.RenamesParam "p" "q" (program "p") (program "q") ∧
      (∀ span, .symbol "q" span ∉ Form.nodesAll (program "p")) ∧
      (ofForms 9 ⟨.lexical, none⟩ (program "p")).map output = some "(1 2)" ∧
      Option.Rel (fun r r' => Renamed "p" "q" r.result r'.result)
        (ofForms 9 ⟨.lexical, none⟩ (program "p")) (ofForms 9 ⟨.lexical, none⟩ (program "q")) := by
  intro inner body program
  have hrenames : Form.RenamesParam "p" "q" (program "p") (program "q") := by
    have hbody : Form.renameAll "p" "q" [body "p"] = [body "q"] := by
      simp [Form.renameAll, Form.rename, Form.binds, Form.symbol?, body, inner]
    have houter := @Form.RenamesParam.here "p" "q" ⟨2, 8⟩ ⟨9, 12⟩ ⟨1, 41⟩
      [.symbol "p" ⟨10, 11⟩] [body "p"] [.int 1 ⟨42, 43⟩] ⟨_, List.mem_cons_self⟩
    rw [hbody] at houter
    exact .inside (by simpa [Form.renameAll, Form.rename] using houter)
  have hfresh span : .symbol "q" span ∉ Form.nodesAll (program "p") := by
    simp [program, body, inner, Form.nodesAll, Form.nodes]
  have houtput : (ofForms 9 ⟨.lexical, none⟩ (program "p")).map output = some "(1 2)" := by
    decide +kernel
  exact ⟨rfl, rfl, hrenames, hfresh, houtput,
    ofForms_renamed "p" "q" rfl rfl _ _ hrenames hfresh 9 none⟩

end

end Run

end SmallLisp
