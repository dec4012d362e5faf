import SmallLisp.Proofs.Evaluation.Run
import SmallLisp.Proofs.Evaluation.Simulation
import SmallLisp.Proofs.Form.Shift
import SmallLisp.Proofs.Store.Alike

/-!
# Evaluations that are alike

A program can compare objects, so it may notice which objects its string literals stand for; it
cannot notice where its code stands.  A `Likeness` says which objects are the same and how places
may differ.  Code is alike if it is the same up to that (`Form.Alike`), states are alike if they
bind the same names to values that match, frame by frame, and then evaluations of code that is
alike end alike (`Likeness.sound`).

There are two uses of this.  If a source is put elsewhere, then all places in its code move.  And if
a state is compared with itself, then the objects that are the same as themselves are those with a
property that evaluation keeps.
-/

namespace SmallLisp

/-! ## Code -/

/-- The forms are the same, except for their places; `L` says which literals are alike. -/
inductive Form.Alike (L : String → Span → Span → Prop) (P : Span → Span → Prop) : Form → Form → Prop
  | int (n : Int64) {a b : Span} (place : P a b) : Alike L P (.int n a) (.int n b)
  | float (x : Double) {a b : Span} (place : P a b) : Alike L P (.float x a) (.float x b)
  | str {text : String} {a b : Span} (literal : L text a b) (place : P a b) :
      Alike L P (.str text a) (.str text b)
  | symbol (name : String) {a b : Span} (place : P a b) :
      Alike L P (.symbol name a) (.symbol name b)
  | list {items items' : List Form} {a b : Span} (members : List.Forall₂ (Alike L P) items items')
      (place : P a b) : Alike L P (.list items a) (.list items' b)

namespace Form.Alike

variable {L : String → Span → Span → Prop} {P : Span → Span → Prop} {form form' : Form}

lemma place (h : form.Alike L P form') : P form.span form'.span := by
  cases h <;> assumption

lemma symbol?_eq (h : form.Alike L P form') : form'.symbol? = form.symbol? := by
  cases h <;> rfl

/-- Code that is alike looks the same to the list in which it stands. -/
lemma like (h : form.Alike L P form') : form.Like id P form' := by
  cases h with
  | int n place => exact .int n place
  | float x place => exact .float x place
  | str literal place => exact .str _ place
  | symbol name place => exact .symbol name place
  | list members place =>
    refine .list place (Shape.paramNames_like Function.injective_id (members.imp ?_) [])
    intro item item' hitem
    exact ⟨by simp [hitem.symbol?_eq], hitem.place⟩

end Form.Alike

lemma Form.alike_mono {L L' : String → Span → Span → Prop} {P P' : Span → Span → Prop}
    (hL : ∀ text a b, L text a b → L' text a b) (hP : ∀ a b, P a b → P' a b)
    {forms forms' : List Form} (h : List.Forall₂ (Form.Alike L P) forms forms') :
    List.Forall₂ (Form.Alike L' P') forms forms' := by
  induction forms using Form.forms_induction generalizing forms' with
  | nil =>
    cases h
    exact .nil
  | leaf form forms hleaf ih =>
    cases h with
    | cons h htail =>
      refine .cons ?_ (ih htail)
      cases h with
      | list => cases hleaf
      | int n place => exact .int n (hP _ _ place)
      | float x place => exact .float x (hP _ _ place)
      | str literal place => exact .str (hL _ _ _ literal) (hP _ _ place)
      | symbol name place => exact .symbol name (hP _ _ place)
  | list items span forms ihItems ihRest =>
    cases h with
    | cons h htail =>
      refine .cons ?_ (ihRest htail)
      cases h with
      | list members place => exact .list (ihItems members) (hP _ _ place)

/-- Forms are alike to those with other places, if their literals are. -/
lemma Form.alike_mapSpan {L : String → Span → Span → Prop} {P : Span → Span → Prop}
    {f : Span → Span} {forms : List Form} (hplace : ∀ span, P span (f span))
    (hliteral : ∀ text span, .str text span ∈ Form.nodesAll forms → L text span (f span)) :
    List.Forall₂ (Form.Alike L P) forms (forms.map (mapSpan f)) := by
  induction forms using Form.forms_induction with
  | nil => exact .nil
  | leaf form forms hleaf ih =>
    refine .cons ?_ (ih fun text span hmem => hliteral text span ?_)
    · cases form with
      | list => cases hleaf
      | int n span => exact .int n (hplace span)
      | float x span => exact .float x (hplace span)
      | str text span => exact .str (hliteral text span (by simp [nodesAll, nodes])) (hplace span)
      | symbol name span => exact .symbol name (hplace span)
    · exact List.mem_append_right _ hmem
  | list items span forms ihItems ihRest =>
    refine .cons ?_ (ihRest fun text span hmem => hliteral text span ?_)
    · rw [mapSpan, mapSpanAll_eq_map]
      refine .list (ihItems fun text span hmem => hliteral text span ?_) (hplace span)
      rw [nodesAll, nodes]
      exact List.mem_append_left _ (List.mem_cons_of_mem _ hmem)
    · exact List.mem_append_right _ hmem

/-- Forms are alike to themselves, if their literals are. -/
lemma Form.alike_self {L : String → Span → Span → Prop} {P : Span → Span → Prop}
    {forms : List Form} (hplace : ∀ span, P span span)
    (hliteral : ∀ text span, .str text span ∈ Form.nodesAll forms → L text span span) :
    List.Forall₂ (Form.Alike L P) forms forms := by
  simpa only [map_mapSpan_id] using alike_mapSpan (f := id) hplace hliteral

/-! ## Likeness -/

/-- What may differ between evaluations that are alike. -/
structure Likeness where
  /-- Which objects are the same. -/
  matching : Matching
  /-- Where the same code stands. -/
  span : Span → Span → Prop
  /-- In which frames the same closure was made. -/
  env : FrameId → FrameId → Prop

namespace Likeness

variable (L : Likeness)

/-- Code of these sources is alike, and its literals stand for the same objects. -/
def Codes (source source' : Nat) : Form → Form → Prop :=
  Form.Alike (fun text a b => L.matching.text text ∧
    L.matching.identity (.literal source a) (.literal source' b)) L.span

structure Closures (c c' : Closure) : Prop where
  params : c'.params = c.params
  env : L.env c.env c'.env
  body : L.Codes c.source c'.source c.body c'.body

abbrev Values : Value → Value → Prop := Value.Matches L.matching L.Closures

/-- What is alike stands for each other, whatever has happened before. -/
def correspondence : Correspondence Unit where
  matching := L.matching
  span := L.span
  output o o' := o' = o
  closure _ := L.Closures
  store _ := Store.Alike (fun _ => id) L.Values
  code _ site site' form form' :=
    site'.env = site.env ∧ L.Codes site.source site'.source form form'
  closure_mono _ h := h
  code_mono _ h := h

/-- The states are the same up to the values that are bound, which are alike. -/
abbrev States : State → State → Prop := L.correspondence.States ()

/-- The outcomes are the same up to states, values and places, which are alike. -/
abbrev Outcomes : Outcome Value → Outcome Value → Prop :=
  L.correspondence.Outcomes () fun _ => L.Values

/-- Less may differ under the first likeness than under the second one. -/
structure Finer (L L' : Likeness) : Prop where
  identity : ∀ i j, L.matching.identity i j → L'.matching.identity i j
  text : ∀ text, L.matching.text text → L'.matching.text text
  span : ∀ a b, L.span a b → L'.span a b
  env : ∀ i j, L.env i j → L'.env i j

namespace Finer

variable {L L' : Likeness} (h : L.Finer L')
include h

lemma codes {source source' : Nat} {forms forms' : List Form}
    (hforms : List.Forall₂ (L.Codes source source') forms forms') :
    List.Forall₂ (L'.Codes source source') forms forms' :=
  Form.alike_mono (fun _ _ _ hliteral => ⟨h.text _ hliteral.1, h.identity _ _ hliteral.2⟩) h.span
    hforms

lemma closures {c c' : Closure} (hc : L.Closures c c') : L'.Closures c c' where
  params := hc.params
  env := h.env _ _ hc.env
  body := by
    cases h.codes (.cons hc.body .nil) with
    | cons hbody => exact hbody

lemma values {v v' : Value} (hv : L.Values v v') : L'.Values v v' :=
  Value.Matches.mono h.identity h.text (fun _ _ => h.closures) hv

lemma states {s s' : State} (hs : L.States s s') : L'.States s s' where
  objects := hs.objects
  depth := hs.depth
  output := hs.output
  store := Store.Alike.mono (fun _ _ => h.values) hs.store

end Finer

variable {L}

/-- The frames for calls of closures that are alike are alike. -/
lemma callFrame {config : Config} {s s' : Store} {c c' : Closure} {args args' : List Value}
    (hlexical : config.scoping = .lexical → ∀ {i j}, L.env i j → j = i)
    (hs : s.Alike (fun _ => id) L.Values s') (hc : L.Closures c c')
    (hargs : List.Forall₂ L.Values args args') (env : FrameId) :
    (config.callFrame s env c args).Alike id L.Values (config.callFrame s' env c' args') := by
  have hentries : List.Forall₂ (Entry.Alike id L.Values) (c.params.zip args)
      (c'.params.zip args') := by
    simpa [hc.params] using zip_alike (ρ := id) c.params hargs
  unfold Config.callFrame
  cases hscoping : config.scoping with
  | lexical =>
    simp only [hlexical hscoping hc.env]
    exact .inside Function.injective_id _ hentries
  | flat => exact hs.snapshot Function.injective_id env hentries

/-- Code that is alike asks for the same. -/
lemma form {w : Unit} {s s' : Store} {site site' : Site} {form form' : Form}
    (henv : ∀ i, L.env i i) (hs : s.Alike (fun _ => id) L.Values s')
    (hform : L.correspondence.code w site site' form form') :
    L.correspondence.Forms w site site' s s' form form' := by
  obtain ⟨hsite, hcode⟩ := hform
  cases hcode with
  | int n => exact .int n
  | float x => exact .float x
  | str literal => exact .str literal.1 literal.2
  | symbol name place =>
    refine .symbol ?_ fun _ => ⟨rfl, place⟩
    rw [hsite]
    exact hs.lookup Function.injective_id site.env name
  | list members place =>
    refine .list ((Shape.ofList_like (F := L.Codes site.source site'.source) Form.Alike.like
      (fun _ => rfl) place members).imp fun _ _ _ hshape => ?_)
    refine .of_like hshape Form.Alike.place (fun _ _ _ h => ⟨hsite, h⟩) ?_ ?_
    · intro params body body' _ hbody
      exact ⟨params.map_id, hsite ▸ henv site.env, hbody⟩
    · intro name value _ v t t' a a' _ ht hvalue
      rw [hsite]
      exact ht.define Function.injective_id name hvalue

/-- Evaluations under the same settings are alike.  If the settings let closures see where they were
made, then they must have been made in the same frames. -/
theorem sound {config : Config} (hnowhere : L.span .nowhere .nowhere) (henv : ∀ i, L.env i i)
    (hlexical : config.scoping = .lexical → ∀ {i j}, L.env i j → j = i) :
    L.correspondence.Sound config config where
  limit := rfl
  nowhere := hnowhere
  env h := h.1
  next h := h.next_eq
  print h hvalues := by
    obtain rfl := h
    rw [Value.Matches.indiscernible.text_eq (fun _ _ hc => hc.params) hvalues]
    rfl
  form hs hform := form henv hs hform
  params h := congrArg List.length h.params
  enter env hs hc hargs _ :=
    ⟨(), le_rfl, hs.push (fun _ _ => rfl) (callFrame hlexical hs hc hargs env), rfl, hc.body⟩

/-- Programs that are alike are evaluated alike. -/
lemma sequence [Machine] {config : Config} (hsound : L.correspondence.Sound config config)
    (fuel : Nat) (site site' : Site) (hsite : site'.env = site.env) {forms forms' : List Form}
    (hforms : List.Forall₂ (L.Codes site.source site'.source) forms forms') {s s' : State}
    (hs : L.States s s') :
    L.Outcomes (EvalM.sequence (eval config fuel site) .nil forms s)
      (EvalM.sequence (eval config fuel site') .nil forms' s') :=
  (hsound.evaluator fuel).evalSequence (hforms.imp fun _ _ h => ⟨hsite, h⟩) hs .nil

/-- If an evaluation is alike to itself, then so is the state in which it ends. -/
lemma states_of_outcomes {o : Outcome Value} {s : State} (h : L.Outcomes o o)
    (hs : o.state? = some s) : L.States s s := by
  cases h with
  | ok _ states =>
    cases hs
    exact states
  | error _ states =>
    cases hs
    exact states
  | exhausted => cases hs

/-- New interpreters are alike. -/
lemma states_start : L.States Run.start Run.start where
  objects := rfl
  depth := rfl
  output := rfl
  store := Store.Alike.prelude rfl .primitive .nil

end Likeness

end SmallLisp
