import SmallLisp.Proofs.Evaluation.Lookup

/-!
# Values that are bound

What holds of all values that are bound in a store (`Store.Bound`) holds of the value of every name
that is seen from some frame.  It goes on to hold when a value with the property is bound, and when
the frame for a call is made whose arguments have it.
-/

namespace SmallLisp.Store

/-- All values that are bound have the property. -/
def Bound (P : Value → Prop) (s : Store) : Prop :=
  ∀ (id : FrameId) (frame : Frame) name (v : Value), s.frames[id]? = some frame →
    frame.bindings.find? name = some v → P v

namespace Bound

variable {P Q : Value → Prop} {s : Store} {env : FrameId} {x : String} {v : Value}

lemma mono (h : s.Bound P) (hPQ : ∀ v, P v → Q v) : s.Bound Q :=
  fun id frame y w hid hy => hPQ w (h id frame y w hid hy)

lemma empty : Bound P {} := by
  intro id frame x v hframe
  cases hframe

lemma lookup (h : s.Bound P) (hx : s.lookup env x = some v) : P v := by
  obtain ⟨id, frame, hframe, hfind⟩ := exists_frame_of_lookup hx
  exact h id frame x v hframe hfind

lemma push (h : s.Bound P) {frame : Frame}
    (hframe : ∀ x v, frame.bindings.find? x = some v → P v) : (s.push frame).Bound P := by
  intro id frame' x v hid hx
  rcases getElem?_push_cases hid with hid | ⟨rfl, rfl⟩
  · exact h id frame' x v hid hx
  · exact hframe x v hx

lemma define (h : s.Bound P) (hv : P v) : (s.define env x v).Bound P := by
  intro id frame y w hid hy
  obtain ⟨old, hold, -, hfind⟩ := exists_frame_of_define hid
  rcases hfind y with hsame | hnew
  · exact h id old y w hold (hsame.symm.trans hy)
  · cases hnew.symm.trans hy
    exact hv

lemma inside {entries : List (String × Value)} (hentries : ∀ entry ∈ entries, P entry.2) :
    ∀ x v, (Frame.inside env entries).bindings.find? x = some v → P v := by
  intro x v hx
  rcases Bindings.mem_or_find?_of_insertAll hx with hmem | hx
  · exact hentries _ hmem
  · cases hx

lemma snapshot (h : s.Bound P) {entries : List (String × Value)}
    (hentries : ∀ entry ∈ entries, P entry.2) :
    ∀ x v, (s.snapshot env entries).bindings.find? x = some v → P v := by
  intro x v hx
  rcases Bindings.mem_or_find?_of_insertAll hx with hmem | hx
  · exact hentries _ hmem
  · rw [find?_visible] at hx
    exact h.lookup hx

/-- The names bound for a call are bound to arguments, or to what is seen. -/
lemma callFrame (h : s.Bound P) (config : Config) (c : Closure) {args : List Value}
    (hargs : ∀ v ∈ args, P v) :
    ∀ x v, (config.callFrame s env c args).bindings.find? x = some v → P v := by
  have hentries : ∀ entry ∈ c.params.zip args, P entry.2 :=
    fun entry hentry => hargs _ (List.of_mem_zip hentry).2
  unfold Config.callFrame
  split
  · exact inside hentries
  · exact h.snapshot hentries

/-- The names of the prelude are bound to the primitive procedures and to `nil`. -/
lemma definePrelude (h : s.Bound P) (env : FrameId) (hprimitive : ∀ p, P (.primitive p))
    (hnil : P .nil) : (s.definePrelude env).Bound P := by
  have hprimitives := List.foldlRecOn (motive := Store.Bound P) Primitive.all
    (fun s p => s.define env p.name (.primitive p)) h fun _ hs p _ => hs.define (hprimitive p)
  exact hprimitives.define hnil

end Bound

end SmallLisp.Store
