import SmallLisp.Proofs.Evaluation.RecursiveMap

/-!
# `map` and the program for it

The primitive procedure `map` and the program `m` call the same procedure with the same elements, in
the same order.  In between `m` makes frames for its own calls, and lists that `map` does not make,
so that what `f` makes has other numbers there.  The state that `m` is in is therefore a larger one,
in which that of `map` is embedded (`Renumbering.AtMap`).

One round takes both from one such pair of states to the next one: `m` makes a frame, both call `f`,
and `m` makes a list (`AtMap.exists_round`).  By induction along the list, they end alike
(`AtMap.exists_collects`), and if `m` ends then so does `map` (`AtMap.exists_loop`).
-/

namespace SmallLisp

open EvalM

variable {s s' t : State} {g env : FrameId} {id lid : Identity} {c : Closure} {f x y : Value}
variable {xs : List Value} {o' : Outcome Value}

/-- Making a list embeds anew what was embedded before. -/
lemma State.Closed.exists_newList {r : Renumbering} (hs : s.Closed) (h : r.Embeds s s')
    (items : List Value) :
    ∃ r', r.Agree r' s.extent ∧ r'.Embeds s (s'.newList items).2 :=
  h.exists_grown hs (.refl _) (Nat.le_succ _) rfl

/-! ## The primitive procedure -/

lemma Lists.columns_single (items : List Value) : columns items [] = items.map ([·]) := by
  induction items with
  | nil => rfl
  | cons v items ih => simp [columns, ih]

/-- The procedure `map` calls `f` with each element, and makes a list of the results. -/
lemma Task.ends_map_iff [Machine] {config : Config} {o : Outcome Value} (proc : f.isProcedure) :
    (Task.call env (.primitive .map) [f, .list lid xs]).Ends config s o ↔
      Settles (fun n => each (SmallLisp.call config n env f) (xs.map ([·])) >>= fun ys =>
        EvalM.update (·.allocate (.list ys))) s o := by
  refine ends_call_iff.trans (Settles.congr fun n => congrFun ?_ s)
  change mapBody (SmallLisp.call config n) env f (.list lid xs) [] = _
  rw [mapBody, if_pos proc, ← Lists.columns_single]
  rfl

/-! ## Corresponding states -/

namespace Renumbering

variable {r : Renumbering}

/-- The procedure `map` is still to call `f` with the elements `xs`, in the state `s`, and the
program `m` is about to be called with a list of them, in the state `s'`. -/
structure AtMap (r : Renumbering) (s s' : State) (g : FrameId) (id : Identity) (c : Closure)
    (f : Value) (xs : List Value) : Prop where
  states : r.Embeds s s'
  closed : s.Closed
  program : s'.store.DefinesMap g id c
  procedure : f.isProcedure
  inside : ∀ v ∈ f :: xs, v.Inside s.extent

/-- The calls of `f` have the first outcome, and the program the second one: the same error, or a
list of corresponding values.  What is in the extent `e` is numbered as before. -/
inductive Collects (r : Renumbering) (e : Extent) : Outcome (List Value) → Outcome Value → Prop
  | ok {r' vs t u} (agree : r.Agree r' e) (states : r'.Embeds t u) :
      Collects r e (.ok vs t) (.ok (u.newList (vs.map (Value.renumber r'))).1
        (u.newList (vs.map (Value.renumber r'))).2)
  | error {r' err t u} (agree : r.Agree r' e) (states : r'.Embeds t u) :
      Collects r e (.error err t) (.error err u)

namespace Collects

variable {r' : Renumbering} {e e' : Extent} {o : Outcome (List Value)}

lemma leave (h : r.Collects e o o') : r.Collects e o o'.leave := by
  cases h with
  | @ok _ _ t u agree states => exact .ok agree (states.depths t.depth (u.depth - 1))
  | @error _ _ t u agree states => exact .error agree (states.depths t.depth (u.depth - 1))

lemma of_agree (h : r'.Collects e' o o') (hagree : r.Agree r' e) (hle : e ≤ e') :
    r.Collects e o o' := by
  cases h with
  | ok agree states => exact .ok (hagree.trans (agree.mono hle)) states
  | error agree states => exact .error (hagree.trans (agree.mono hle)) states

/-- The program makes a list with one more result in front. -/
lemma exists_cons [Machine] {ys : List Value} (h : r.Collects e (.ok ys t) o') (ht : t.Closed)
    (hle : e ≤ t.extent) (hy : y.Inside e) (hys : ∀ v ∈ ys, v.Inside t.extent) (env : FrameId) :
    ∃ list u o'', o' = .ok list u ∧
      (Task.call env (.primitive .cons) [y.renumber r, list]).Ends ⟨.lexical, none⟩ u o'' ∧
      r.Collects e (.ok (y :: ys) t) o'' := by
  cases h with
  | @ok r' _ _ u agree states =>
    obtain ⟨r'', hagree, hembeds⟩ := ht.exists_newList states (ys.map (Value.renumber r'))
    have hagree' : r.Agree r'' e := agree.trans (hagree.mono hle)
    refine ⟨_, _, _, rfl, Task.ends_operation_call rfl rfl, ?_⟩
    have hcollects : r.Collects e (.ok (y :: ys) t) _ := .ok hagree' hembeds
    rw [List.map_cons, hagree'.value hy, hagree.values hys] at hcollects
    exact hcollects

end Collects

namespace AtMap

lemma map_eq (h : r.AtMap s s' g id c f xs) {r' : Renumbering} (hagree : r.Agree r' s.extent) :
    f.renumber r' = f.renumber r ∧ xs.map (Value.renumber r') = xs.map (Value.renumber r) :=
  ⟨hagree.value (h.inside f List.mem_cons_self),
    hagree.values fun v hv => h.inside v (List.mem_cons_of_mem f hv)⟩

lemma inside_cons (h : r.AtMap s s' g id c f (x :: xs)) :
    (∀ v ∈ [f, x], v.Inside s.extent) ∧ ∀ v ∈ f :: xs, v.Inside s.extent := by
  have hinside := h.inside
  simp only [List.forall_mem_cons] at hinside ⊢
  obtain ⟨hf, hx, hxs⟩ := hinside
  exact ⟨⟨hf, hx, List.forall_mem_nil _⟩, hf, hxs⟩

variable [Machine]

lemma each_call {ys : List Value} (h : r.AtMap s s' g id c f xs)
    (hloop : Settles (fun n => each (call ⟨.lexical, none⟩ n env f) (xs.map ([·]))) s (.ok ys t)) :
    s.extent ≤ t.extent ∧ t.Closed ∧ ∀ v ∈ ys, v.Inside t.extent := by
  refine h.closed.each_call (h.inside f List.mem_cons_self) (fun column hcolumn a ha => ?_) hloop
  obtain ⟨v, hv, rfl⟩ := List.mem_map.mp hcolumn
  obtain rfl := List.mem_singleton.mp ha
  exact h.inside a (List.mem_cons_of_mem f hv)

/-- With no elements left, the program makes an empty list. -/
lemma exists_collects_nil (h : r.AtMap s s' g id c f []) (env : FrameId) (lid : Identity) :
    ∃ o', (Task.call env (.closure id c) [f.renumber r, .list lid []]).Ends ⟨.lexical, none⟩ s' o' ∧
      r.Collects s.extent (.ok [] s) o' := by
  obtain ⟨u, hunchanged, hobjects, houtput, hmap, hcall⟩ :=
    h.program.ends_call env (f.renumber r) (.list lid [])
  obtain ⟨r', hagree, hembeds⟩ := h.states.exists_grown h.closed hunchanged hobjects.ge houtput
  have hends := @Store.InMap.ends_nil ⟨.lexical, none⟩ u ⟨c.source, s'.store.next⟩ _ _ lid _ c.body
    hmap h.program.body
  exact ⟨_, (hcall _).mpr ⟨_, hends, rfl⟩, (Collects.ok hagree hembeds).leave⟩

/-- One round begins with a call of `f` with the first element, which is done by `map` in the state
`s` and by the program in the state `u`. -/
lemma exists_entered (h : r.AtMap s s' g id c f (x :: xs)) (env : FrameId) (lid : Identity) :
    ∃ r' u, r.Agree r' s.extent ∧ r'.AtMap s u g id c f (x :: xs) ∧ ∀ o',
      (Task.call env (.closure id c) [f.renumber r,
          .list lid ((x :: xs).map (Value.renumber r))]).Ends ⟨.lexical, none⟩ s' o' ↔
        ∃ o'', Settles (fun n => mappingRound (call ⟨.lexical, none⟩ n s'.store.next)
          (.closure id c) (f.renumber r') (x.renumber r') (xs.map (Value.renumber r'))) u o'' ∧
            o' = o''.leave := by
  obtain ⟨u, hunchanged, hobjects, houtput, hmap, hcall⟩ := h.program.ends_call env (f.renumber r)
    (.list lid ((x :: xs).map (Value.renumber r)))
  obtain ⟨r', hagree, hembeds⟩ := h.states.exists_grown h.closed hunchanged hobjects.ge houtput
  obtain ⟨hf, hitems⟩ := h.map_eq hagree
  obtain ⟨hx, hxs⟩ := List.cons.inj hitems
  refine ⟨r', u, hagree, ⟨hembeds, h.closed, h.program.unchanged hunchanged, h.procedure, h.inside⟩,
    fun o' => (hcall o').trans (exists_congr fun o'' => and_congr_left' ?_)⟩
  rw [hf, hx, hxs]
  exact @Store.InMap.ends_cons ⟨.lexical, none⟩ u o'' ⟨c.source, s'.store.next⟩ _ _ _ _ lid _ c.body
    hmap h.program.body (by rw [Value.isProcedure_renumber, h.procedure]) rfl

/-- If the call of `f` fails, then so does the program. -/
lemma exists_collects_error (h : r.AtMap s s' g id c f (x :: xs)) (env env' : FrameId)
    (lid : Identity) {e : EvalError}
    (hf : (Task.call env f [x]).Ends ⟨.lexical, none⟩ s (.error e t)) :
    ∃ o', (Task.call env' (.closure id c)
        [f.renumber r, .list lid ((x :: xs).map (Value.renumber r))]).Ends ⟨.lexical, none⟩ s' o' ∧
      r.Collects s.extent (.error e t) o' := by
  obtain ⟨r', u, hagree, hu, hcall⟩ := h.exists_entered env' lid
  obtain ⟨o', hf', houtcomes⟩ := hu.states.call_ends s'.store.next hf
  cases houtcomes with
  | @error _ _ t' states =>
    exact ⟨_, (hcall _).mpr ⟨_, hf'.bind_error, rfl⟩, (Collects.error hagree states).leave⟩

/-- If it has a result, then the program makes a list of the remaining elements, calls itself with
it, and makes a list with the result in front. -/
theorem exists_round (h : r.AtMap s s' g id c f (x :: xs)) (env env' : FrameId) (lid : Identity)
    (hf : (Task.call env f [x]).Ends ⟨.lexical, none⟩ s (.ok y t)) :
    ∃ r' u callee lid', r.Agree r' s.extent ∧ r'.AtMap t u g id c f xs ∧ ∀ o',
      (Task.call env' (.closure id c) [f.renumber r,
          .list lid ((x :: xs).map (Value.renumber r))]).Ends ⟨.lexical, none⟩ s' o' ↔
        ∃ o'', Settles (fun n =>
          call ⟨.lexical, none⟩ n callee (.closure id c)
              [f.renumber r', .list lid' (xs.map (Value.renumber r'))] >>= fun ys =>
            call ⟨.lexical, none⟩ n callee (.primitive .cons) [y.renumber r', ys]) u o'' ∧
            o' = o''.leave := by
  obtain ⟨r₁, u, hagree₁, hu, hcall⟩ := h.exists_entered env' lid
  obtain ⟨_, hf', houtcomes⟩ := hu.states.call_ends s'.store.next hf
  cases houtcomes with
  | @ok _ _ t' states =>
    obtain ⟨hfirst, hrest⟩ := h.inside_cons
    obtain ⟨hle, ht, hy⟩ := h.closed.call hfirst hf
    have hinside : ∀ v ∈ f :: xs, v.Inside t.extent := fun v hv => (hrest v hv).mono hle
    let rest := xs.map (Value.renumber r₁)
    obtain ⟨r₂, hagree₂, hembeds⟩ := ht.exists_newList states rest
    have hprogram : t'.store.DefinesMap g id c := hu.program.unchanged (hf'.unchanged rfl)
    have hagree : r.Agree r₂ s.extent := hagree₁.trans (hagree₂.mono hle)
    refine ⟨r₂, (t'.newList rest).2, s'.store.next, .fresh t'.objects, hagree,
      ⟨hembeds, ht, hprogram, h.procedure, hinside⟩,
      fun o' => (hcall o').trans (exists_congr fun o'' => and_congr_left' ?_)⟩
    rw [hagree₂.value hy, hagree₂.values fun v hv => hinside v (List.mem_cons_of_mem f hv),
      hagree₂.value (hinside f List.mem_cons_self)]
    simp only [mappingRound]
    refine hf'.bind_iff.trans ?_
    simp only [bind_assoc]
    exact Settles.bind_iff (.of_forall fun _ => rfl)

/-! ## Whole calls -/

/-- When the calls of `f` have come to an end, then so does the program, and likewise. -/
theorem exists_collects (h : r.AtMap s s' g id c f xs) (env env' : FrameId) (lid : Identity)
    {o : Outcome (List Value)}
    (hloop : Settles (fun n => each (call ⟨.lexical, none⟩ n env f) (xs.map ([·]))) s o) :
    ∃ o', (Task.call env' (.closure id c)
        [f.renumber r, .list lid (xs.map (Value.renumber r))]).Ends ⟨.lexical, none⟩ s' o' ∧
      r.Collects s.extent o o' := by
  induction xs generalizing r s s' env' lid o with
  | nil =>
    obtain rfl := hloop.unique (.each_nil _ s)
    exact h.exists_collects_nil env' lid
  | cons x xs ih =>
    rcases hloop.each_cons_cases fun column => rising_call _ env f column with
      ⟨e, t, rfl, hf⟩ | ⟨y, t, hf, hrest⟩
    · exact h.exists_collects_error env env' lid hf
    · obtain ⟨r₁, u, callee, lid', hagree, hu, hround⟩ := h.exists_round env env' lid hf
      obtain ⟨hle, -, hy⟩ := h.closed.call h.inside_cons.1 hf
      rcases hrest with ⟨e, v, rfl, hrest⟩ | ⟨ys, v, rfl, hrest⟩
      · obtain ⟨_, hm, hcollects⟩ := ih hu callee lid' hrest
        cases hcollects with
        | error agree states =>
          exact ⟨_, (hround _).mpr ⟨_, hm.bind_error, rfl⟩,
            (Collects.error agree states).leave.of_agree hagree hle⟩
      · obtain ⟨_, hm, hcollects⟩ := ih hu callee lid' hrest
        obtain ⟨hle', hv, hys⟩ := hu.each_call hrest
        obtain ⟨ys', w, o'', rfl, hcons, hcollects⟩ := hcollects.exists_cons hv hle' hy hys callee
        exact ⟨_, (hround _).mpr ⟨_, hm.bind hcons, rfl⟩, hcollects.leave.of_agree hagree hle⟩

/-- When the program has come to an end, then so do the calls of `f`. -/
theorem exists_loop (h : r.AtMap s s' g id c f xs) (env env' : FrameId) (lid : Identity)
    (hends : (Task.call env' (.closure id c)
        [f.renumber r, .list lid (xs.map (Value.renumber r))]).Ends ⟨.lexical, none⟩ s' o') :
    ∃ o, Settles (fun n => each (call ⟨.lexical, none⟩ n env f) (xs.map ([·]))) s o := by
  induction xs generalizing r s s' env' lid o' with
  | nil => exact ⟨_, .each_nil _ s⟩
  | cons x xs ih =>
    obtain ⟨r', u, -, hu, hcall⟩ := h.exists_entered env' lid
    obtain ⟨o'', hround, -⟩ := (hcall o').mp hends
    obtain ⟨_, hf'⟩ := (rising_call _ _ _ ([x].map (Value.renumber r'))).exists_of_bind hround
    obtain ⟨o, hf⟩ := hu.states.exists_call_ends hf' env
    cases o with
    | ok y t =>
      obtain ⟨r₁, u, callee, lid', -, hu, hround⟩ := h.exists_round env env' lid hf
      obtain ⟨_, hrest, -⟩ := (hround o').mp hends
      obtain ⟨_, hm⟩ := (rising_call _ _ _ _).exists_of_bind hrest
      obtain ⟨o, hloop⟩ := ih hu callee lid' hm
      refine Settles.exists_bind ⟨_, hf⟩ fun y' t' hf₁ => ?_
      cases hf.unique hf₁
      exact Settles.exists_bind ⟨_, hloop⟩ fun ys v _ => ⟨_, .pure _ v⟩
    | error e t => exact ⟨_, hf.bind_error⟩
    | exhausted => exact absurd rfl hf.1

/-! ## Both procedures -/

/-- When `map` has come to an end, then so does the program, and likewise. -/
theorem exists_outcomes (h : r.AtMap s s' g id c f xs) (env env' : FrameId) (lid : Identity)
    {o : Outcome Value}
    (hends : (Task.call env (.primitive .map) [f, .list lid xs]).Ends ⟨.lexical, none⟩ s o) :
    ∃ o' r', (Task.call env' (.closure id c)
        [f.renumber r, .list lid (xs.map (Value.renumber r))]).Ends ⟨.lexical, none⟩ s' o' ∧
      r.Agree r' s.extent ∧ r'.Outcomes (Value.renumber r') o o' := by
  have hrising := Rising.each (rising_call ⟨.lexical, none⟩ env f) (xs.map ([·]))
  rcases hrising.settles_bind_cases ((Task.ends_map_iff h.procedure).mp hends) with
    ⟨ys, t, hloop, hlist⟩ | ⟨e, t, rfl, hloop⟩
  · obtain rfl := hlist.unique (.of_forall fun _ => rfl)
    obtain ⟨o', hends', hcollects⟩ := h.exists_collects env env' lid hloop
    cases hcollects with
    | @ok r' _ _ u agree states =>
      exact ⟨_, r', hends', agree, Commutes.allocate (.list ys) states⟩
  · obtain ⟨o', hends', hcollects⟩ := h.exists_collects env env' lid hloop
    cases hcollects with
    | @error r' _ _ _ agree states => exact ⟨_, r', hends', agree, .error states⟩

/-- When the program has come to an end, then so does `map`. -/
theorem exists_ends (h : r.AtMap s s' g id c f xs) (env env' : FrameId) (lid lid' : Identity)
    (hends : (Task.call env' (.closure id c)
        [f.renumber r, .list lid (xs.map (Value.renumber r))]).Ends ⟨.lexical, none⟩ s' o') :
    ∃ o, (Task.call env (.primitive .map) [f, .list lid' xs]).Ends ⟨.lexical, none⟩ s o := by
  simp only [Task.ends_map_iff h.procedure]
  refine Settles.exists_bind (h.exists_loop env env' lid hends) fun values t _ => ?_
  exact ⟨_, .of_forall fun _ => rfl⟩

end AtMap

end Renumbering

end SmallLisp
