import SmallLisp.Proofs.Evaluation.Congruence

/-!
# Evaluations without a bound

The evaluator takes a bound on the nesting of evaluations.  A larger bound never changes an outcome
other than `Outcome.exhausted` (`rising_eval`, `rising_call`), so that one can say how an evaluation
ends without naming a bound: it *settles* on an outcome if that is what comes of it under every
bound that is large enough.

How a composed evaluation settles is decided by how its parts do, in both directions
(`Settles.bind`, `Rising.settles_bind_cases`).
-/

namespace SmallLisp

namespace EvalM

variable {α β : Type}

/-- The second evaluation does what the first one does, unless that is not within its bound. -/
def Below (m m' : EvalM α) : Prop := ∀ s, m s = .exhausted ∨ m' s = m s

namespace Below

lemma refl (m : EvalM α) : m.Below m := fun _ => .inr rfl

lemma bind {m m' : EvalM α} {f f' : α → EvalM β} (hm : m.Below m')
    (hf : ∀ a, (f a).Below (f' a)) : (m >>= f).Below (m' >>= f') := by
  intro s
  change EvalM.bind m f s = .exhausted ∨ EvalM.bind m' f' s = EvalM.bind m f s
  unfold EvalM.bind
  rcases hm s with h | h
  · exact .inl (by rw [h])
  · rw [h]
    cases m s with
    | ok a t => exact hf a t
    | error e t => exact .inr rfl
    | exhausted => exact .inl rfl

lemma nested {m m' : EvalM α} (h : m.Below m') : (EvalM.nested m).Below (EvalM.nested m') := by
  intro s
  unfold EvalM.nested
  rcases h { s with depth := s.depth + 1 } with h | h
  · exact .inl (by rw [h])
  · exact .inr (by rw [h])

/-- A larger bound changes nothing but what was not within the smaller one. -/
lemma congruence [Machine] (config : Config) :
    Congruence config config fun _ m m' => m.Below m' where
  eval _ _ _ _ := .inl rfl
  call _ _ _ _ _ := .inl rfl
  pure _ := refl _
  fail _ := refl _
  resolve _ _ _ := refl _
  closure _ := refl _
  allocate _ := refl _
  define _ _ _ := refl _
  print _ := refl _
  bind := bind
  body heval env c args s := by
    unfold callClosure
    split
    · split
      · exact .inr rfl
      · exact nested (heval _ _) _
    · exact .inr rfl

end Below

/-! ## Families of evaluations -/

/-- One evaluation for every bound, where a larger bound changes nothing but what was not within
the smaller one. -/
def Rising (m : Nat → EvalM α) : Prop := ∀ ⦃n n'⦄, n ≤ n' → (m n).Below (m n')

namespace Rising

variable {f : Nat → β → EvalM α}

lemma const (m : EvalM α) : Rising fun _ => m := fun _ _ _ => .refl m

lemma bind {m : Nat → EvalM β} (hm : Rising m) (hf : ∀ b, Rising fun n => f n b) :
    Rising fun n => m n >>= f n :=
  fun _ _ hn => (hm hn).bind fun b => hf b hn

lemma each (h : ∀ b, Rising fun n => f n b) (l : List β) :
    Rising fun n => EvalM.each (f n) l := by
  induction l with
  | nil => exact const _
  | cons b rest ih => exact (h b).bind fun c => ih.bind fun cs => const _

lemma sequence {f : Nat → β → EvalM Value} (h : ∀ b, Rising fun n => f n b) (last : Value)
    (l : List β) : Rising fun n => EvalM.sequence (f n) last l := by
  induction l generalizing last with
  | nil => exact const _
  | cons b rest ih => exact (h b).bind ih

end Rising

lemma rising_eval [Machine] (config : Config) (site : Site) (form : Form) :
    Rising fun n => eval config n site form :=
  fun _ _ hn => ((Below.congruence config).evaluator hn).1 site form

lemma rising_call [Machine] (config : Config) (env : FrameId) (callee : Value) (args : List Value) :
    Rising fun n => call config n env callee args :=
  fun _ _ hn => ((Below.congruence config).evaluator hn).2 env callee args

/-! ## Outcomes without a bound -/

/-- Under every bound that is large enough, the evaluation ends with this outcome. -/
def Settles (m : Nat → EvalM α) (s : State) (o : Outcome α) : Prop :=
  o ≠ .exhausted ∧ ∃ bound, ∀ n, bound ≤ n → m n s = o

variable {m : Nat → EvalM α} {f : Nat → α → EvalM β} {s t : State} {o o' : Outcome α}

lemma Rising.eq_of_le (hm : Rising m) {n n' : Nat} (hn : n ≤ n') (h : m n s = o)
    (ho : o ≠ .exhausted) : m n' s = o := by
  rcases hm hn s with h' | h'
  · exact absurd (h.symm.trans h') ho
  · rw [h', h]

lemma Rising.settles (hm : Rising m) {n : Nat} (h : m n s = o) (ho : o ≠ .exhausted) :
    Settles m s o :=
  ⟨ho, n, fun _ hn => hm.eq_of_le hn h ho⟩

namespace Settles

lemma exists_bound (h : Settles m s o) : ∃ n, m n s = o := by
  obtain ⟨-, bound, h⟩ := h
  exact ⟨bound, h bound (Nat.le_refl _)⟩

lemma unique (h : Settles m s o) (h' : Settles m s o') : o = o' := by
  obtain ⟨-, bound, h⟩ := h
  obtain ⟨-, bound', h'⟩ := h'
  rw [← h _ (Nat.le_max_left bound bound'), ← h' _ (Nat.le_max_right bound bound')]

/-- The outcome may be the same under every bound. -/
lemma of_forall (h : ∀ n, m n s = o) (ho : o ≠ .exhausted := by rintro ⟨⟩) : Settles m s o :=
  ⟨ho, 0, fun n _ => h n⟩

lemma pure (a : α) (s : State) : Settles (fun _ => Pure.pure a) s (.ok a s) :=
  of_forall fun _ => rfl

/-- Only what comes of the evaluation in this state matters. -/
lemma congr {m' : Nat → EvalM α} (h : ∀ n, m n s = m' n s) : Settles m s o ↔ Settles m' s o := by
  simp only [Settles, h]

/-- One more level of nesting is no obstacle. -/
lemma succ_iff : Settles (fun n => m (n + 1)) s o ↔ Settles m s o := by
  constructor
  · rintro ⟨ho, bound, h⟩
    refine ⟨ho, bound + 1, fun n hn => ?_⟩
    obtain ⟨k, rfl⟩ := Nat.exists_eq_add_of_le' hn
    exact h (k + bound) (Nat.le_add_left _ _)
  · rintro ⟨ho, bound, h⟩
    exact ⟨ho, bound, fun n hn => h (n + 1) (Nat.le_succ_of_le hn)⟩

lemma bind {o : Outcome β} {a : α} (hm : Settles m s (.ok a t))
    (hf : Settles (fun n => f n a) t o) : Settles (fun n => m n >>= f n) s o := by
  obtain ⟨-, bound, hm⟩ := hm
  obtain ⟨ho, bound', hf⟩ := hf
  refine ⟨ho, max bound bound', fun n hn => ?_⟩
  change EvalM.bind (m n) (f n) s = o
  rw [EvalM.bind, hm n (Nat.le_trans (Nat.le_max_left _ _) hn)]
  exact hf n (Nat.le_trans (Nat.le_max_right _ _) hn)

lemma bind_error {e : EvalError} (hm : Settles m s (.error e t)) :
    Settles (fun n => m n >>= f n) s (.error e t) := by
  obtain ⟨-, bound, hm⟩ := hm
  refine ⟨nofun, bound, fun n hn => ?_⟩
  change EvalM.bind (m n) (f n) s = _
  rw [EvalM.bind, hm n hn]

/-- If the first part has a result, then the whole ends as what follows from it. -/
lemma bind_iff {o : Outcome β} {a : α} (hm : Settles m s (.ok a t)) :
    Settles (fun n => m n >>= f n) s o ↔ Settles (fun n => f n a) t o := by
  refine ⟨fun h => ?_, hm.bind⟩
  obtain ⟨-, bound, hm⟩ := hm
  obtain ⟨ho, bound', h⟩ := h
  refine ⟨ho, max bound bound', fun n hn => ?_⟩
  have hbind : EvalM.bind (m n) (f n) s = o := h n (Nat.le_trans (Nat.le_max_right _ _) hn)
  rwa [EvalM.bind, hm n (Nat.le_trans (Nat.le_max_left _ _) hn)] at hbind

/-- An evaluation in two parts ends, if the first part does and so does whatever follows it. -/
lemma exists_bind (hm : ∃ o, Settles m s o)
    (hf : ∀ a t, Settles m s (.ok a t) → ∃ o, Settles (fun n => f n a) t o) :
    ∃ o, Settles (fun n => m n >>= f n) s o := by
  obtain ⟨o, ho⟩ := hm
  cases o with
  | ok a t =>
    obtain ⟨o', ho'⟩ := hf a t ho
    exact ⟨o', ho.bind ho'⟩
  | error e t => exact ⟨_, ho.bind_error⟩
  | exhausted => exact absurd rfl ho.1

/-- What follows a check for a fault ends, if it does so for every result of the check. -/
lemma exists_orFault_bind {p : Primitive} {result : Except Fault α}
    (hf : ∀ a, result = .ok a → ∃ o, Settles (fun n => f n a) s o) :
    ∃ o, Settles (fun n => orFault p result >>= f n) s o := by
  cases result with
  | ok a => exact hf a rfl
  | error fault => exact ⟨_, of_forall fun _ => rfl⟩

end Settles

/-- An evaluation in two parts ends as the second one does, or with an error in the first one. -/
lemma Rising.settles_bind_cases {o : Outcome β} (hm : Rising m)
    (h : Settles (fun n => m n >>= f n) s o) :
    (∃ a t, Settles m s (.ok a t) ∧ Settles (fun n => f n a) t o) ∨
      ∃ e t, o = .error e t ∧ Settles m s (.error e t) := by
  obtain ⟨ho, bound, h⟩ := h
  have hbind (n : Nat) (hn : bound ≤ n) : EvalM.bind (m n) (f n) s = o := h n hn
  have hbound := hbind bound (Nat.le_refl _)
  cases hmb : m bound s with
  | exhausted =>
    rw [EvalM.bind, hmb] at hbound
    exact absurd hbound.symm ho
  | error e t =>
    rw [EvalM.bind, hmb] at hbound
    exact .inr ⟨e, t, hbound.symm, hm.settles hmb nofun⟩
  | ok a t =>
    obtain ⟨-, bound', hok⟩ := hm.settles hmb nofun
    refine .inl ⟨a, t, ⟨nofun, bound', hok⟩, ho, max bound bound', fun n hn => ?_⟩
    have hn' := hbind n (Nat.le_trans (Nat.le_max_left _ _) hn)
    rwa [EvalM.bind, hok n (Nat.le_trans (Nat.le_max_right _ _) hn)] at hn'

/-- It ends only if the first part does. -/
lemma Rising.exists_of_bind {o : Outcome β} (hm : Rising m)
    (h : Settles (fun n => m n >>= f n) s o) : ∃ o, Settles m s o := by
  rcases hm.settles_bind_cases h with ⟨a, t, ha, -⟩ | ⟨e, t, -, he⟩
  · exact ⟨_, ha⟩
  · exact ⟨_, he⟩

/-- Parts that end in the same way can stand for each other. -/
lemma Rising.settles_bind_congr {m' : Nat → EvalM α} {f' : Nat → α → EvalM β} {o : Outcome β}
    (hm : Rising m) (hm' : Rising m') (first : ∀ o, Settles m s o ↔ Settles m' s o)
    (second : ∀ a t, Settles m s (.ok a t) →
      (Settles (fun n => f n a) t o ↔ Settles (fun n => f' n a) t o)) :
    Settles (fun n => m n >>= f n) s o ↔ Settles (fun n => m' n >>= f' n) s o := by
  constructor
  · intro h
    rcases hm.settles_bind_cases h with ⟨a, t, ha, hf⟩ | ⟨e, t, rfl, he⟩
    · exact ((first _).mp ha).bind ((second a t ha).mp hf)
    · exact ((first _).mp he).bind_error
  · intro h
    rcases hm'.settles_bind_cases h with ⟨a, t, ha', hf'⟩ | ⟨e, t, rfl, he'⟩
    · have ha := (first _).mpr ha'
      exact ha.bind ((second a t ha).mpr hf')
    · exact ((first _).mpr he').bind_error

/-! ## Loops -/

/-- Checking the members of a list one after the other is one check. -/
lemma each_orFault (p : Primitive) (check : α → Except Fault β) (l : List α) :
    each (fun a => orFault p (check a)) l = orFault p (l.mapM check) := by
  induction l with
  | nil => rfl
  | cons a rest ih =>
    rw [each, ih, List.mapM_cons]
    cases check a with
    | error fault => rfl
    | ok b =>
      cases rest.mapM check with
      | error fault => rfl
      | ok bs => rfl

/-- Evaluating in order for the last result is evaluating in order for all of them. -/
theorem sequence_eq_each (f : α → EvalM Value) (last : Value) (l : List α) :
    sequence f last l = each f l >>= fun values => Pure.pure (values.getLastD last) := by
  induction l generalizing last with
  | nil => rfl
  | cons a rest ih =>
    calc
      sequence f last (a :: rest) = f a >>= fun value => sequence f value rest := rfl
      _ = f a >>= fun value => each f rest >>= fun values =>
          Pure.pure (values.getLastD value) := by simp only [ih]
      _ = each f (a :: rest) >>= fun values => Pure.pure (values.getLastD last) := by
          simp only [each, bind_assoc, pure_bind, List.getLastD_cons]

namespace Settles

variable {f : Nat → α → EvalM β} {l before after : List α} {a : α} {b : β} {bs : List β}
variable {e : EvalError}

lemma each_nil (f : Nat → α → EvalM β) (s : State) :
    Settles (fun n => each (f n) []) s (.ok [] s) :=
  pure [] s

lemma each_cons (h : Settles (fun n => f n a) s (.ok b t)) {u : State}
    (hrest : Settles (fun n => each (f n) l) t (.ok bs u)) :
    Settles (fun n => each (f n) (a :: l)) s (.ok (b :: bs) u) :=
  h.bind (hrest.bind (pure (b :: bs) u))

lemma each_cons_error (h : Settles (fun n => f n a) s (.ok b t)) {u : State}
    (hrest : Settles (fun n => each (f n) l) t (.error e u)) :
    Settles (fun n => each (f n) (a :: l)) s (.error e u) :=
  h.bind hrest.bind_error

/-- A loop ends, if each of its members ends from where those before it end. -/
theorem exists_each (l : List α) (s : State)
    (h : ∀ before a after bs u, l = before ++ a :: after →
      Settles (fun n => each (f n) before) s (.ok bs u) → ∃ o, Settles (fun n => f n a) u o) :
    ∃ o, Settles (fun n => each (f n) l) s o := by
  induction l generalizing s with
  | nil => exact ⟨_, each_nil f s⟩
  | cons a rest ih =>
    refine exists_bind (h [] a rest [] s rfl (each_nil f s)) fun b t hb => ?_
    refine exists_bind (ih t fun before a' after bs u hl hbefore => ?_) fun bs u _ =>
      ⟨_, pure (b :: bs) u⟩
    exact h (a :: before) a' after (b :: bs) u (by rw [hl, List.cons_append])
      (hb.each_cons hbefore)

/-- A loop over several members ends as the rest of it does, or with an error in the first one. -/
lemma each_cons_cases {o : Outcome (List β)} (hf : ∀ a, Rising fun n => f n a)
    (h : Settles (fun n => each (f n) (a :: l)) s o) :
    (∃ e t, o = .error e t ∧ Settles (fun n => f n a) s (.error e t)) ∨
      ∃ b u, Settles (fun n => f n a) s (.ok b u) ∧
        ((∃ e t, o = .error e t ∧ Settles (fun n => each (f n) l) u (.error e t)) ∨
          ∃ bs t, o = .ok (b :: bs) t ∧ Settles (fun n => each (f n) l) u (.ok bs t)) := by
  rcases (hf a).settles_bind_cases h with ⟨b, u, hb, hl⟩ | ⟨e, t, ho, ha⟩
  · right
    refine ⟨b, u, hb, ?_⟩
    rcases (Rising.each hf l).settles_bind_cases hl with ⟨bs, t, hbs, ho⟩ | ⟨e, t, ho, he⟩
    · exact .inr ⟨bs, t, ho.unique (pure _ _), hbs⟩
    · exact .inl ⟨e, t, ho, he⟩
  · exact .inl ⟨e, t, ho, ha⟩

/-- An error that ends a loop ends one of its members. -/
theorem each_error_cases (hf : ∀ a, Rising fun n => f n a)
    (h : Settles (fun n => each (f n) l) s (.error e t)) :
    ∃ before a after bs u, l = before ++ a :: after ∧
      Settles (fun n => each (f n) before) s (.ok bs u) ∧
        Settles (fun n => f n a) u (.error e t) := by
  induction l generalizing s with
  | nil => cases h.unique (each_nil f s)
  | cons a rest ih =>
    rcases each_cons_cases hf h with ⟨_, _, ho, ha⟩ | ⟨b, u, hb, ⟨_, _, ho, hrest⟩ | ⟨_, _, ho, -⟩⟩
    · cases ho
      exact ⟨[], a, rest, [], s, rfl, each_nil f s, ha⟩
    · cases ho
      obtain ⟨before, a', after, bs, v, rfl, hbefore, ha'⟩ := ih hrest
      exact ⟨a :: before, a', after, b :: bs, v, rfl, hb.each_cons hbefore, ha'⟩
    · cases ho

/-- An error in a member ends the loop, if those before it have results. -/
lemma each_append_error (hf : ∀ a, Rising fun n => f n a)
    (hbefore : Settles (fun n => each (f n) before) s (.ok bs t)) {u : State}
    (ha : Settles (fun n => f n a) t (.error e u)) :
    Settles (fun n => each (f n) (before ++ a :: after)) s (.error e u) := by
  induction before generalizing s bs with
  | nil =>
    cases hbefore.unique (each_nil f s)
    exact ha.bind_error
  | cons a' before ih =>
    rcases each_cons_cases hf hbefore with
      ⟨_, _, ho, -⟩ | ⟨b, v, hb, ⟨_, _, ho, -⟩ | ⟨bs', w, ho, hrest⟩⟩
    · cases ho
    · cases ho
    · cases ho
      exact hb.each_cons_error (ih hrest)

end Settles

end EvalM

end SmallLisp
