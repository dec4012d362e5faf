import SmallLisp.Proofs.Primitive.Ordering

/-!
# Unbeaten candidates

The procedures `max` and `min` go once through their candidates and keep the best one so far, yet
their result is unbeaten by all candidates (`extreme_unbeaten`).  The ones that are left behind are
not looked at again, so this rests on the order going on from one pair to the next: what beats the
result beats all that were the best one before it (`Extreme.foldlM_pick_unbeaten`).

That two candidates compare as equal does not go on in this way, since an integer can be equal to a
double that equals another integer; and a NaN beats nothing and is beaten by nothing.  Neither does
harm, because only a candidate that beats the best one takes its place.
-/

namespace SmallLisp

namespace Value

variable {a b v : Value} {rest vs ws : List Value}

lemma Comparable.subset (h : Comparable vs) (hsub : ws ⊆ vs) : Comparable ws :=
  h.imp (fun h w hw => h w (hsub hw)) fun h w hw => h w (hsub hw)

/-- Two values can be compared exactly if both are numbers or both are strings. -/
lemma exists_compare?_iff : (∃ o, a.compare? b = .ok o) ↔ Comparable [a, b] := by
  constructor
  · rintro ⟨o, h⟩
    cases a <;> cases b <;> first | simp [Comparable, kind]; done | cases h
  · intro h
    obtain ⟨o, hstand⟩ := h.exists_stand (a := a) (b := b) (by simp) (by simp)
    exact ⟨o, hstand.compared⟩

lemma comparable_cons_of_number (hv : v.kind = .int ∨ v.kind = .float) :
    Comparable (v :: rest) ↔ ∀ w ∈ rest, w.kind = .int ∨ w.kind = .float := by
  have hnot : v.kind ≠ .str := by rcases hv with hv | hv <;> simp [hv]
  simp only [Comparable, List.forall_mem_cons, hv, hnot, true_and, false_and, or_false]

lemma comparable_cons_of_string (hv : v.kind = .str) :
    Comparable (v :: rest) ↔ ∀ w ∈ rest, w.kind = .str := by
  simp [Comparable, hv]

/-- Of two comparable values either one can stand for both. -/
lemma comparable_cons_iff (h : Comparable [a, b]) (hv : v = a ∨ v = b) :
    Comparable (v :: rest) ↔ Comparable (b :: a :: rest) := by
  unfold Comparable at h
  simp only [List.forall_mem_cons] at h
  rcases h with ⟨ha, hb, -⟩ | ⟨ha, hb, -⟩
  · have hnumber : v.kind = .int ∨ v.kind = .float := by rcases hv with rfl | rfl <;> assumption
    rw [comparable_cons_of_number hnumber, comparable_cons_of_number hb, List.forall_mem_cons,
      and_iff_right ha]
  · have hstring : v.kind = .str := by rcases hv with rfl | rfl <;> assumption
    rw [comparable_cons_of_string hstring, comparable_cons_of_string hb, List.forall_mem_cons,
      and_iff_right ha]

end Value

namespace Extreme

/-- The procedure that looks for the extreme. -/
def primitive : Extreme → Primitive
  | max => .max
  | min => .min

/-- How a value compares with another one that it beats. -/
def winning : Extreme → Ordering
  | max => .gt
  | min => .lt

/-- The first value is greater than the second one, or less if a minimum is looked for. -/
def Beats (extreme : Extreme) (x y : Value) : Prop := x.compare? y = .ok (some extreme.winning)

/-- What the procedures choose from: the elements of a list that is the only argument, and
otherwise the arguments. -/
inductive ChoosesFrom : List Value → List Value → Prop
  | elements (id : Identity) (items : List Value) : ChoosesFrom [.list id items] items
  | arguments {args : List Value} (several : ∀ id items, args ≠ [.list id items]) :
      ChoosesFrom args args

variable {extreme : Extreme} {x y z first best c v : Value} {rest vs : List Value}

lemma ChoosesFrom.candidates_eq (h : ChoosesFrom (first :: rest) vs) :
    candidates first rest = vs := by
  generalize hargs : first :: rest = args at h
  cases h with
  | elements id items =>
    cases hargs
    rfl
  | arguments several =>
    subst hargs
    unfold candidates
    split
    · next id items => exact absurd rfl (several id items)
    · rfl

/-! ## What beats what -/

lemma not_beats_self : ¬ extreme.Beats x x := by
  intro h
  have hpair := Value.exists_compare?_iff.mp ⟨_, h⟩
  obtain ⟨o, hstand⟩ := hpair.exists_stand (List.mem_cons_self (a := x)) List.mem_cons_self
  -- an order that is its own converse is neither less nor greater
  have hcompared := hstand.compared.symm.trans h
  have hswapped := hstand.swapped.symm.trans h
  cases hcompared
  cases extreme <;> cases hswapped

lemma Beats.trans (h : Value.Comparable vs) (hx : x ∈ vs) (hy : y ∈ vs) (hz : z ∈ vs)
    (hxy : extreme.Beats x y) (hyz : extreme.Beats y z) : extreme.Beats x z := by
  cases extreme with
  | min => exact h.compare?_lt_trans hx hy hz hxy hyz
  | max =>
    have hconverse {a b : Value} (ha : a ∈ vs) (hb : b ∈ vs) {o : Ordering}
        (hab : a.compare? b = .ok (some o)) : b.compare? a = .ok (some o.swap) := by
      obtain ⟨_, hstand⟩ := h.exists_stand ha hb
      obtain rfl := Except.ok.inj (hstand.compared.symm.trans hab)
      exact hstand.swapped
    exact hconverse hz hx
      (h.compare?_lt_trans hz hy hx (hconverse hy hz hyz) (hconverse hx hy hxy))

/-! ## The run through the candidates -/

/-- The next candidate takes the place of the best one exactly if it beats it. -/
lemma pick_cases (h : extreme.pick best c = .ok v) :
    (extreme.Beats c best ∧ v = c) ∨ (¬ extreme.Beats c best ∧ v = best) := by
  obtain ⟨o, ho, h⟩ := exists_of_bind_eq_ok h
  have hbetter : o.any extreme.isBetter = true ↔ extreme.Beats c best := by
    rw [Beats, ho, Except.ok.injEq]
    cases extreme <;> rcases o with _ | _ | _ | _ <;> simp [isBetter, winning]
  cases h
  split
  · next hany => exact .inl ⟨hbetter.mp hany, rfl⟩
  · next hany => exact .inr ⟨fun hbeats => hany (hbetter.mpr hbeats), rfl⟩

/-- The next candidate can be looked at exactly if it can be compared with the best one. -/
lemma exists_pick_iff : (∃ v, extreme.pick best c = .ok v) ↔ Value.Comparable [c, best] := by
  rw [← Value.exists_compare?_iff]
  constructor
  · rintro ⟨v, h⟩
    obtain ⟨o, ho, -⟩ := exists_of_bind_eq_ok h
    exact ⟨o, ho⟩
  · rintro ⟨o, ho⟩
    rw [pick, ho]
    exact ⟨_, rfl⟩

lemma foldlM_pick_cons (h : extreme.pick first c = .ok best) :
    (c :: rest).foldlM extreme.pick first = rest.foldlM extreme.pick best := by
  rw [List.foldlM_cons, h]
  rfl

/-- The run through the candidates comes to its end exactly if they can be compared, or if there is
nothing to compare. -/
lemma exists_foldlM_pick_iff :
    (∃ v, rest.foldlM extreme.pick first = .ok v) ↔
      rest = [] ∨ Value.Comparable (first :: rest) := by
  induction rest generalizing first with
  | nil => exact iff_of_true ⟨first, rfl⟩ (.inl rfl)
  | cons c rest ih =>
    rw [or_iff_right (List.cons_ne_nil c rest)]
    constructor
    · rintro ⟨v, h⟩
      rw [List.foldlM_cons] at h
      obtain ⟨best, hpick, h⟩ := exists_of_bind_eq_ok h
      have hpair := exists_pick_iff.mp ⟨best, hpick⟩
      have hbest : best = c ∨ best = first := (pick_cases hpick).imp And.right And.right
      rw [← Value.comparable_cons_iff hpair hbest]
      rcases ih.mp ⟨v, h⟩ with rfl | h
      · exact (Value.comparable_cons_iff hpair hbest).mpr (hpair.subset (by simp))
      · exact h
    · intro h
      have hpair : Value.Comparable [c, first] := h.subset (by simp)
      obtain ⟨best, hpick⟩ := exists_pick_iff.mpr hpair
      have hbest : best = c ∨ best = first := (pick_cases hpick).imp And.right And.right
      obtain ⟨v, hv⟩ := ih.mpr (.inr ((Value.comparable_cons_iff hpair hbest).mpr h))
      exact ⟨v, (foldlM_pick_cons hpick).trans hv⟩

/-- If all candidates can be compared, then the result is one of them and beaten by none of those
that come after the first; and what beats it beats the first one. -/
lemma foldlM_pick_unbeaten (h : rest.foldlM extreme.pick first = .ok v)
    (comparable : Value.Comparable vs) (hfirst : first ∈ vs) (hrest : rest ⊆ vs) :
    v ∈ first :: rest ∧ (∀ x ∈ rest, ¬ extreme.Beats x v) ∧
      ∀ x ∈ vs, extreme.Beats x v → extreme.Beats x first := by
  induction rest generalizing first with
  | nil =>
    cases h
    simp
  | cons c rest ih =>
    rw [List.foldlM_cons] at h
    obtain ⟨best, hpick, h⟩ := exists_of_bind_eq_ok h
    obtain ⟨hc, hrest⟩ := List.cons_subset.mp hrest
    rcases pick_cases hpick with ⟨hbeats, heq⟩ | ⟨hbeats, heq⟩ <;> rw [heq] at h
    · obtain ⟨hmem, hunbeaten, hchain⟩ := ih h hc hrest
      refine ⟨List.mem_cons_of_mem _ hmem, List.forall_mem_cons.mpr ⟨?_, hunbeaten⟩, ?_⟩
      · exact fun hbeaten => not_beats_self (hchain _ hc hbeaten)
      · exact fun x hx hbeaten => (hchain x hx hbeaten).trans comparable hx hc hfirst hbeats
    · obtain ⟨hmem, hunbeaten, hchain⟩ := ih h hfirst hrest
      refine ⟨?_, List.forall_mem_cons.mpr ⟨?_, hunbeaten⟩, hchain⟩
      · exact List.mem_cons.mpr ((List.mem_cons.mp hmem).imp_right (List.mem_cons_of_mem c))
      · exact fun hbeaten => hbeats (hchain c hc hbeaten)

/-- The result of the run through the candidates is one of them, and none of them beats it. -/
lemma unbeaten_of_foldlM_pick (h : rest.foldlM extreme.pick first = .ok v) :
    v ∈ first :: rest ∧ ∀ x ∈ first :: rest, ¬ extreme.Beats x v := by
  rcases exists_foldlM_pick_iff.mp ⟨v, h⟩ with rfl | hcomparable
  · cases h
    simp [not_beats_self]
  · obtain ⟨hmem, hunbeaten, hchain⟩ :=
      foldlM_pick_unbeaten h hcomparable List.mem_cons_self (List.subset_cons_self first rest)
    refine ⟨hmem, List.forall_mem_cons.mpr ⟨fun hbeaten => ?_, hunbeaten⟩⟩
    exact not_beats_self (hchain first List.mem_cons_self hbeaten)

/-- There is nothing to choose from, or there are two or more candidates that cannot be compared. -/
def Undecidable (candidates : List Value) : Prop :=
  candidates = [] ∨ 2 ≤ candidates.length ∧ ¬ Value.Comparable candidates

lemma undecidable_cons_iff :
    Undecidable (first :: rest) ↔ ¬ ∃ v, rest.foldlM extreme.pick first = .ok v := by
  have hlength : 2 ≤ (first :: rest).length ↔ rest ≠ [] := by
    rw [List.length_cons, Nat.add_le_add_iff_right (n := 1), Nat.one_le_iff_ne_zero, Ne, Ne,
      List.length_eq_zero_iff]
  rw [exists_foldlM_pick_iff, not_or, Undecidable, or_iff_right (List.cons_ne_nil first rest),
    hlength]

/-- Either an unbeaten candidate is chosen, or none can be. -/
lemma choose_cases (extreme : Extreme) (first : Value) (rest : List Value) :
    (∃ v, extreme.choose first rest = .ok (.value v) ∧ ¬ Undecidable (candidates first rest) ∧
      v ∈ candidates first rest ∧ ∀ x ∈ candidates first rest, ¬ extreme.Beats x v) ∨
    (∃ fault, extreme.choose first rest = .error fault ∧
      Undecidable (candidates first rest)) := by
  unfold choose
  cases candidates first rest with
  | nil => exact .inr ⟨_, rfl, .inl rfl⟩
  | cons first rest =>
    rw [@undecidable_cons_iff extreme]
    cases h : rest.foldlM extreme.pick first with
    | error fault => exact .inr ⟨fault, by simp only [h]; rfl, by simp⟩
    | ok v => exact .inl ⟨v, by simp only [h]; rfl, by simp, unbeaten_of_foldlM_pick h⟩

end Extreme

/-! ## The procedures -/

/-- The procedures `max` and `min`, called with a number of arguments that they accept, answer one
of their candidates, and no candidate is greater, or less, than it; or they fail.  They fail exactly
if there are no candidates, or two or more that are neither all numbers nor all strings.  In either
case they change nothing. -/
theorem extreme_unbeaten [Machine] (extreme : Extreme) {args candidates : List Value}
    (accepted : extreme.primitive.arity.accepts args.length)
    (chooses : Extreme.ChoosesFrom args candidates)
    (call : FrameId → Value → List Value → EvalM Value) (env : FrameId) (s : State) :
    let outcome := callPrimitive call env extreme.primitive args s
    ((∃ v, outcome = .ok v s) ∨ ∃ fault, outcome = .error (.primitive extreme.primitive fault) s) ∧
    (∀ v s', outcome = .ok v s' →
      v ∈ candidates ∧ ∀ x ∈ candidates, x.compare? v ≠ .ok (some extreme.winning)) ∧
    ((∃ e s', outcome = .error e s') ↔
      candidates = [] ∨ 2 ≤ candidates.length ∧ ¬ Value.Comparable candidates) := by
  obtain ⟨first, rest, rfl⟩ : ∃ first rest, args = first :: rest := by
    cases args with
    | nil => cases extreme <;> cases accepted
    | cons first rest => exact ⟨first, rest, rfl⟩
  have hcall : callPrimitive call env extreme.primitive (first :: rest) =
      extreme.primitive.answer (extreme.choose first rest) := by
    cases extreme <;> exact Primitive.callPrimitive_of_operation rfl rfl
  obtain rfl := chooses.candidates_eq
  rw [hcall]
  rcases extreme.choose_cases first rest with
    ⟨v, hchoose, hnot, hmem, hunbeaten⟩ | ⟨fault, hchoose, h⟩
  · have houtcome : extreme.primitive.answer (extreme.choose first rest) s = .ok v s := by
      rw [hchoose]
      rfl
    rw [houtcome]
    refine ⟨.inl ⟨v, rfl⟩, ?_, iff_of_false (by simp) hnot⟩
    rintro _ _ ⟨⟩
    exact ⟨hmem, hunbeaten⟩
  · have houtcome : extreme.primitive.answer (extreme.choose first rest) s =
        .error (.primitive extreme.primitive fault) s := by
      rw [hchoose]
      rfl
    rw [houtcome]
    exact ⟨.inr ⟨fault, rfl⟩, by simp, iff_of_true ⟨_, _, rfl⟩ h⟩

section

open scoped Machine

/-- The second of these candidates is rounded down and compares as equal to the first one.  A number
and a string are not compared. -/
theorem extreme_unbeaten_mixed :
    let candidates := [Value.float 9007199254740992, .int 9007199254740993, .int 9007199254740994]
    let best := Value.int 9007199254740994
    let call : FrameId → Value → List Value → EvalM Value := fun _ _ _ _ => .exhausted
    (callPrimitive call 0 .max [.list (.fresh 0) candidates] {} = .ok best {} ∧
      ∀ x ∈ candidates, x.compare? best ≠ .ok (some .gt)) ∧
    ∃ e s', callPrimitive call 0 .min [.int 1, .str (.fresh 0) "1"] {} = .error e s' := by
  intro candidates best call
  have hcompare {n : Int64} {o : Ordering}
      (h : Binary64.compare? (Binary64.ofInt n.toInt) 9007199254740992 = some o) :
      (Value.int n).compare? (.float 9007199254740992) = .ok (some o) := congrArg Except.ok h
  have hequal : Extreme.max.pick (.float 9007199254740992) (.int 9007199254740993) =
      .ok (.float 9007199254740992) := by
    rw [Extreme.pick, hcompare (o := .eq) (by decide +kernel)]
    rfl
  have hgreater : Extreme.max.pick (.float 9007199254740992) (.int 9007199254740994) =
      .ok (.int 9007199254740994) := by
    rw [Extreme.pick, hcompare (o := .gt) (by decide +kernel)]
    rfl
  have hfold : [.int 9007199254740993, best].foldlM Extreme.max.pick (.float 9007199254740992) =
      .ok best := by
    rw [Extreme.foldlM_pick_cons hequal, Extreme.foldlM_pick_cons hgreater]
    rfl
  have hmax : callPrimitive call 0 .max [.list (.fresh 0) candidates] {} = .ok best {} := by
    have hchoose : Extreme.max.choose (.list (.fresh 0) candidates) [] = .ok (.value best) :=
      congrArg (fun r => r >>= fun v => Except.ok (Answer.value v)) hfold
    rw [Primitive.callPrimitive_of_operation rfl rfl, hchoose]
    rfl
  have hlist := extreme_unbeaten .max rfl (.elements (.fresh 0) candidates) call 0 {}
  have hpair := @extreme_unbeaten _ .min [.int 1, .str (.fresh 0) "1"] _ rfl
    (.arguments (by simp)) call 0 {}
  refine ⟨⟨hmax, (hlist.2.1 _ _ hmax).2⟩, hpair.2.2.mpr (.inr ⟨le_rfl, ?_⟩)⟩
  simp [Value.Comparable, Value.kind]

end

end SmallLisp
