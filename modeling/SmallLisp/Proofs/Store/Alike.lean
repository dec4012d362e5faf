import Mathlib
import SmallLisp.Proofs.Evaluation.Lookup

/-!
# Stores that are alike

Two stores are alike (`Store.Alike`) if they have the same frames in the same places, up to a
relation between the values that are bound and up to a renaming of the names, which may be another
one in every frame.  All that is done with stores keeps that: binding names, making frames, and,
as long as all frames are renamed in the same way, looking up names (`Store.Alike.lookup`) and
taking snapshots (`Store.Alike.snapshot`).
-/

namespace SmallLisp

/-! ## Bindings -/

/-- The entries bind the renamed names, in the same order, to related values. -/
def Entry.Alike (ρ : String → String) (V : Value → Value → Prop) (e e' : String × Value) : Prop :=
  e'.1 = ρ e.1 ∧ V e.2 e'.2

variable {ρ : String → String} {V V' : Value → Value → Prop}

section Entries

variable {l l' : List (String × Value)}

lemma findBinding?_alike (hρ : Function.Injective ρ) (h : List.Forall₂ (Entry.Alike ρ V) l l')
    (x : String) : Option.Rel V (findBinding? x l) (findBinding? (ρ x) l') := by
  induction h with
  | nil => exact .none
  | @cons e e' l l' hentry _ ih =>
    obtain ⟨n, v⟩ := e
    obtain ⟨n', v'⟩ := e'
    obtain ⟨rfl, hvalue⟩ := hentry
    simp only [findBinding?, hρ.eq_iff]
    split
    · exact .some hvalue
    · exact ih

lemma bindEntry_alike (hρ : Function.Injective ρ) (h : List.Forall₂ (Entry.Alike ρ V) l l')
    (x : String) {a a' : Value} (ha : V a a') :
    List.Forall₂ (Entry.Alike ρ V) (bindEntry x a l) (bindEntry (ρ x) a' l') := by
  induction h with
  | nil => exact .cons ⟨rfl, ha⟩ .nil
  | @cons e e' l l' hentry hrest ih =>
    obtain ⟨n, v⟩ := e
    obtain ⟨n', v'⟩ := e'
    obtain ⟨rfl, hvalue⟩ := hentry
    simp only [bindEntry, hρ.eq_iff]
    split
    · exact .cons ⟨rfl, ha⟩ hrest
    · exact .cons ⟨rfl, hvalue⟩ ih

/-- Parameters that are renamed, with arguments that are related. -/
lemma zip_alike {args args' : List Value} (params : List String)
    (h : List.Forall₂ V args args') :
    List.Forall₂ (Entry.Alike ρ V) (params.zip args) ((params.map ρ).zip args') := by
  induction params generalizing args args' with
  | nil => exact .nil
  | cons x params ih =>
    cases h with
    | nil => exact .nil
    | cons harg hargs => exact .cons ⟨rfl, harg⟩ (ih hargs)

end Entries

/-- The maps bind the renamed names, in the same order, to related values. -/
def Bindings.Alike (ρ : String → String) (V : Value → Value → Prop) (b b' : Bindings) : Prop :=
  List.Forall₂ (Entry.Alike ρ V) b.entries b'.entries

namespace Bindings.Alike

variable {b b' : Bindings}

lemma empty : Alike ρ V ∅ ∅ := List.Forall₂.nil

lemma find? (hρ : Function.Injective ρ) (h : b.Alike ρ V b') (x : String) :
    Option.Rel V (b.find? x) (b'.find? (ρ x)) :=
  findBinding?_alike hρ h x

lemma insert (hρ : Function.Injective ρ) (h : b.Alike ρ V b') (x : String) {a a' : Value}
    (ha : V a a') : (b.insert x a).Alike ρ V (b'.insert (ρ x) a') :=
  bindEntry_alike hρ h x ha

lemma insertAll (hρ : Function.Injective ρ) (h : b.Alike ρ V b') {l l' : List (String × Value)}
    (hentries : List.Forall₂ (Entry.Alike ρ V) l l') :
    (b.insertAll l).Alike ρ V (b'.insertAll l') := by
  induction hentries generalizing b b' with
  | nil => exact h
  | @cons e e' l l' hentry _ ih =>
    obtain ⟨n, v⟩ := e
    obtain ⟨n', v'⟩ := e'
    obtain ⟨rfl, hvalue⟩ := hentry
    exact ih (h.insert hρ n hvalue)

end Bindings.Alike

/-! ## Frames -/

/-- The frames have the same parent, and bindings that are alike. -/
structure Frame.Alike (ρ : String → String) (V : Value → Value → Prop) (f f' : Frame) : Prop where
  bindings : f.bindings.Alike ρ V f'.bindings
  parent : f'.parent = f.parent

lemma Frame.Alike.mono {f f' : Frame} (hV : ∀ a a', V a a' → V' a a') (h : f.Alike ρ V f') :
    f.Alike ρ V' f' where
  bindings := h.bindings.imp fun _ _ hentry => ⟨hentry.1, hV _ _ hentry.2⟩
  parent := h.parent

lemma Frame.Alike.inside (hρ : Function.Injective ρ) (env : FrameId)
    {l l' : List (String × Value)} (h : List.Forall₂ (Entry.Alike ρ V) l l') :
    (Frame.inside env l).Alike ρ V (Frame.inside env l') where
  bindings := Bindings.Alike.empty.insertAll hρ h
  parent := rfl

/-! ## Stores -/

/-- The stores have frames that are alike in the same places; `ρ` renames those of each place. -/
def Store.Alike (ρ : FrameId → String → String) (V : Value → Value → Prop) (s s' : Store) : Prop :=
  ∀ id : FrameId, Option.Rel (Frame.Alike (ρ id) V) s.frames[id]? s'.frames[id]?

namespace Store.Alike

section

variable {ρ : FrameId → String → String} {s s' : Store} {f f' : Frame}

lemma next_eq (h : s.Alike ρ V s') : s'.next = s.next := by
  have hbound (id : FrameId) : id < s'.next ↔ id < s.next := by
    have hsome : s'.frames[id]?.isSome ↔ s.frames[id]?.isSome := by
      have hframe := h id
      generalize s.frames[id]? = frame?, s'.frames[id]? = frame?' at hframe ⊢
      cases hframe <;> rfl
    simpa [next] using hsome
  refine Nat.le_antisymm (Nat.le_of_not_lt fun hlt => ?_) (Nat.le_of_not_lt fun hlt => ?_)
  · exact Nat.lt_irrefl _ ((hbound _).mp hlt)
  · exact Nat.lt_irrefl _ ((hbound _).mpr hlt)

lemma mono (hV : ∀ a a', V a a' → V' a a') (h : s.Alike ρ V s') : s.Alike ρ V' s' := by
  intro id
  have hframe := h id
  generalize s.frames[id]? = frame?, s'.frames[id]? = frame?' at hframe ⊢
  cases hframe with
  | none => exact .none
  | some hframe => exact .some (hframe.mono hV)

/-- A frame that is alike is made in both; the frames before it are renamed as they were. -/
lemma push {σ : FrameId → String → String} (h : s.Alike ρ V s')
    (hold : ∀ id < s.next, σ id = ρ id) (hf : f.Alike (σ s.next) V f') :
    (s.push f).Alike σ V (s'.push f') := by
  intro id
  have hnext : s'.frames.size = s.frames.size := h.next_eq
  simp only [Store.push, Array.getElem?_push, hnext]
  split
  · next hid =>
    subst hid
    exact .some hf
  · have hframe := h id
    rcases Nat.lt_or_ge id s.frames.size with hlt | hge
    · rwa [hold id hlt]
    · rw [Array.getElem?_eq_none hge, Array.getElem?_eq_none (hnext ▸ hge)]
      exact .none

/-- The renamed name is bound in a frame of the second store. -/
lemma define {env : FrameId} (h : s.Alike ρ V s') (hρ : Function.Injective (ρ env)) (x : String)
    {a a' : Value} (ha : V a a') : (s.define env x a).Alike ρ V (s'.define env (ρ env x) a') := by
  intro id
  simp only [Store.define, Array.getElem?_modify]
  split
  · next hid =>
    subst hid
    have hframe := h env
    generalize s.frames[env]? = frame?, s'.frames[env]? = frame?' at hframe ⊢
    cases hframe with
    | none => exact .none
    | some hframe => exact .some ⟨hframe.bindings.insert hρ x ha, hframe.parent⟩
  · exact h id

lemma empty : Store.Alike ρ V {} {} := by
  intro id
  exact .none

/-- The names of the prelude may be bound in frames where names stay as they are. -/
lemma definePrelude {env : FrameId} (h : s.Alike ρ V s') (hρ : ρ env = id)
    (hprimitive : ∀ p, V (.primitive p) (.primitive p)) (hnil : V .nil .nil) :
    (s.definePrelude env).Alike ρ V (s'.definePrelude env) := by
  have hsame {t t' : Store} (ht : t.Alike ρ V t') (x : String) {a : Value} (ha : V a a) :
      (t.define env x a).Alike ρ V (t'.define env x a) := by
    have hinjective : Function.Injective (ρ env) := hρ ▸ Function.injective_id
    simpa only [hρ, id] using ht.define hinjective x ha
  exact hsame (List.foldl_rel h fun p _ _ _ ht => hsame ht p.name (hprimitive p)) "nil" hnil

/-- A new interpreter has a single frame, with the prelude. -/
lemma prelude {ρ : FrameId → String → String} (hρ : ρ 0 = id)
    (hprimitive : ∀ p, V (.primitive p) (.primitive p)) (hnil : V .nil .nil) :
    ((({} : Store).push {}).definePrelude 0).Alike ρ V
      ((({} : Store).push {}).definePrelude 0) := by
  have hframe : Frame.Alike (ρ 0) V {} {} := ⟨Bindings.Alike.empty, rfl⟩
  exact (empty.push (fun _ _ => rfl) hframe).definePrelude hρ hprimitive hnil

end

/-! ### The same names everywhere -/

section Uniform

variable {s s' : Store}

/-- Frames that all are renamed alike are seen in the same order. -/
lemma chain (h : s.Alike (fun _ => ρ) V s') (env : FrameId) :
    List.Forall₂ (Frame.Alike ρ V) (s.chain env) (s'.chain env) := by
  induction env using Nat.strongRecOn with
  | _ env ih =>
    rw [Store.chain, Store.chain]
    have hframes := h env
    generalize s.frames[env]? = frame?, s'.frames[env]? = frame?' at hframes
    cases hframes with
    | none => exact .nil
    | @some frame frame' hframe =>
      simp only [hframe.parent]
      cases frame.parent with
      | none => exact .cons hframe .nil
      | some parent =>
        by_cases hlt : parent < env
        · simpa only [hlt, if_true] using .cons hframe (ih parent hlt)
        · simpa only [hlt, if_false] using .cons hframe .nil

lemma lookup (hρ : Function.Injective ρ) (h : s.Alike (fun _ => ρ) V s') (env : FrameId)
    (x : String) : Option.Rel V (s.lookup env x) (s'.lookup env (ρ x)) := by
  unfold Store.lookup
  generalize s.chain env = frames, s'.chain env = frames', h.chain env = hchain
  induction hchain with
  | nil => exact .none
  | cons hframe _ ih =>
    rw [List.findSome?_cons, List.findSome?_cons]
    have hfound := hframe.bindings.find? hρ x
    generalize Bindings.find? _ x = found, Bindings.find? _ (ρ x) = found' at hfound
    cases hfound with
    | none => exact ih
    | some hvalue => exact .some hvalue

lemma visible (hρ : Function.Injective ρ) (h : s.Alike (fun _ => ρ) V s') (env : FrameId) :
    (s.visible env).Alike ρ V (s'.visible env) :=
  List.rel_foldr (R := Frame.Alike ρ V) (P := Bindings.Alike ρ V)
    (fun _ _ hframe _ _ houter => houter.insertAll hρ hframe.bindings) .empty (h.chain env)

lemma snapshot (hρ : Function.Injective ρ) (h : s.Alike (fun _ => ρ) V s') (env : FrameId)
    {l l' : List (String × Value)} (hentries : List.Forall₂ (Entry.Alike ρ V) l l') :
    (s.snapshot env l).Alike ρ V (s'.snapshot env l') where
  bindings := (h.visible hρ env).insertAll hρ hentries
  parent := rfl

end Uniform

end Store.Alike

end SmallLisp
