import SmallLisp.Proofs.Evaluation.Embedding
import SmallLisp.Proofs.Evaluation.Inventory
import SmallLisp.Proofs.Store.Visibility

/-!
# States that refer to nothing outside

What is bound in a state refers to frames and objects that exist there; such a state is closed
(`State.Closed`).  Evaluations leave a state closed, and their values refer to what exists by then
(`State.Closed.ends_ok`).

Of a closed state it does not matter what numbers come after those that are taken.  So if it is
embedded in a larger state, and more is made there, then it can be embedded anew, without changing
the numbers of what it has already (`Renumbering.Embeds.exists_grown`).
-/

namespace SmallLisp

open EvalM

/-- The frames and the objects that exist. -/
def State.extent (s : State) : Extent := ⟨s.store.next, s.objects⟩

/-- All that is bound refers to frames and objects that exist, and parents are older than the frames
that refer to them. -/
structure State.Closed (s : State) : Prop where
  bound : s.store.Bound (·.Inside s.extent)
  ordered : s.store.Ordered

/-! ## Evaluations -/

namespace Extent

/-- The inventory of what exists. -/
def inventory : Inventory Extent where
  object := Has
  state e s n := s.next = e.frames ∧ n = e.objects ∧ s.Bound (·.Inside e) ∧ s.Ordered
  code e site _ := site.env < e.frames
  object_mono hle h := h.mono hle
  code_mono hle h := Nat.lt_of_lt_of_le h hle.1

variable {e : Extent} {s : State}

lemma holds_iff : inventory.holds e s ↔ e = s.extent ∧ s.Closed := by
  constructor
  · rintro ⟨hframes, hobjects, hbound, hordered⟩
    obtain rfl : e = s.extent := by
      cases e
      simp only [State.extent, hframes, hobjects]
    exact ⟨rfl, hbound, hordered⟩
  · rintro ⟨rfl, hs⟩
    exact ⟨rfl, rfl, hs.bound, hs.ordered⟩

/-- One more object is made, which refers to what exists. -/
lemma exists_made {s : Store} {n : Nat} {o : Value} (hs : inventory.state e s n)
    (hid : o.identity? = some (.fresh n)) (hc : ∀ c, o.closure? = some c → c.env < e.frames) :
    ∃ e', e ≤ e' ∧ inventory.state e' s (n + 1) ∧ inventory.object e' o := by
  obtain ⟨hframes, rfl, hbound, hordered⟩ := hs
  have hle : e ≤ ⟨e.frames, e.objects + 1⟩ := ⟨le_rfl, Nat.le_succ _⟩
  refine ⟨_, hle, ⟨hframes, rfl, hbound.mono fun v hv => hv.mono hle, hordered⟩, ?_, hc⟩
  intro n hn
  cases hid.symm.trans hn
  exact Nat.lt_succ_self _

/-- No step of an evaluation refers to anything that does not exist. -/
theorem kept_inventory (config : Config) : inventory.Kept config where
  lookup hs hfound := hs.2.2.1.lookup hfound
  part hcode _ _ := hcode
  literal _ := {
    object := fun n hn => by cases hn
    frame := fun c hc => by cases hc }
  string text hs := exists_made hs rfl fun c hc => by cases hc
  list hs _ := exists_made hs rfl fun c hc => by cases hc
  lambda hs hcode _ := by
    refine exists_made hs rfl fun c hc => ?_
    cases hc
    exact hcode
  define hs _ _ ha :=
    ⟨(Store.next_define ..).trans hs.1, hs.2.1, hs.2.2.1.define ha, hs.2.2.2.define _ _ _⟩
  enter := by
    rintro e s n id c args env ⟨hframes, hobjects, hbound, hordered⟩ hc hargs -
    have hle : e ≤ ⟨e.frames + 1, e.objects⟩ := ⟨Nat.le_succ _, le_rfl⟩
    refine ⟨_, hle, ⟨?_, hobjects, ?_, hordered.push fun parent hparent => ?_⟩, ?_⟩
    · rw [Store.next_push, hframes]
    · exact (hbound.push (hbound.callFrame config c hargs)).mono fun v hv => hv.mono hle
    · rw [(Config.parent_callFrame hparent).2, hframes]
      exact hc.frame c rfl
    · exact hframes.trans_lt (Nat.lt_succ_self _)

end Extent

namespace State.Closed

variable {config : Config} {n : Nat} {s t : State} {task : Task} {site : Site} {env : FrameId}
variable {f v : Value}

/-- What is done in a closed state with what exists there leaves the state closed. -/
lemma ends [Machine] (hs : s.Closed) (htask : Extent.inventory.task s.extent task)
    (hend : (task.run config n s).state? = some t) : s.extent ≤ t.extent ∧ t.Closed := by
  obtain ⟨e, hle, ht⟩ := (Extent.kept_inventory config).ends n htask
    (Extent.holds_iff.mpr ⟨rfl, hs⟩) hend
  obtain ⟨rfl, hclosed⟩ := Extent.holds_iff.mp ht
  exact ⟨hle, hclosed⟩

/-- What it gives back exists. -/
lemma ends_ok [Machine] (hs : s.Closed) (htask : Extent.inventory.task s.extent task)
    (hend : task.Ends config s (.ok v t)) : s.extent ≤ t.extent ∧ t.Closed ∧ v.Inside t.extent := by
  obtain ⟨n, hn⟩ := hend.exists_bound
  obtain ⟨e, hle, ht, hv⟩ := (Extent.kept_inventory config).result n htask
    (Extent.holds_iff.mpr ⟨rfl, hs⟩) hn
  obtain ⟨rfl, hclosed⟩ := Extent.holds_iff.mp ht
  exact ⟨hle, hclosed, hv⟩

lemma eval [Machine] {form : Form} (hs : s.Closed) (hsite : site.env < s.store.next)
    (hend : (Task.eval site form).Ends config s (.ok v t)) :
    s.extent ≤ t.extent ∧ t.Closed ∧ v.Inside t.extent :=
  have htask : Extent.inventory.task s.extent (.eval site form) := hsite
  hs.ends_ok htask hend

lemma call [Machine] {args : List Value} (hs : s.Closed)
    (hvalues : ∀ v ∈ f :: args, v.Inside s.extent)
    (hend : (Task.call env f args).Ends config s (.ok v t)) :
    s.extent ≤ t.extent ∧ t.Closed ∧ v.Inside t.extent :=
  have htask : Extent.inventory.task s.extent (.call env f args) := hvalues
  hs.ends_ok htask hend

/-- Calls are made one after the other, with the same procedure. -/
lemma each_call [Machine] {columns : List (List Value)} {values : List Value} (hs : s.Closed)
    (hf : f.Inside s.extent) (hcolumns : ∀ column ∈ columns, ∀ a ∈ column, a.Inside s.extent)
    (hend : Settles (fun n => each (SmallLisp.call config n env f) columns) s (.ok values t)) :
    s.extent ≤ t.extent ∧ t.Closed ∧ ∀ v ∈ values, v.Inside t.extent := by
  obtain ⟨e, hle, ht, hvalues⟩ := (Extent.kept_inventory config).each_call_ends hf hcolumns
    (Extent.holds_iff.mpr ⟨rfl, hs⟩) hend
  obtain ⟨rfl, hclosed⟩ := Extent.holds_iff.mp ht
  exact ⟨hle, hclosed, hvalues⟩

/-- A list of values that exist can be made, and exists then. -/
lemma newList {items : List Value} (hs : s.Closed) (hitems : ∀ v ∈ items, v.Inside s.extent) :
    (s.newList items).2.Closed ∧ (s.newList items).1.Inside (s.newList items).2.extent := by
  obtain ⟨e, hle, ht, hlist⟩ :=
    (Extent.kept_inventory {}).list (Extent.holds_iff.mpr ⟨rfl, hs⟩) hitems
  have hholds : Extent.inventory.holds e (s.newList items).2 := ht
  obtain ⟨rfl, hclosed⟩ := Extent.holds_iff.mp hholds
  exact ⟨hclosed, Value.inside_list_iff.mpr ⟨hlist, fun v hv => (hitems v hv).mono hle⟩⟩

end State.Closed

/-! ## Growing the larger state -/

/-- The function `f` up to `n`, and from there on the numbers from `m` on. -/
def continueFrom (f : Nat → Nat) (n m i : Nat) : Nat := if i < n then f i else m + (i - n)

lemma continueFrom_of_lt {f : Nat → Nat} {n m i : Nat} (h : i < n) : continueFrom f n m i = f i :=
  if_pos h

lemma continueFrom_add (f : Nat → Nat) (n m k : Nat) : continueFrom f n m (n + k) = m + k := by
  rw [continueFrom, if_neg (Nat.not_lt.mpr (Nat.le_add_right n k)), Nat.add_sub_cancel_left]

lemma strictMono_continueFrom {f : Nat → Nat} {n m : Nat} (hf : StrictMono f) (h : f n ≤ m) :
    StrictMono (continueFrom f n m) := by
  intro i j hij
  have hmono := hf hij
  unfold continueFrom
  split
  · next hi =>
    have hin := hf hi
    split <;> omega
  · split <;> omega

namespace Renumbering

/-- The renumbering of what is in the first extent, and then the numbers that come after the second
one. -/
def continued (r : Renumbering) (e e' : Extent) (hframes : r.frame e.frames ≤ e'.frames)
    (hobjects : r.serial e.objects ≤ e'.objects) : Renumbering where
  frame := continueFrom r.frame e.frames e'.frames
  serial := continueFrom r.serial e.objects e'.objects
  frame_mono := strictMono_continueFrom r.frame_mono hframes
  serial_mono := strictMono_continueFrom r.serial_mono hobjects

variable {r r' : Renumbering} {e : Extent}

/-- Where the renumberings agree, frames in the smaller state stand for the same ones. -/
lemma Frames.of_agree {f f' : Frame} (h : r.Frames f f') (hagree : r.Agree r' e)
    (hbound : ∀ x v, f.bindings.find? x = some v → v.Inside e)
    (hparent : ∀ parent, f.parent = some parent → parent < e.frames) : r'.Frames f f' where
  bindings := by
    have hentries : ∀ entry ∈ f.bindings.entries, entry.2.Inside e := fun entry hentry =>
      hbound entry.1 entry.2 ((findBinding?_eq_some_iff f.bindings.nodup).mpr hentry)
    have hbindings := h.bindings
    unfold Bindings.Alike at hbindings ⊢
    generalize f.bindings.entries = l, f'.bindings.entries = l' at hentries hbindings
    induction hbindings with
    | nil => exact .nil
    | cons hentry _ ih =>
      obtain ⟨hinside, hrest⟩ := List.forall_mem_cons.mp hentries
      exact .cons ⟨hentry.1, hentry.2.trans (hagree.value hinside).symm⟩ (ih hrest)
  parent := by
    rw [h.parent]
    cases hp : f.parent with
    | none => rfl
    | some parent => exact congrArg some (hagree.frame parent (hparent parent hp)).symm

/-- More is made in the larger state.  Then the smaller one, if it is closed, is embedded in what
has become of the larger one, and nothing in it changes its number. -/
theorem Embeds.exists_grown {s s' t' : State} (h : r.Embeds s s') (hs : s.Closed)
    (hunchanged : s'.store.Unchanged t'.store) (hobjects : s'.objects ≤ t'.objects)
    (houtput : t'.output = s'.output) : ∃ r', r.Agree r' s.extent ∧ r'.Embeds s t' := by
  have hnext : r.frame s.store.next ≤ t'.store.next := h.frame_next.trans_le hunchanged.grows
  have hserial : r.serial s.objects ≤ t'.objects := h.serial_objects.trans_le hobjects
  let r' := r.continued s.extent t'.extent hnext hserial
  have hagree : r.Agree r' s.extent :=
    ⟨fun i hi => continueFrom_of_lt hi, fun n hn => continueFrom_of_lt hn⟩
  refine ⟨r', hagree, fun i => ?_, continueFrom_add _ _ _, continueFrom_add _ _ _,
    houtput.trans h.output⟩
  rcases Nat.lt_or_ge i s.store.next with hlt | hge
  · have hlt' : r.frame i < s'.store.next := (r.frame_mono hlt).trans_eq h.frame_next
    obtain ⟨f, hf⟩ : ∃ f, s.store.frames[i]? = some f := ⟨_, Array.getElem?_eq_getElem hlt⟩
    have hframe := h.frames i
    rw [hagree.frame i hlt, hunchanged.frames _ hlt']
    rw [hf] at hframe ⊢
    generalize s'.store.frames[r.frame i]? = f'? at hframe ⊢
    cases hframe with
    | some hframes =>
      refine .some (hframes.of_agree hagree (fun x v => hs.bound i f x v hf)
        fun parent hparent => ?_)
      exact (hs.ordered i f parent hf hparent).trans hlt
  · obtain ⟨k, rfl⟩ := Nat.exists_eq_add_of_le hge
    have hframe : r'.frame (s.store.next + k) = t'.store.next + k := continueFrom_add _ _ _ k
    have hbeyond : t'.store.frames[t'.store.next + k]? = none :=
      Array.getElem?_eq_none (Nat.le_add_right _ k)
    rw [hframe, Array.getElem?_eq_none hge, hbeyond]
    exact .none

end Renumbering

end SmallLisp
