import SmallLisp.Store.Bindings

/-!
# Frames and the store

A frame holds the names bound in one place: at the top level, or in one call.  It may have a
parent, in which names are looked up that it does not bind itself.  The store numbers all frames
in the order in which they were made.  Frames are never removed, and a frame changes in one way
only, by `Store.define`.

Looking up walks from parent to parent.  A parent is always older than the frame that refers to
it, which is why the walk ends; `Store.chain` follows a reference only if it is.
-/

namespace SmallLisp

/-- The names bound in one place. -/
structure Frame where
  bindings : Bindings := ∅
  /-- Where names are looked up that are not bound here. -/
  parent : Option FrameId := none

/-- A frame inside the frame `env`, with the bindings `entries` of its own. -/
def Frame.inside (env : FrameId) (entries : List (String × Value)) : Frame :=
  { bindings := (∅ : Bindings).insertAll entries, parent := some env }

/-- All frames that were made so far. -/
structure Store where
  frames : Array Frame := #[]

namespace Store

/-- The number that the next frame gets. -/
def next (s : Store) : FrameId := s.frames.size

/-- The store with one more frame, whose number was `s.next`. -/
def push (s : Store) (frame : Frame) : Store := ⟨s.frames.push frame⟩

/-- The store after binding a name in the frame `env` itself. -/
def define (s : Store) (env : FrameId) (name : String) (value : Value) : Store :=
  ⟨s.frames.modify env fun frame => { frame with bindings := frame.bindings.insert name value }⟩

/-! ## Looking up -/

/-- The frames from `env` to the outermost one, innermost first. -/
def chain (s : Store) (env : FrameId) : List Frame :=
  match s.frames[env]? with
  | none => []
  | some frame =>
    match frame.parent with
    | none => [frame]
    | some parent => if parent < env then frame :: s.chain parent else [frame]
termination_by env

/-- The value of a name as seen from `env`: the innermost frame that binds it decides. -/
def lookup (s : Store) (env : FrameId) (name : String) : Option Value :=
  (s.chain env).findSome? (·.bindings.find? name)

/-- The number of frames from `env` to the outermost one, both counted. -/
def depth (s : Store) (env : FrameId) : Nat := (s.chain env).length

def locals (s : Store) (env : FrameId) : Bindings :=
  match s.frames[env]? with
  | some frame => frame.bindings
  | none => ∅

/-- Every binding that is seen from `env`: outer frames first, so that inner ones win. -/
def visible (s : Store) (env : FrameId) : Bindings :=
  (s.chain env).foldr (fun frame outer => outer.insertAll frame.bindings.entries) ∅

/-! ## Frames made from others -/

/-- A frame of its own that binds all that is seen from `env`, and `entries` over it. -/
def snapshot (s : Store) (env : FrameId) (entries : List (String × Value)) : Frame :=
  { bindings := (s.visible env).insertAll entries }

/-- A frame of its own, with the bindings and the parent that `env` has now. -/
def copy (s : Store) (env : FrameId) : Frame := (s.frames[env]?).getD {}

/-! ## Names that every program starts with -/

/-- Binds the primitive procedures and `nil`, replacing what these names were bound to. -/
def definePrelude (s : Store) (env : FrameId) : Store :=
  let s := Primitive.all.foldl (fun s p => s.define env p.name (.primitive p)) s
  s.define env "nil" .nil

end Store

end SmallLisp
