/-
  Curried.Scope — frames of names and the chains they form.

  A frame binds names and may have a parent, which was made before it. A name is looked up in a frame, then in
  its parent, and so on; defining binds it in the frame itself, assigning rebinds it in the nearest frame that
  has it. Frames stay as long as the store does, since closures refer to them.
-/

import Curried.Value

namespace Curried

structure Frame where
  parent : Option FrameId
  /-- Each name once, in the order of first definition. -/
  bindings : List (String × Value)

namespace Frame

def find? (f : Frame) (name : String) : Option Value := (f.bindings.find? (·.1 == name)).map (·.2)

/-- Rebind a name in its place, or add it at the end. -/
def bindIn (name : String) (v : Value) : List (String × Value) → List (String × Value)
  | [] => [(name, v)]
  | (n, w) :: rest => if n == name then (n, v) :: rest else (n, w) :: bindIn name v rest

def bind (f : Frame) (name : String) (v : Value) : Frame :=
  { f with bindings := bindIn name v f.bindings }

def names (f : Frame) : List String := f.bindings.map (·.1)

end Frame

structure Store where
  frames : Array Frame := #[]

namespace Store

def frame (s : Store) (id : FrameId) : Frame := s.frames.getD id ⟨none, []⟩

def size (s : Store) : Nat := s.frames.size

/-- Make a frame, whose number is the number of frames there were. -/
def push (s : Store) (parent : Option FrameId) : Store := ⟨s.frames.push ⟨parent, []⟩⟩

/-- Make a frame inside another. -/
def child (s : Store) (parent : FrameId) : Store := s.push (some parent)

/-- Bind a name in a frame, hiding any outer binding. -/
def define (s : Store) (id : FrameId) (name : String) (v : Value) : Store :=
  ⟨s.frames.modify id (·.bind name v)⟩

/-- The nearest frame from `id` on that binds a name, with what it binds it to. A parent is older than its
frame, so a chain has at most as many frames as the number of its first one, and one more. -/
def resolveWithin (s : Store) (name : String) : Nat → FrameId → Option (FrameId × Value)
  | 0, _ => none
  | fuel + 1, id =>
    let f := s.frame id
    match f.find? name, f.parent with
    | some v, _ => some (id, v)
    | none, some parent => resolveWithin s name fuel parent
    | none, none => none

def resolve? (s : Store) (id : FrameId) (name : String) : Option (FrameId × Value) :=
  s.resolveWithin name (id + 1) id

def lookup? (s : Store) (id : FrameId) (name : String) : Option Value := (s.resolve? id name).map (·.2)

def get (s : Store) (id : FrameId) (name : String) : Except Fault Value :=
  match s.lookup? id name with
  | some v => .ok v
  | none => .error (.of (.undefinedVariable name))

def isDefined (s : Store) (id : FrameId) (name : String) : Bool := (s.lookup? id name).isSome

/-- Rebind a name where it is bound. -/
def assign (s : Store) (id : FrameId) (name : String) (v : Value) : Except Fault Store :=
  match s.resolve? id name with
  | some (owner, _) => .ok (s.define owner name v)
  | none => .error (.of (.undefinedVariable name))

end Store

end Curried
