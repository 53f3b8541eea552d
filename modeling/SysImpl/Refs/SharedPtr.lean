import Mathlib.Algebra.Group.Int.Defs
import Mathlib.Algebra.GroupWithZero.Nat
import SysImpl.Lib.Holders

/-! `shared_ptr`, with the destructors that its operations run.

An operation that takes the last handle from an object calls the destructor of the object,
which is code of its own: it may use any handles, and so operations nest. Here the nested
operations follow on the one that calls the destructor, up to the return of the destructor. -/

namespace SysImpl.Refs

open Holders

variable {H : Type}

/-- An assignment whose second half is still to come, and what its source referred to when it
was started. -/
structure Assignment (H : Type) where
  target : H
  source : H
  before : Option Nat

/-- A destructor that is running, and the assignment that goes on when it returns. -/
structure Frame (H : Type) where
  buffer : Nat
  resume : Option (Assignment H)

/-- The handles, the buffers by number, and the destructors that are running, the innermost
first. A buffer that is deleted has no `ref` any more. -/
structure State (H : Type) where
  live : Finset H
  target : H → Option Nat
  ref : Nat → Option Int
  next : Nat
  /-- How often the destructor of the object of a buffer has been called. -/
  runs : Nat → Nat
  stack : List (Frame H)

/-- An operation on handles, or the return of the innermost destructor. -/
inductive Event (H : Type) where
  /-- `create_shared` and `make_shared`. -/
  | create (p : H)
  | constructNull (p : H)
  | copyConstruct (p q : H)
  | moveConstruct (p q : H)
  | copyAssign (p q : H)
  | assignNull (p : H)
  | destroy (p : H)
  | finish

def wrap (x : Int) : Int := (x + 2 ^ 31) % 2 ^ 32 - 2 ^ 31

def marker : Int := -2 ^ 31

variable [DecidableEq H]

namespace State

def initial : State H := ⟨∅, fun _ => none, fun _ => none, 0, fun _ => 0, []⟩

def count (s : State H) (b : Nat) : Nat := Holders.count s.live s.target b

def setTarget (s : State H) (p : H) (buffer : Option Nat) : State H :=
  { s with target := Function.update s.target p buffer }

def setRef (s : State H) (b : Nat) (ref : Option Int) : State H :=
  { s with ref := Function.update s.ref b ref }

/-- `shared_buffer::addRef`, and the count after it; there is none in a deleted buffer. -/
def addRef (s : State H) (b : Nat) : Option (Int × State H) :=
  (s.ref b).map fun ref =>
    let ret := wrap (ref + 1)
    (if ret < 0 then 0 else ret, s.setRef b (some ret))

/-- `shared_buffer::decRef`: a count of 0 is replaced by the marker. -/
def decRef (s : State H) (b : Nat) : Option (Int × State H) :=
  (s.ref b).map fun ref =>
    let ret := wrap (ref - 1)
    if ret = 0 then (0, s.setRef b (some marker)) else (ret, s.setRef b (some ret))

def construct (s : State H) (p : H) (buffer : Option Nat) : Option (State H) :=
  match buffer with
  | none => some (s.setTarget p none)
  | some b =>
      (s.addRef b).map fun added =>
        if added.1 = 0 then added.2.setTarget p none else added.2.setTarget p (some b)

/-- `~shared_ptr`, up to the call of a destructor: the buffer whose object is to be
destroyed, if there is one. -/
def release (s : State H) (p : H) : Option (Option Nat × State H) :=
  match s.target p with
  | none => some (none, s)
  | some b =>
      ((s.setTarget p none).decRef b).map fun dropped =>
        if dropped.1 = 0 then
          (some b, { dropped.2 with
            runs := Function.update dropped.2.runs b (dropped.2.runs b + 1) })
        else (none, dropped.2)

/-- `~shared_ptr` and the copy that follows on it. If a destructor is called, the copy waits for
its return. -/
def releaseThen (s : State H) (p : H) (copy : Option (Assignment H)) :
    Option (State H × Option (Assignment H)) :=
  (s.release p).map fun released =>
    match released with
    | (some b, s) => ({ s with stack := ⟨b, copy⟩ :: s.stack }, none)
    | (none, s) => (s, copy)

def make (s : State H) (p : H) : State H := { s with live := insert p s.live }

def start (s : State H) : Event H → Option (State H × Option (Assignment H))
  | .create p =>
      some ({ ((s.make p).setTarget p (some s.next)).setRef s.next (some 1) with
        next := s.next + 1 }, none)
  | .constructNull p => some ((s.make p).setTarget p none, none)
  | .copyConstruct p q => some (s.make p, some ⟨p, q, s.target q⟩)
  | .moveConstruct p q => some (((s.make p).setTarget p (s.target q)).setTarget q none, none)
  | .copyAssign p q => s.releaseThen p (some ⟨p, q, s.target q⟩)
  | .assignNull p => s.releaseThen p none
  | .destroy p =>
      (s.releaseThen p none).map fun (s, copy) => ({ s with live := s.live.erase p }, copy)
  | .finish =>
      match s.stack with
      | [] => none
      | frame :: rest => some ({ s.setRef frame.buffer none with stack := rest }, frame.resume)

def copy (s : State H) : Option (Assignment H) → Option (State H)
  | none => some s
  | some assignment =>
      if assignment.source ∈ s.live then
        s.construct assignment.target (s.target assignment.source)
      else none

def Allowed (s : State H) : Event H → Prop
  | .create p => p ∉ s.live
  | .constructNull p => p ∉ s.live
  | .copyConstruct p q => p ∉ s.live ∧ q ∈ s.live
  | .moveConstruct p q => p ∉ s.live ∧ q ∈ s.live
  | .copyAssign p q => p ∈ s.live ∧ q ∈ s.live
  | .assignNull p => p ∈ s.live
  | .destroy p => p ∈ s.live
  | .finish => s.stack ≠ []

instance (s : State H) (event : Event H) : Decidable (s.Allowed event) := by
  cases event <;> unfold Allowed <;> infer_instance

def step (s : State H) (event : Event H) : Option (State H) :=
  if s.Allowed event then (s.start event).bind fun (s, copy) => s.copy copy else none

/-- There are fewer than `2 ^ 31` handles to the object that a handle is copied from, the copy
included. -/
def Few (s : State H) (event : Event H) : Prop :=
  ∀ mid assignment b, s.start event = some (mid, some assignment) →
    mid.target assignment.source = some b → mid.count b + 1 < 2 ^ 31

/-- A copy that ends an operation leaves its target at what the source referred to when the
operation was started. -/
def Assigns (s : State H) (event : Event H) (after : State H) : Prop :=
  ∀ mid assignment, s.start event = some (mid, some assignment) →
    after.target assignment.target = assignment.before

structure Counted (s : State H) : Prop where
  ref : ∀ b < s.next, ∀ ref, s.ref b = some ref → 0 < ref → ref = s.count b
  once : ∀ b < s.next, s.runs b = if s.count b = 0 then 1 else 0
  unmade : ∀ b, s.next ≤ b → s.runs b = 0
  valid : ∀ h b, s.target h = some b → b < s.next ∧ s.runs b = 0 ∧ s.ref b ≠ none

def touches : Event H → List H
  | .create p => [p]
  | .constructNull p => [p]
  | .copyConstruct p _ => [p]
  | .moveConstruct p q => [p, q]
  | .copyAssign p _ => [p]
  | .assignNull p => [p]
  | .destroy p => [p]
  | .finish => []

/-- A handle of an assignment that waits for a destructor. -/
def Busy (s : State H) (h : H) : Prop :=
  ∃ frame ∈ s.stack, ∃ assignment ∈ frame.resume,
    h = assignment.target ∨ h = assignment.source

/-- No handle is assigned to itself unless it is null, and no destructor sets a handle of an
assignment that has called it. -/
structure Clean (s : State H) (event : Event H) : Prop where
  distinct : ∀ p, event = .copyAssign p p → s.target p = none
  apart : ∀ h ∈ touches event, ¬ s.Busy h

def AnyStep (s : State H) (event : Event H) (after : State H) : Prop :=
  s.Few event ∧ s.step event = some after

def CleanStep (s : State H) (event : Event H) (after : State H) : Prop :=
  s.Clean event ∧ s.AnyStep event after

end State

end SysImpl.Refs
