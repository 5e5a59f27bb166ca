import TraceTracks.Handle

/-! What a descriptor announces about a track before the track exists. -/
namespace TraceTracks

/-- What two descriptors must agree on to describe one track. The parent is zero for none. -/
structure Shape where
  parent : Uuid := 0
  pid : Option Pid := none
  tid : Option Tid := none
  isCounter : Bool := false
  deriving DecidableEq

/-- Samples of an incremental counter are differences, and add up to its running total. The unit
scales samples if it is positive. -/
structure Reservation extends Shape where
  firstSeen : Option Timestamp := none
  name : StringId := .null
  category : StringId := .null
  unit : Int64 := 0
  incremental : Bool := false
  sequence : Sequence := 0
  total : Int64 := 0
  deriving DecidableEq

inductive Descriptor
  | process (pid : Pid) (name : StringId) (seen : Timestamp)
  | thread (parent : Uuid) (pid : Pid) (tid : Tid) (name : StringId) (seen : Timestamp)
  | counter (parent : Uuid) (name category : StringId) (unit : Int64) (incremental : Bool)
      (sequence : Sequence)
  | child (parent : Uuid) (name : StringId)
  deriving DecidableEq

/-- Only an incremental counter is bound to the sequence that announced it. -/
def Descriptor.reservation : Descriptor → Reservation
  | .process pid name seen => { pid := some pid, name := name, firstSeen := some seen }
  | .thread parent pid tid name seen =>
    { parent := parent, pid := some pid, tid := some tid, name := name, firstSeen := some seen }
  | .counter parent name category unit incremental sequence =>
    { parent := parent, name := name, category := category, isCounter := true, unit := unit,
      incremental := incremental, sequence := if incremental then sequence else 0 }
  | .child parent name => { parent := parent, name := name }

namespace Reservation

def sameTrack (a b : Reservation) : Bool := a.toShape == b.toShape

/-- Tracks of processes, threads and counters keep the name of their descriptor; the others may be
named after an event. -/
def hasFixedName (r : Reservation) : Bool := r.pid.isSome || r.tid.isSome || r.isCounter

def merge (r other : Reservation) : Reservation :=
  match r.firstSeen, other.firstSeen with
  | some a, some b => { r with firstSeen := some (min a b) }
  | _, _ => r

@[simp] theorem toShape_merge (r other : Reservation) : (r.merge other).toShape = r.toShape := by
  unfold merge
  split <;> rfl

/-- The part of a reservation that never changes. -/
def still (r : Reservation) : Reservation := { r with firstSeen := none, total := 0 }

section Still
variable {r r' : Reservation}

theorem congr_of_still {α : Type} (f : Reservation → α) (h : r'.still = r.still)
    (blind : ∀ r, f r.still = f r) : f r' = f r := by
  rw [← blind, h, blind]

theorem toShape_of_still (h : r'.still = r.still) : r'.toShape = r.toShape :=
  congr_of_still toShape h fun _ => rfl

theorem category_of_still (h : r'.still = r.still) : r'.category = r.category :=
  congr_of_still category h fun _ => rfl

theorem name_of_still (h : r'.still = r.still) : r'.name = r.name :=
  congr_of_still name h fun _ => rfl

theorem still_merge (r other : Reservation) : (r.merge other).still = r.still := by
  unfold merge
  split <;> rfl

end Still

def accepts (r : Reservation) (sequence : Sequence) : Bool :=
  r.isCounter && (!r.incremental || r.sequence == sequence)

def scale (r : Reservation) (value : Int64) : Int64 := if 0 < r.unit then value * r.unit else value

def absolute (r : Reservation) (value : Int64) : Int64 :=
  if r.incremental then r.scale value + r.total else r.scale value

end Reservation
end TraceTracks
