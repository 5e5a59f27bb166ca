import TraceTracks.Handle

/-! Rows of the track table. Scope and flavor together give the six kinds of track. -/
namespace TraceTracks

inductive Scope
  | global
  | process (upid : Upid)
  | thread (utid : Utid)
  deriving DecidableEq

namespace Scope

def name : Scope → String
  | .global => "global"
  | .process _ => "process"
  | .thread _ => "thread"

/-- Alike but for the entity. -/
def sameVariant : Scope → Scope → Bool
  | .global, .global => true
  | .process _, .process _ => true
  | .thread _, .thread _ => true
  | _, _ => false

end Scope

inductive Flavor
  | slice
  | counter
  deriving DecidableEq

namespace Flavor

def ofIsCounter (isCounter : Bool) : Flavor := if isCounter then .counter else .slice

def isCounter : Flavor → Bool
  | .slice => false
  | .counter => true

@[simp] theorem isCounter_ofIsCounter (b : Bool) : (ofIsCounter b).isCounter = b := by
  cases b <;> rfl

end Flavor

structure Track where
  id : TrackId
  name : StringId
  scope : Scope
  flavor : Flavor
  deriving DecidableEq

structure Placement where
  track : TrackId
  scope : Scope
  flavor : Flavor
  deriving DecidableEq

/-- The scope that a track passes on to plain tracks below it. Only slices of a thread or a
process have one to give. -/
def Placement.childScope (p : Placement) : Option Scope :=
  match p.flavor, p.scope with
  | .slice, .thread utid => some (.thread utid)
  | .slice, .process upid => some (.process upid)
  | _, _ => none

end TraceTracks
