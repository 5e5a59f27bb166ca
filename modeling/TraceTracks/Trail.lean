import TraceTracks.Handle

/-! The path of uuids whose tracks are being resolved, outermost first. Its depth is counted from a
floor, which `enterRoot` moves up to the end of the path. A guard remembers the floor that was there
before an entry and puts it back when the entry goes. -/
namespace TraceTracks

structure Trail where
  uuids : Array Uuid
  floor : Nat
  deriving DecidableEq

namespace Trail

def empty : Trail := ⟨#[], 0⟩

instance : Inhabited Trail := ⟨empty⟩

def size (p : Trail) : Nat := p.uuids.size

def isEmpty (p : Trail) : Bool := p.uuids.isEmpty

def contains (p : Trail) (uuid : Uuid) : Bool := p.uuids.contains uuid

def depth (p : Trail) : Nat := p.uuids.size - p.floor

def enter (p : Trail) (uuid : Uuid) : Trail := ⟨p.uuids.push uuid, p.floor⟩

/-- Enters a uuid and counts the depth from there. -/
def enterRoot (p : Trail) (uuid : Uuid) : Trail := ⟨p.uuids.push uuid, p.uuids.size + 1⟩

@[simp] theorem size_enter (p : Trail) (uuid : Uuid) : (p.enter uuid).size = p.size + 1 := by
  simp [enter, size]

@[simp] theorem contains_enter (p : Trail) (uuid other : Uuid) :
    (p.enter uuid).contains other = (p.contains other || other == uuid) := by
  rw [Bool.eq_iff_iff]
  simp [enter, contains]

@[simp] theorem contains_enterRoot (p : Trail) (uuid other : Uuid) :
    (p.enterRoot uuid).contains other = (p.contains other || other == uuid) := by
  rw [Bool.eq_iff_iff]
  simp [enterRoot, contains]

@[simp] theorem depth_enterRoot (p : Trail) (uuid : Uuid) : (p.enterRoot uuid).depth = 0 := by
  simp [enterRoot, depth]

/-- Restores the floor when its entry is dropped. -/
structure Guard where
  floor : Nat
  deriving DecidableEq

def guard (p : Trail) : Guard := ⟨p.floor⟩

def drop (p : Trail) (g : Guard) : Trail := ⟨p.uuids.pop, g.floor⟩

@[simp] theorem drop_enter (p : Trail) (uuid : Uuid) : (p.enter uuid).drop p.guard = p := by
  simp [enter, drop, guard]

@[simp] theorem drop_enterRoot (p : Trail) (uuid : Uuid) :
    (p.enterRoot uuid).drop p.guard = p := by
  simp [enterRoot, drop, guard]

def room (p : Trail) (limit : Nat) : Nat := limit + p.floor + 1 - p.size

theorem room_enter {p : Trail} {limit : Nat} {uuid : Uuid}
    (h : (p.enter uuid).depth ≤ limit) : (p.enter uuid).room limit < p.room limit := by
  simp only [depth, enter, Array.size_push] at h
  simp only [room, size, enter, Array.size_push]
  omega

/-- Bounds the resolutions that can still nest inside that of `uuid`. The default track's uuid is
zero; its own chain, with the depth counted afresh, comes on top until zero has its turn. -/
def allowance (p : Trail) (limit : Nat) (uuid : Uuid) : Nat :=
  p.room limit + if p.contains 0 ∨ uuid = 0 then 0 else limit + 2

theorem allowance_enter {p : Trail} {limit : Nat} {uuid : Uuid}
    (h : (p.enter uuid).depth ≤ limit) (next : Uuid) :
    (p.enter uuid).allowance limit next < p.allowance limit uuid := by
  have hr := room_enter h
  have hz : (p.contains 0 ∨ uuid = 0) → (p.enter uuid).contains 0 ∨ next = 0 := by
    rintro (hp | rfl) <;> simp [*]
  unfold allowance
  by_cases hc : p.contains 0 ∨ uuid = 0
  · rw [if_pos hc, if_pos (hz hc)]
    exact hr
  · rw [if_neg hc]
    split <;> omega

theorem allowance_enterRoot {p : Trail} (limit : Nat) {uuid : Uuid}
    (h : p.contains 0 = false) (hu : uuid ≠ 0) :
    (p.enterRoot uuid).allowance limit 0 < p.allowance limit uuid := by
  have hc : ¬(p.contains 0 = true ∨ uuid = 0) := by simp [h, hu]
  unfold allowance
  rw [if_neg hc, if_pos (Or.inr rfl)]
  simp only [room, size, enterRoot, Array.size_push]
  omega

end Trail

structure Descent where
  path : Trail
  guards : List Trail.Guard
  deriving DecidableEq

namespace Descent

def start : Descent := ⟨.empty, []⟩

def enter (d : Descent) (uuid : Uuid) : Descent := ⟨d.path.enter uuid, d.path.guard :: d.guards⟩

def enterRoot (d : Descent) (uuid : Uuid) : Descent :=
  ⟨d.path.enterRoot uuid, d.path.guard :: d.guards⟩

def leave? (d : Descent) : Option Descent :=
  match d.guards with
  | [] => none
  | g :: gs => some ⟨d.path.drop g, gs⟩

@[simp] theorem leave?_enter (d : Descent) (uuid : Uuid) : (d.enter uuid).leave? = some d := by
  simp [enter, leave?]

@[simp] theorem leave?_enterRoot (d : Descent) (uuid : Uuid) :
    (d.enterRoot uuid).leave? = some d := by
  simp [enterRoot, leave?]

end Descent
end TraceTracks
