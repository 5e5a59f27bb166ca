import TraceTracks.Registry
import TraceTracks.Reservation

/-! All reservations. The first announcement of a uuid stands: later ones can only lower its time,
and a later one of another shape is refused. Counters keep their running totals here. -/
namespace TraceTracks

structure Reservations where
  byUuid : Registry Uuid Reservation

namespace Reservations

inductive Outcome
  | inserted
  | merged
  | conflict
  deriving DecidableEq

def empty : Reservations := ⟨Registry.empty⟩

instance : Inhabited Reservations := ⟨empty⟩

def size (rs : Reservations) : Nat := rs.byUuid.size

def isEmpty (rs : Reservations) : Bool := rs.byUuid.isEmpty

def get? (rs : Reservations) (uuid : Uuid) : Option Reservation := rs.byUuid.get? uuid

def contains (rs : Reservations) (uuid : Uuid) : Bool := rs.byUuid.contains uuid

def reserve (rs : Reservations) (uuid : Uuid) (r : Reservation) : Outcome × Reservations :=
  match rs.get? uuid with
  | none => (.inserted, ⟨rs.byUuid.insert uuid r⟩)
  | some old =>
    if old.sameTrack r then (.merged, ⟨rs.byUuid.insert uuid (old.merge r)⟩)
    else (.conflict, rs)

theorem get?_reserve (rs : Reservations) (uuid : Uuid) (r : Reservation) (other : Uuid) :
    (rs.reserve uuid r).2.get? other =
      if other = uuid then
        some ((rs.get? uuid).elim r fun old => if old.sameTrack r then old.merge r else old)
      else rs.get? other := by
  unfold reserve
  cases h : rs.get? uuid with
  | none => simp [get?, Registry.get?_insert]
  | some old =>
    by_cases same : old.sameTrack r
    · simp [same, get?, Registry.get?_insert]
    · by_cases he : other = uuid <;> simp [same, he, h]

/-- The absolute value of a counter sample. A sample that is refused changes nothing. -/
def sample (rs : Reservations) (uuid : Uuid) (sequence : Sequence) (value : Int64) :
    Option Int64 × Reservations :=
  match rs.get? uuid with
  | none => (none, rs)
  | some r =>
    if r.accepts sequence then
      let v := r.absolute value
      (some v, if r.incremental then ⟨rs.byUuid.insert uuid { r with total := v }⟩ else rs)
    else (none, rs)

theorem fst_sample (rs : Reservations) (uuid : Uuid) (sequence : Sequence) (value : Int64) :
    (rs.sample uuid sequence value).1 =
      (rs.get? uuid).bind fun r =>
        if r.accepts sequence then some (r.absolute value) else none := by
  unfold sample
  cases rs.get? uuid with
  | none => rfl
  | some r => by_cases accepts : r.accepts sequence = true <;> simp [accepts]

theorem get?_sample (rs : Reservations) (uuid : Uuid) (sequence : Sequence) (value : Int64)
    (other : Uuid) : (rs.sample uuid sequence value).2.get? other =
    if other = uuid then
      (rs.get? uuid).map fun r =>
        if r.accepts sequence && r.incremental then { r with total := r.absolute value } else r
    else rs.get? other := by
  unfold sample
  cases found : rs.get? uuid with
  | none => by_cases same : other = uuid <;> simp [same, found]
  | some r =>
    by_cases accepts : r.accepts sequence = true
    · by_cases incremental : r.incremental = true
      · simp [accepts, incremental, get?, Registry.get?_insert]
      · by_cases same : other = uuid <;> simp [accepts, incremental, same, found]
    · by_cases same : other = uuid <;> simp [accepts, same, found]

def clear (rs : Reservations) (sequence : Sequence) : Reservations :=
  ⟨rs.byUuid.mapValues fun _ r =>
    if r.incremental && r.sequence == sequence then { r with total := 0 } else r⟩

theorem get?_clear (rs : Reservations) (sequence : Sequence) (uuid : Uuid) :
    (rs.clear sequence).get? uuid = (rs.get? uuid).map fun r =>
      if r.incremental && r.sequence == sequence then { r with total := 0 } else r := by
  simp [clear, get?]

end Reservations
end TraceTracks
