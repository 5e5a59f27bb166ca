import TraceTracks.Ownership
import TraceTracks.Reservation.Ledger
import TraceTracks.Settings

/-! The state of one import: what was announced, where each uuid's track came to lie, and who owns
which lifetime, over a backend that holds the tables. Announcements and counter samples are here;
finding a uuid's track is a module of its own. -/
namespace TraceTracks

structure Vocabulary where
  source : StringId
  sourceId : StringId
  parentTrackId : StringId
  category : StringId
  descriptor : StringId
  defaultTrackName : StringId
  deriving DecidableEq

structure Catalog (β : Type) where
  backend : β
  settings : Settings
  vocabulary : Vocabulary
  reservations : Reservations
  placements : Registry Uuid Placement
  owners : Owners

/-- A step of a catalog. A step that fails keeps what it has done so far. -/
abbrev Act (β α : Type) := EStateM Fault (Catalog β) α

namespace Act
variable {β α : Type}

def onBackend (f : β → α × β) : Act β α := fun c =>
  let (a, b) := f c.backend
  .ok a { c with backend := b }

def tryBackend (f : EStateM Fault β α) : Act β α := fun c =>
  match f c.backend with
  | .ok a b => .ok a { c with backend := b }
  | .error e b => .error e { c with backend := b }

def claim (f : Claiming β α) : Act β α := fun c =>
  match f (c.owners, c.backend) with
  | .ok a (o, b) => .ok a { c with owners := o, backend := b }
  | .error e (o, b) => .error e { c with owners := o, backend := b }

theorem get_bind (c : Catalog β) (f : Catalog β → Act β α) : (get >>= f) c = f c c := rfl

end Act

namespace Catalog
variable {β : Type}

def reservation? (c : Catalog β) (uuid : Uuid) : Option Reservation := c.reservations.get? uuid

def placement? (c : Catalog β) (uuid : Uuid) : Option Placement := c.placements.get? uuid

def sample (c : Catalog β) (uuid : Uuid) (sequence : Sequence) (value : Int64) :
    Option Int64 × Catalog β :=
  let (v, rs) := c.reservations.sample uuid sequence value
  (v, { c with reservations := rs })

def clear (c : Catalog β) (sequence : Sequence) : Catalog β :=
  { c with reservations := c.reservations.clear sequence }

variable [TrackSink β]

def vocabularyOf (defaultTrackName : String) (b : β) : Vocabulary × β :=
  let (source, b) := TrackSink.intern "source" b
  let (sourceId, b) := TrackSink.intern "source_id" b
  let (parentTrackId, b) := TrackSink.intern "parent_track_id" b
  let (category, b) := TrackSink.intern "category" b
  let (descriptor, b) := TrackSink.intern "descriptor" b
  let (name, b) := TrackSink.intern defaultTrackName b
  (⟨source, sourceId, parentTrackId, category, descriptor, name⟩, b)

/-- Starts on a backend with settings that are not checked. -/
def start (settings : Settings) (backend : β) : Catalog β :=
  let (vocabulary, backend) := vocabularyOf settings.defaultTrackName backend
  ⟨backend, settings, vocabulary, .empty, .empty, .empty⟩

def start? (settings : Settings) (backend : β) : Except SettingsFault (Catalog β) := do
  settings.check
  return start settings backend

def intern (text : String) (c : Catalog β) : StringId × Catalog β :=
  let (id, b) := TrackSink.intern text c.backend
  (id, { c with backend := b })

def count (a : Anomaly) (c : Catalog β) : Catalog β :=
  { c with backend := TrackSink.count a c.backend }

def reserve (uuid : Uuid) (reservation : Reservation) (c : Catalog β) : Catalog β :=
  let (outcome, rs) := c.reservations.reserve uuid reservation
  let c := { c with reservations := rs }
  if outcome = .conflict then c.count .conflictingDescriptor else c

@[simp] theorem placements_reserve (uuid : Uuid) (reservation : Reservation) (c : Catalog β) :
    (c.reserve uuid reservation).placements = c.placements := by
  unfold reserve
  dsimp only
  split <;> rfl

@[simp] theorem reservations_reserve (uuid : Uuid) (reservation : Reservation) (c : Catalog β) :
    (c.reserve uuid reservation).reservations = (c.reservations.reserve uuid reservation).2 := by
  unfold reserve
  dsimp only
  split <;> rfl

theorem placement?_reserve (uuid : Uuid) (reservation : Reservation) (c : Catalog β) :
    (c.reserve uuid reservation).placement? = c.placement? := by
  unfold placement?
  rw [placements_reserve]

theorem reservation?_reserve (uuid : Uuid) (reservation : Reservation) (c : Catalog β)
    (other : Uuid) : (c.reserve uuid reservation).reservation? other =
      if other = uuid then
        some ((c.reservation? uuid).elim reservation fun old =>
          if old.sameTrack reservation then old.merge reservation else old)
      else c.reservation? other := by
  rw [reservation?, reservations_reserve, Reservations.get?_reserve]
  rfl

theorem reservation?_reserve_of_unreserved {uuid : Uuid} {c : Catalog β}
    (unreserved : c.reservation? uuid = none) (reservation : Reservation) (other : Uuid) :
    (c.reserve uuid reservation).reservation? other =
      if other = uuid then some reservation else c.reservation? other := by
  rw [reservation?_reserve, unreserved]
  rfl

end Catalog
end TraceTracks
