import TraceTracks.Trail
import TraceTracks.Catalog

/-! From a uuid to its track. The track is made when it is first asked for, after those of its
ancestors, and is remembered. A parent link is dropped and counted if it makes the chain too long,
closes a loop, or names a uuid that nobody announced; the track is then placed as if it had none. A
global track without a parent goes below the default track, whose uuid is zero. -/
namespace TraceTracks.Catalog
variable {β : Type}

/-- Resolution of uuids for which there is still allowance below `uuid`. -/
abbrev Below (β : Type) (limit : Nat) (path : Trail) (uuid : Uuid) :=
  (next : Uuid) → (longer : Trail) →
    longer.allowance limit next < path.allowance limit uuid → Act β (Option Placement)

variable [TrackSink β]

def dropLink (a : Anomaly) : Act β (Option Placement) := do
  modify (count a)
  return none

def declaredParent (limit : Nat) (path : Trail) (uuid parent : Uuid)
    (below : Below β limit path uuid) : Act β (Option Placement) :=
  if h : (path.enter uuid).depth ≤ limit then
    if (path.enter uuid).contains parent then
      dropLink .loop
    else do
      match ← below parent (path.enter uuid) (Trail.allowance_enter h parent) with
      | some placement => return some placement
      | none => dropLink .unknownParent
  else
    dropLink .tooManyAncestors

def createTrack (scope : Scope) (reservation : Reservation) : Act β Placement := do
  let flavor := Flavor.ofIsCounter reservation.isCounter
  let track ← Act.onBackend (TrackSink.createTrack scope flavor)
  return ⟨track, scope, flavor⟩

def annotate (track : TrackId) (uuid : Uuid) (parent : Option TrackId) (category : StringId) :
    Act β Unit := do
  let words := (← get).vocabulary
  Act.tryBackend (TrackSink.addArg track words.source (.string words.descriptor))
  Act.tryBackend (TrackSink.addArg track words.sourceId (.integer uuid.toInt64))
  if let some parent := parent then
    Act.tryBackend
      (TrackSink.addArg track words.parentTrackId (.integer (Int64.ofNat parent.index)))
  if !StringId.isNull category then
    Act.tryBackend (TrackSink.addArg track words.category (.string category))

def record (uuid : Uuid) (reservation : Reservation) (placement : Placement)
    (parent : Option Placement) : Act β Placement := do
  annotate placement.track uuid (parent.map Placement.track) reservation.category
  modify fun c => { c with placements := c.placements.insert uuid placement }
  if !StringId.isNull reservation.name then
    Act.tryBackend (TrackSink.setName placement.track reservation.name)
  return placement

/-- The default track, given what resolving its uuid finds. If nobody announced it, it is announced
now, as a plain track without a parent. -/
def defaultTrack (found : Act β (Option Placement)) : Act β Placement := do
  match ← found with
  | some placement => return placement
  | none =>
    let reservation := (Descriptor.child 0 (← get).vocabulary.defaultTrackName).reservation
    modify (reserve 0 reservation)
    let placement ← createTrack .global reservation
    record 0 reservation placement none

def fallbackParent (limit : Nat) (path : Trail) (uuid : Uuid)
    (below : Below β limit path uuid) : Act β (Option Placement) :=
  if hu : uuid = 0 then
    pure none
  else if h : path.contains 0 then
    dropLink .loop
  else
    some <$> defaultTrack
      (below 0 (path.enterRoot uuid) (Trail.allowance_enterRoot limit (by simpa using h) hu))

variable [LifetimeSource β]

def claimThreadTrack (uuid : Uuid) (pid : Pid) (tid : Tid) : Act β Placement := do
  let claim ← Act.claim (Owners.claimThread uuid pid tid)
  if claim.reused then
    modify (count .tidReuse)
  let track ← Act.onBackend (TrackSink.threadTrack claim.entity)
  return ⟨track, .thread claim.entity, .slice⟩

def claimProcessTrack (uuid : Uuid) (pid : Pid) : Act β Placement := do
  let claim ← Act.claim (Owners.claimProcess uuid pid)
  if claim.reused then
    modify (count .pidReuse)
  let track ← Act.onBackend (TrackSink.processTrack claim.entity)
  return ⟨track, .process claim.entity, .slice⟩

/-- Makes the track of a uuid. A tid without a pid is not looked at. -/
def materialize (limit : Nat) (path : Trail) (uuid : Uuid) (reservation : Reservation)
    (below : Below β limit path uuid) : Act β Placement := do
  let declared ←
    if reservation.parent = 0 then pure none
    else declaredParent limit path uuid reservation.parent below
  match reservation.pid, reservation.tid with
  | some pid, some tid =>
    let placement ← claimThreadTrack uuid pid tid
    record uuid reservation placement declared
  | some pid, none =>
    let placement ← claimProcessTrack uuid pid
    record uuid reservation placement declared
  | none, _ =>
    match declared with
    | some parent =>
      let placement ← createTrack (parent.childScope.getD .global) reservation
      record uuid reservation placement declared
    | none =>
      let placement ← createTrack .global reservation
      let parent ← fallbackParent limit path uuid below
      record uuid reservation placement parent

def resolveWith (limit : Nat) (path : Trail) (uuid : Uuid) (below : Below β limit path uuid) :
    Act β (Option Placement) := do
  match (← get).placement? uuid with
  | some placement => return some placement
  | none =>
    match (← get).reservation? uuid with
    | some reservation => some <$> materialize limit path uuid reservation below
    | none => return none

/-- The placement of a uuid while those on the path wait for it; none if nobody announced it. -/
def resolve (limit : Nat) (path : Trail) (uuid : Uuid) : Act β (Option Placement) :=
  resolveWith limit path uuid fun next longer _ => resolve limit longer next
termination_by path.allowance limit uuid

theorem resolve_eq_resolveWith (limit : Nat) (path : Trail) (uuid : Uuid) :
    (resolve limit path uuid : Act β (Option Placement)) =
      resolveWith limit path uuid fun next longer _ => resolve limit longer next := by
  rw [resolve]

theorem resolve_of_placement? {c : Catalog β} {uuid : Uuid} {placement : Placement}
    (h : c.placement? uuid = some placement) (limit : Nat) (path : Trail) :
    resolve limit path uuid c = .ok (some placement) c := by
  rw [resolve_eq_resolveWith, resolveWith, Act.get_bind, h]
  rfl

theorem resolve_of_unannounced {c : Catalog β} {uuid : Uuid} (hp : c.placement? uuid = none)
    (hr : c.reservation? uuid = none) (limit : Nat) (path : Trail) :
    resolve limit path uuid c = .ok none c := by
  rw [resolve_eq_resolveWith, resolveWith, Act.get_bind, hp]
  dsimp only
  rw [Act.get_bind, hr]
  rfl

def nameIfUnnamed (track : TrackId) (name : StringId) : Act β Unit := do
  if StringId.isNull (← Act.tryBackend (TrackSink.name track)) then
    Act.tryBackend (TrackSink.setName track name)

/-- The track of a uuid, for an event of some name. A plain track that nobody named is named after
the first event on it. -/
def track? (uuid : Uuid) (event : StringId) : Act β (Option TrackId) := do
  match ← resolve (← get).settings.maxAncestors .empty uuid with
  | none => return none
  | some placement =>
    if !StringId.isNull event && ((← get).reservation? uuid).any (!·.hasFixedName) then
      nameIfUnnamed placement.track event
    return some placement.track

def defaultTrackId : Act β TrackId := do
  let placement ← defaultTrack (resolve (← get).settings.maxAncestors .empty 0)
  return placement.track

end TraceTracks.Catalog
