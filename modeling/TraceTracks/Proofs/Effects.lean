import TraceTracks.Session
import TraceTracks.Proofs.Resolution
import TraceTracks.Proofs.Tables

/-! What making, annotating and naming a track do to the tables of a session. An entity is written
as the scope of its primary track, so that threads and processes share their facts. -/
namespace TraceTracks

/-- The arguments that say where a track comes from. -/
def argsFor (words : Vocabulary) (uuid : Uuid) (parent : Option TrackId) (category : StringId) :
    List Arg :=
  [⟨words.source, .string words.descriptor⟩, ⟨words.sourceId, .integer uuid.toInt64⟩] ++
    (parent.map fun p => ⟨words.parentTrackId, .integer (Int64.ofNat p.index)⟩).toList ++
    if StringId.isNull category then [] else [⟨words.category, .string category⟩]

namespace Session

def rows (c : Session) : Array Track := c.backend.store.tracks.rows

def row? (c : Session) (id : TrackId) : Option Track := c.backend.store.track? id

def argsOf (c : Session) (id : TrackId) : List Arg := c.backend.store.args.ofTrack id

def owner? (c : Session) : Scope → Option Uuid
  | .global => none
  | .thread utid => c.owners.threadOwner? utid
  | .process upid => c.owners.processOwner? upid

def primary? (c : Session) : Scope → Option TrackId
  | .global => none
  | .thread utid => c.backend.store.tracks.threadTrack? utid
  | .process upid => c.backend.store.tracks.processTrack? upid

/-- The state that a step leaves behind, also when it fails. -/
def left {α : Type} : EStateM.Result Fault (Catalog Trace) α → Session
  | .ok _ c => c
  | .error _ c => c

structure Grows (c c' : Session) : Prop where
  rows : c.rows.size ≤ c'.rows.size
  lifetimes : c.backend.lifetimes.Grows c'.backend.lifetimes

theorem Grows.refl (c : Session) : Grows c c := ⟨Nat.le_refl _, .refl _⟩

theorem Grows.trans {a b c : Session} (h : Grows a b) (h' : Grows b c) : Grows a c :=
  ⟨Nat.le_trans h.rows h'.rows, h.lifetimes.trans h'.lifetimes⟩

/-- No row and no entity has been given a handle twice. -/
structure Fits (c : Session) : Prop where
  rows : c.rows.size ≤ UInt32.size
  threads : c.backend.lifetimes.threads.size ≤ UInt32.size
  processes : c.backend.lifetimes.processes.size ≤ UInt32.size

theorem Fits.of_grows {c c' : Session} (h : Fits c') (g : Grows c c') : Fits c :=
  ⟨Nat.le_trans g.rows h.rows, Nat.le_trans g.lifetimes.threads h.threads,
    Nat.le_trans g.lifetimes.processes h.processes⟩

def Growing {α : Type} (x : EStateM Fault (Catalog Trace) α) : Prop := ∀ c, Grows c (left (x c))

section Growing
variable {α γ : Type} {x : EStateM Fault (Catalog Trace) α}

theorem growing_pure (a : α) : Growing (pure a) := Grows.refl

theorem growing_get : Growing get := Grows.refl

theorem growing_modify {f : Catalog Trace → Catalog Trace} (h : ∀ c, Grows c (f c)) :
    Growing (modify f) := h

theorem Growing.of_ok {a : α} {c c' : Session} (hx : Growing x) (ok : x c = .ok a c') :
    Grows c c' := by
  have grows := hx c
  rwa [ok] at grows

theorem left_bind_grows {f : α → EStateM Fault (Catalog Trace) γ} (hf : ∀ a, Growing (f a))
    (c : Session) : Grows (left (x c)) (left ((x >>= f) c)) := by
  cases hr : x c with
  | ok a c₁ =>
    rw [Act.bind_ok hr]
    exact hf a c₁
  | error e c₁ =>
    rw [Act.bind_error hr]
    exact .refl c₁

theorem Growing.bind {f : α → EStateM Fault (Catalog Trace) γ} (hx : Growing x)
    (hf : ∀ a, Growing (f a)) : Growing (x >>= f) :=
  fun c => (hx c).trans (left_bind_grows hf c)

@[simp] theorem left_map (f : α → γ) (c : Session) : left ((f <$> x) c) = left (x c) := by
  cases hr : x c with
  | ok a c₁ => rw [Act.map_ok hr, left, left]
  | error e c₁ => rw [Act.map_error hr, left, left]

theorem Growing.map (hx : Growing x) (f : α → γ) : Growing (f <$> x) := by
  intro c
  rw [left_map]
  exact hx c

end Growing

theorem row?_eq (c : Session) (id : TrackId) : c.row? id = c.rows[id.index]? := rfl

def withTally (c : Session) (tally : Tally) : Session := { c with backend.store.tally := tally }

theorem countCuts_eq (cuts : List Cut) (c : Session) :
    Catalog.countCuts cuts c =
      c.withTally (cuts.foldl (fun t cut => t.count cut.anomaly) c.backend.store.tally) := by
  induction cuts generalizing c with
  | nil => rfl
  | cons cut cuts ih =>
    change Catalog.countCuts cuts (c.count cut.anomaly) = _
    rw [ih]
    rfl

theorem reservations_countCuts (cuts : List Cut) (c : Session) :
    (c.countCuts cuts).reservations = c.reservations := by
  rw [countCuts_eq]
  rfl

theorem placements_countCuts (cuts : List Cut) (c : Session) :
    (c.countCuts cuts).placements = c.placements := by
  rw [countCuts_eq]
  rfl

def withRow (c : Session) (scope : Scope) (flavor : Flavor) : Session :=
  { c with backend.store.tracks := (c.backend.store.tracks.create scope flavor).2 }

theorem createTrack_eq (scope : Scope) (r : Reservation) (c : Session) :
    Catalog.createTrack scope r c =
      .ok ⟨Handle.ofIndex c.rows.size, scope, .ofIsCounter r.isCounter⟩
        (c.withRow scope (.ofIsCounter r.isCounter)) := rfl

def withArgs (c : Session) (track : TrackId) (args : List Arg) : Session :=
  { c with backend.store.args := c.backend.store.args.addAll track args }

def withName (c : Session) (track : TrackId) (name : StringId) : Session :=
  { c with
    backend.store.tracks.rows := c.rows.modify track.index fun row => { row with name := name } }

def recorded (c : Session) (uuid : Uuid) (r : Reservation) (p : Placement)
    (parent : Option Placement) : Session :=
  let c := { c.withArgs p.track (argsFor c.vocabulary uuid (parent.map Placement.track)
    r.category) with placements := c.placements.insert uuid p }
  if StringId.isNull r.name then c else c.withName p.track r.name

section Recorded
variable (c : Session) (uuid : Uuid) (r : Reservation) (p : Placement) (parent : Option Placement)

theorem row?_withName (track : TrackId) (name : StringId) (id : TrackId) :
    (c.withName track name).row? id =
      if id = track then (c.row? id).map fun row => { row with name := name } else c.row? id := by
  change (c.rows.modify track.index _)[id.index]? = _
  rw [Array.getElem?_modify]
  by_cases h : id = track
  · rw [if_pos (Handle.index_inj.mpr h.symm), if_pos h]
    rfl
  · rw [if_neg fun he => h (Handle.index_inj.mp he).symm, if_neg h]
    rfl

@[simp] theorem settings_recorded : (c.recorded uuid r p parent).settings = c.settings := by
  unfold recorded
  dsimp only
  split <;> rfl

@[simp] theorem vocabulary_recorded : (c.recorded uuid r p parent).vocabulary = c.vocabulary := by
  unfold recorded
  dsimp only
  split <;> rfl

@[simp] theorem reservations_recorded :
    (c.recorded uuid r p parent).reservations = c.reservations := by
  unfold recorded
  dsimp only
  split <;> rfl

@[simp] theorem placements_recorded :
    (c.recorded uuid r p parent).placements = c.placements.insert uuid p := by
  unfold recorded
  dsimp only
  split <;> rfl

@[simp] theorem lifetimes_recorded :
    (c.recorded uuid r p parent).backend.lifetimes = c.backend.lifetimes := by
  unfold recorded
  dsimp only
  split <;> rfl

@[simp] theorem countOf_recorded (a : Anomaly) :
    (c.recorded uuid r p parent).countOf a = c.countOf a := by
  unfold recorded
  dsimp only
  split <;> rfl

@[simp] theorem owner?_recorded (s : Scope) :
    (c.recorded uuid r p parent).owner? s = c.owner? s := by
  unfold recorded
  dsimp only
  split <;> rfl

@[simp] theorem primary?_recorded (s : Scope) :
    (c.recorded uuid r p parent).primary? s = c.primary? s := by
  unfold recorded
  dsimp only
  cases s <;> split <;> rfl

theorem argsOf_recorded (id : TrackId) : (c.recorded uuid r p parent).argsOf id =
    if id = p.track then c.argsOf p.track ++
      argsFor c.vocabulary uuid (parent.map Placement.track) r.category
    else c.argsOf id := by
  rw [argsOf, argsOf, argsOf, ← Args.ofTrack_addAll]
  unfold recorded
  dsimp only
  split <;> rfl

theorem row?_recorded_of_ne {id : TrackId} (h : id ≠ p.track) :
    (c.recorded uuid r p parent).row? id = c.row? id := by
  unfold recorded
  dsimp only
  split
  · rfl
  · rw [row?_withName, if_neg h]
    rfl

theorem row?_recorded_self {id : TrackId} {scope : Scope} {flavor : Flavor}
    (h : c.row? p.track = some ⟨id, .null, scope, flavor⟩) :
    (c.recorded uuid r p parent).row? p.track = some ⟨id, r.name, scope, flavor⟩ := by
  unfold recorded
  dsimp only
  split
  next hn =>
    rw [StringId.isNull_iff.mp hn]
    exact h
  next =>
    rw [row?_withName, if_pos rfl]
    exact congrArg (Option.map fun row : Track => { row with name := r.name }) h

end Recorded

section Record
variable {c : Session} {track : TrackId}

theorem row?_isSome_iff : (c.row? track).isSome ↔ track.index < c.rows.size := by
  simp [row?_eq]

theorem addArg_ok (h : (c.row? track).isSome) (args : List Arg) (key : StringId)
    (value : ArgValue) :
    (Act.tryBackend (TrackSink.addArg track key value) : Act Trace Unit) (c.withArgs track args) =
      .ok () (c.withArgs track (args ++ [⟨key, value⟩])) := by
  obtain ⟨row, hrow⟩ := Option.isSome_iff_exists.mp h
  have hrow : (c.withArgs track args).backend.store.track? track = some row := hrow
  simp only [Act.tryBackend, TrackSink.addArg, Backend.tryStore, Store.addArg, hrow]
  simp only [withArgs, Args.addAll, List.foldl_append, List.foldl_cons, List.foldl_nil]

theorem addArg_error (h : c.row? track = none) (key : StringId) (value : ArgValue) :
    (Act.tryBackend (TrackSink.addArg track key value) : Act Trace Unit) c =
      .error (.unknownTrack track) c := by
  have hrow : c.backend.store.track? track = none := h
  simp only [Act.tryBackend, TrackSink.addArg, Backend.tryStore, Store.addArg, hrow]

theorem annotate_ok (h : (c.row? track).isSome) (uuid : Uuid) (parent : Option TrackId)
    (category : StringId) : Catalog.annotate track uuid parent category c =
      .ok () (c.withArgs track (argsFor c.vocabulary uuid parent category)) := by
  have add (args : List Arg) (key : StringId) (value : ArgValue) := addArg_ok h args key value
  unfold Catalog.annotate
  rw [Act.bind_ok (Act.get_ok c)]
  dsimp only
  rw [Act.bind_ok (s := c) (add [] _ _), Act.bind_ok (add _ _ _)]
  cases parent with
  | none =>
    cases hc : StringId.isNull category with
    | true =>
      simp only [argsFor, hc]
      rfl
    | false =>
      simp only [argsFor, hc]
      exact add _ _ _
  | some parent =>
    dsimp only
    rw [Act.bind_ok (add _ _ _)]
    cases hc : StringId.isNull category with
    | true =>
      simp only [argsFor, hc]
      rfl
    | false =>
      simp only [argsFor, hc]
      exact add _ _ _

theorem annotate_error (h : c.row? track = none) (uuid : Uuid) (parent : Option TrackId)
    (category : StringId) : Catalog.annotate track uuid parent category c =
      .error (.unknownTrack track) c := by
  unfold Catalog.annotate
  rw [Act.bind_ok (Act.get_ok c)]
  dsimp only
  rw [Act.bind_error (addArg_error h _ _)]

theorem setName_ok (h : (c.row? track).isSome) (name : StringId) :
    (Act.tryBackend (TrackSink.setName track name) : Act Trace Unit) c =
      .ok () (c.withName track name) := by
  have hset : Tracks.setName track name c.backend.store.tracks =
      .ok () (c.withName track name).backend.store.tracks := if_pos (row?_isSome_iff.mp h)
  simp only [Act.tryBackend, TrackSink.setName, Backend.tryStore, Store.setName, hset]
  rfl

theorem setName_error (h : c.row? track = none) (name : StringId) :
    (Act.tryBackend (TrackSink.setName track name) : Act Trace Unit) c =
      .error (.unknownTrack track) c := by
  have absent : ¬track.index < c.backend.store.tracks.rows.size := fun known => by
    rw [← Option.not_isSome_iff_eq_none] at h
    exact h (row?_isSome_iff.mpr known)
  have hset : Tracks.setName track name c.backend.store.tracks =
      .error (.unknownTrack track) c.backend.store.tracks := if_neg absent
  simp only [Act.tryBackend, TrackSink.setName, Backend.tryStore, Store.setName, hset]

theorem name_ok {row : Track} (h : c.row? track = some row) :
    (Act.tryBackend (TrackSink.name track) : Act Trace StringId) c = .ok row.name c := by
  have h : c.backend.store.tracks.get? track = some row := h
  simp only [Act.tryBackend, TrackSink.name, Backend.tryStore, Store.name, Tracks.name, h]

theorem name_error (h : c.row? track = none) :
    (Act.tryBackend (TrackSink.name track) : Act Trace StringId) c =
      .error (.unknownTrack track) c := by
  have h : c.backend.store.tracks.get? track = none := h
  simp only [Act.tryBackend, TrackSink.name, Backend.tryStore, Store.name, Tracks.name, h]

theorem record_ok {p : Placement} (h : (c.row? p.track).isSome) (uuid : Uuid) (r : Reservation)
    (parent : Option Placement) :
    Catalog.record uuid r p parent c = .ok p (c.recorded uuid r p parent) := by
  unfold Catalog.record
  rw [Act.bind_ok (annotate_ok h _ _ _), Act.bind_ok (Act.modify_ok _ _)]
  cases hn : StringId.isNull r.name with
  | true =>
    simp only [recorded, hn]
    rfl
  | false =>
    simp only [recorded, hn, Bool.not_false, if_true, Bool.false_eq_true, if_false]
    apply Act.bind_ok
    apply setName_ok
    exact h

theorem record_error {p : Placement} (h : c.row? p.track = none) (uuid : Uuid) (r : Reservation)
    (parent : Option Placement) :
    Catalog.record uuid r p parent c = .error (.unknownTrack p.track) c := by
  unfold Catalog.record
  rw [Act.bind_error (annotate_error h _ _ _)]

theorem growing_record (uuid : Uuid) (r : Reservation) (p : Placement)
    (parent : Option Placement) : Growing (Catalog.record uuid r p parent) := by
  intro c
  cases h : c.row? p.track with
  | none =>
    rw [record_error h]
    exact .refl c
  | some row =>
    rw [record_ok (by simp [h])]
    unfold recorded left
    dsimp only
    split
    · exact ⟨Nat.le_refl _, .refl _⟩
    · refine ⟨Nat.le_of_eq ?_, .refl _⟩
      simp [withName, withArgs, rows]

end Record

theorem growing_createTrack (scope : Scope) (r : Reservation) :
    Growing (Catalog.createTrack scope r) := by
  intro c
  rw [createTrack_eq]
  exact ⟨by simp [left, withRow, rows, Tracks.create], .refl _⟩

theorem grows_count (a : Anomaly) (c : Session) : Grows c (c.count a) :=
  ⟨Nat.le_refl _, .refl _⟩

theorem grows_reserve (uuid : Uuid) (r : Reservation) (c : Session) :
    Grows c (c.reserve uuid r) := by
  unfold Catalog.reserve
  dsimp only
  split <;> exact ⟨Nat.le_refl _, .refl _⟩

theorem reserve_of_unreserved {c : Session} {uuid : Uuid}
    (unreserved : c.reservation? uuid = none) (r : Reservation) :
    c.reserve uuid r = { c with reservations := (c.reservations.reserve uuid r).2 } := by
  have none : c.reservations.get? uuid = none := unreserved
  have inserted : (c.reservations.reserve uuid r).1 = .inserted := by
    simp only [Reservations.reserve, none]
  unfold Catalog.reserve
  dsimp only
  rw [inserted, if_neg (by decide)]

theorem countOf_reserve_of_ne {a : Anomaly} (h : a ≠ .conflictingDescriptor) (u : Uuid)
    (r : Reservation) (c : Session) : countOf (c.reserve u r) a = c.countOf a := by
  unfold Catalog.reserve
  dsimp only
  split
  · exact (Tally.get_count _ _ _).trans (if_neg h)
  · rfl

theorem growing_makeDefault : Growing Catalog.makeDefault := by
  unfold Catalog.makeDefault
  refine growing_get.bind fun c => ?_
  refine (growing_modify fun c => grows_reserve _ _ c).bind fun _ => ?_
  exact (growing_createTrack _ _).bind fun _ => growing_record _ _ _ _

end Session
end TraceTracks
