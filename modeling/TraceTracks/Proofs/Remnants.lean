import TraceTracks.Proofs.Description
import TraceTracks.Proofs.Refuge

/-! What holds of the tables of a session whose attempts to make tracks may have failed half-way. A
failed attempt leaves a row that nobody will use again, or the primary row of an entity that its
uuid keeps; that row may have been annotated in part, by its uuid alone. -/
namespace TraceTracks

def preamble (w : Vocabulary) (u : Uuid) : List Arg :=
  [⟨w.source, .string w.descriptor⟩, ⟨w.sourceId, .integer u.toInt64⟩]

theorem mem_preamble_of_argsFor {w : Vocabulary} {u : Uuid} {parent : Option TrackId}
    {done rest : List Arg} (split : argsFor w u parent .null = done ++ rest) (more : rest ≠ [])
    {arg : Arg} (mem : arg ∈ done) : arg ∈ preamble w u := by
  have written : argsFor w u parent .null = preamble w u ++
      (parent.map fun p => ⟨w.parentTrackId, .integer (Int64.ofNat p.index)⟩).toList := by
    cases parent <;> rfl
  rw [written, List.append_eq_append_iff] at split
  rcases split with ⟨ahead, rfl, last⟩ | ⟨ahead, before, -⟩
  · cases parent with
    | none =>
      rw [Option.map_none, Option.toList_none, List.nil_eq, List.append_eq_nil_iff] at last
      exact absurd last.2 more
    | some p =>
      rw [Option.map_some, Option.toList_some, List.singleton_eq_append_iff] at last
      obtain ⟨rfl, -⟩ := last.resolve_right fun empty => more empty.2
      simpa using mem
  · rw [before]
    exact List.mem_append_left _ mem

theorem Cut.isError_anomaly (cut : Cut) : cut.anomaly.isError = true := by cases cut <;> rfl

namespace Catalog
variable {β : Type}

theorem effectiveParent?_of_reserved {c : Catalog β} {u : Uuid} {r : Reservation}
    (h : c.reservation? u = some r) : c.effectiveParent? u =
      if r.parent ≠ 0 then some r.parent
      else if r.pid = none ∧ u ≠ 0 then some 0 else none := by
  simp only [effectiveParent?, declared_of_reservation? h, homeless_iff h]

end Catalog

namespace Session

def Dropped (c : Session) : Prop := ∃ cut : Cut, 0 < c.countOf cut.anomaly

structure Upholds (c c' : Session) : Prop extends Extends c c' where
  counts : ∀ cut : Cut, c.countOf cut.anomaly ≤ c'.countOf cut.anomaly

theorem Upholds.refl (c : Session) : Upholds c c := ⟨.refl c, fun _ => Nat.le_refl _⟩

theorem Upholds.trans {a b c : Session} (h : Upholds a b) (h' : Upholds b c) : Upholds a c :=
  ⟨h.toExtends.trans h'.toExtends, fun cut => Nat.le_trans (h.counts cut) (h'.counts cut)⟩

/-- The parent that the track of a uuid was given, and why this one. -/
structure Kin (c : Session) (u : Uuid) (r : Reservation) (parent : Option Uuid)
    (q : Option Placement) : Prop where
  found : parent.map c.placement? = q.map some
  declared : ∀ v, parent = some v → v ≠ 0 → v = r.parent
  default : parent = some 0 → r.pid = none ∧ u ≠ 0
  orphan : parent = none → r.pid.isSome ∨ u = 0 ∨ c.Ancestor u 0
  due : parent = c.effectiveParent? u ∨ c.Dropped

structure Endures (c : Session) (u : Uuid) (p : Placement) (r : Reservation)
    (parent : Option Uuid) (q : Option Placement) : Prop where
  reserved : c.reservation? u = some r
  placed : c.placement? u = some p
  kin : Kin c u r parent q
  rank : ∀ v, parent = some v → c.placements.rank v < c.placements.rank u
  row : (c.row? p.track).isSome
  args : ∃ before, (∀ arg ∈ before, arg ∈ preamble c.vocabulary u) ∧ c.argsOf p.track =
    before ++ argsFor c.vocabulary u (q.map Placement.track) r.category
  owned : r.pid.isSome → c.owner? p.scope = some u ∧ c.primary? p.scope = some p.track
  apart : r.pid = none → ∀ s, c.primary? s ≠ some p.track

/-- The tables between the steps of resolutions that may fail. Some rows are held that are not
recorded yet. -/
structure Robust (held : List TrackId) (c : Session) : Prop where
  entities : c.Entities
  descriptors : c.reservations.OfDescriptors
  endures : ∀ u p, c.placement? u = some p → ∃ r parent q, Endures c u p r parent q
  lodged : ∀ s u, c.owner? s = some u → ∃ id, c.primary? s = some id ∧ (c.row? id).isSome ∧
    ((∃ p, c.placement? u = some p ∧ p.track = id) ∨
      ∀ arg ∈ c.argsOf id, arg ∈ preamble c.vocabulary u)
  single : ∀ s s' id, c.primary? s = some id → c.primary? s' = some id → s = s'
  unique : ∀ u v p q, c.placement? u = some p → c.placement? v = some q → p.track = q.track → u = v
  blank : ∀ id, c.row? id = none → c.argsOf id = []
  keeps : ∀ id ∈ held, (c.row? id).isSome ∧ c.argsOf id = [] ∧ (∀ s, c.primary? s ≠ some id) ∧
    ∀ u p, c.placement? u = some p → p.track ≠ id
  distinct : held.Nodup

structure Ready (held : List TrackId) (c : Session) (u : Uuid) (r : Reservation) (p : Placement) :
    Prop where
  row : (c.row? p.track).isSome
  free : ∀ v p', c.placement? v = some p' → p'.track ≠ p.track
  outside : p.track ∉ held
  args : ∀ arg ∈ c.argsOf p.track, r.pid.isSome ∧ arg ∈ preamble c.vocabulary u
  owned : r.pid.isSome → c.owner? p.scope = some u ∧ c.primary? p.scope = some p.track
  apart : r.pid = none → ∀ s, c.primary? s ≠ some p.track

section Mono
variable {held : List TrackId} {c c' : Session} {u : Uuid} {p : Placement} {r r' : Reservation}
  {parent : Option Uuid} {q : Option Placement}

theorem Extends.ancestor (x : Extends c c') {v : Uuid} (h : c.Ancestor v u) :
    c'.Ancestor v u := by
  refine Relation.TransGen.mono (fun a b link => ?_) u v h
  obtain ⟨rfl, nonzero⟩ := link
  cases reserved : c.reservation? a with
  | none => simp [Catalog.declared, reserved] at nonzero
  | some r =>
    obtain ⟨r', reserved', same⟩ := x.reserved a r reserved
    have shape : r'.parent = r.parent := congrArg Shape.parent (Reservation.toShape_of_still same)
    rw [Catalog.declared_of_reservation? reserved] at nonzero ⊢
    exact ⟨(Catalog.declared_of_reservation? reserved').trans shape, nonzero⟩

theorem Upholds.dropped (x : Upholds c c') (h : c.Dropped) : c'.Dropped :=
  let ⟨cut, counted⟩ := h
  ⟨cut, Nat.lt_of_lt_of_le counted (x.counts cut)⟩

theorem Kin.placed (h : Kin c u r parent q) {v : Uuid} (hv : parent = some v) :
    ∃ p, c.placement? v = some p ∧ q = some p := by
  have found := h.found
  rw [hv] at found
  cases q with
  | none => cases found
  | some p => exact ⟨p, Option.some.inj found, rfl⟩

theorem Kin.bind_eq (h : Kin c u r parent q) : parent.bind c.placement? = q := by
  cases hv : parent with
  | none =>
    have found := h.found
    rw [hv] at found
    cases q with
    | none => rfl
    | some q => cases found
  | some v =>
    obtain ⟨p, placed, rfl⟩ := h.placed hv
    exact placed

theorem Kin.above (h : Kin c u r parent q) {v : Uuid} (hv : parent = some v) :
    (c.placement? v).isSome := by
  obtain ⟨p, placed, -⟩ := h.placed hv
  rw [placed]
  rfl

theorem Kin.mono (h : Kin c u r parent q) (x : Upholds c c')
    (reserved : c.reservation? u = some r) (reserved' : c'.reservation? u = some r')
    (same : r'.still = r.still) : Kin c' u r' parent q := by
  have shape := Reservation.toShape_of_still same
  have hpid : r'.pid = r.pid := congrArg Shape.pid shape
  have hparent : r'.parent = r.parent := congrArg Shape.parent shape
  constructor
  case found =>
    cases hv : parent with
    | none =>
      have found := h.found
      rwa [hv] at found
    | some v =>
      obtain ⟨p, placed, rfl⟩ := h.placed hv
      simp [x.placed v p placed]
  case declared =>
    rw [hparent]
    exact h.declared
  case default =>
    rw [hpid]
    exact h.default
  case orphan =>
    rw [hpid]
    exact fun none => (h.orphan none).imp_right (Or.imp_right x.ancestor)
  case due =>
    refine h.due.imp (fun due => due.trans ?_) x.dropped
    rw [Catalog.effectiveParent?_of_reserved reserved,
      Catalog.effectiveParent?_of_reserved reserved', hpid, hparent]

theorem Endures.mono (h : Endures c u p r parent q) (x : Upholds c c')
    (apart : r.pid = none → ∀ s, c'.primary? s ≠ some p.track) :
    ∃ r', Endures c' u p r' parent q := by
  obtain ⟨r', reserved, same⟩ := x.reserved u r h.reserved
  have hpid : r'.pid = r.pid := congrArg Shape.pid (Reservation.toShape_of_still same)
  refine ⟨r', reserved, x.placed u p h.placed, h.kin.mono x h.reserved reserved same, ?_, ?_, ?_,
    ?_, ?_⟩
  · intro v hv
    obtain ⟨p', placed, -⟩ := h.kin.placed hv
    rw [x.rank v (by simp [placed]), x.rank u (by simp [h.placed])]
    exact h.rank v hv
  · obtain ⟨row, hrow⟩ := Option.isSome_iff_exists.mp h.row
    obtain ⟨name, hrow'⟩ := x.row _ row hrow
    simp [hrow']
  · rw [x.args u p h.placed, x.vocabulary, Reservation.category_of_still same]
    exact h.args
  · rw [hpid]
    exact fun hp => ⟨x.owner _ _ (h.owned hp).1, x.primary _ _ (h.owned hp).2⟩
  · rwa [hpid]

theorem Robust.row_of_placed (h : Robust held c) (placed : c.placement? u = some p) :
    (c.row? p.track).isSome := by
  obtain ⟨r, parent, q, endures⟩ := h.endures u p placed
  exact endures.row

theorem Robust.row_of_primary (h : Robust held c) {s : Scope} {id : TrackId}
    (primary : c.primary? s = some id) : (c.row? id).isSome := by
  obtain ⟨v, owner⟩ := Option.isSome_iff_exists.mp (h.entities.primary s id primary)
  obtain ⟨id', primary', row, -⟩ := h.lodged s v owner
  rw [primary] at primary'
  cases primary'
  exact row

/-- Where what was remembered is upheld, its rows only have to be kept from becoming primary. -/
theorem Robust.endures_mono (h : Robust held c) (x : Upholds c c')
    (apart : ∀ id, (c.row? id).isSome → (∀ s, c.primary? s ≠ some id) →
      ∀ s, c'.primary? s ≠ some id)
    (placed : c.placement? u = some p) : ∃ r parent q, Endures c' u p r parent q := by
  obtain ⟨r, parent, q, endures⟩ := h.endures u p placed
  obtain ⟨r', endures'⟩ := endures.mono x fun none => apart _ endures.row (endures.apart none)
  exact ⟨r', parent, q, endures'⟩

theorem Robust.quiet (h : Robust held c) (x : Quiet c c')
    (counts : ∀ cut : Cut, c.countOf cut.anomaly ≤ c'.countOf cut.anomaly)
    (descriptors : c'.reservations.OfDescriptors) : Robust held c' ∧ Upholds c c' := by
  have upholds : Upholds c c' := ⟨x.extends, counts⟩
  have present (id : TrackId) : (c'.row? id).isSome = (c.row? id).isSome := by
    rw [Bool.eq_iff_iff, row?_isSome_iff, row?_isSome_iff, x.rows]
  refine ⟨?_, upholds⟩
  constructor
  case entities =>
    refine ⟨x.sound h.entities.lifetimes, fun s v => ?_, fun s id => ?_⟩
    · rw [x.owner]
      exact fun owner => x.lifetimes.holds (h.entities.known s v owner)
    · rw [x.primary, x.owner]
      exact h.entities.primary s id
  case descriptors => exact descriptors
  case endures =>
    intro u p placed
    rw [x.placement?_eq] at placed
    exact h.endures_mono upholds (fun _ _ apart => x.primary ▸ apart) placed
  case lodged =>
    intro s u owner
    rw [x.owner] at owner
    obtain ⟨id, primary, row, mine⟩ := h.lodged s u owner
    rw [x.primary, x.placement?_eq, x.args, x.vocabulary]
    exact ⟨id, primary, (present id).trans row, mine⟩
  case single =>
    rw [x.primary]
    exact h.single
  case unique =>
    rw [x.placement?_eq]
    exact h.unique
  case blank =>
    intro id none
    rw [x.args]
    refine h.blank id ?_
    rwa [← Option.not_isSome_iff_eq_none, ← present, Option.not_isSome_iff_eq_none]
  case keeps =>
    intro id mem
    rw [present, x.args, x.primary, x.placement?_eq]
    exact h.keeps id mem
  case distinct => exact h.distinct

theorem Ready.quiet (h : Ready held c u r p) (x : Quiet c c') : Ready held c' u r p := by
  constructor
  case row =>
    rw [row?_isSome_iff, x.rows, ← row?_isSome_iff]
    exact h.row
  case free =>
    rw [x.placement?_eq]
    exact h.free
  case outside => exact h.outside
  case args =>
    rw [x.args, x.vocabulary]
    exact h.args
  case owned =>
    rw [x.owner, x.primary]
    exact h.owned
  case apart =>
    rw [x.primary]
    exact h.apart

end Mono
section Lodge

/-- What finding or making the row of a uuid does. An entity that the uuid owns since an earlier
attempt is found with its primary track. -/
structure Lodged (c : Session) (u : Uuid) (r : Reservation) (p : Placement) (c₁ : Session) :
    Prop where
  row : ∀ id row, c.row? id = some row → c₁.row? id = some row
  here : (c₁.row? p.track).isSome
  fresh : r.pid = none → c.row? p.track = none
  args : c₁.argsOf = c.argsOf
  settings : c₁.settings = c.settings
  vocabulary : c₁.vocabulary = c.vocabulary
  reservations : c₁.reservations = c.reservations
  placements : c₁.placements = c.placements
  counts : ∀ cut : Cut, c₁.countOf cut.anomaly = c.countOf cut.anomaly
  mine : r.pid.isSome → (c.owner? p.scope = none ∧ c.row? p.track = none) ∨
    (c.owner? p.scope = some u ∧ c.primary? p.scope = some p.track)
  owner : ∀ s, c₁.owner? s = if r.pid.isSome ∧ s = p.scope then some u else c.owner? s
  primary : ∀ s, c₁.primary? s = if r.pid.isSome ∧ s = p.scope then some p.track else c.primary? s
  entities : c₁.Entities

variable {held : List TrackId} {c c₁ : Session} {u : Uuid} {r : Reservation} {p : Placement}
  {q : Option Placement}

theorem Situated.lodged (x : Situated c u r q p c₁) (fits : c₁.Fits) : Lodged c u r p c₁ where
  row id row hrow := by
    have hne : id ≠ p.track := by
      rintro rfl
      rw [x.row?_before fits] at hrow
      cases hrow
    exact (x.row?_of_ne fits hne).trans hrow
  here := by simp [x.row?_track fits]
  fresh _ := x.row?_before fits
  args := funext x.argsOf_eq
  settings := x.settings
  vocabulary := x.vocabulary
  reservations := x.reservations
  placements := x.placements
  counts cut := x.errors _ cut.isError_anomaly
  mine hpid := .inl ⟨x.unowned hpid, x.row?_before fits⟩
  owner := x.owner
  primary := x.primary
  entities := x.entities

theorem lodged_again (entities : c.Entities) {l : Lifetimes} (grows : c.backend.lifetimes.Grows l)
    (sound : l.Sound) {s : Scope} {id : TrackId} (owner : c.owner? s = some u)
    (primary : c.primary? s = some id) (row : (c.row? id).isSome) (hpid : r.pid.isSome) :
    Lodged c u r ⟨id, s, .slice⟩ (c.withLifetimes l) := by
  have owners (s' : Scope) : (c.withLifetimes l).owner? s' = c.owner? s' := by
    cases s' <;> rfl
  have primaries (s' : Scope) : (c.withLifetimes l).primary? s' = c.primary? s' := by
    cases s' <;> rfl
  constructor
  case here => exact row
  case fresh => simp [Option.isSome_iff_ne_none.mp hpid]
  case mine => exact fun _ => .inr ⟨owner, primary⟩
  case owner =>
    intro s'
    rw [owners]
    split
    next same => rw [same.2, owner]
    next => rfl
  case primary =>
    intro s'
    rw [primaries]
    split
    next same => rw [same.2, primary]
    next => rfl
  case entities =>
    refine ⟨sound, fun s' v => ?_, fun s' id' => ?_⟩
    · rw [owners]
      exact fun owned => grows.holds (entities.known s' v owned)
    · rw [owners, primaries]
      exact entities.primary s' id'
  case row => exact fun _ _ hrow => hrow
  all_goals intros; rfl

theorem threadTrack_again {utid : Utid} {id : TrackId} (h : c.primary? (.thread utid) = some id) :
    (Act.onBackend (TrackSink.threadTrack utid) : Act Trace TrackId) c = .ok id c := by
  have h : c.backend.store.tracks.threadTrack? utid = some id := h
  simp only [Act.onBackend, TrackSink.threadTrack, Backend.onStore, Store.threadTrack,
    Tracks.threadTrack, h]

theorem processTrack_again {upid : Upid} {id : TrackId}
    (h : c.primary? (.process upid) = some id) :
    (Act.onBackend (TrackSink.processTrack upid) : Act Trace TrackId) c = .ok id c := by
  have h : c.backend.store.tracks.processTrack? upid = some id := h
  simp only [Act.onBackend, TrackSink.processTrack, Backend.onStore, Store.processTrack,
    Tracks.processTrack, h]

theorem claimThreadTrack_again {pid : Pid} {tid : Tid} {id : TrackId}
    (owner : c.owner? (.thread (c.backend.lifetimes.updateThread tid pid).1) = some u)
    (primary : c.primary? (.thread (c.backend.lifetimes.updateThread tid pid).1) = some id) :
    Catalog.claimThreadTrack u pid tid c =
      .ok ⟨id, .thread (c.backend.lifetimes.updateThread tid pid).1, .slice⟩
        (c.withLifetimes (c.backend.lifetimes.updateThread tid pid).2) := by
  have claim := claimThread_eq u pid tid c
  simp only [owner, if_true] at claim
  have again : (c.withLifetimes (c.backend.lifetimes.updateThread tid pid).2).primary?
      (.thread (c.backend.lifetimes.updateThread tid pid).1) = some id := primary
  rw [claimThreadTrack_eq_bind, Act.bind_ok claim]
  exact Act.bind_ok (threadTrack_again again) _

theorem claimProcessTrack_again {pid : Pid} {id : TrackId}
    (owner : c.owner? (.process (c.backend.lifetimes.process pid).1) = some u)
    (primary : c.primary? (.process (c.backend.lifetimes.process pid).1) = some id) :
    Catalog.claimProcessTrack u pid c =
      .ok ⟨id, .process (c.backend.lifetimes.process pid).1, .slice⟩
        (c.withLifetimes (c.backend.lifetimes.process pid).2) := by
  have claim := claimProcess_eq u pid c
  simp only [owner, if_true] at claim
  have again : (c.withLifetimes (c.backend.lifetimes.process pid).2).primary?
      (.process (c.backend.lifetimes.process pid).1) = some id := primary
  rw [claimProcessTrack_eq_bind, Act.bind_ok claim]
  exact Act.bind_ok (processTrack_again again) _

/-- A row is always found or made, whatever was left behind by earlier attempts. -/
theorem Robust.situate (h : Robust held c) (q : Option Placement)
    (fits : (left (Catalog.situate u r q c)).Fits) :
    ∃ p, ∃ c₁ : Session, Catalog.situate u r q c = .ok p c₁ ∧ Lodged c u r p c₁ := by
  have first {p : Placement} {c₁ : Session} (made : Catalog.situate u r q c = .ok p c₁)
      (x : Situated c u r q p c₁) :
      ∃ p, ∃ c₁ : Session, Catalog.situate u r q c = .ok p c₁ ∧ Lodged c u r p c₁ := by
    rw [made] at fits
    exact ⟨p, c₁, made, x.lodged fits⟩
  cases hpid : r.pid with
  | none =>
    have row : Catalog.situate u r q c =
        Catalog.createTrack ((q.bind Placement.childScope).getD .global) r c := by
      simp only [Catalog.situate, hpid]
    exact first (row.trans (createTrack_eq _ r c)) (situated_createTrack h.entities hpid q u)
  | some pid =>
  cases htid : r.tid with
  | none =>
    have claim : Catalog.situate u r q c = Catalog.claimProcessTrack u pid c := by
      simp only [Catalog.situate, hpid, htid]
    by_cases own : c.owner? (.process (c.backend.lifetimes.process pid).1) = some u
    · obtain ⟨id, primary, row, -⟩ := h.lodged _ u own
      exact ⟨_, _, claim.trans (claimProcessTrack_again own primary),
        lodged_again h.entities (Lifetimes.grows_process pid _) (h.entities.lifetimes.process pid)
          own primary row (by simp [hpid])⟩
    · obtain ⟨upid, l, tally, x, errors, made⟩ := claimProcessTrack_ok h.entities own (claim ▸ fits)
      refine first (claim.trans made) (situated_claimed x h.entities errors (by simp [hpid]) ?_)
      simp [Placement.Suits, hpid, htid]
  | some tid =>
    have claim : Catalog.situate u r q c = Catalog.claimThreadTrack u pid tid c := by
      simp only [Catalog.situate, hpid, htid]
    by_cases own : c.owner? (.thread (c.backend.lifetimes.updateThread tid pid).1) = some u
    · obtain ⟨id, primary, row, -⟩ := h.lodged _ u own
      exact ⟨_, _, claim.trans (claimThreadTrack_again own primary),
        lodged_again h.entities (Lifetimes.grows_updateThread tid pid _)
          (h.entities.lifetimes.updateThread tid pid) own primary row (by simp [hpid])⟩
    · obtain ⟨utid, l, tally, x, errors, made⟩ := claimThreadTrack_ok h.entities own (claim ▸ fits)
      refine first (claim.trans made) (situated_claimed x h.entities errors (by simp [hpid]) ?_)
      simp [Placement.Suits, hpid, htid]

theorem Lodged.placement?_eq (x : Lodged c u r p c₁) : c₁.placement? = c.placement? := by
  unfold Catalog.placement?
  rw [x.placements]

theorem Lodged.reservation?_eq (x : Lodged c u r p c₁) : c₁.reservation? = c.reservation? := by
  unfold Catalog.reservation?
  rw [x.reservations]

theorem Lodged.upholds (x : Lodged c u r p c₁) (entities : c.Entities) : Upholds c c₁ := by
  have keeps {v : Uuid} (hpid : r.pid.isSome) (owner : c.owner? p.scope = some v) :
      c.owner? p.scope = some u ∧ c.primary? p.scope = some p.track := by
    refine (x.mine hpid).resolve_left fun unowned => ?_
    rw [unowned.1] at owner
    cases owner
  refine ⟨?_, fun cut => Nat.le_of_eq (x.counts cut).symm⟩
  constructor
  case settings => exact x.settings
  case vocabulary => exact x.vocabulary
  case reserved =>
    intro v r reserved
    exact ⟨r, (congrFun x.reservation?_eq v).trans reserved, rfl⟩
  case placed => exact fun v p placed => (congrFun x.placement?_eq v).trans placed
  case rank =>
    intro v _
    rw [x.placements]
  case row => exact fun id row hrow => ⟨row.name, x.row id row hrow⟩
  case args =>
    intro v p _
    rw [x.args]
  case owner =>
    intro s v owner
    rw [x.owner]
    split
    next mine =>
      obtain ⟨hpid, rfl⟩ := mine
      exact (keeps hpid owner).1.symm.trans owner
    next => exact owner
  case primary =>
    intro s id primary
    rw [x.primary]
    split
    next mine =>
      obtain ⟨hpid, rfl⟩ := mine
      obtain ⟨v, owner⟩ := Option.isSome_iff_exists.mp (entities.primary _ id primary)
      exact (keeps hpid owner).2.symm.trans primary
    next => exact primary

theorem Lodged.owned_of_row (x : Lodged c u r p c₁) (row : (c.row? p.track).isSome) :
    r.pid.isSome ∧ c.owner? p.scope = some u ∧ c.primary? p.scope = some p.track := by
  have there : c.row? p.track ≠ none := Option.isSome_iff_ne_none.mp row
  have hpid : r.pid.isSome := Option.isSome_iff_ne_none.mpr fun none => there (x.fresh none)
  exact ⟨hpid, (x.mine hpid).resolve_left fun fresh => there fresh.2⟩

theorem Lodged.free (x : Lodged c u r p c₁) (h : Robust held c) (absent : c.placement? u = none)
    {v : Uuid} {p' : Placement} (placed : c.placement? v = some p') : p'.track ≠ p.track := by
  intro same
  obtain ⟨-, owner, primary⟩ := x.owned_of_row (same ▸ h.row_of_placed placed)
  obtain ⟨r', parent, q, endures⟩ := h.endures v p' placed
  cases hpid' : r'.pid with
  | none => exact endures.apart hpid' p.scope (same ▸ primary)
  | some pid' =>
    obtain ⟨owner', primary'⟩ := endures.owned (by simp [hpid'])
    rw [h.single _ _ _ primary' (same ▸ primary), owner] at owner'
    cases owner'
    rw [absent] at placed
    cases placed

theorem Lodged.outside (x : Lodged c u r p c₁) (h : Robust held c) : p.track ∉ held := by
  intro mem
  obtain ⟨row, -, apart, -⟩ := h.keeps _ mem
  exact apart _ (x.owned_of_row row).2.2

theorem Lodged.own (x : Lodged c u r p c₁) (h : Robust held c) (absent : c.placement? u = none)
    {arg : Arg} (mem : arg ∈ c.argsOf p.track) : r.pid.isSome ∧ arg ∈ preamble c.vocabulary u := by
  have row : (c.row? p.track).isSome := by
    rw [Option.isSome_iff_ne_none]
    intro none
    rw [h.blank _ none] at mem
    cases mem
  obtain ⟨hpid, owner, primary⟩ := x.owned_of_row row
  obtain ⟨id, primary', -, mine⟩ := h.lodged _ u owner
  rw [primary] at primary'
  cases primary'
  refine ⟨hpid, mine.resolve_left ?_ arg mem⟩
  rintro ⟨p', placed, -⟩
  rw [absent] at placed
  cases placed

theorem Lodged.single (x : Lodged c u r p c₁) (h : Robust held c) {s s' : Scope} {id : TrackId}
    (primary : c₁.primary? s = some id) (primary' : c₁.primary? s' = some id) : s = s' := by
  have here {s : Scope} (primary : c.primary? s = some p.track) : s = p.scope :=
    h.single _ _ _ primary (x.owned_of_row (h.row_of_primary primary)).2.2
  rw [x.primary] at primary primary'
  split at primary <;> split at primary'
  next mine mine' => rw [mine.2, mine'.2]
  next mine _ =>
    cases primary
    rw [mine.2, here primary']
  next _ mine' =>
    cases primary'
    rw [mine'.2, here primary]
  next => exact h.single _ _ _ primary primary'

theorem Lodged.primary_ne (x : Lodged c u r p c₁) {id : TrackId} (row : (c.row? id).isSome)
    (apart : ∀ s, c.primary? s ≠ some id) (s : Scope) : c₁.primary? s ≠ some id := by
  intro primary
  rw [x.primary] at primary
  split at primary
  next =>
    cases primary
    exact apart _ (x.owned_of_row row).2.2
  next => exact apart s primary

theorem Lodged.row_isSome (x : Lodged c u r p c₁) {id : TrackId} (row : (c.row? id).isSome) :
    (c₁.row? id).isSome := by
  obtain ⟨row, hrow⟩ := Option.isSome_iff_exists.mp row
  simp [x.row id row hrow]

theorem Lodged.ready (x : Lodged c u r p c₁) (h : Robust held c) (absent : c.placement? u = none) :
    Ready held c₁ u r p := by
  constructor
  case row => exact x.here
  case free =>
    rw [x.placement?_eq]
    exact fun v p' => x.free h absent
  case outside => exact x.outside h
  case args =>
    rw [x.args, x.vocabulary]
    exact fun arg => x.own h absent
  case owned =>
    intro hpid
    rw [x.owner, x.primary]
    simp [hpid]
  case apart =>
    intro none s primary
    rw [x.primary, if_neg (by simp [none])] at primary
    have hpid := (x.owned_of_row (h.row_of_primary primary)).1
    rw [none] at hpid
    cases hpid

theorem Robust.lodge (h : Robust held c) (x : Lodged c u r p c₁) (absent : c.placement? u = none) :
    Robust held c₁ := by
  constructor
  case entities => exact x.entities
  case descriptors => exact x.reservations ▸ h.descriptors
  case endures =>
    intro v p' placed
    rw [x.placement?_eq] at placed
    exact h.endures_mono (x.upholds h.entities) (fun _ => x.primary_ne) placed
  case lodged =>
    intro s v owner
    rw [x.owner] at owner
    rw [x.args, x.vocabulary, x.placement?_eq, x.primary]
    split at owner
    next mine =>
      cases owner
      rw [if_pos mine]
      exact ⟨p.track, rfl, x.here, .inr fun arg mem => (x.own h absent mem).2⟩
    next mine =>
      rw [if_neg mine]
      obtain ⟨id, primary, row, mine⟩ := h.lodged s v owner
      exact ⟨id, primary, x.row_isSome row, mine⟩
  case single => exact fun _ _ _ => x.single h
  case unique =>
    rw [x.placement?_eq]
    exact h.unique
  case blank =>
    intro id none
    rw [x.args]
    refine h.blank id (Option.not_isSome_iff_eq_none.mp fun row => ?_)
    have row := x.row_isSome row
    rw [none] at row
    cases row
  case keeps =>
    intro id mem
    obtain ⟨row, bare, outside, free⟩ := h.keeps id mem
    rw [x.args, x.placement?_eq]
    exact ⟨x.row_isSome row, bare, x.primary_ne row outside, free⟩
  case distinct => exact h.distinct

end Lodge

section Hold
variable {held : List TrackId} {c : Session} {u : Uuid} {r : Reservation} {p : Placement}

theorem Robust.hold (h : Robust held c) (ready : Ready held c u r p) (hpid : r.pid = none) :
    Robust (p.track :: held) c := by
  have bare : c.argsOf p.track = [] := by
    refine List.eq_nil_iff_forall_not_mem.mpr fun arg mem => ?_
    have pid := (ready.args arg mem).1
    rw [hpid] at pid
    cases pid
  refine { h with keeps := ?_, distinct := List.nodup_cons.mpr ⟨ready.outside, h.distinct⟩ }
  intro id mem
  rcases List.mem_cons.mp mem with rfl | mem
  · exact ⟨ready.row, bare, ready.apart hpid, ready.free⟩
  · exact h.keeps id mem

theorem Robust.release (h : Robust (p.track :: held) c) (hpid : r.pid = none) :
    Robust held c ∧ Ready held c u r p := by
  obtain ⟨row, bare, apart, free⟩ := h.keeps p.track List.mem_cons_self
  obtain ⟨outside, distinct⟩ := List.nodup_cons.mp h.distinct
  refine ⟨{ h with keeps := fun id mem => h.keeps id (List.mem_cons_of_mem _ mem), distinct }, ?_⟩
  refine ⟨row, free, outside, ?_, ?_, fun _ => apart⟩
  · simp [bare]
  · simp [hpid]

end Hold

section Record
variable {held : List TrackId} {c : Session} {u : Uuid} {r : Reservation} {p : Placement}
  {parent : Option Uuid} {q : Option Placement}

theorem argsOf_withArgs (c : Session) (track : TrackId) (args : List Arg) (id : TrackId) :
    (c.withArgs track args).argsOf id =
      if id = track then c.argsOf track ++ args else c.argsOf id := by
  rw [argsOf, argsOf, argsOf, ← Args.ofTrack_addAll]
  rfl

theorem Ready.ne_of_row?_eq_none (ready : Ready held c u r p) {id : TrackId}
    (none : c.row? id = none) : id ≠ p.track := by
  rintro rfl
  have row := ready.row
  rw [none] at row
  cases row

theorem Ready.upholds_withArgs (ready : Ready held c u r p) (args : List Arg) :
    Upholds c (c.withArgs p.track args) where
  settings := rfl
  vocabulary := rfl
  reserved _ r reserved := ⟨r, reserved, rfl⟩
  placed _ _ placed := placed
  rank _ _ := rfl
  row _ row hrow := ⟨row.name, hrow⟩
  args v p' placed := by rw [argsOf_withArgs, if_neg (ready.free v p' placed)]
  owner s v owner := by
    cases s <;> exact owner
  primary s id primary := by
    cases s <;> exact primary
  counts _ := Nat.le_refl _

theorem Ready.owner_of_primary (ready : Ready held c u r p) (h : Robust held c) {s : Scope}
    {v : Uuid} (owner : c.owner? s = some v) (primary : c.primary? s = some p.track) :
    r.pid.isSome ∧ v = u := by
  cases hpid : r.pid with
  | none => exact absurd primary (ready.apart hpid s)
  | some pid =>
    obtain ⟨owner', primary'⟩ := ready.owned (by simp [hpid])
    rw [h.single _ _ _ primary primary', owner'] at owner
    exact ⟨rfl, (Option.some.inj owner).symm⟩

/-- A row may be left with the first of its arguments only. -/
theorem Robust.scrawl (h : Robust held c) (ready : Ready held c u r p)
    (announced : r.OfDescriptor) {above : Option TrackId} {done rest : List Arg}
    (split : argsFor c.vocabulary u above r.category = done ++ rest) (more : rest ≠ []) :
    Robust held (c.withArgs p.track done) ∧ Upholds c (c.withArgs p.track done) := by
  have upholds := ready.upholds_withArgs done
  have owners (s : Scope) : (c.withArgs p.track done).owner? s = c.owner? s := by
    cases s <;> rfl
  have primaries (s : Scope) : (c.withArgs p.track done).primary? s = c.primary? s := by
    cases s <;> rfl
  refine ⟨?_, upholds⟩
  constructor
  case entities =>
    refine ⟨h.entities.lifetimes, fun s v => ?_, fun s id => ?_⟩
    · rw [owners]
      exact h.entities.known s v
    · rw [owners, primaries]
      exact h.entities.primary s id
  case descriptors => exact h.descriptors
  case endures =>
    exact fun _ _ => h.endures_mono upholds fun _ _ apart s => primaries s ▸ apart s
  case lodged =>
    intro s v owner
    rw [owners] at owner
    obtain ⟨id, primary, row, mine⟩ := h.lodged s v owner
    refine ⟨id, (primaries s).trans primary, row, ?_⟩
    rw [argsOf_withArgs]
    split
    next same =>
      subst same
      obtain ⟨hpid, rfl⟩ := ready.owner_of_primary h owner primary
      -- Short of the parent's row, all that was written is what the uuid writes every time.
      rw [announced.category_of_pid hpid] at split
      refine .inr fun arg mem => ?_
      rcases List.mem_append.mp mem with mem | mem
      · exact (ready.args arg mem).2
      · exact mem_preamble_of_argsFor split more mem
    next => exact mine
  case single =>
    intro s s' id
    rw [primaries, primaries]
    exact h.single s s' id
  case unique => exact h.unique
  case blank =>
    intro id none
    rw [argsOf_withArgs, if_neg (ready.ne_of_row?_eq_none none)]
    exact h.blank id none
  case keeps =>
    intro id mem
    have hne : id ≠ p.track := fun same => ready.outside (same ▸ mem)
    obtain ⟨row, bare, apart, free⟩ := h.keeps id mem
    rw [argsOf_withArgs, if_neg hne]
    exact ⟨row, bare, fun s => primaries s ▸ apart s, free⟩
  case distinct => exact h.distinct

theorem Ready.upholds_recorded (ready : Ready held c u r p) (absent : c.placement? u = none)
    (q : Option Placement) : Upholds c (c.recorded u { r with name := .null } p q) where
  settings := rfl
  vocabulary := rfl
  reserved _ r reserved := ⟨r, reserved, rfl⟩
  placed v p' placed := by
    rw [placement?_recorded, if_neg]
    · exact placed
    · rintro rfl
      rw [absent] at placed
      cases placed
  rank v placed := by
    rw [placements_recorded]
    exact Registry.rank_insert placed _ _
  row _ row hrow := ⟨row.name, hrow⟩
  args v p' placed := by rw [argsOf_recorded, if_neg (ready.free v p' placed)]
  owner s v owner := (owner?_recorded ..).trans owner
  primary s id primary := (primary?_recorded ..).trans primary
  counts cut := Nat.le_of_eq (countOf_recorded ..).symm

theorem Ready.endures_recorded (ready : Ready held c u r p) (reserved : c.reservation? u = some r)
    (absent : c.placement? u = none) (kin : Kin c u r parent q) :
    Endures (c.recorded u { r with name := .null } p q) u p r parent q := by
  constructor
  case reserved => exact reserved
  case placed => exact placement?_recorded_self ..
  case kin => exact kin.mono (ready.upholds_recorded absent q) reserved reserved rfl
  case rank =>
    intro v hv
    obtain ⟨p', above, -⟩ := kin.placed hv
    rw [placements_recorded]
    refine Registry.rank_lt_rank_insert (Option.isSome_iff_exists.mpr ⟨p', above⟩) ?_ _
    rw [Registry.contains, Option.isSome_eq_false_iff, Option.isNone_iff_eq_none]
    exact absent
  case row => exact ready.row
  case args =>
    refine ⟨c.argsOf p.track, fun arg mem => (ready.args arg mem).2, ?_⟩
    rw [argsOf_recorded, if_pos rfl]
    rfl
  case owned =>
    rw [owner?_recorded, primary?_recorded]
    exact ready.owned
  case apart =>
    intro none s
    rw [primary?_recorded]
    exact ready.apart none s

/-- A row is recorded, whatever an earlier attempt wrote on it. -/
theorem Robust.remember (h : Robust held c) (ready : Ready held c u r p)
    (reserved : c.reservation? u = some r) (absent : c.placement? u = none)
    (kin : Kin c u r parent q) : Robust held (c.recorded u { r with name := .null } p q) ∧
      Upholds c (c.recorded u { r with name := .null } p q) := by
  have upholds := ready.upholds_recorded absent q
  refine ⟨?_, upholds⟩
  constructor
  case entities => exact h.entities.recorded ..
  case descriptors => exact h.descriptors
  case endures =>
    intro v p' here
    rcases placement?_recorded_cases here with ⟨rfl, rfl⟩ | before
    · exact ⟨r, parent, q, ready.endures_recorded reserved absent kin⟩
    · refine h.endures_mono upholds (fun id _ apart s => ?_) before
      rw [primary?_recorded]
      exact apart s
  case lodged =>
    intro s v owner
    rw [owner?_recorded] at owner
    obtain ⟨id, primary, row, mine⟩ := h.lodged s v owner
    refine ⟨id, (primary?_recorded ..).trans primary, row, ?_⟩
    by_cases same : id = p.track
    · subst same
      obtain ⟨-, rfl⟩ := ready.owner_of_primary h owner primary
      exact .inl ⟨p, placement?_recorded_self .., rfl⟩
    · rw [argsOf_recorded, if_neg same]
      refine mine.imp_left ?_
      rintro ⟨p', here, track⟩
      exact ⟨p', upholds.placed v p' here, track⟩
  case single =>
    intro s s' id
    rw [primary?_recorded, primary?_recorded]
    exact h.single s s' id
  case unique =>
    intro v w p₁ p₂ first second track
    rcases placement?_recorded_cases first with ⟨rfl, rfl⟩ | before <;>
      rcases placement?_recorded_cases second with ⟨rfl, rfl⟩ | before'
    · rfl
    · exact absurd track.symm (ready.free _ _ before')
    · exact absurd track (ready.free _ _ before)
    · exact h.unique v w p₁ p₂ before before' track
  case blank =>
    intro id none
    rw [argsOf_recorded, if_neg (ready.ne_of_row?_eq_none none)]
    exact h.blank id none
  case keeps =>
    intro id mem
    have hne : id ≠ p.track := fun same => ready.outside (same ▸ mem)
    obtain ⟨row, bare, apart, free⟩ := h.keeps id mem
    rw [argsOf_recorded, if_neg hne]
    refine ⟨row, bare, fun s => ?_, fun v p' here => ?_⟩
    · rw [primary?_recorded]
      exact apart s
    · rcases placement?_recorded_cases here with ⟨-, rfl⟩ | before
      · exact hne.symm
      · exact free v p' before
  case distinct => exact h.distinct

theorem Robust.record (h : Robust held c) (ready : Ready held c u r p)
    (reserved : c.reservation? u = some r) (absent : c.placement? u = none)
    (kin : Kin c u r parent q) :
    Robust held (c.recorded u r p q) ∧ Upholds c (c.recorded u r p q) := by
  have unnamed := h.remember ready reserved absent kin
  cases hn : StringId.isNull r.name with
  | true =>
    have same : { r with name := .null } = r := by rw [← StringId.isNull_iff.mp hn]
    rwa [same] at unnamed
  | false =>
    have named : c.recorded u r p q =
        (c.recorded u { r with name := .null } p q).withName p.track r.name := by
      simp only [recorded, hn]
      rfl
    rw [named]
    have step := unnamed.1.quiet (quiet_withName _ p.track r.name) (fun _ => Nat.le_refl _)
      unnamed.1.descriptors
    exact ⟨step.1, unnamed.2.trans step.2⟩

end Record

end Session
end TraceTracks
