import TraceTracks.Proofs.History

/-! Looking a track up never fails, whatever was announced and whatever else a caller does with the
tables. All that it takes is that rows, once handed out, are still there, and that the latest thread
of a tid is one that was started. -/
namespace TraceTracks

/-- What a caller may do with the tables of a trace, beside the session that writes to them. -/
inductive Deed
  | errand (errand : Errand)
  | createTrack (scope : Scope) (flavor : Flavor)
  | threadTrack (utid : Utid)
  | processTrack (upid : Upid)
  | setName (track : TrackId) (name : StringId)
  | addArg (track : TrackId) (key : StringId) (value : ArgValue)
  | count (anomaly : Anomaly)
  deriving DecidableEq

def Trace.left {α : Type} : EStateM.Result Fault Trace α → Trace
  | .ok _ b => b
  | .error _ b => b

def Deed.perform (b : Trace) : Deed → Trace
  | .errand e => e.perform b
  | .createTrack scope flavor => (TrackSink.createTrack scope flavor b).2
  | .threadTrack utid => (TrackSink.threadTrack utid b).2
  | .processTrack upid => (TrackSink.processTrack upid b).2
  | .setName track name => Trace.left ((TrackSink.setName track name : EStateM Fault Trace Unit) b)
  | .addArg track key value =>
    Trace.left ((TrackSink.addArg track key value : EStateM Fault Trace Unit) b)
  | .count anomaly => TrackSink.count anomaly b

namespace Tracks

structure Intact (t : Tracks) : Prop where
  threads : ∀ utid id, t.threadTrack? utid = some id → id.index < t.rows.size
  processes : ∀ upid id, t.processTrack? upid = some id → id.index < t.rows.size

variable {t : Tracks}

theorem intact_empty : empty.Intact :=
  ⟨fun _ _ found => (by cases found), fun _ _ found => (by cases found)⟩

theorem index_create_lt (t : Tracks) (scope : Scope) (flavor : Flavor) :
    (t.create scope flavor).1.index < (t.create scope flavor).2.rows.size := by
  have : (Handle.ofIndex t.rows.size : TrackId).index ≤ t.rows.size := Handle.index_ofIndex_le _
  simp only [create, Array.size_push]
  omega

theorem Intact.create (h : t.Intact) (scope : Scope) (flavor : Flavor) :
    (t.create scope flavor).2.Intact := by
  have size : t.rows.size ≤ (t.create scope flavor).2.rows.size := by simp [Tracks.create]
  exact ⟨fun utid id found => Nat.lt_of_lt_of_le (h.threads utid id found) size,
    fun upid id found => Nat.lt_of_lt_of_le (h.processes upid id found) size⟩

theorem size_le_threadTrack (t : Tracks) (utid : Utid) :
    t.rows.size ≤ (t.threadTrack utid).2.rows.size := by
  unfold Tracks.threadTrack
  split
  · exact Nat.le_refl _
  · simp [Tracks.create]

theorem size_le_processTrack (t : Tracks) (upid : Upid) :
    t.rows.size ≤ (t.processTrack upid).2.rows.size := by
  unfold Tracks.processTrack
  split
  · exact Nat.le_refl _
  · simp [Tracks.create]

theorem Intact.threadTrack (h : t.Intact) (utid : Utid) : (t.threadTrack utid).2.Intact := by
  unfold Tracks.threadTrack
  split
  next => exact h
  next absent =>
    have made := index_create_lt t (.thread utid) .slice
    have kept := h.create (.thread utid) .slice
    refine ⟨fun other id found => ?_, kept.processes⟩
    simp only [threadTrack?, Registry.get?_insert] at found
    split at found
    · cases found
      exact made
    · exact kept.threads other id found

theorem Intact.processTrack (h : t.Intact) (upid : Upid) : (t.processTrack upid).2.Intact := by
  unfold Tracks.processTrack
  split
  next => exact h
  next absent =>
    have made := index_create_lt t (.process upid) .slice
    have kept := h.create (.process upid) .slice
    refine ⟨kept.threads, fun other id found => ?_⟩
    simp only [processTrack?, Registry.get?_insert] at found
    split at found
    · cases found
      exact made
    · exact kept.processes other id found

theorem Intact.index_threadTrack_lt (h : t.Intact) (utid : Utid) :
    (t.threadTrack utid).1.index < (t.threadTrack utid).2.rows.size := by
  unfold Tracks.threadTrack
  split
  next id found => exact h.threads utid id found
  next => exact index_create_lt t _ _

theorem Intact.index_processTrack_lt (h : t.Intact) (upid : Upid) :
    (t.processTrack upid).1.index < (t.processTrack upid).2.rows.size := by
  unfold Tracks.processTrack
  split
  next id found => exact h.processes upid id found
  next => exact index_create_lt t _ _

end Tracks

namespace Lifetimes
variable {l : Lifetimes}

def Indexed (l : Lifetimes) : Prop := ∀ tid, ∀ utid ∈ l.threadsOf tid, l.Holds (.thread utid)

theorem indexed_empty : empty.Indexed := fun _ => List.forall_mem_nil _

theorem Indexed.startThread (h : l.Indexed) (start : Option Timestamp) (tid : Tid) :
    (l.startThread start tid).2.Indexed := by
  have grows := grows_startThread start tid l
  intro other utid hu
  rw [threadsOf_startThread] at hu
  split at hu
  · rcases List.mem_append.mp hu with hu | hu
    · exact grows.holds (h tid utid hu)
    · rw [List.mem_singleton.mp hu]
      exact holds_startThread start tid l
  · exact grows.holds (h other utid hu)

theorem Indexed.congr {l' : Lifetimes} (h : l.Indexed)
    (threads : l'.threads.size = l.threads.size) (utids : l'.utids = l.utids) : l'.Indexed := by
  intro tid utid hu
  rw [threadsOf, utids] at hu
  rw [Holds, threads]
  exact h tid utid hu

theorem Indexed.process (h : l.Indexed) (pid : Pid) : (l.process pid).2.Indexed := by
  obtain ⟨threads, utids⟩ := threads_process pid l
  exact h.congr (by rw [threads]) utids

theorem Indexed.updateThread (h : l.Indexed) (tid : Tid) (pid : Pid) :
    (l.updateThread tid pid).2.Indexed := by
  have pick : (pick tid (l.process pid).1 (l.process pid).2).2.Indexed := by
    unfold Lifetimes.pick
    split
    · exact h.process pid
    · exact (h.process pid).startThread none tid
  rw [updateThread_eq]
  exact pick.congr (by simp [associate]) rfl

end Lifetimes

structure Trace.Carries (b b' : Trace) : Prop where
  rows : b.store.tracks.rows.size ≤ b'.store.tracks.rows.size
  lifetimes : b.lifetimes.Grows b'.lifetimes
  tracks : b.store.tracks.Intact → b'.store.tracks.Intact
  indexed : b.lifetimes.Indexed → b'.lifetimes.Indexed

namespace Trace.Carries
variable {b b' b'' : Trace}

theorem refl (b : Trace) : b.Carries b := ⟨Nat.le_refl _, .refl _, id, id⟩

theorem trans (h : b.Carries b') (h' : b'.Carries b'') : b.Carries b'' :=
  ⟨Nat.le_trans h.rows h'.rows, h.lifetimes.trans h'.lifetimes, h'.tracks ∘ h.tracks,
    h'.indexed ∘ h.indexed⟩

theorem of_tracks {t : Tracks} {b : Trace} (rows : b.store.tracks.rows.size ≤ t.rows.size)
    (intact : b.store.tracks.Intact → t.Intact) : b.Carries { b with store.tracks := t } :=
  ⟨rows, .refl _, intact, id⟩

theorem of_lifetimes {l : Lifetimes} {b : Trace} (grows : b.lifetimes.Grows l)
    (indexed : b.lifetimes.Indexed → l.Indexed) : b.Carries { b with lifetimes := l } :=
  ⟨Nat.le_refl _, grows, id, indexed⟩

theorem of_same {b b' : Trace} (tracks : b'.store.tracks = b.store.tracks)
    (lifetimes : b'.lifetimes = b.lifetimes) : b.Carries b' := by
  refine ⟨Nat.le_of_eq (by rw [tracks]), ?_, ?_, ?_⟩
  · rw [lifetimes]
    exact .refl _
  · rw [tracks]
    exact id
  · rw [lifetimes]
    exact id

theorem createTrack (b : Trace) (scope : Scope) (flavor : Flavor) :
    b.Carries (TrackSink.createTrack scope flavor b).2 :=
  of_tracks (by simp) fun intact => intact.create scope flavor

theorem threadTrack (b : Trace) (utid : Utid) : b.Carries (TrackSink.threadTrack utid b).2 :=
  of_tracks (Tracks.size_le_threadTrack _ utid) fun intact => intact.threadTrack utid

theorem processTrack (b : Trace) (upid : Upid) :
    b.Carries (TrackSink.processTrack upid b).2 :=
  of_tracks (Tracks.size_le_processTrack _ upid) fun intact => intact.processTrack upid

theorem rename (b : Trace) (track : TrackId) (name : StringId) :
    b.Carries { b with
      store.tracks.rows :=
        b.store.tracks.rows.modify track.index fun row => { row with name := name } } := by
  have size : (b.store.tracks.rows.modify track.index fun row =>
      { row with name := name }).size = b.store.tracks.rows.size := Array.size_modify ..
  refine of_tracks (Nat.le_of_eq size.symm) fun intact => ⟨?_, ?_⟩
  · rw [size]
    exact intact.threads
  · rw [size]
    exact intact.processes

theorem startThread (b : Trace) (start : Option Timestamp) (tid : Tid) :
    b.Carries { b with lifetimes := (b.lifetimes.startThread start tid).2 } :=
  of_lifetimes (Lifetimes.grows_startThread start tid _) fun h => h.startThread start tid

theorem updateThread (b : Trace) (tid : Tid) (pid : Pid) :
    b.Carries { b with lifetimes := (b.lifetimes.updateThread tid pid).2 } :=
  of_lifetimes (Lifetimes.grows_updateThread tid pid _) fun h => h.updateThread tid pid

theorem process (b : Trace) (pid : Pid) :
    b.Carries { b with lifetimes := (b.lifetimes.process pid).2 } :=
  of_lifetimes (Lifetimes.grows_process pid _) fun h => h.process pid

theorem startProcess (b : Trace) (start : Option Timestamp) (parent : Option Upid) (pid : Pid)
    (name : StringId) :
    b.Carries { b with lifetimes := (b.lifetimes.startProcess start parent pid name).2 } :=
  of_lifetimes (Lifetimes.grows_startProcess start parent pid name _) id

theorem deed (b : Trace) (d : Deed) : b.Carries (d.perform b) := by
  cases d with
  | errand e =>
    cases e with
    | intern text => exact of_same rfl rfl
    | updateThread tid pid => exact updateThread b tid pid
    | startThread start tid => exact startThread b start tid
    | process pid => exact process b pid
    | startProcess start parent pid name => exact startProcess b start parent pid name
  | createTrack scope flavor => exact createTrack b scope flavor
  | threadTrack utid => exact threadTrack b utid
  | processTrack upid => exact processTrack b upid
  | setName track name =>
    simp only [Deed.perform, TrackSink.setName, Backend.tryStore, Store.setName, Tracks.setName]
    by_cases known : track.index < b.store.tracks.rows.size
    · simp only [if_pos known]
      exact rename b track name
    · simp only [if_neg known]
      exact of_same rfl rfl
  | addArg track key value =>
    simp only [Deed.perform, TrackSink.addArg, Backend.tryStore, Store.addArg]
    cases b.store.track? track with
    | some row => exact of_same rfl rfl
    | none => exact of_same rfl rfl
  | count anomaly => exact of_same rfl rfl

end Trace.Carries

namespace Session

/-- There is room for the handle of another thread. -/
def Roomy (c : Session) : Prop := c.backend.lifetimes.threads.size ≤ UInt32.size

instance (c : Session) : Decidable (Roomy c) := inferInstanceAs (Decidable (_ ≤ _))

theorem Roomy.of_grows {c c' : Session} (h : Roomy c') (g : Grows c c') : Roomy c :=
  Nat.le_trans g.lifetimes.threads h

structure Intact (c : Session) : Prop where
  tracks : c.backend.store.tracks.Intact
  indexed : c.backend.lifetimes.Indexed
  placed : ∀ u p, c.placement? u = some p → p.track.index < c.rows.size
  reserved : ∀ u, (c.placement? u).isSome → (c.reservation? u).isSome

structure Carries (c c' : Session) : Prop where
  rows : c.rows.size ≤ c'.rows.size
  reserved : ∀ u, (c.reservation? u).isSome → (c'.reservation? u).isSome
  intact : c.Intact → c'.Intact

section Carries
variable {c c' c'' : Session}

theorem Carries.refl (c : Session) : c.Carries c := ⟨Nat.le_refl _, fun _ => id, id⟩

theorem Carries.trans (h : c.Carries c') (h' : c'.Carries c'') : c.Carries c'' :=
  ⟨Nat.le_trans h.rows h'.rows, fun u => h'.reserved u ∘ h.reserved u, h'.intact ∘ h.intact⟩

theorem carries_of_kept (h : c.backend.Carries c'.backend)
    (reserved : ∀ u, (c.reservation? u).isSome → (c'.reservation? u).isSome)
    (remembered : c'.placement? = c.placement?) : c.Carries c' := by
  refine ⟨h.rows, reserved, fun intact => ?_⟩
  refine ⟨h.tracks intact.tracks, h.indexed intact.indexed, fun u p placed => ?_,
    fun u placed => ?_⟩
  · rw [remembered] at placed
    exact Nat.lt_of_lt_of_le (intact.placed u p placed) h.rows
  · rw [remembered] at placed
    exact reserved u (intact.reserved u placed)

theorem carries_tables (h : c.backend.Carries c'.backend)
    (reservations : c'.reservations = c.reservations) (placements : c'.placements = c.placements) :
    c.Carries c' := by
  refine carries_of_kept h (fun u reserved => ?_) (funext fun u => ?_)
  · rw [Catalog.reservation?, reservations]
    exact reserved
  · rw [Catalog.placement?, placements]
    rfl

theorem carries_of_quiet (x : Quiet c c') (h : c.backend.Carries c'.backend) : c.Carries c' := by
  refine carries_of_kept h (fun u announced => ?_) x.placement?_eq
  obtain ⟨r, hr⟩ := Option.isSome_iff_exists.mp announced
  obtain ⟨r', hr', -⟩ := x.reserved u r hr
  rw [hr']
  rfl

theorem carries_count (a : Anomaly) (c : Session) : c.Carries (c.count a) :=
  carries_tables (.of_same rfl rfl) rfl rfl

theorem carries_countCuts (cuts : List Cut) (c : Session) : c.Carries (c.countCuts cuts) := by
  rw [countCuts_eq]
  exact carries_tables (.of_same rfl rfl) rfl rfl

theorem carries_reserve (u : Uuid) (r : Reservation) (c : Session) :
    c.Carries (c.reserve u r) := by
  refine carries_of_quiet (quiet_reserve u r c) ?_
  unfold Catalog.reserve
  dsimp only
  split <;> exact .of_same rfl rfl

theorem carries_recorded {u : Uuid} {p : Placement} (reserved : (c.reservation? u).isSome)
    (row : p.track.index < c.rows.size) (r : Reservation) (q : Option Placement) :
    c.Carries (c.recorded u r p q) := by
  have remembered : c.Carries { c.withArgs p.track
      (argsFor c.vocabulary u (q.map Placement.track) r.category) with
      placements := c.placements.insert u p } := by
    refine ⟨Nat.le_refl _, fun _ => id, fun intact => ⟨intact.tracks, intact.indexed, ?_, ?_⟩⟩
    · intro v p' placed
      rw [Catalog.placement?, Registry.get?_insert] at placed
      split at placed
      · cases placed
        exact row
      · exact intact.placed v p' placed
    · intro v placed
      rw [Catalog.placement?, Registry.get?_insert] at placed
      split at placed
      next same => exact same ▸ reserved
      next => exact intact.reserved v placed
  unfold recorded
  dsimp only
  split
  · exact remembered
  · exact remembered.trans (carries_tables (.rename _ _ _) rfl rfl)

def Makes (x : Act Trace Placement) (c : Session) : Prop :=
  ∃ p, ∃ c' : Session, x c = .ok p c' ∧ c.Carries c' ∧ p.track.index < c'.rows.size

def Remembers (u : Uuid) (x : Act Trace Placement) (c : Session) : Prop :=
  ∃ p, ∃ c' : Session, x c = .ok p c' ∧ c.Carries c' ∧ c'.placement? u = some p

theorem remembers_record {u : Uuid} {p : Placement} (reserved : (c.reservation? u).isSome)
    (row : p.track.index < c.rows.size) (r : Reservation) (q : Option Placement) :
    Remembers u (Catalog.record u r p q) c :=
  ⟨p, _, record_ok (row?_isSome_iff.mpr row) u r q, carries_recorded reserved row r q,
    placement?_recorded_self c u r p q⟩

end Carries

section Situate
variable {c c' : Session}

theorem carries_withOwner {l : Lifetimes}
    (h : c.backend.Carries { c.backend with lifetimes := l }) (uuid : Uuid) (s : Scope) :
    c.Carries ((c.withLifetimes l).withOwner uuid s) := by
  cases s <;> exact carries_tables h rfl rfl

/-- Whoever owns what, a thread is claimed as long as there is room for one. -/
theorem claimThread_delivers (uuid : Uuid) (pid : Pid) (tid : Tid) (c : Session)
    (room : Roomy (left (Act.claim (Owners.claimThread uuid pid tid) c))) :
    ∃ claim c', Act.claim (Owners.claimThread uuid pid tid) c = .ok claim c' ∧ c.Carries c' := by
  have first := Trace.Carries.updateThread c.backend tid pid
  rw [claimThread_eq] at room ⊢
  dsimp only at room ⊢
  cases ho : c.owner? (.thread (c.backend.lifetimes.updateThread tid pid).1) with
  | none => exact ⟨_, _, rfl, carries_withOwner first uuid _⟩
  | some owner =>
  rw [ho] at room
  dsimp only at room ⊢
  by_cases own : owner = uuid
  · rw [if_pos own]
    exact ⟨_, _, rfl, carries_tables first rfl rfl⟩
  rw [if_neg own] at room ⊢
  have again := first.trans ((Trace.Carries.startThread _ none tid).trans (.updateThread _ tid pid))
  have fits : ((((c.backend.lifetimes.updateThread tid pid).2.startThread none tid).2).updateThread
      tid pid).2.threads.size ≤ UInt32.size := by
    refine Nat.le_trans (Nat.le_of_eq ?_) room
    cases (((c.backend.lifetimes.updateThread tid pid).2.startThread none tid).2.updateThread
      tid pid).1 == ((c.backend.lifetimes.updateThread tid pid).2.startThread none tid).1 <;> rfl
  rw [Lifetimes.updateThread_startThread tid pid _
    (Lifetimes.size_lt_of_updateThread_startThread fits), beq_self_eq_true]
  exact ⟨_, _, rfl, carries_withOwner again uuid _⟩

theorem claimProcess_delivers (uuid : Uuid) (pid : Pid) (c : Session) :
    ∃ claim c', Act.claim (Owners.claimProcess uuid pid) c = .ok claim c' ∧ c.Carries c' := by
  have first := Trace.Carries.process c.backend pid
  rw [claimProcess_eq]
  dsimp only
  cases c.owner? (.process (c.backend.lifetimes.process pid).1) with
  | none => exact ⟨_, _, rfl, carries_withOwner first uuid _⟩
  | some owner =>
  dsimp only
  by_cases own : owner = uuid
  · rw [if_pos own]
    exact ⟨_, _, rfl, carries_tables first rfl rfl⟩
  · rw [if_neg own]
    have fresh := first.trans (.startProcess _ none none pid .null)
    exact ⟨_, _, rfl, carries_withOwner fresh uuid _⟩

theorem makes_claimed (reused : Bool) (a : Anomaly) {intern : Trace → TrackId × Trace}
    (carried : ∀ b : Trace, b.Carries (intern b).2)
    (row : ∀ b : Trace, b.store.tracks.Intact →
      (intern b).1.index < (intern b).2.store.tracks.rows.size)
    (scope : Scope) (flavor : Flavor) (intact : c.Intact) :
    Makes (do
      if reused then
        modify (Catalog.count a)
      let track ← Act.onBackend intern
      return ⟨track, scope, flavor⟩) c := by
  have interned (c : Session) : c.Carries { c with backend := (intern c.backend).2 } :=
    carries_tables (carried c.backend) rfl rfl
  cases reused with
  | false => exact ⟨_, _, rfl, interned c, row c.backend intact.tracks⟩
  | true =>
    have counted := carries_count a c
    exact ⟨_, _, rfl, counted.trans (interned _), row _ (counted.intact intact).tracks⟩

theorem makes_threadClaimed (claim : Claim .thread) (intact : c.Intact) :
    Makes (threadClaimed claim) c :=
  makes_claimed claim.reused .tidReuse (fun b => .threadTrack b claim.entity)
    (fun _ tracks => tracks.index_threadTrack_lt claim.entity) _ _ intact

theorem makes_processClaimed (claim : Claim .process) (intact : c.Intact) :
    Makes (processClaimed claim) c :=
  makes_claimed claim.reused .pidReuse (fun b => .processTrack b claim.entity)
    (fun _ tracks => tracks.index_processTrack_lt claim.entity) _ _ intact

theorem makes_createTrack (scope : Scope) (r : Reservation) (c : Session) :
    Makes (Catalog.createTrack scope r) c :=
  ⟨_, _, createTrack_eq scope r c, carries_tables (.createTrack _ scope _) rfl rfl,
    Tracks.index_create_lt _ _ _⟩

theorem makes_situate (u : Uuid) (r : Reservation) (q : Option Placement) (intact : c.Intact)
    (room : Roomy (left (Catalog.situate u r q c))) : Makes (Catalog.situate u r q) c := by
  unfold Makes
  unfold Catalog.situate at room ⊢
  cases hpid : r.pid with
  | none => exact makes_createTrack _ r c
  | some pid =>
  cases htid : r.tid with
  | none =>
    obtain ⟨claim, c₁, claimed, carried⟩ := claimProcess_delivers u pid c
    obtain ⟨p, c', made, carried', row⟩ := makes_processClaimed claim (carried.intact intact)
    exact ⟨p, c', (Act.bind_ok claimed _).trans made, carried.trans carried', row⟩
  | some tid =>
    simp only [hpid, htid, claimThreadTrack_eq_bind] at room
    have roomy := room.of_grows (left_bind_grows growing_threadClaimed c)
    obtain ⟨claim, c₁, claimed, carried⟩ := claimThread_delivers u pid tid c roomy
    obtain ⟨p, c', made, carried', row⟩ := makes_threadClaimed claim (carried.intact intact)
    exact ⟨p, c', (Act.bind_ok claimed _).trans made, carried.trans carried', row⟩

theorem remembers_settle {u : Uuid} (r : Reservation) (q : Option Placement) (intact : c.Intact)
    (reserved : (c.reservation? u).isSome) (room : Roomy (left (Catalog.settle u r q c))) :
    Remembers u (Catalog.settle u r q) c := by
  have roomy := room.of_grows (left_bind_grows (fun p => growing_record u r p q) c)
  obtain ⟨p, c₁, made, carried, row⟩ := makes_situate u r q intact roomy
  obtain ⟨p, c', recorded, carried', placed⟩ :=
    remembers_record (carried.reserved u reserved) row r q
  exact ⟨p, c', (Act.bind_ok made _).trans recorded, carried.trans carried', placed⟩

theorem remembers_makeDefault (c : Session) : Remembers 0 Catalog.makeDefault c := by
  let r := (Descriptor.child 0 c.vocabulary.defaultTrackName).reservation
  have announced := carries_reserve 0 r c
  have reserved : ((c.reserve 0 r).reservation? 0).isSome := by
    rw [Catalog.reservation?_reserve, if_pos rfl]
    rfl
  obtain ⟨p, c₁, made, carried, row⟩ := makes_createTrack .global r (c.reserve 0 r)
  obtain ⟨p, c', recorded, carried', placed⟩ :=
    remembers_record (carried.reserved 0 reserved) row r none
  refine ⟨p, c', ?_, announced.trans (carried.trans carried'), placed⟩
  unfold Catalog.makeDefault
  rw [Act.bind_ok (Act.get_ok c), Act.bind_ok (Act.modify_ok _ c), Act.bind_ok made]
  exact recorded

end Situate

section Resolve
variable {limit : Nat} {path : Trail} {u : Uuid} {c : Session}

def Delivers (u : Uuid) (c : Session)
    (result : EStateM.Result Fault (Catalog Trace) (Option Placement)) : Prop :=
  ∃ c', result = .ok (c'.placement? u) c' ∧ c.Carries c'

theorem delivers_settle {c₁ : Session} {r : Reservation} {q : Option Placement}
    (carried : c.Carries c₁) (intact : c.Intact) (reserved : c.reservation? u = some r)
    (room : Roomy (left ((some <$> Catalog.settle u r q : Act Trace (Option Placement)) c₁))) :
    Delivers u c ((some <$> Catalog.settle u r q : Act Trace (Option Placement)) c₁) := by
  rw [left_map] at room
  obtain ⟨p, c', made, carried', placed⟩ := remembers_settle r q (carried.intact intact)
    (carried.reserved u (by simp [reserved])) room
  exact ⟨c', by rw [Act.map_ok made, placed], carried.trans carried'⟩

theorem delivers_record {c₁ : Session} {r : Reservation} {p : Placement} {q : Option Placement}
    (carried : c.Carries c₁) (reserved : c.reservation? u = some r)
    (row : p.track.index < c₁.rows.size) :
    Delivers u c ((some <$> Catalog.record u r p q : Act Trace (Option Placement)) c₁) := by
  obtain ⟨p', c', made, carried', placed⟩ :=
    remembers_record (carried.reserved u (by simp [reserved])) row r q
  exact ⟨c', by rw [Act.map_ok made, placed], carried.trans carried'⟩

theorem carries_made {c₁ : Session} {r : Reservation} {p : Placement} {cuts : List Cut}
    (made : Catalog.createTrack .global r (c.countCuts cuts) = .ok p c₁) :
    c.Carries c₁ ∧ p.track.index < c₁.rows.size := by
  obtain ⟨p', c', made', carried, row⟩ := makes_createTrack .global r (c.countCuts cuts)
  rw [made'] at made
  cases made
  exact ⟨(carries_countCuts cuts c).trans carried, row⟩

/-- No call fails while there is room, and each returns what is remembered of its uuid. -/
theorem Resolution.delivers {result : EStateM.Result Fault (Catalog Trace) (Option Placement)}
    (h : Catalog.Resolution limit path u c result) (intact : c.Intact)
    (room : Roomy (left result)) : Delivers u c result := by
  induction h with
  | known placed => exact ⟨_, by rw [placed], .refl _⟩
  | unannounced absent unreserved => exact ⟨_, by rw [absent], .refl _⟩
  | joined absent reserved ends above => exact delivers_settle (.refl _) intact reserved room
  | linked absent reserved opens above ih =>
    obtain ⟨c', found, carried⟩ := ih intact (room.of_grows ((growing_settle _ _ _).map some _))
    injection found with found same
    subst same
    exact delivers_settle carried intact reserved room
  | linkFailed absent reserved opens above ih =>
    obtain ⟨c', found, -⟩ := ih intact room
    cases found
  | housed absent reserved ends apart housed =>
    exact delivers_settle (carries_countCuts _ _) intact reserved room
  | barred absent reserved ends apart homeless waits made =>
    obtain ⟨carried, row⟩ := carries_made made
    exact delivers_record (carried.trans (carries_count .loop _)) reserved row
  | sheltered absent reserved ends apart homeless free made default ih =>
    obtain ⟨carried, row⟩ := carries_made made
    obtain ⟨c', found, carried'⟩ := ih (carried.intact intact)
      (room.of_grows ((growing_record _ _ _ _).map some _))
    injection found with found same
    subst same
    exact delivers_record (carried.trans carried') reserved (Nat.lt_of_lt_of_le row carried'.rows)
  | @shelterMade path u c c₁ r ending p absent reserved ends apart homeless free made =>
    obtain ⟨carried, row⟩ := carries_made made
    obtain ⟨q, c', found, carried', -⟩ := remembers_makeDefault c₁
    have rest : (some <$> (Catalog.makeDefault >>= fun q => Catalog.record u r p (some q)) :
        Act Trace (Option Placement)) c₁ = (some <$> Catalog.record u r p (some q)) c' := by
      simp only [Functor.map, EStateM.map, Act.bind_ok found]
    rw [rest]
    exact delivers_record (carried.trans carried') reserved (Nat.lt_of_lt_of_le row carried'.rows)
  | shelterFailed absent reserved ends apart homeless free made default ih =>
    obtain ⟨carried, -⟩ := carries_made made
    obtain ⟨c', found, -⟩ := ih (carried.intact intact) room
    cases found

theorem resolve_delivers (u : Uuid) (intact : c.Intact)
    (room : Roomy (left (Catalog.resolve limit .empty u c))) :
    ∃ c' : Session, Catalog.resolve limit .empty u c = .ok (c'.placement? u) c' ∧ c.Carries c' ∧
      ((c.reservation? u).isSome → (c'.placement? u).isSome) := by
  have calls := Catalog.resolution limit .empty Trail.level_empty u c
  obtain ⟨c', found, carried⟩ := Resolution.delivers calls intact room
  refine ⟨c', found, carried, fun reserved => ?_⟩
  cases placed : c'.placement? u with
  | some p => rfl
  | none =>
    rw [found, placed] at calls
    rw [calls.of_none.2.1] at reserved
    cases reserved

theorem track?_delivers {event : StringId} (intact : c.Intact)
    (room : Roomy (left (Catalog.track? u event c))) :
    ∃ c' : Session, Catalog.track? u event c = .ok ((c'.placement? u).map Placement.track) c' ∧
      c.Carries c' ∧ ((c.reservation? u).isSome → (c'.placement? u).isSome) := by
  rw [Catalog.track?_eq_bind] at room ⊢
  have roomy := room.of_grows (left_bind_grows (growing_nameAfter u event) c)
  obtain ⟨c₁, found, carried, present⟩ := resolve_delivers u intact roomy
  have rows (p : Placement) (placed : c₁.placement? u = some p) : (c₁.row? p.track).isSome :=
    row?_isSome_iff.mpr ((carried.intact intact).placed u p placed)
  obtain ⟨c', named, same⟩ := nameAfter_ok u event rows
  have answer := (Act.bind_ok found _).trans named
  rcases same with rfl | ⟨-, track, rfl⟩
  · exact ⟨c', answer, carried, present⟩
  · have renamed := carries_of_quiet (quiet_withName c₁ track event) (.rename _ track event)
    exact ⟨_, answer, carried.trans renamed, present⟩

theorem defaultTrackId_delivers (intact : c.Intact)
    (room : Roomy (left (Catalog.defaultTrackId c))) :
    ∃ p, ∃ c' : Session, Catalog.defaultTrackId c = .ok p.track c' ∧ c.Carries c' ∧
      c'.placement? 0 = some p := by
  rw [Catalog.defaultTrackId_eq_map] at room ⊢
  rw [left_map] at room
  have roomy := room.of_grows (left_bind_grows growing_elseMakeDefault c)
  obtain ⟨c₁, found, carried, -⟩ := resolve_delivers 0 intact roomy
  cases placed : c₁.placement? 0 with
  | some p =>
    rw [placed] at found
    exact ⟨p, c₁, Act.map_ok (Catalog.defaultTrack_of_found found) _, carried, placed⟩
  | none =>
    rw [placed] at found
    obtain ⟨p, c', made, carried', placed'⟩ := remembers_makeDefault c₁
    have answer := (Catalog.defaultTrack_of_none found).trans made
    exact ⟨p, c', Act.map_ok answer _, carried.trans carried', placed'⟩

theorem carries_perform (intact : c.Intact) (command : Command)
    (room : Roomy (c.perform command).2) : c.Carries (c.perform command).2 := by
  cases command with
  | announce uuid descriptor => exact carries_reserve uuid descriptor.reservation c
  | track uuid event =>
    rw [perform_track] at room ⊢
    obtain ⟨c', found, carried, -⟩ := track?_delivers intact room
    rw [found]
    exact carried
  | defaultTrack =>
    rw [perform_defaultTrack] at room ⊢
    obtain ⟨p, c', found, carried, -⟩ := defaultTrackId_delivers intact room
    rw [found]
    exact carried
  | sample uuid sequence value => exact carries_of_quiet (quiet_sample _ _ _ c) (.refl _)
  | clear sequence => exact carries_of_quiet (quiet_clear _ c) (.refl _)

end Resolve
end Session

inductive Turn
  | command (command : Command)
  | deed (deed : Deed)
  deriving DecidableEq

def Session.take (c : Session) : Turn → Session
  | .command command => (c.perform command).2
  | .deed d => { c with backend := d.perform c.backend }

/-- A session among the deeds of its caller, who may have filled the tables before it was opened. -/
structure Interplay where
  settings : Settings
  before : List Deed
  turns : List Turn

namespace Interplay

def opening (h : Interplay) : Session :=
  Catalog.start h.settings (h.before.foldl Deed.perform Trace.empty)

def state (h : Interplay) : Session := h.turns.foldl Session.take h.opening

end Interplay

namespace Session
variable {c : Session}

theorem grows_take (c : Session) (turn : Turn) : Grows c (c.take turn) := by
  cases turn with
  | command command => exact grows_move c (.command command)
  | deed d =>
    have carried := Trace.Carries.deed c.backend d
    exact ⟨carried.rows, carried.lifetimes⟩

theorem grows_turns (c : Session) (turns : List Turn) : Grows c (turns.foldl take c) := by
  induction turns generalizing c with
  | nil => exact .refl c
  | cons turn turns ih => exact (grows_take c turn).trans (ih (c.take turn))

theorem Intact.take (intact : c.Intact) (turn : Turn) (room : Roomy (c.take turn)) :
    Intact (c.take turn) := by
  cases turn with
  | command command => exact (carries_perform intact command room).intact intact
  | deed d =>
    have carried := Trace.Carries.deed c.backend d
    exact (carries_tables carried rfl rfl : c.Carries (c.take (.deed d))).intact intact

theorem Intact.turns (intact : c.Intact) (turns : List Turn)
    (room : Roomy (turns.foldl Session.take c)) : Intact (turns.foldl Session.take c) := by
  induction turns generalizing c with
  | nil => exact intact
  | cons turn turns ih =>
    have roomy : Roomy (c.take turn) :=
      Nat.le_trans (grows_turns (c.take turn) turns).lifetimes.threads room
    exact ih (intact.take turn roomy) room

end Session

theorem Trace.carries_deeds (b : Trace) (deeds : List Deed) :
    b.Carries (deeds.foldl Deed.perform b) := by
  induction deeds generalizing b with
  | nil => exact .refl b
  | cons d deeds ih => exact (Carries.deed b d).trans (ih (d.perform b))

/-- What a session answers, whatever is asked of it next. -/
structure Session.Available (c : Session) : Prop where
  unknown : ∀ u event, c.reservation? u = none → c.perform (.track u event) = (.track none, c)
  track : ∀ u event, (c.reservation? u).isSome → Session.Roomy (c.perform (.track u event)).2 →
    ∃ p, ∃ c' : Session, c.perform (.track u event) = (.track (some p.track), c') ∧
      c'.placement? u = some p
  defaultTrack : Session.Roomy (c.perform .defaultTrack).2 →
    ∃ p, ∃ c' : Session, c.perform .defaultTrack = (.track (some p.track), c') ∧
      c'.placement? 0 = some p
  claim : ∀ uuid pid tid owners,
    Session.Roomy (Session.left (Act.claim (Owners.claimThread uuid pid tid)
      { c with owners := owners })) →
    ∃ claim c', Act.claim (Owners.claimThread uuid pid tid) { c with owners := owners } =
      .ok claim c'
  reserved : ∀ u, (c.placement? u).isSome → (c.reservation? u).isSome
  indexed : ∀ tid, ∀ utid ∈ c.backend.lifetimes.threadsOf tid,
    (c.backend.lifetimes.thread? utid).isSome

namespace Session
variable {c : Session}

theorem Intact.answers (intact : c.Intact) : c.Available where
  unknown u event unreserved := by
    have absent : c.placement? u = none := by
      rw [← Option.not_isSome_iff_eq_none]
      intro placed
      have reserved := intact.reserved u placed
      rw [unreserved] at reserved
      cases reserved
    have nothing : Catalog.track? u event c = .ok none c := by
      rw [Catalog.track?_eq_bind]
      exact Act.bind_ok (Catalog.resolve_of_unannounced absent unreserved _ _) _
    rw [Catalog.perform, nothing]
  track u event announced room := by
    rw [perform_track] at room
    obtain ⟨c', found, -, present⟩ := track?_delivers intact room
    obtain ⟨p, placed⟩ := Option.isSome_iff_exists.mp (present announced)
    rw [placed, Option.map_some] at found
    exact ⟨p, c', by rw [Catalog.perform, found], placed⟩
  defaultTrack room := by
    rw [perform_defaultTrack] at room
    obtain ⟨p, c', found, -, placed⟩ := defaultTrackId_delivers intact room
    exact ⟨p, c', by rw [Catalog.perform, found], placed⟩
  claim uuid pid tid owners room := by
    obtain ⟨claim, c', claimed, -⟩ := claimThread_delivers uuid pid tid _ room
    exact ⟨claim, c', claimed⟩
  reserved := intact.reserved
  indexed tid utid known := by
    have started : utid.index < c.backend.lifetimes.threads.size := intact.indexed tid utid known
    simp [Lifetimes.thread?, started]

end Session

namespace Interplay
variable {h : Interplay}

theorem intact_opening (h : Interplay) : Session.Intact h.opening := by
  have carried := Trace.carries_deeds Trace.empty h.before
  rw [opening, Session.start_eq]
  exact ⟨carried.tracks Tracks.intact_empty, carried.indexed Lifetimes.indexed_empty,
    fun _ _ placed => (by cases placed), fun _ placed => (by cases placed)⟩

/-- No input and no caller can make a look-up fail. -/
theorem available (room : h.state.Roomy) : h.state.Available :=
  (h.intact_opening.turns h.turns room).answers

/-- A caller claims threads and processes for itself, marks the primary track of a thread that was
not started yet, names a track that is not there, and restarts a thread between two claims. -/
def crowded : Interplay where
  settings := { maxAncestors := 1 }
  before := [.errand (.updateThread 5 4), .threadTrack ⟨1⟩, .addArg ⟨7⟩ ⟨1⟩ (.integer 0)]
  turns := [.command (.announce 1 (.thread 2 4 5 .null 1)),
    .command (.announce 2 (.thread 1 4 5 .null 2)), .command (.announce 3 (.child 2 .null)),
    .deed (.setName ⟨9⟩ ⟨9⟩), .command (.track 1 .null), .deed (.errand (.startThread none 5)),
    .deed (.errand (.startProcess none none 4 .null)), .deed (.processTrack ⟨40⟩)]

theorem available_crowded :
    crowded.state.perform (.track 8 ⟨99⟩) = (.track none, crowded.state) ∧
    (∃ p, ∃ c' : Session, crowded.state.perform (.track 3 ⟨99⟩) = (.track (some p.track), c') ∧
      c'.placement? 3 = some p) ∧
    (∃ p, ∃ c' : Session, crowded.state.perform .defaultTrack = (.track (some p.track), c') ∧
      c'.placement? 0 = some p) := by
  have roomy : crowded.state.Roomy := by decide +kernel
  have track : Session.Roomy (crowded.state.perform (.track 3 ⟨99⟩)).2 := by decide +kernel
  have default : Session.Roomy (crowded.state.perform .defaultTrack).2 := by decide +kernel
  have unannounced : crowded.state.reservation? 8 = none := by decide +kernel
  have announced : (crowded.state.reservation? 3).isSome := by decide +kernel
  exact ⟨(available roomy).unknown 8 ⟨99⟩ unannounced,
    (available roomy).track 3 ⟨99⟩ announced track, (available roomy).defaultTrack default⟩

end Interplay
end TraceTracks
