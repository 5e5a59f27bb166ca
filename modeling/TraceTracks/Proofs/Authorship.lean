import TraceTracks.Proofs.Availability
import TraceTracks.Proofs.Display
import TraceTracks.Proofs.Tenancy

/-! Rows that a session alone writes on, while its caller does what it likes to all others. The
arguments of such a row are those of one uuid. Whoever comes to the primary row of an entity owns
the entity, and a row that is being made is nobody else's, so that none is written on twice. -/
namespace TraceTracks.Session
variable {c c' c'' c₁ c₂ : Session} {row id : TrackId} {u v : Uuid} {r : Reservation}
  {p : Placement} {q : Option Placement} {path : List Uuid} {scope : Scope}

section Writes

def Writes (c c' : Session) : Prop := ∃ ws, c'.backend.store = c.backend.store.after ws

theorem Writes.refl (c : Session) : Writes c c := ⟨[], rfl⟩

theorem Writes.trans (h : Writes c c') (h' : Writes c' c'') : Writes c c'' := by
  obtain ⟨ws, same⟩ := h
  obtain ⟨more, same'⟩ := h'
  exact ⟨ws ++ more, by rw [Store.after_append, ← same, same']⟩

theorem writes_reserve (u : Uuid) (r : Reservation) (c : Session) : Writes c (c.reserve u r) := by
  unfold Catalog.reserve
  dsimp only
  split
  · exact ⟨[.count .conflictingDescriptor], rfl⟩
  · exact .refl _

theorem writes_addArg (track : TrackId) (key : StringId) (value : ArgValue) (c : Session) : Writes c
    (Act.left ((Act.tryBackend (TrackSink.addArg track key value) : Act Trace Unit) c)) := by
  refine ⟨[.addArg track key value], ?_⟩
  simp only [Store.after_cons, Store.after_nil, Store.write, Store.addArg, Act.tryBackend,
    TrackSink.addArg, Backend.tryStore]
  cases c.backend.store.track? track <;> rfl

theorem writes_setName (track : TrackId) (name : StringId) (c : Session) : Writes c
    (Act.left ((Act.tryBackend (TrackSink.setName track name) : Act Trace Unit) c)) := by
  refine ⟨[.setName track name], ?_⟩
  simp only [Store.after_cons, Store.after_nil, Store.write, Store.setName, Tracks.setName,
    Act.tryBackend, TrackSink.setName, Backend.tryStore]
  by_cases known : track.index < c.backend.store.tracks.rows.size
  · simp only [if_pos known, Act.left]
  · simp only [if_neg known, Act.left]

/-- All that a look-up does to the tables is to write. -/
theorem steps_writes : Catalog.Steps Writes where
  refl := .refl
  trans := .trans
  count a _ := ⟨[.count a], rfl⟩
  createRow scope flavor _ := ⟨[.createTrack scope flavor], rfl⟩
  threadRow utid _ := ⟨[.threadTrack utid], rfl⟩
  processRow upid _ := ⟨[.processTrack upid], rfl⟩
  claimThread u pid tid c := by
    rw [claimThread_eq_estate]
    cases Owners.claimThread u pid tid (estate c) <;> exact .refl c
  claimProcess u pid c := by
    rw [claimProcess_eq_estate]
    cases Owners.claimProcess u pid (estate c) <;> exact .refl c
  addArg := writes_addArg
  setName := writes_setName
  name track c := by
    cases here : row? c track with
    | none => rw [name_error here]; exact .refl c
    | some _ => rw [name_ok here]; exact .refl c
  remember _ _ c := .refl c
  announceDefault _ := writes_reserve 0 _

end Writes

section Orderly

theorem primary?_eq (c : Session) : c.primary? = c.backend.store.tracks.primary? := by
  funext scope
  cases scope <;> rfl

structure Orderly (c : Session) : Prop where
  tables : ∃ ws, c.backend.store = Store.empty.after ws
  kept : c.estate.Kept

namespace Orderly

theorem books (h : c.Orderly) (room : c.rows.size ≤ UInt32.size) :
    ∃ log, Store.Books log c.backend.store := by
  obtain ⟨ws, same⟩ := h.tables
  rw [rows, same] at room
  rw [same]
  exact ⟨_, Store.Books.empty.after ws room⟩

theorem index_lt_of_primary? (h : c.Orderly) (room : c.rows.size ≤ UInt32.size)
    (known : c.primary? scope = some id) : id.index < c.rows.size := by
  obtain ⟨log, books⟩ := h.books room
  rw [primary?_eq] at known
  exact books.primaries.index_lt known

theorem scope_eq (h : c.Orderly) (room : c.rows.size ≤ UInt32.size) {other : Scope}
    (known : c.primary? scope = some id) (known' : c.primary? other = some id) : other = scope := by
  obtain ⟨log, books⟩ := h.books room
  rw [primary?_eq] at known known'
  exact ((books.consistent room).apart scope id known).1 other known'

theorem argsOf_eq_nil (h : c.Orderly) (room : c.rows.size ≤ UInt32.size)
    (beyond : c.rows.size ≤ id.index) : c.argsOf id = [] := by
  obtain ⟨log, books⟩ := h.books room
  exact (books.consistent room).beyond id beyond

end Orderly

/-- What a session comes to that writes and claims. Those on the path get no track meanwhile. -/
structure Follows (path : List Uuid) (c c' : Session) : Prop where
  writes : Writes c c'
  owner : ∀ scope v, c.owner? scope = some v → c'.owner? scope = some v
  placed : ∀ v p, c.placement? v = some p → c'.placement? v = some p
  waiting : ∀ v ∈ path, c.placement? v = none → c'.placement? v = none
  kept : c.estate.Kept → c'.estate.Kept
  vocabulary : c'.vocabulary = c.vocabulary

namespace Follows

theorem refl (c : Session) : Follows path c c :=
  ⟨.refl c, fun _ _ => id, fun _ _ => id, fun _ _ => id, id, rfl⟩

theorem trans (h : Follows path c c') (h' : Follows path c' c'') : Follows path c c'' :=
  ⟨h.writes.trans h'.writes, fun scope v => h'.owner scope v ∘ h.owner scope v,
    fun v p => h'.placed v p ∘ h.placed v p, fun v mem => h'.waiting v mem ∘ h.waiting v mem,
    h'.kept ∘ h.kept, h'.vocabulary.trans h.vocabulary⟩

theorem shorten (h : Follows (u :: path) c c') : Follows path c c' :=
  { h with waiting := fun v mem => h.waiting v (List.mem_cons_of_mem u mem) }

theorem orderly (h : Follows path c c') (o : c.Orderly) : c'.Orderly := by
  obtain ⟨ws, same⟩ := o.tables
  obtain ⟨more, same'⟩ := h.writes
  exact ⟨⟨ws ++ more, by rw [Store.after_append, ← same, same']⟩, h.kept o.kept⟩

theorem rows_le (h : Follows path c c') : c.rows.size ≤ c'.rows.size := by
  obtain ⟨ws, same⟩ := h.writes
  rw [rows, rows, same]
  exact (c.backend.store.keeps_after ws).size

theorem primary?_before (h : Follows path c c') (room : c'.rows.size ≤ UInt32.size)
    (here : id.index < c.rows.size) (known : c'.primary? scope = some id) :
    c.primary? scope = some id := by
  obtain ⟨ws, same⟩ := h.writes
  rw [rows, same] at room
  rw [primary?_eq] at known ⊢
  rw [same] at known
  exact Store.primary?_of_index_after ws room here known

theorem of_store (c : Session) (ws : List Writing) {s : Store}
    (same : s = c.backend.store.after ws) : Follows path c { c with backend.store := s } := by
  refine ⟨⟨ws, same⟩, fun scope v owned => ?_, fun _ _ => id, fun _ _ => id, id, rfl⟩
  cases scope <;> exact owned

theorem of_upholds {e : Estate} (upholds : c.estate.Upholds e) (kept : e.Kept) :
    Follows path c (c.withEstate e) := by
  refine ⟨.refl _, fun scope v owned => ?_, fun _ _ => id, fun _ _ => id, fun _ => kept, rfl⟩
  cases scope with
  | global => exact owned
  | thread utid => exact upholds.threads utid v owned
  | process upid => exact upholds.processes upid v owned

end Follows
end Orderly

section Neat

structure Vacant (row : TrackId) (c : Session) : Prop where
  made : row.index < c.rows.size
  apart : ∀ scope, c.primary? scope ≠ some row
  blank : c.argsOf row = []

structure Signed (row : TrackId) (u : Uuid) (c : Session) : Prop where
  made : row.index < c.rows.size
  placed : ∃ p, c.placement? u = some p ∧ p.track = row
  owner : ∀ scope, c.primary? scope = some row → c.owner? scope = some u
  args : ∃ parent category, c.argsOf row = argsFor c.vocabulary u parent category

def Neat (row : TrackId) (c : Session) : Prop := c.argsOf row = [] ∨ ∃ u, Signed row u c

/-- What a session comes to as far as one row goes. -/
structure Guards (row : TrackId) (path : List Uuid) (c c' : Session) : Prop
    extends Follows path c c' where
  neat : Neat row c → Neat row c'
  vacant : Vacant row c → Vacant row c'

namespace Guards

theorem refl (c : Session) : Guards row path c c := ⟨.refl c, id, id⟩

theorem trans (h : Guards row path c c') (h' : Guards row path c' c'') : Guards row path c c'' :=
  ⟨h.toFollows.trans h'.toFollows, h'.neat ∘ h.neat, h'.vacant ∘ h.vacant⟩

theorem shorten (h : Guards row (u :: path) c c') : Guards row path c c' :=
  ⟨h.toFollows.shorten, h.neat, h.vacant⟩

theorem of_args (h : Follows path c c') (room : c'.rows.size ≤ UInt32.size)
    (args : c'.argsOf row = c.argsOf row) :
    Guards row path c c' := by
  refine ⟨h, ?_, fun x => ?_⟩
  · rintro (blank | ⟨u, x⟩)
    · exact .inl (args.trans blank)
    · obtain ⟨p, placed, here⟩ := x.placed
      refine .inr ⟨u, Nat.lt_of_lt_of_le x.made h.rows_le, ⟨p, h.placed u p placed, here⟩,
        fun scope known => ?_, ?_⟩
      · exact h.owner scope u (x.owner scope (h.primary?_before room x.made known))
      · rw [args, h.vocabulary]
        exact x.args
  · exact ⟨Nat.lt_of_lt_of_le x.made h.rows_le,
      fun scope known => x.apart scope (h.primary?_before room x.made known), args.trans x.blank⟩

theorem of_quiet (x : Quiet c c') (writes : Writes c c') (estate : c'.estate = c.estate)
    (room : c.rows.size ≤ UInt32.size) : Guards row path c c' := by
  have follows : Follows path c c' := by
    refine ⟨writes, fun scope v owned => ?_, fun v p placed => ?_, fun v _ absent => ?_,
      fun kept => ?_, x.vocabulary⟩
    · rwa [x.owner]
    · rwa [x.placement?_eq]
    · rwa [x.placement?_eq]
    · rwa [estate]
  exact .of_args follows (by rwa [x.rows]) (by rw [x.args])

theorem count (a : Anomaly) (room : c.rows.size ≤ UInt32.size) : Guards row path c (c.count a) :=
  .of_quiet (quiet_withTally c _) ⟨[.count a], rfl⟩ rfl room

theorem countCuts (cuts : List Cut) (room : c.rows.size ≤ UInt32.size) :
    Guards row path c (c.countCuts cuts) := by
  have writes := steps_writes.countCuts cuts c
  rw [countCuts_eq] at writes ⊢
  exact .of_quiet (quiet_withTally c _) writes rfl room

theorem reserve (u : Uuid) (r : Reservation) (room : c.rows.size ≤ UInt32.size) :
    Guards row path c (c.reserve u r) :=
  .of_quiet (quiet_reserve u r c) (writes_reserve u r c) (estate_reserve u r c) room

end Guards
end Neat

section Berth

structure Berthed (path : List Uuid) (c : Session) (u : Uuid) (p : Placement) (c₁ : Session) :
    Prop where
  follows : Follows path c c₁
  placements : c₁.placements = c.placements
  args : c₁.argsOf = c.argsOf
  here : p.track.index < c₁.rows.size
  home : (c.rows.size ≤ p.track.index ∧ ∀ scope, c₁.primary? scope ≠ some p.track) ∨
    ∃ scope, c₁.primary? scope = some p.track ∧ c₁.owner? scope = some u

theorem index_next {scope : Scope} {flavor : Flavor}
    (room : (c.withRow scope flavor).rows.size ≤ UInt32.size) :
    (Handle.ofIndex c.rows.size : TrackId).index = c.rows.size ∧
      (c.withRow scope flavor).rows.size = c.rows.size + 1 := by
  have size : (c.withRow scope flavor).rows.size = c.rows.size + 1 := by
    simp [withRow, rows, Tracks.create]
  have inside : c.rows.size < UInt32.size := by rwa [size] at room
  exact ⟨Handle.index_ofIndex inside, size⟩

theorem vacant_withRow (o : c.Orderly) (scope : Scope) (flavor : Flavor)
    (room : (c.withRow scope flavor).rows.size ≤ UInt32.size) :
    Vacant (.ofIndex c.rows.size) (c.withRow scope flavor) := by
  obtain ⟨index, size⟩ := index_next room
  have before : c.rows.size ≤ UInt32.size :=
    Nat.le_trans (Nat.le_succ _) (Nat.le_trans (Nat.le_of_eq size.symm) room)
  constructor
  case made =>
    rw [index, size]
    exact Nat.lt_succ_self _
  case apart =>
    intro other known
    have known : c.primary? other = some (.ofIndex c.rows.size) := by cases other <;> exact known
    exact Nat.ne_of_lt (o.index_lt_of_primary? before known) index
  case blank => exact o.argsOf_eq_nil before (Nat.le_of_eq index.symm)

theorem berthed_withRow (path : List Uuid) (u : Uuid) (o : c.Orderly) (scope : Scope)
    (flavor : Flavor) (room : (c.withRow scope flavor).rows.size ≤ UInt32.size) :
    Berthed path c u ⟨Handle.ofIndex c.rows.size, scope, flavor⟩ (c.withRow scope flavor) := by
  have vacant := vacant_withRow o scope flavor room
  exact ⟨.of_store c [.createTrack scope flavor] rfl, rfl, rfl, vacant.made,
    .inl ⟨Nat.le_of_eq (index_next room).1.symm, vacant.apart⟩⟩

theorem berthed_claimed (o : c.Orderly) {e : Estate} (upholds : c.estate.Upholds e) (kept : e.Kept)
    (ws : List Writing) (args : (c.backend.store.after ws).args = c.backend.store.args)
    {w : Writing} (asks : w.entity? = some scope) (owner : (c.withEstate e).owner? scope = some u)
    {id : TrackId} {s : Store} (told : (c.backend.store.after ws).write w = (.track id, s))
    (room : s.tracks.rows.size ≤ UInt32.size) :
    Berthed path c u ⟨id, scope, .slice⟩ { c.withEstate e with backend.store := s } := by
  obtain ⟨id', told', primary⟩ := Store.write_of_entity? (s := c.backend.store.after ws) asks
  rw [told] at told' primary
  cases told'
  have written : s = c.backend.store.after (ws ++ [w]) := by
    rw [Store.after_append, Store.after_cons, Store.after_nil, told]
  have follows : Follows path c { c.withEstate e with backend.store := s } :=
    (Follows.of_upholds upholds kept).trans (.of_store (c.withEstate e) (ws ++ [w]) written)
  have known : Session.primary? { c.withEstate e with backend.store := s } scope = some id := by
    rw [primary?_eq]
    exact primary
  refine ⟨follows, rfl, ?_, (follows.orderly o).index_lt_of_primary? room known,
    .inr ⟨scope, known, ?_⟩⟩
  · have same : s.args = c.backend.store.args := by
      rw [← args, ← (by rw [told] : ((c.backend.store.after ws).write w).2 = s)]
      cases w <;> first | rfl | cases asks
    funext other
    rw [argsOf, same]
    rfl
  · cases scope <;> exact owner

def reuses {noun : Noun} (claim : Claim noun) (a : Anomaly) : List Writing :=
  if claim.reused then [.count a] else []

theorem args_after_reuses {noun : Noun} (claim : Claim noun) (a : Anomaly) (s : Store) :
    (s.after (reuses claim a)).args = s.args := by
  unfold reuses
  split <;> rfl

theorem threadClaimed_eq (claim : Claim .thread) (c : Session) : threadClaimed claim c =
    .ok ⟨((c.backend.store.after (reuses claim .tidReuse)).threadTrack claim.entity).1,
        .thread claim.entity, .slice⟩
      { c with backend.store :=
          ((c.backend.store.after (reuses claim .tidReuse)).threadTrack claim.entity).2 } := by
  obtain ⟨utid, reused⟩ := claim
  cases reused <;> rfl

theorem processClaimed_eq (claim : Claim .process) (c : Session) : processClaimed claim c =
    .ok ⟨((c.backend.store.after (reuses claim .pidReuse)).processTrack claim.entity).1,
        .process claim.entity, .slice⟩
      { c with backend.store :=
          ((c.backend.store.after (reuses claim .pidReuse)).processTrack claim.entity).2 } := by
  obtain ⟨upid, reused⟩ := claim
  cases reused <;> rfl

theorem left_claimThread (u : Uuid) (pid : Pid) (tid : Tid) (c : Session) :
    left (Act.claim (Owners.claimThread u pid tid) c) =
      c.withEstate (Estate.left (Owners.claimThread u pid tid c.estate)) := by
  rw [claimThread_eq_estate]
  cases Owners.claimThread u pid tid c.estate <;> rfl

theorem left_claimProcess (u : Uuid) (pid : Pid) (c : Session) :
    left (Act.claim (Owners.claimProcess u pid) c) =
      c.withEstate (Estate.left (Owners.claimProcess u pid c.estate)) := by
  rw [claimProcess_eq_estate]
  cases Owners.claimProcess u pid c.estate <;> rfl

theorem berthed_claimThreadTrack (o : c.Orderly) {pid : Pid} {tid : Tid}
    (fits : (left (Catalog.claimThreadTrack u pid tid c)).Fits) :
    ∃ p, ∃ c₁ : Session, Catalog.claimThreadTrack u pid tid c = .ok p c₁ ∧
      Berthed path c u p c₁ := by
  rw [claimThreadTrack_eq_bind] at fits ⊢
  have room := fits.of_grows (left_bind_grows growing_threadClaimed c)
  rw [left_claimThread] at room
  obtain ⟨claim, e, granted, kept, upholds, mine⟩ := Estate.claimThread_granted o.kept room.estate
  have claimed : Act.claim (Owners.claimThread u pid tid) c = .ok claim (c.withEstate e) := by
    rw [claimThread_eq_estate, granted]
  rw [Act.bind_ok claimed, threadClaimed_eq] at fits ⊢
  exact ⟨_, _, rfl, berthed_claimed o upholds kept (w := .threadTrack claim.entity)
    (reuses claim .tidReuse) (args_after_reuses _ _ _) rfl
    ((mine.owner claim.entity).trans (if_pos rfl)) rfl fits.rows⟩

theorem berthed_claimProcessTrack (o : c.Orderly) {pid : Pid}
    (fits : (left (Catalog.claimProcessTrack u pid c)).Fits) :
    ∃ p, ∃ c₁ : Session, Catalog.claimProcessTrack u pid c = .ok p c₁ ∧
      Berthed path c u p c₁ := by
  rw [claimProcessTrack_eq_bind] at fits ⊢
  have room := fits.of_grows (left_bind_grows growing_processClaimed c)
  rw [left_claimProcess] at room
  obtain ⟨claim, e, granted, kept, upholds, mine⟩ := Estate.claimProcess_granted o.kept room.estate
  have claimed : Act.claim (Owners.claimProcess u pid) c = .ok claim (c.withEstate e) := by
    rw [claimProcess_eq_estate, granted]
  rw [Act.bind_ok claimed, processClaimed_eq] at fits ⊢
  exact ⟨_, _, rfl, berthed_claimed o upholds kept (w := .processTrack claim.entity)
    (reuses claim .pidReuse) (args_after_reuses _ _ _) rfl
    ((mine.owner claim.entity).trans (if_pos rfl)) rfl fits.rows⟩

theorem berthed_situate (path : List Uuid) (o : c.Orderly)
    (fits : (left (Catalog.situate u r q c)).Fits) :
    ∃ p, ∃ c₁ : Session, Catalog.situate u r q c = .ok p c₁ ∧ Berthed path c u p c₁ := by
  cases hpid : r.pid with
  | none =>
    have made : Catalog.situate u r q c =
        Catalog.createTrack ((q.bind Placement.childScope).getD .global) r c := by
      simp only [Catalog.situate, hpid]
    rw [made, createTrack_eq] at fits
    exact ⟨_, _, made.trans (createTrack_eq _ _ _), berthed_withRow path u o _ _ fits.rows⟩
  | some pid =>
  cases htid : r.tid with
  | none =>
    simp only [Catalog.situate, hpid, htid] at fits ⊢
    exact berthed_claimProcessTrack o fits
  | some tid =>
    simp only [Catalog.situate, hpid, htid] at fits ⊢
    exact berthed_claimThreadTrack o fits

end Berth

section Record

theorem follows_recorded (here : p.track.index < c.rows.size) (absent : c.placement? u = none)
    (free : u ∉ path) : Follows path c (c.recorded u r p q) := by
  have writes := steps_writes.record u r p q c
  rw [record_ok (row?_isSome_iff.mpr here)] at writes
  refine ⟨writes, fun scope v owned => ?_, fun v p' placed => ?_, fun v mem none => ?_,
    fun kept => ?_, vocabulary_recorded c u r p q⟩
  · rwa [owner?_recorded]
  · rw [placement?_recorded, if_neg]
    · exact placed
    · rintro rfl
      rw [absent] at placed
      cases placed
  · rw [placement?_recorded, if_neg]
    · exact none
    · rintro rfl
      exact free mem
  · rwa [estate_recorded]

theorem signed_recorded (here : p.track.index < c.rows.size) (absent : c.placement? u = none)
    (blank : c.argsOf p.track = [])
    (owner : ∀ scope, c.primary? scope = some p.track → c.owner? scope = some u) :
    Signed p.track u (c.recorded u r p q) where
  made := by
    have follows : Follows [] c (c.recorded u r p q) :=
      follows_recorded here absent List.not_mem_nil
    exact Nat.lt_of_lt_of_le here follows.rows_le
  placed := ⟨p, placement?_recorded_self .., rfl⟩
  owner scope known := by
    rw [primary?_recorded] at known
    rw [owner?_recorded]
    exact owner scope known
  args := ⟨q.map Placement.track, r.category, by
    rw [argsOf_recorded, if_pos rfl, blank, List.nil_append, vocabulary_recorded]⟩

theorem Berthed.guards (x : Berthed path c u p c₁) (room : c₁.rows.size ≤ UInt32.size) :
    Guards row path c c₁ :=
  .of_args x.follows room (congrFun x.args row)

theorem Berthed.guards_recorded (x : Berthed (u :: path) c u p c₁) (o : c.Orderly)
    (between : Guards row (u :: path) c₁ c₂) (absent : c.placement? u = none) (free : u ∉ path)
    (blank : p.track = row → Neat row c → c₂.argsOf row = [])
    (room : (c₂.recorded u r p q).rows.size ≤ UInt32.size) :
    Guards row path c (c₂.recorded u r p q) := by
  have here := Nat.lt_of_lt_of_le x.here between.rows_le
  have absent₁ := x.follows.waiting u List.mem_cons_self absent
  have absent₂ := between.waiting u List.mem_cons_self absent₁
  have last : Follows path c₂ (c₂.recorded u r p q) := follows_recorded here absent₂ free
  have room₂ := Nat.le_trans last.rows_le room
  have room₁ := Nat.le_trans between.rows_le room₂
  have follows := x.follows.shorten.trans (between.toFollows.shorten.trans last)
  by_cases ne : row = p.track
  · subst ne
    have foreign (vacant : Vacant p.track c) : False := by
      rcases x.home with ⟨new, -⟩ | ⟨scope, known, -⟩
      · exact Nat.not_lt.mpr new vacant.made
      · exact vacant.apart scope (x.follows.primary?_before room₁ vacant.made known)
    refine ⟨follows, fun neat => .inr ⟨u, ?_⟩, fun vacant => (foreign vacant).elim⟩
    refine signed_recorded here absent₂ (blank rfl neat) fun scope known => ?_
    have known := between.primary?_before room₂ x.here known
    rcases x.home with ⟨-, apart⟩ | ⟨scope', known', owner⟩
    · exact absurd known (apart scope)
    · rw [(x.follows.orderly o).scope_eq room₁ known' known]
      exact between.owner scope' u owner
  · exact (x.guards room₁).shorten.trans (between.shorten.trans
      (.of_args last room (by rw [argsOf_recorded, if_neg ne])))

theorem Berthed.blank (x : Berthed path c u p c₁) (absent : c.placement? u = none)
    (room : c₁.rows.size ≤ UInt32.size) (neat : Neat p.track c) : c₁.argsOf p.track = [] := by
  rw [x.args]
  rcases neat with blank | ⟨v, signed⟩
  · exact blank
  rcases x.home with ⟨new, -⟩ | ⟨scope, known, owner⟩
  · exact absurd signed.made (Nat.not_lt.mpr new)
  · have owner' := x.follows.owner scope v
      (signed.owner scope (x.follows.primary?_before room signed.made known))
    rw [owner] at owner'
    cases owner'
    obtain ⟨p', placed, -⟩ := signed.placed
    rw [absent] at placed
    cases placed

theorem guards_settle (o : c.Orderly) (absent : c.placement? u = none) (free : u ∉ path)
    (fits : (left (Catalog.settle u r q c)).Fits) :
    Guards row path c (left (Catalog.settle u r q c)) := by
  unfold Catalog.settle at fits ⊢
  obtain ⟨p, c₁, made, x⟩ := berthed_situate (u :: path) o
    (fits.of_grows (left_bind_grows (fun p => growing_record u r p q) c))
  rw [Act.bind_ok made, record_ok (row?_isSome_iff.mpr x.here)] at fits ⊢
  have recorded : Follows [] c₁ (c₁.recorded u r p q) :=
    follows_recorded x.here (x.follows.waiting u List.mem_cons_self absent) List.not_mem_nil
  have room₁ := Nat.le_trans recorded.rows_le fits.rows
  exact x.guards_recorded o (.refl c₁) absent free
    (fun same neat => same ▸ x.blank absent room₁ (same ▸ neat)) fits.rows

theorem guards_waiting (o : c.Orderly) (made : Catalog.createTrack .global r c = .ok p c₁)
    (between : Guards row (u :: path) c₁ c₂) (absent : c.placement? u = none) (free : u ∉ path)
    (fits : (left (Catalog.record u r p q c₂)).Fits) :
    Guards row path c (left (Catalog.record u r p q c₂)) := by
  rw [createTrack_eq] at made
  injection made with hp hc
  subst hc
  have room := Nat.le_trans between.rows_le
    (Nat.le_trans (growing_record u r p q c₂).rows fits.rows)
  have x := berthed_withRow (u :: path) u o .global (.ofIsCounter r.isCounter) room
  rw [hp] at x
  have here := Nat.lt_of_lt_of_le x.here between.rows_le
  rw [record_ok (row?_isSome_iff.mpr here)] at fits ⊢
  refine x.guards_recorded o between absent free (fun same _ => ?_) fits.rows
  rw [← same, ← hp] at between ⊢
  exact (between.vacant (vacant_withRow o _ _ room)).blank

section Resolution
variable {limit : Nat}

theorem absent_countCuts {cuts : List Cut} (absent : c.placement? u = none) :
    Catalog.placement? (c.countCuts cuts) u = none := by
  rwa [Catalog.placement?, placements_countCuts]

theorem guards_made (row : TrackId) (path : List Uuid) (o : c.Orderly) {cuts : List Cut}
    (made : Catalog.createTrack .global r (c.countCuts cuts) = .ok p c₁)
    (room : c₁.rows.size ≤ UInt32.size) :
    Guards row path c (c.countCuts cuts) ∧ Guards row path c c₁ := by
  rw [createTrack_eq] at made
  cases made
  have size := (index_next room).2
  have counted : Guards row path c (c.countCuts cuts) := by
    refine .countCuts cuts (Nat.le_trans (Nat.le_succ _) (Nat.le_trans (Nat.le_of_eq ?_) room))
    rw [size, countCuts_eq]
    rfl
  exact ⟨counted, counted.trans
    ((berthed_withRow path 0 (counted.orderly o) .global _ room).guards room)⟩

/-- The row of a uuid waits until the default track was looked for. -/
theorem guards_sheltered (o : c.Orderly) {cuts : List Cut}
    (made : Catalog.createTrack .global r (c.countCuts cuts) = .ok p c₁)
    (between : Guards row (u :: path) c₁ c₂) (absent : c.placement? u = none) (free : u ∉ path)
    (fits : (left (Catalog.record u r p q c₂)).Fits) :
    Guards row path c (left (Catalog.record u r p q c₂)) := by
  have roomy := fits.of_grows (growing_record u r p q c₂)
  have counted := (guards_made row path o made
    (Nat.le_trans between.rows_le roomy.rows)).1
  exact counted.trans
    (guards_waiting (counted.orderly o) made between (absent_countCuts absent) free fits)

theorem guards_makeDefault (o : c.Orderly) (absent : c.placement? 0 = none) (free : 0 ∉ path)
    (fits : (left (Catalog.makeDefault c)).Fits) :
    Guards row path c (left (Catalog.makeDefault c)) := by
  rw [Catalog.makeDefault_eq] at fits ⊢
  have roomy := fits.of_grows (growing_settle 0 c.defaultReservation none _)
  have announced : Guards row path c (c.reserve 0 c.defaultReservation) :=
    .reserve 0 _ (Nat.le_trans (grows_reserve 0 _ c).rows roomy.rows)
  refine announced.trans (guards_settle (announced.orderly o) ?_ free fits)
  rwa [Catalog.placement?_reserve]

theorem guards_resolution {path : Trail} {result} (o : c.Orderly)
    (x : Catalog.Resolution limit path u c result) (free : u ∉ path.above)
    (fits : (left result).Fits) : Guards row path.above c (left result) := by
  -- By induction on the calls. No uuid on the path gets its track meanwhile, so that the row of
  -- each is still without arguments when its call is back.
  induction x with
  | known => exact .refl _
  | unannounced => exact .refl _
  | joined absent reserved ends above =>
    rw [left_map] at fits ⊢
    exact guards_settle o absent free fits
  | @linked path u c c₁ r q absent reserved opens above ih =>
    rw [left_map] at fits ⊢
    have free' := Catalog.declared_notMem_above_enter opens
    have up := ih o free' (fits.of_grows (growing_settle u r (some q) c₁))
    rw [Trail.above_enter] at up
    exact up.shorten.trans (guards_settle (up.orderly o) (up.waiting u List.mem_cons_self absent)
      free fits)
  | @linkFailed path u c c₁ r e absent reserved opens above ih =>
    have up := ih o (Catalog.declared_notMem_above_enter opens) fits
    rw [Trail.above_enter] at up
    exact up.shorten
  | @housed path u c r ending absent reserved ends apart housed =>
    rw [left_map] at fits ⊢
    have room := (fits.of_grows (growing_settle u r none _)).rows
    rw [countCuts_eq] at room
    have counted : Guards row path.above c (c.countCuts ending.cuts) := .countCuts _ room
    exact counted.trans (guards_settle (counted.orderly o) (absent_countCuts absent) free fits)
  | @barred path u c c₁ r ending p absent reserved ends apart homeless waits made =>
    rw [left_map] at fits ⊢
    have room := (fits.of_grows (growing_record u r p none (c₁.count .loop))).rows
    exact guards_sheltered o made (.count .loop room) absent free fits
  | @sheltered path u c c₁ c₂ r ending p q absent reserved ends apart homeless zero made default
      ih =>
    rw [left_map] at fits ⊢
    have nonzero := ((Catalog.homeless_iff reserved).mp homeless).2
    have roomy := fits.of_grows (growing_record u r p (some q) c₂)
    have first := (guards_made row path.above o made
      (Nat.le_trans (steps_grows.resolution default).rows roomy.rows)).2
    have zero' := Trail.zero_notMem_above_enterRoot zero nonzero
    have between := ih (first.orderly o) zero' roomy
    rw [Trail.above_enterRoot] at between
    exact guards_sheltered o made between absent free fits
  | @shelterMade path u c c₁ r ending p absent reserved ends apart homeless zero made absent₀ =>
    rw [left_map] at fits ⊢
    have nonzero := ((Catalog.homeless_iff reserved).mp homeless).2
    have roomy := fits.of_grows (left_bind_grows (fun q => growing_record u r p (some q)) c₁)
    have first := (guards_made row path.above o made
      (Nat.le_trans (growing_makeDefault c₁).rows roomy.rows)).2
    have zero' := List.not_mem_cons_of_ne_of_not_mem nonzero.symm zero
    have between : Guards row (u :: path.above) c₁ (left (Catalog.makeDefault c₁)) :=
      guards_makeDefault (first.orderly o) absent₀ zero' roomy
    cases default : Catalog.makeDefault c₁ with
    | error e c₂ =>
      rw [default] at between
      rw [Act.bind_error default]
      exact first.trans between.shorten
    | ok q c₂ =>
      rw [default] at between
      rw [Act.bind_ok default] at fits ⊢
      exact guards_sheltered o made between absent free fits
  | @shelterFailed path u c c₁ c₂ r ending p e absent reserved ends apart homeless zero made default
      ih =>
    have nonzero := ((Catalog.homeless_iff reserved).mp homeless).2
    have first := (guards_made row path.above o made
      (Nat.le_trans (steps_grows.resolution default).rows fits.rows)).2
    have zero' := Trail.zero_notMem_above_enterRoot zero nonzero
    have between := ih (first.orderly o) zero' fits
    rw [Trail.above_enterRoot] at between
    exact first.trans between.shorten

end Resolution

end Record

section Commands

theorem left_nameAfter (u : Uuid) (event : StringId) (found : Option Placement) (c : Session) :
    left (Catalog.nameAfter u event found c) = c ∨
      ∃ track, left (Catalog.nameAfter u event found c) = c.withName track event := by
  by_cases present : ∀ p, found = some p → (c.row? p.track).isSome
  · obtain ⟨c', named, same⟩ := nameAfter_ok u event present
    rw [named]
    exact same.imp id fun ⟨_, renamed⟩ => renamed
  · cases found with
    | none => exact (present nofun).elim
    | some p =>
    have absent : c.row? p.track = none := by simpa using present
    have failed : Catalog.nameIfUnnamed p.track event c = .error (.unknownTrack p.track) c :=
      Act.bind_error (name_error absent) _
    unfold Catalog.nameAfter
    dsimp only
    rw [Act.bind_ok (Act.get_ok c)]
    split
    next =>
      rw [Act.bind_error failed]
      exact .inl rfl
    next => exact .inl rfl

theorem guards_nameAfter (event : StringId) (found : Option Placement)
    (room : c.rows.size ≤ UInt32.size) :
    Guards row path c (left (Catalog.nameAfter u event found c)) := by
  have writes := steps_writes.nameAfter u event found c
  rw [← left_eq] at writes
  rcases left_nameAfter u event found c with same | ⟨track, same⟩
  · rw [same]
    exact .refl c
  · rw [same] at writes ⊢
    exact .of_quiet (quiet_withName c track event) writes rfl room

theorem guards_track? (o : c.Orderly) {event : StringId}
    (fits : (left (Catalog.track? u event c)).Fits) :
    Guards row [] c (left (Catalog.track? u event c)) := by
  rw [Catalog.track?_eq_bind] at fits ⊢
  have roomy := fits.of_grows (left_bind_grows (growing_nameAfter u event) c)
  have found : Guards row [] c (left (Catalog.resolve c.settings.maxAncestors .empty u c)) :=
    guards_resolution o (Catalog.resolution _ .empty Trail.level_empty u c) List.not_mem_nil roomy
  cases outcome : Catalog.resolve c.settings.maxAncestors .empty u c with
  | error e c₁ =>
    rw [outcome] at found
    rw [Act.bind_error outcome]
    exact found
  | ok o c₁ =>
    rw [outcome] at found roomy
    rw [Act.bind_ok outcome]
    exact found.trans (guards_nameAfter event o roomy.rows)

theorem guards_defaultTrackId (o : c.Orderly) (fits : (left (Catalog.defaultTrackId c)).Fits) :
    Guards row [] c (left (Catalog.defaultTrackId c)) := by
  rw [Catalog.defaultTrackId_eq_map, left_map] at fits ⊢
  have roomy := fits.of_grows (left_bind_grows growing_elseMakeDefault c)
  have calls := Catalog.resolution c.settings.maxAncestors .empty Trail.level_empty 0 c
  have found : Guards row [] c (left (Catalog.resolve c.settings.maxAncestors .empty 0 c)) :=
    guards_resolution o calls List.not_mem_nil roomy
  cases outcome : Catalog.resolve c.settings.maxAncestors .empty 0 c with
  | error e c₁ =>
    rw [outcome] at found
    rw [Catalog.defaultTrack_of_error outcome]
    exact found
  | ok placed c₁ =>
    rw [outcome] at found calls
    cases placed with
    | some p =>
      rw [Catalog.defaultTrack_of_found outcome]
      exact found
    | none =>
      obtain ⟨absent, -, rfl⟩ := calls.of_none
      rw [Catalog.defaultTrack_of_none outcome] at fits ⊢
      exact guards_makeDefault o absent List.not_mem_nil fits

theorem guards_perform (o : c.Orderly) (command : Command)
    (fits : Fits (c.perform command).2) :
    Guards row [] c (c.perform command).2 := by
  cases command with
  | announce u descriptor => exact .reserve u _ (Nat.le_trans (grows_reserve u _ c).rows fits.rows)
  | track u event =>
    rw [perform_track] at fits ⊢
    exact guards_track? o fits
  | defaultTrack =>
    rw [perform_defaultTrack] at fits ⊢
    exact guards_defaultTrackId o fits
  | sample u sequence value =>
    exact .of_quiet (quiet_sample u sequence value c) (.refl c) rfl fits.rows
  | clear sequence => exact .of_quiet (quiet_clear sequence c) (.refl c) rfl fits.rows

end Commands

end TraceTracks.Session

namespace TraceTracks

section Deeds
variable {b : Trace} {o : Owners}

theorem Deed.store_perform (b : Trace) (d : Deed) :
    ∃ ws, (d.perform b).store = b.store.after ws := by
  cases d with
  | errand e =>
    cases e with
    | intern text => exact ⟨[.intern text], rfl⟩
    | updateThread tid pid => exact ⟨[], rfl⟩
    | startThread start tid => exact ⟨[], rfl⟩
    | process pid => exact ⟨[], rfl⟩
    | startProcess start parent pid name => exact ⟨[], rfl⟩
  | createTrack scope flavor => exact ⟨[.createTrack scope flavor], rfl⟩
  | threadTrack utid => exact ⟨[.threadTrack utid], rfl⟩
  | processTrack upid => exact ⟨[.processTrack upid], rfl⟩
  | setName track name =>
    refine ⟨[.setName track name], ?_⟩
    simp only [perform, TrackSink.setName, Backend.tryStore, Store.after_cons, Store.after_nil,
      Store.write]
    cases Store.setName track name b.store <;> rfl
  | addArg track key value =>
    refine ⟨[.addArg track key value], ?_⟩
    simp only [perform, TrackSink.addArg, Backend.tryStore, Store.after_cons, Store.after_nil,
      Store.write]
    cases Store.addArg track key value b.store <;> rfl
  | count anomaly => exact ⟨[.count anomaly], rfl⟩

theorem Deed.kept_perform (kept : Estate.Kept (o, b.lifetimes)) (d : Deed)
    (fits : (d.perform b).lifetimes.Fits) : Estate.Kept (o, (d.perform b).lifetimes) := by
  cases d with
  | errand e =>
    cases e with
    | intern text => exact kept
    | updateThread tid pid => exact (kept.take (.event (.updateThread tid pid)) fits).1
    | startThread start tid => exact (kept.take (.event (.startThread start tid)) fits).1
    | process pid => exact (kept.take (.event (.process pid)) fits).1
    | startProcess start parent pid name =>
      exact (kept.take (.event (.startProcess start parent pid name)) fits).1
  | createTrack scope flavor => exact kept
  | threadTrack utid => exact kept
  | processTrack upid => exact kept
  | setName track name =>
    simp only [perform, TrackSink.setName, Backend.tryStore]
    cases Store.setName track name b.store <;> exact kept
  | addArg track key value =>
    simp only [perform, TrackSink.addArg, Backend.tryStore]
    cases Store.addArg track key value b.store <;> exact kept
  | count anomaly => exact kept

theorem Deed.orderly_foldl (deeds : List Deed) (tables : ∃ ws, b.store = Store.empty.after ws)
    (kept : Estate.Kept (o, b.lifetimes))
    (fits : (deeds.foldl Deed.perform b).lifetimes.Fits) :
    (∃ ws, (deeds.foldl Deed.perform b).store = Store.empty.after ws) ∧
      Estate.Kept (o, (deeds.foldl Deed.perform b).lifetimes) := by
  induction deeds generalizing b with
  | nil => exact ⟨tables, kept⟩
  | cons d deeds ih =>
    have rest := (Trace.carries_deeds (d.perform b) deeds).lifetimes
    obtain ⟨ws, same⟩ := tables
    obtain ⟨more, same'⟩ := d.store_perform b
    exact ih ⟨ws ++ more, by rw [Store.after_append, ← same, same']⟩
      (d.kept_perform kept (fits.of_grows rest)) fits

end Deeds

namespace Session
variable {c : Session} {row : TrackId}

theorem guards_deed (d : Deed) (spares : (c.take (.deed d)).argsOf row = c.argsOf row)
    (fits : Fits (c.take (.deed d))) : Guards row [] c (c.take (.deed d)) := by
  refine .of_args ⟨d.store_perform c.backend, fun scope v owned => ?_, fun _ _ => id, fun _ _ => id,
    fun kept => d.kept_perform kept ⟨fits.threads, fits.processes⟩, rfl⟩ fits.rows spares
  cases scope <;> exact owned

/-- The caller does nothing to the arguments of a row. -/
def Spared (row : TrackId) (c : Session) : List Turn → Prop
  | [] => True
  | .command command :: turns => Spared row (c.take (.command command)) turns
  | .deed d :: turns =>
    (c.take (.deed d)).argsOf row = c.argsOf row ∧ Spared row (c.take (.deed d)) turns

instance Spared.decidable (row : TrackId) (c : Session) :
    (turns : List Turn) → Decidable (Spared row c turns)
  | [] => inferInstanceAs (Decidable True)
  | .command command :: turns => Spared.decidable row (c.take (.command command)) turns
  | .deed d :: turns =>
    have := Spared.decidable row (c.take (.deed d)) turns
    inferInstanceAs (Decidable (_ ∧ _))

theorem guards_turns (o : c.Orderly) (turns : List Turn) (spared : Spared row c turns)
    (fits : Fits (turns.foldl Session.take c)) : Guards row [] c (turns.foldl Session.take c) := by
  induction turns generalizing c with
  | nil => exact .refl c
  | cons turn turns ih =>
    have roomy : Fits (c.take turn) := fits.of_grows (grows_turns (c.take turn) turns)
    cases turn with
    | command command =>
      have first : Guards row [] c (c.take (.command command)) := guards_perform o command roomy
      exact first.trans (ih (first.orderly o) spared fits)
    | deed d =>
      have first := guards_deed d spared.1 roomy
      exact first.trans (ih (first.orderly o) spared.2 fits)

end Session

theorem Store.writes_enterWords (s : Store) (name : String) :
    ∃ ws, { s with strings := (s.strings.enterWords name).2 } = s.after ws := by
  refine ⟨[.intern "source", .intern "source_id", .intern "parent_track_id", .intern "category",
    .intern "descriptor", .intern name], ?_⟩
  simp only [after_cons, after_nil, write, intern, Strings.enterWords]

namespace Interplay
variable {h : Interplay} {row : TrackId}

/-- Nobody but the session writes arguments on a row. -/
def Solo (h : Interplay) (row : TrackId) : Prop :=
  h.opening.argsOf row = [] ∧ h.opening.Spared row h.turns

instance (h : Interplay) (row : TrackId) : Decidable (h.Solo row) :=
  inferInstanceAs (Decidable (_ ∧ _))

theorem orderly_opening (fits : h.opening.backend.lifetimes.Fits) : h.opening.Orderly := by
  rw [opening, Session.start_eq] at fits ⊢
  obtain ⟨⟨ws, same⟩, kept⟩ := Deed.orderly_foldl (b := Trace.empty) (o := Owners.empty) h.before
    ⟨[], rfl⟩ Estate.kept_start fits
  obtain ⟨more, entered⟩ := Store.writes_enterWords (h.before.foldl Deed.perform Trace.empty).store
    h.settings.defaultTrackName
  exact ⟨⟨ws ++ more, by rw [Store.after_append, ← same, ← entered]⟩, kept⟩

theorem guards (solo : h.Solo row) (fits : h.state.Fits) :
    h.opening.Orderly ∧ Session.Guards row [] h.opening h.state := by
  have roomy := fits.of_grows (h.opening.grows_turns h.turns)
  have orderly := orderly_opening ⟨roomy.threads, roomy.processes⟩
  exact ⟨orderly, Session.guards_turns orderly h.turns solo.2 fits⟩

theorem words (orderly : h.opening.Orderly) (writes : Session.Writes h.opening h.state)
    (few : h.state.backend.store.strings.size ≤ UInt32.size) : h.opening.vocabulary.Distinct ∧
      h.opening.vocabulary.Reads h.state.backend.store.strings := by
  obtain ⟨ws, opened⟩ := orderly.tables
  obtain ⟨more, written⟩ := writes
  have room : h.opening.backend.store.strings.size ≤ UInt32.size := by
    rw [written] at few
    exact Nat.le_trans (Store.size_strings_le_after _ more) few
  have sound : h.opening.backend.store.strings.Sound := fun text id found => by
    rw [opened] at found room ⊢
    exact ((Store.inStep_after ws).lookup?_eq_some_iff_get? room).mp found
  have words : h.opening.vocabulary.Of h.opening.backend.store.strings
      h.settings.defaultTrackName := by
    have entered := (h.before.foldl Deed.perform Trace.empty).store.strings.words_enterWords
      h.settings.defaultTrackName
    rw [opening, Session.start_eq]
    generalize (h.before.foldl Deed.perform Trace.empty).store.strings.enterWords
      h.settings.defaultTrackName = pool at *
    exact entered
  refine ⟨words.distinct sound, ?_⟩
  rw [written]
  exact Store.strings_after more (words.reads sound) fun _ text reads => reads.intern text

theorem plain (solo : h.Solo row) (fits : h.state.Fits)
    (few : h.state.backend.store.strings.size ≤ UInt32.size) :
    h.state.backend.store.Plain row := by
  obtain ⟨orderly, guards⟩ := guards solo fits
  obtain ⟨distinct, reads⟩ := words orderly guards.writes few
  rcases guards.neat (.inl solo.1) with blank | ⟨u, signed⟩
  · have blank : h.state.backend.store.args.ofTrack row = [] := blank
    constructor
    · rw [blank]
      exact List.forall_mem_nil _
    · rw [blank]
      exact List.nodup_nil
  · obtain ⟨parent, category, args⟩ := signed.args
    have args : h.state.backend.store.args.ofTrack row =
        argsFor h.opening.vocabulary u parent category := by
      rw [← guards.vocabulary]
      exact args
    constructor
    · rw [args]
      exact reads.known_keys u parent category
    · rw [args]
      exact nodup_keys_argsFor distinct u parent category

end Interplay

def alike : List Writing :=
  [.createTrack .global .slice, .intern "str#7", .addArg ⟨0⟩ ⟨7⟩ (.integer 1),
    .addArg ⟨0⟩ ⟨1⟩ (.string ⟨9⟩), .threadTrack ⟨4⟩, .setName ⟨1⟩ ⟨1⟩, .addArg ⟨1⟩ ⟨1⟩ (.integer 2),
    .count .loop]

end TraceTracks
