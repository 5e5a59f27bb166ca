import TraceTracks.Proofs.Hierarchy
import TraceTracks.Proofs.Tenancy

/-! Which lifetimes there are after a history in which nobody but the session asks for any, whose
they are, and which process a thread belongs to. -/
namespace TraceTracks

namespace Registry
variable {κ ν : Type} [DecidableEq κ] {r : Registry κ ν} {k k' : κ} {before after : List κ}

theorem mem_iff_rank_lt (split : r.keys = before ++ k :: after) :
    k' ∈ before ↔ r.rank k' < r.rank k := by
  have new : k ∉ before := by
    have nodup := r.keys_nodup
    rw [split, List.nodup_append] at nodup
    exact fun mem => nodup.2.2 k mem k List.mem_cons_self rfl
  have here : r.rank k = before.length := by
    rw [rank, split, List.idxOf_append_of_notMem new, List.idxOf_cons_self]
    rfl
  rw [here, rank, split]
  constructor
  · intro mem
    rw [List.idxOf_append_of_mem mem]
    exact List.idxOf_lt_length_of_mem mem
  · intro lt
    apply Classical.byContradiction
    intro absent
    rw [List.idxOf_append_of_notMem absent] at lt
    omega

theorem pairwise_rank (r : Registry κ ν) : r.keys.Pairwise fun a b => r.rank a < r.rank b := by
  refine List.pairwise_iff_getElem.mpr fun i j hi hj lt => ?_
  rw [rank, rank, r.keys_nodup.idxOf_getElem, r.keys_nodup.idxOf_getElem]
  exact lt

theorem rank_le_of_getLast? {ks : List κ} (sub : ks.Sublist r.keys) (last : ks.getLast? = some k)
    (mem : k' ∈ ks) : r.rank k' ≤ r.rank k := by
  obtain ⟨ys, rfl⟩ := List.getLast?_eq_some_iff.mp last
  rcases List.mem_append.mp mem with old | here
  · have ordered := List.pairwise_append.mp (r.pairwise_rank.sublist sub)
    exact Nat.le_of_lt (ordered.2.2 k' old k (List.mem_singleton_self k))
  · exact Nat.le_of_eq (congrArg r.rank (List.mem_singleton.mp here))

end Registry

namespace Session
variable {c : Session} {u : Uuid} {pid : Pid}

def IsThread (c : Session) (u : Uuid) : Bool :=
  (c.reservation? u).any fun r => r.tid.isSome

def IsProcessOf (c : Session) (pid : Pid) (u : Uuid) : Bool :=
  (c.reservation? u).any fun r => r.pid = some pid ∧ r.tid = none

def threadUuids (c : Session) : List Uuid := c.placements.keys.filter c.IsThread

def processUuids (c : Session) (pid : Pid) : List Uuid :=
  c.placements.keys.filter (c.IsProcessOf pid)

def pids (c : Session) : Finset Pid :=
  (c.placements.keys.filterMap fun u => (c.reservation? u).bind fun r => r.pid).toFinset

section Tenants

theorem any_tenant? (c : Session) (u : Uuid) (f : Tenant → Bool) : (c.tenant? u).any f =
    (c.reservation? u).any fun r => r.pid.any fun pid => f ⟨u, pid, r.tid⟩ := by
  rw [tenant?]
  cases c.reservation? u with
  | none => rfl
  | some r => cases hpid : r.pid <;> simp [hpid]

theorem ofPid_filterMap (c : Session) (pid : Pid) (us : List Uuid) :
    Tenants.ofPid (us.filterMap c.tenant?) pid = us.filter (c.IsProcessOf pid) := by
  rw [Tenants.ofPid, uuids_filter_tenants]
  congr 1
  funext u
  rw [any_tenant?, IsProcessOf]
  cases c.reservation? u with
  | none => rfl
  | some r => cases hpid : r.pid <;> simp [hpid]

theorem ofPid_tenants (c : Session) (pid : Pid) : c.tenants.ofPid pid = c.processUuids pid :=
  c.ofPid_filterMap pid _

theorem ofThreads_tenants (h : c.reservations.OfDescriptors) :
    c.tenants.ofThreads = c.threadUuids := by
  rw [Tenants.ofThreads, tenants, uuids_filter_tenants, threadUuids]
  congr 1
  funext u
  rw [any_tenant?, IsThread]
  cases reserved : c.reservation? u with
  | none => rfl
  | some r =>
    simp only [Option.any_some]
    cases hpid : r.pid with
    | some pid => rfl
    | none =>
      cases htid : r.tid with
      | none => rfl
      | some tid =>
        have found := (h u r reserved).pid_of_tid (by rw [htid]; rfl)
        rw [hpid] at found
        cases found

theorem pids_tenants (c : Session) : c.tenants.pids = c.pids := by
  have step (u : Uuid) : (c.tenant? u).map Tenant.pid = (c.reservation? u).bind fun r => r.pid := by
    rw [tenant?]
    cases c.reservation? u with
    | none => rfl
    | some r => cases hpid : r.pid <;> simp [hpid]
  rw [Tenants.pids, tenants, List.map_filterMap, pids]
  exact congrArg (fun f => List.toFinset (List.filterMap f _)) (funext step)

end Tenants

/-- The lifetimes are accounted for by the uuids that have a track. -/
structure Accounted (c : Session) : Prop where
  owned : ∀ utid, c.backend.lifetimes.Holds (.thread utid) →
    ∃ u ∈ c.threadUuids, c.owner? (.thread utid) = some u
  owning : ∀ u ∈ c.threadUuids, ∃ utid, c.owner? (.thread utid) = some u ∧
    c.backend.lifetimes.Holds (.thread utid) ∧
    ∀ other, c.owner? (.thread other) = some u → other = utid
  threads : c.backend.lifetimes.threads.size = c.threadUuids.length
  reuses : c.countOf .pidReuse = ∑ pid ∈ c.pids, ((c.processUuids pid).length - 1)
  processes : c.backend.lifetimes.processes.size = c.pids.card + c.countOf .pidReuse
  current : ∀ pid u, (c.processUuids pid).getLast? = some u →
    ∃ upid, c.backend.lifetimes.currentProcess? pid = some upid ∧
      c.owner? (.process upid) = some u ∧ ∃ p, c.placement? u = some p ∧ p.scope = .process upid

theorem Faithful.accounted {log : List Entry} (h : Faithful c) (s : Sound log [] c)
    (descriptors : c.reservations.OfDescriptors) (fits : c.Fits) : Accounted c := by
  have census := h.census fits
  have ofThreads := ofThreads_tenants descriptors
  constructor
  case owned => exact ofThreads ▸ census.manned
  case owning =>
    intro u hu
    obtain ⟨utid, owned, unique⟩ := census.owning u (ofThreads ▸ hu)
    exact ⟨utid, owned, s.entities.known (.thread utid) u owned, unique⟩
  case threads => exact ofThreads ▸ census.threads
  case reuses =>
    rw [h.reuses, Tenants.surplus, pids_tenants]
    exact Finset.sum_congr rfl fun pid _ => by rw [ofPid_tenants]
  case processes =>
    rw [h.reuses, ← pids_tenants]
    exact census.processes
  case current =>
    intro pid u last
    rw [← ofPid_tenants] at last
    have housed : pid ∈ c.tenants.pids := Classical.byContradiction fun absent => by
      rw [Tenants.ofPid_eq_nil absent] at last
      cases last
    obtain ⟨upid, current⟩ := Option.isSome_iff_exists.mp ((census.housed pid).mpr housed)
    have owner : c.owner? (.process upid) = some u := (census.last pid upid current).trans last
    exact ⟨upid, current, owner, s.placement?_of_owner? owner⟩

section Homes
variable {r : Reservation}

def threadHome? (c : Session) (u : Uuid) : Option Upid :=
  (c.placement? u).bind fun p =>
    match p.scope with
    | .thread utid => c.backend.lifetimes.homeOf? utid
    | _ => none

def processOf? (c : Session) (u : Uuid) : Option Upid :=
  (c.placement? u).bind fun p =>
    match p.scope with
    | .process upid => some upid
    | _ => none

structure Shares (c : Session) (pid : Pid) (thread process : Uuid) : Prop where
  ofThread : ∃ r tid, c.reservation? thread = some r ∧ r.pid = some pid ∧ r.tid = some tid
  ofProcess : ∃ r, c.reservation? process = some r ∧ r.pid = some pid ∧ r.tid = none
  kept : c.parentOf? thread = some process

/-- The process of a pid whose track was made last before that of a uuid. -/
structure LastBefore (c : Session) (pid : Pid) (u last : Uuid) : Prop where
  mem : last ∈ c.processUuids pid
  before : c.placements.rank last < c.placements.rank u
  latest : ∀ v ∈ c.processUuids pid, c.placements.rank v < c.placements.rank u →
    c.placements.rank v ≤ c.placements.rank last

theorem processOf?_eq_some {p : Placement} {upid : Upid} (placed : c.placement? u = some p)
    (found : c.processOf? u = some upid) : p.scope = .process upid := by
  rw [processOf?, placed, Option.bind_some] at found
  cases scope : p.scope <;> rw [scope] at found <;> cases found
  rfl

theorem lastBefore_of_getLast? {before after : List Uuid} {u last : Uuid}
    (split : c.placements.keys = before ++ u :: after)
    (latest : (before.filter (c.IsProcessOf pid)).getLast? = some last) :
    c.LastBefore pid u last := by
  have sub : (before.filter (c.IsProcessOf pid)).Sublist c.placements.keys := by
    rw [split]
    exact List.filter_sublist.trans (List.sublist_append_left _ _)
  obtain ⟨mem, isProcess⟩ := List.mem_filter.mp (List.mem_of_getLast? latest)
  constructor
  case mem =>
    refine List.mem_filter.mpr ⟨?_, isProcess⟩
    rw [split]
    exact List.mem_append_left _ mem
  case before => exact (Registry.mem_iff_rank_lt split).mp mem
  case latest =>
    intro v hv lt
    have earlier := (Registry.mem_iff_rank_lt split).mpr lt
    exact Registry.rank_le_of_getLast? sub latest
      (List.mem_filter.mpr ⟨earlier, (List.mem_filter.mp hv).2⟩)

/-- Which process a thread joins can be read off the order in which the tracks were made. -/
theorem Faithful.home_of_split {log : List Entry} {before after : List Uuid} {u last : Uuid}
    {tid : Tid} (h : Faithful c) (s : Sound log [] c) (fits : c.Fits)
    (split : c.placements.keys = before ++ u :: after) (reserved : c.reservation? u = some r)
    (hpid : r.pid = some pid) (htid : r.tid = some tid)
    (latest : (before.filter (c.IsProcessOf pid)).getLast? = some last) :
    ∃ upid, c.threadHome? u = some upid ∧ c.owner? (.process upid) = some last ∧
      c.processOf? last = some upid := by
  have tenants : c.tenants =
      before.filterMap c.tenant? ++ ⟨u, pid, some tid⟩ :: after.filterMap c.tenant? := by
    have tenant := tenant?_of_pid reserved hpid
    rw [htid] at tenant
    rw [Session.tenants, split, List.filterMap_append, List.filterMap_cons_some tenant]
  have distinct := c.distinct_tenants
  have roomy := fits.estate
  have estate := h.estate
  rw [tenants] at distinct estate
  rw [estate] at roomy
  obtain ⟨utid, upid, owner, home, master⟩ := Estate.home_of_tenant rfl distinct roomy
    (by rw [ofPid_filterMap]; exact latest)
  rw [← estate] at owner home master
  obtain ⟨p, placed, scope⟩ := s.placement?_of_owner? (s := .thread utid) owner
  obtain ⟨p', placed', scope'⟩ := s.placement?_of_owner? (s := .process upid) master
  refine ⟨upid, ?_, master, ?_⟩
  · rw [threadHome?, placed, Option.bind_some, scope]
    exact home
  · rw [processOf?, placed', Option.bind_some, scope']

theorem Sound.owner?_of_processOf? {log : List Entry} {u : Uuid} {upid : Upid} (s : Sound log [] c)
    (reserved : c.reservation? u = some r) (hpid : r.pid = some pid)
    (found : c.processOf? u = some upid) : c.owner? (.process upid) = some u := by
  obtain ⟨p, placed, -⟩ := Option.bind_eq_some_iff.mp found
  obtain ⟨e, -, rfl, r', q, stands⟩ := s.stands_of_placement? placed
  obtain rfl : r' = r := Option.some.inj (stands.reserved.symm.trans reserved)
  have own := (stands.owned (by rw [hpid]; rfl)).1
  rwa [processOf?_eq_some placed found] at own

theorem Faithful.lastBefore {log : List Entry} {thread process : Uuid} (h : Faithful c)
    (s : Sound log [] c) (words : c.vocabulary.Distinct) (fits : c.Fits)
    (shares : c.Shares pid thread process) : ∃ last upid, c.LastBefore pid thread last ∧
      c.threadHome? thread = some upid ∧ c.processOf? last = some upid ∧
      (c.processOf? process = some upid ↔ process = last) := by
  obtain ⟨⟨r, tid, reserved, hpid, htid⟩, ⟨r', reserved', hpid', htid'⟩, parent⟩ := shares
  obtain ⟨p, placed, -⟩ := Option.bind_eq_some_iff.mp parent
  obtain ⟨e, he, rfl, r₁, q, stands⟩ := s.stands_of_placement? placed
  obtain ⟨before, after, split⟩ := List.append_of_mem
    (Registry.contains_iff_mem_keys.mp (Option.isSome_of_eq_some placed))
  rw [s.parentOf?_eq words he] at parent
  have earlier := (Registry.mem_iff_rank_lt split).mpr (stands.rank process parent)
  have isProcess : c.IsProcessOf pid process = true := by
    simp [IsProcessOf, reserved', hpid', htid']
  have candidate := List.mem_filter.mpr ⟨earlier, isProcess⟩
  obtain ⟨last, latest⟩ : ∃ last, (before.filter (c.IsProcessOf pid)).getLast? = some last :=
    ⟨_, List.getLast?_eq_some_getLast (List.ne_nil_of_mem candidate)⟩
  obtain ⟨upid, home, master, lastOf⟩ := h.home_of_split s fits split reserved hpid htid latest
  refine ⟨last, upid, lastBefore_of_getLast? split latest, home, lastOf, fun found => ?_,
    fun same => same ▸ lastOf⟩
  have own := s.owner?_of_processOf? reserved' hpid' found
  exact Option.some.inj (own.symm.trans master)

end Homes

end Session

namespace History

def lodgers : History where
  settings := .default
  before := [.intern "lodger"]
  moves := [.command (.announce 1 (.process 4 .null 1)),
    .command (.announce 2 (.process 4 .null 2)),
    .command (.announce 3 (.thread 1 4 5 .null 1)), .command (.announce 4 (.thread 2 4 5 .null 2)),
    .command (.announce 5 (.thread 0 9 5 .null 3)), .command (.announce 6 (.child 3 .null)),
    .command (.track 5 .null), .command (.track 4 .null), .command (.track 6 .null),
    .command .defaultTrack]
  room := by decide +kernel

/-- Every thread and every process is there because of the uuids that have a track. -/
theorem lifetimes_accounted (h : History) (alone : h.Alone) (fits : h.state.Fits) :
    Session.Accounted h.state :=
  (alone.faithful fits).accounted (sound fits)
    (Session.ofDescriptors_after h.ofDescriptors_opening h.moves) fits

theorem lifetimes_accounted_lodgers : lodgers.Alone ∧ Session.Accounted lodgers.state :=
  have alone : lodgers.Alone := by decide +kernel
  ⟨alone, lodgers.lifetimes_accounted alone
    ⟨by decide +kernel, by decide +kernel, by decide +kernel⟩⟩

/-- A thread belongs to the process of its pid whose track was made last before its own. That is its
parent's, unless another one came between. -/
theorem thread_joins_latest_process (h : History) (alone : h.Alone) (fits : h.state.Fits)
    {pid : Pid} {thread process : Uuid} (shares : h.state.Shares pid thread process) :
    ∃ last upid, h.state.LastBefore pid thread last ∧ h.state.threadHome? thread = some upid ∧
      h.state.processOf? last = some upid ∧
      (h.state.processOf? process = some upid ↔ process = last) :=
  (alone.faithful fits).lastBefore (sound fits) (distinct fits) fits shares

def displaced : History where
  settings := .default
  before := [.intern "process"]
  moves := [.command (.announce 1 (.process 5 .null 1)),
    .command (.announce 2 (.process 5 .null 2)),
    .command (.announce 3 (.thread 1 5 6 .null 3)), .command (.track 1 .null),
    .command (.track 2 .null), .command (.track 3 .null)]
  room := by decide +kernel

theorem shares_displaced : displaced.state.Shares 5 3 1 :=
  ⟨⟨{ parent := 1, pid := some 5, tid := some 6, firstSeen := some 3 }, 6, by decide +kernel⟩,
    ⟨{ pid := some 5, firstSeen := some 1 }, by decide +kernel⟩, by decide +kernel⟩

theorem thread_joins_latest_process_displaced : displaced.Alone ∧ displaced.state.Shares 5 3 1 ∧
    ∃ last upid, displaced.state.LastBefore 5 3 last ∧
      displaced.state.threadHome? 3 = some upid ∧ displaced.state.processOf? last = some upid ∧
      (displaced.state.processOf? 1 = some upid ↔ 1 = last) :=
  have alone : displaced.Alone := by decide +kernel
  ⟨alone, shares_displaced, displaced.thread_joins_latest_process alone
    ⟨by decide +kernel, by decide +kernel, by decide +kernel⟩ shares_displaced⟩

/-- It need not be the process of the parent's track. -/
theorem thread_leaves_parent_process : displaced.Alone ∧ displaced.state.Fits ∧
    displaced.state.Shares 5 3 1 ∧
    ¬∃ upid, displaced.state.threadHome? 3 = some upid ∧
      displaced.state.processOf? 1 = some upid := by
  refine ⟨by decide +kernel, ⟨by decide +kernel, by decide +kernel, by decide +kernel⟩,
    shares_displaced, ?_⟩
  rintro ⟨upid, home, process⟩
  have differ : displaced.state.threadHome? 3 ≠ displaced.state.processOf? 1 := by decide +kernel
  exact differ (home.trans process.symm)

end History
end TraceTracks
