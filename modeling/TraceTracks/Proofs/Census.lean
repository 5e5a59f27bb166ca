import Mathlib.Algebra.BigOperators.Group.Finset.Piecewise
import Mathlib.Data.Finset.Card
import Mathlib.Logic.ExistsUnique
import TraceTracks.Proofs.Custody

/-! How many lifetimes there are when nobody but their owners asks for any, and whose they are. -/
namespace TraceTracks

/-- A uuid that claims a thread of a pid, or, without a tid, a process. -/
structure Tenant where
  uuid : Uuid
  pid : Pid
  tid : Option Tid
  deriving DecidableEq

def Tenant.affair (t : Tenant) : Affair :=
  match t.tid with
  | some tid => .claimThread t.uuid t.pid tid
  | none => .claimProcess t.uuid t.pid

abbrev Tenants := List Tenant

namespace Tenants

def uuids (ts : Tenants) : List Uuid := ts.map Tenant.uuid

def ofThreads (ts : Tenants) : List Uuid := uuids (ts.filter fun t => t.tid.isSome)

def ofPid (ts : Tenants) (pid : Pid) : List Uuid :=
  uuids (ts.filter fun t => t.pid = pid ∧ t.tid = none)

def pids (ts : Tenants) : Finset Pid := (ts.map Tenant.pid).toFinset

/-- The claims of processes beyond the first one of each pid. -/
def surplus (ts : Tenants) : Nat := ∑ pid ∈ ts.pids, ((ts.ofPid pid).length - 1)

variable {ts : Tenants} {t : Tenant} {pid : Pid} {v : Uuid}

theorem ofThreads_concat (ts : Tenants) (t : Tenant) : ofThreads (ts ++ [t]) =
    ts.ofThreads ++ if t.tid.isSome then [t.uuid] else [] := by
  by_cases h : t.tid.isSome <;> simp [ofThreads, uuids, List.filter_append, h]

theorem ofPid_concat (ts : Tenants) (t : Tenant) (pid : Pid) : ofPid (ts ++ [t]) pid =
    ts.ofPid pid ++ if t.pid = pid ∧ t.tid = none then [t.uuid] else [] := by
  by_cases h : t.pid = pid ∧ t.tid = none <;> simp [ofPid, uuids, List.filter_append, h]

theorem pids_concat (ts : Tenants) (t : Tenant) : pids (ts ++ [t]) = insert t.pid ts.pids := by
  ext pid
  simp [pids]

theorem uuid_of_mem_ofThreads (h : v ∈ ts.ofThreads) : v ∈ ts.uuids := by
  obtain ⟨t, ht, rfl⟩ := List.mem_map.mp h
  exact List.mem_map_of_mem (List.mem_of_mem_filter ht)

theorem uuid_of_mem_ofPid (h : v ∈ ts.ofPid pid) : v ∈ ts.uuids := by
  obtain ⟨t, ht, rfl⟩ := List.mem_map.mp h
  exact List.mem_map_of_mem (List.mem_of_mem_filter ht)

theorem ofPid_eq_nil (h : pid ∉ ts.pids) : ts.ofPid pid = [] := by
  apply List.map_eq_nil_iff.mpr
  refine List.filter_eq_nil_iff.mpr fun t ht hp => h ?_
  simp only [Bool.decide_and, Bool.and_eq_true, decide_eq_true_eq] at hp
  exact List.mem_toFinset.mpr (hp.1 ▸ List.mem_map_of_mem ht)

theorem surplus_concat (ts : Tenants) (t : Tenant) : surplus (ts ++ [t]) =
    ts.surplus + if t.tid = none ∧ ts.ofPid t.pid ≠ [] then 1 else 0 := by
  have step (pid : Pid) : (ofPid (ts ++ [t]) pid).length - 1 = ((ts.ofPid pid).length - 1) +
      if pid = t.pid then if t.tid = none ∧ ts.ofPid t.pid ≠ [] then 1 else 0 else 0 := by
    rw [ofPid_concat]
    by_cases same : pid = t.pid
    · subst same
      cases t.tid with
      | some tid => simp
      | none =>
        cases ts.ofPid t.pid <;> simp
    · simp [same, Ne.symm same]
  have before : ∑ pid ∈ insert t.pid ts.pids, ((ts.ofPid pid).length - 1) = ts.surplus :=
    Finset.sum_insert_of_eq_zero_if_notMem fun absent => by simp [ofPid_eq_nil absent]
  rw [surplus, pids_concat, Finset.sum_congr rfl fun pid _ => step pid, Finset.sum_add_distrib,
    before, Finset.sum_ite_eq', if_pos (Finset.mem_insert_self _ _)]

end Tenants

namespace Estate
variable {e e' : Estate} {ts : Tenants} {t : Tenant} {uuid : Uuid} {pid : Pid} {tid : Tid}

/-- The estate as the tenants left it, if nobody else had a part in it. -/
structure Census (ts : Tenants) (e : Estate) : Prop where
  kept : e.Kept
  threads : e.2.threads.size = ts.ofThreads.length
  manned : ∀ utid, e.2.Holds (.thread utid) → ∃ v ∈ ts.ofThreads, e.1.threadOwner? utid = some v
  owning : ∀ v ∈ ts.ofThreads, ∃! utid, e.1.threadOwner? utid = some v
  owners : ∀ utid v, e.1.threadOwner? utid = some v → v ∈ ts.ofThreads
  housed : ∀ pid, (e.2.currentProcess? pid).isSome ↔ pid ∈ ts.pids
  last : ∀ pid upid, e.2.currentProcess? pid = some upid →
    e.1.processOwner? upid = (ts.ofPid pid).getLast?
  processOwners : ∀ upid v, e.1.processOwner? upid = some v → ∃ pid, v ∈ ts.ofPid pid
  processes : e.2.processes.size = ts.pids.card + ts.surplus

theorem census_start : Census [] start where
  kept := kept_start
  threads := rfl
  manned _ h := by cases h
  owning v h := by cases h
  owners utid v h := by cases h
  housed pid := by simp [start, Lifetimes.currentProcess?, Lifetimes.empty, Tenants.pids]
  last pid upid h := by cases h
  processOwners upid v h := by cases h
  processes := rfl

theorem Census.process (h : Census ts e) (fits : (e.2.process pid).2.Fits) :
    e.1.processOwner? (e.2.process pid).1 = (ts.ofPid pid).getLast? ∧
      (e.2.process pid).2.processes.size = (insert pid ts.pids).card + ts.surplus := by
  rcases Lifetimes.process_cases pid e.2 with ⟨found, same⟩ | ⟨none, started⟩
  · have known := (h.housed pid).mp (Option.isSome_of_eq_some found)
    rw [same, Finset.insert_eq_of_mem known]
    exact ⟨h.last pid _ found, h.processes⟩
  · have unknown : pid ∉ ts.pids := fun known => by
      have housed := (h.housed pid).mpr known
      rw [none] at housed
      cases housed
    rw [started] at fits ⊢
    have fresh : (e.2.startProcess Option.none Option.none pid .null).1.index =
        e.2.processes.size :=
      Handle.index_ofIndex fits.room_startProcess
    refine ⟨?_, ?_⟩
    · rw [Tenants.ofPid_eq_nil unknown, List.getLast?_nil]
      exact h.kept.unowned_process (Nat.le_of_eq fresh.symm)
    · rw [Finset.card_insert_of_notMem unknown]
      simp only [Lifetimes.startProcess, Array.size_push, h.processes]
      omega

section Thread
variable {claim : Claim .thread}

theorem ThreadGranted.processes (g : ThreadGranted uuid pid tid e claim e') :
    e'.2.processes = (e.2.process pid).2.processes ∧
      ∀ other, e'.2.currentProcess? other =
        if other = pid then some (e.2.process pid).1 else e.2.currentProcess? other := by
  have proposed := (Lifetimes.updateThread_processes tid pid e.2).1
  have current := Lifetimes.currentProcess?_updateThread tid pid e.2
  cases hr : claim.reused with
  | false =>
    rw [(g.proposed hr).2]
    exact ⟨proposed, current⟩
  | true =>
    obtain ⟨-, -, processes, currents⟩ := g.restarted hr
    exact ⟨processes.trans proposed, fun other => (congrFun currents other).trans (current other)⟩

theorem ThreadGranted.fits (g : ThreadGranted uuid pid tid e claim e') (fits : e'.2.Fits) :
    (e.2.updateThread tid pid).2.Fits := by
  cases hr : claim.reused with
  | false => exact (g.proposed hr).2 ▸ fits
  | true =>
    obtain ⟨-, size, processes, -⟩ := g.restarted hr
    exact ⟨by have := fits.threads; omega, processes ▸ fits.processes⟩

/-- While every thread has an owner, each claim of a thread starts one. -/
theorem Census.adds (h : Census ts e) (g : ThreadGranted uuid pid tid e claim e')
    (new : uuid ∉ ts.uuids) (fits : e'.2.Fits) :
    claim.entity.index = e.2.threads.size ∧ e'.2.threads.size = e.2.threads.size + 1 := by
  have taken := Lifetimes.takes_updateThread h.kept.filed tid pid (g.fits fits)
  have other {utid : Utid} {v : Uuid} (hv : e.1.threadOwner? utid = some v) : v ≠ uuid := by
    rintro rfl
    exact new (Tenants.uuid_of_mem_ofThreads (h.owners _ _ hv))
  cases hr : claim.reused with
  | false =>
    obtain ⟨entity, lifetimes⟩ := g.proposed hr
    rw [entity, lifetimes]
    cases taken.found with
    | latest newest _ _ =>
      have known := (h.kept.filed.threads _ _).mp (List.mem_of_getLast? newest)
      obtain ⟨v, -, hv⟩ :=
        h.manned _ (Lifetimes.isSome_tidOf?_iff.mp (Option.isSome_of_eq_some known))
      rw [g.reused.mpr ⟨v, hv, other hv⟩] at hr
      cases hr
    | added index size _ => exact ⟨index, size⟩
  | true =>
    obtain ⟨index, size, -, -⟩ := g.restarted hr
    obtain ⟨v, hv, -⟩ := g.reused.mp hr
    have known : (e.2.updateThread tid pid).1.index < e.2.threads.size := h.kept.threads _ v hv
    cases taken.found with
    | latest _ _ same =>
      rw [same] at index size
      exact ⟨index, size⟩
    | added fresh _ _ => omega

theorem Census.owning_thread (h : Census ts e) (g : ThreadGranted uuid pid tid e claim e')
    (new : uuid ∉ ts.uuids) (fresh : claim.entity.index = e.2.threads.size) {v : Uuid}
    (hv : v ∈ ts.ofThreads ++ [uuid]) : ∃! utid, e'.1.threadOwner? utid = some v := by
  rcases List.mem_append.mp hv with old | last
  · obtain ⟨utid, owned, unique⟩ := h.owning v old
    have apart : utid ≠ claim.entity := by
      rintro rfl
      have known : claim.entity.index < e.2.threads.size := h.kept.threads _ v owned
      omega
    refine ⟨utid, (g.owner utid).trans ((if_neg apart).trans owned), fun utid' hu => unique _ ?_⟩
    dsimp only at hu
    rw [g.owner] at hu
    split at hu
    · cases hu
      exact absurd (Tenants.uuid_of_mem_ofThreads old) new
    · exact hu
  · obtain rfl := List.mem_singleton.mp last
    refine ⟨claim.entity, (g.owner _).trans (if_pos rfl), fun utid hu => ?_⟩
    dsimp only at hu
    rw [g.owner] at hu
    split at hu
    next same => exact same
    next => exact absurd (Tenants.uuid_of_mem_ofThreads (h.owners utid v hu)) new

theorem Census.thread (h : Census ts e) (g : ThreadGranted uuid pid tid e claim e')
    (new : uuid ∉ ts.uuids) (kept : e'.Kept) (fits : e'.2.Fits) :
    Census (ts ++ [⟨uuid, pid, some tid⟩]) e' := by
  obtain ⟨index, size⟩ := h.adds g new fits
  obtain ⟨processes, current⟩ := g.processes
  have housed : (e.2.process pid).2.Fits := (g.fits fits).of_grows (by
    rw [Lifetimes.updateThread_eq]
    exact (Lifetimes.grows_pick tid _ _).trans (Lifetimes.grows_associate _ _ _))
  obtain ⟨owner, count⟩ := h.process housed
  have processOwner (upid : Upid) : e'.1.processOwner? upid = e.1.processOwner? upid := by
    rw [Owners.processOwner?, g.others]
    rfl
  have ofPid (pid' : Pid) : Tenants.ofPid (ts ++ [⟨uuid, pid, some tid⟩]) pid' = ts.ofPid pid' := by
    simp [Tenants.ofPid_concat]
  have ofThreads : Tenants.ofThreads (ts ++ [⟨uuid, pid, some tid⟩]) = ts.ofThreads ++ [uuid] := by
    simp [Tenants.ofThreads_concat]
  constructor
  case kept => exact kept
  case threads => rw [size, h.threads, ofThreads, List.length_append, List.length_singleton]
  case manned =>
    intro utid holds
    rw [g.owner]
    by_cases same : utid = claim.entity
    · exact ⟨uuid, by simp [ofThreads], if_pos same⟩
    · -- Any other thread was there before, and has the owner that it had.
      have old : e.2.Holds (.thread utid) := by
        have holds : utid.index < e'.2.threads.size := holds
        have apart := mt Handle.index_inj.mp same
        change utid.index < _
        omega
      obtain ⟨v, mem, hv⟩ := h.manned utid old
      exact ⟨v, by simp [ofThreads, mem], (if_neg same).trans hv⟩
  case owning => exact fun v hv => h.owning_thread g new index (ofThreads ▸ hv)
  case owners =>
    intro utid v hv
    rw [g.owner] at hv
    rw [ofThreads, List.mem_append, List.mem_singleton]
    split at hv
    · exact .inr (Option.some.inj hv).symm
    · exact .inl (h.owners utid v hv)
  case housed =>
    intro pid'
    rw [current, Tenants.pids_concat, Finset.mem_insert, ← h.housed]
    by_cases same : pid' = pid <;> simp [same]
  case last =>
    intro pid' upid hc
    rw [current] at hc
    rw [processOwner, ofPid]
    split at hc
    next same =>
      cases hc
      exact same ▸ owner
    next => exact h.last pid' upid hc
  case processOwners =>
    intro upid v hv
    rw [processOwner] at hv
    obtain ⟨pid', mem⟩ := h.processOwners upid v hv
    exact ⟨pid', ofPid pid' ▸ mem⟩
  case processes =>
    rw [processes, count, Tenants.pids_concat, Tenants.surplus_concat]
    simp

end Thread

section Process
variable {claim : Claim .process}

/-- A claim of a process is a reuse unless it is the first of its pid. -/
theorem Census.reused_iff (h : Census ts e) (g : ProcessGranted uuid pid e claim e')
    (new : uuid ∉ ts.uuids) (fits : (e.2.process pid).2.Fits) :
    claim.reused = true ↔ ts.ofPid pid ≠ [] := by
  rw [g.reused, (h.process fits).1]
  constructor
  · rintro ⟨v, hv, -⟩ none
    rw [none] at hv
    cases hv
  · intro some
    refine ⟨_, List.getLast?_eq_some_getLast some, ?_⟩
    intro same
    exact new (Tenants.uuid_of_mem_ofPid (same ▸ List.getLast_mem some))

theorem ProcessGranted.fits (g : ProcessGranted uuid pid e claim e') (fits : e'.2.Fits) :
    (e.2.process pid).2.Fits := by
  have threads : (e.2.process pid).2.threads = e.2.threads := (Lifetimes.threads_process pid e.2).1
  refine ⟨threads ▸ g.others.2.1 ▸ fits.threads, ?_⟩
  cases hr : claim.reused with
  | false => exact (g.proposed hr).2 ▸ fits.processes
  | true =>
    have := fits.processes
    have := (g.restarted hr).2
    omega

theorem Census.last_house (h : Census ts e) (g : ProcessGranted uuid pid e claim e')
    (kept : e'.Kept) {pid' : Pid} {upid : Upid} (current : e'.2.currentProcess? pid' = some upid) :
    e'.1.processOwner? upid = (Tenants.ofPid (ts ++ [⟨uuid, pid, none⟩]) pid').getLast? := by
  have located := kept.filed.current pid' upid current
  rw [g.current] at current
  rw [g.owner, Tenants.ofPid_concat]
  by_cases same : pid' = pid
  · rw [if_pos same] at current
    cases current
    simp [same]
  · -- No process is the current one of two pids.
    rw [if_neg same] at current
    have apart : upid ≠ claim.entity := by
      rintro rfl
      rw [g.entry] at located
      exact same (Option.some.inj located).symm
    rw [if_neg apart, if_neg (by simp [Ne.symm same]), List.append_nil]
    exact h.last pid' upid current

theorem Census.processes_house (h : Census ts e) (g : ProcessGranted uuid pid e claim e')
    (new : uuid ∉ ts.uuids) (fits : e'.2.Fits) : e'.2.processes.size =
      (Tenants.pids (ts ++ [⟨uuid, pid, none⟩])).card +
        Tenants.surplus (ts ++ [⟨uuid, pid, none⟩]) := by
  obtain ⟨-, count⟩ := h.process (g.fits fits)
  have reused := h.reused_iff g new (g.fits fits)
  rw [Tenants.pids_concat, Tenants.surplus_concat]
  cases hr : claim.reused with
  | false =>
    have first : ts.ofPid pid = [] := by
      apply Classical.byContradiction
      intro some
      rw [reused.mpr some] at hr
      cases hr
    rw [(g.proposed hr).2, count]
    simp [first]
  | true =>
    rw [(g.restarted hr).2, count]
    simp [reused.mp hr]
    omega

theorem Census.house (h : Census ts e) (g : ProcessGranted uuid pid e claim e')
    (new : uuid ∉ ts.uuids) (kept : e'.Kept) (fits : e'.2.Fits) :
    Census (ts ++ [⟨uuid, pid, none⟩]) e' := by
  obtain ⟨sameOwners, sameThreads, -⟩ := g.others
  have threadOwner (utid : Utid) : e'.1.threadOwner? utid = e.1.threadOwner? utid := by
    rw [Owners.threadOwner?, sameOwners]
    rfl
  have ofThreads : Tenants.ofThreads (ts ++ [⟨uuid, pid, none⟩]) = ts.ofThreads := by
    simp [Tenants.ofThreads_concat]
  constructor
  case kept => exact kept
  case threads => rw [sameThreads, h.threads, ofThreads]
  case manned =>
    intro utid holds
    rw [threadOwner, ofThreads]
    exact h.manned utid (by rwa [Lifetimes.Holds, sameThreads] at holds)
  case owning => simpa only [threadOwner, ofThreads] using h.owning
  case owners => simpa only [threadOwner, ofThreads] using h.owners
  case housed =>
    intro pid'
    rw [g.current, Tenants.pids_concat, Finset.mem_insert, ← h.housed]
    by_cases same : pid' = pid <;> simp [same]
  case last => exact fun _ _ => h.last_house g kept
  case processOwners =>
    intro upid v hv
    rw [g.owner] at hv
    split at hv
    · cases hv
      exact ⟨pid, by simp [Tenants.ofPid_concat]⟩
    · obtain ⟨pid', mem⟩ := h.processOwners upid v hv
      exact ⟨pid', by simp [Tenants.ofPid_concat, mem]⟩
  case processes => exact h.processes_house g new fits

end Process

theorem Census.take (h : Census ts e) (new : t.uuid ∉ ts.uuids) (fits : (e.take t.affair).2.Fits) :
    Census (ts ++ [t]) (e.take t.affair) := by
  obtain ⟨uuid, pid, tid⟩ := t
  cases tid with
  | some tid =>
    obtain ⟨claim, e', granted, kept, -, g⟩ := claimThread_granted h.kept fits
    simp only [Tenant.affair, Estate.take, granted, left] at fits ⊢
    exact h.thread g new kept fits
  | none =>
    obtain ⟨claim, e', granted, kept, -, g⟩ := claimProcess_granted h.kept fits
    simp only [Tenant.affair, Estate.take, granted, left] at fits ⊢
    exact h.house g new kept fits

theorem census (ts : Tenants) (distinct : ts.uuids.Nodup)
    (fits : (start.after (ts.map Tenant.affair)).2.Fits) :
    Census ts (start.after (ts.map Tenant.affair)) := by
  induction ts using List.reverseRecOn with
  | nil => exact census_start
  | append_singleton ts t ih =>
    simp only [Tenants.uuids, List.map_append, List.map_cons, List.map_nil, List.nodup_append,
      after_append, after_cons] at distinct fits ⊢
    have before := ih distinct.1 (fits.of_grows (grows_take _ _))
    refine before.take (fun mem => ?_) fits
    exact distinct.2.2 _ mem _ (List.mem_singleton_self _) rfl

/-- A thread stays in the process that was current when it was claimed, which is that of the last
one who had claimed a process of its pid by then. -/
theorem home_of_tenant {before after : Tenants} {last : Uuid} (ht : t.tid = some tid)
    (distinct : Tenants.uuids (before ++ t :: after) |>.Nodup)
    (fits : (start.after ((before ++ t :: after).map Tenant.affair)).2.Fits)
    (hlast : (before.ofPid t.pid).getLast? = some last) :
    ∃ utid upid,
      (start.after ((before ++ t :: after).map Tenant.affair)).1.threadOwner? utid = some t.uuid ∧
      (start.after ((before ++ t :: after).map Tenant.affair)).2.homeOf? utid = some upid ∧
      (start.after ((before ++ t :: after).map Tenant.affair)).1.processOwner? upid =
        some last := by
  simp only [Tenants.uuids, List.map_append, List.map_cons, List.nodup_append, after_append,
    after_cons] at distinct fits ⊢
  have fits₁ := fits.of_grows (grows_after _ (after.map Tenant.affair))
  have old := census before distinct.1 (fits₁.of_grows (grows_take _ _))
  generalize start.after (before.map Tenant.affair) = e at *
  obtain ⟨uuid, pid, tid'⟩ := t
  subst ht
  simp only [Tenant.affair] at fits fits₁ ⊢
  obtain ⟨claim, e', granted, kept, -, g⟩ := claimThread_granted old.kept fits₁
  simp only [take, granted, left] at fits fits₁ ⊢
  obtain ⟨life, upid, hl, -, hu, current⟩ := g.entry
  have home : e'.2.homeOf? claim.entity = some upid := by rw [Lifetimes.homeOf?, hl]; exact hu
  have new : uuid ∉ before.uuids := fun mem =>
    distinct.2.2 uuid mem uuid List.mem_cons_self rfl
  have owner := (old.thread g new kept fits₁).last pid upid current
  rw [Tenants.ofPid_concat, if_neg (by simp), List.append_nil, hlast] at owner
  have upholds := (kept.after (after.map Tenant.affair) fits).2
  exact ⟨claim.entity, upid, upholds.threads _ _ ((g.owner _).trans (if_pos rfl)),
    upholds.recalls.homes _ _ home, upholds.processes _ _ owner⟩

end Estate
end TraceTracks
