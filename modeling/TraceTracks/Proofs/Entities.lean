import TraceTracks.Proofs.Effects

/-! How a uuid comes to own an entity and its primary track. -/
namespace TraceTracks

namespace Owners
variable {β α : Type}

theorem ask_ok (f : β → α × β) (o : Owners) (b : β) :
    (ask f : Claiming β α) (o, b) = .ok (f b).1 (o, (f b).2) := rfl

variable [LifetimeSource β]

theorem claimThread_eq (uuid : Uuid) (pid : Pid) (tid : Tid) (o : Owners) (b : β) :
    claimThread uuid pid tid (o, b) =
      let first := LifetimeSource.updateThread tid pid b
      let fresh := LifetimeSource.startThread none tid first.2
      let again := LifetimeSource.updateThread tid pid fresh.2
      match o.threadOwner? first.1 with
      | none => .ok ⟨first.1, false⟩ (o.ownThread first.1 uuid, first.2)
      | some owner =>
        if owner = uuid then .ok ⟨first.1, false⟩ (o, first.2)
        else bif again.1 == fresh.1 then .ok ⟨fresh.1, true⟩ (o.ownThread fresh.1 uuid, again.2)
        else .error (mismatch again.1 fresh.1 tid) (o, again.2) := by
  unfold claimThread
  rw [Act.bind_ok (ask_ok _ o b), Act.bind_ok (Act.get_ok _)]
  dsimp only
  cases o.threadOwner? (LifetimeSource.updateThread tid pid b).1 with
  | none => rfl
  | some owner =>
    dsimp only
    split
    · rfl
    rw [Act.bind_ok (ask_ok _ o _), Act.bind_ok (ask_ok _ o _)]
    split
    next h =>
      rw [beq_false_of_ne h]
      rfl
    next h =>
      rw [beq_iff_eq.mpr (Classical.not_not.mp h)]
      rfl

theorem claimProcess_eq (uuid : Uuid) (pid : Pid) (o : Owners) (b : β) :
    claimProcess uuid pid (o, b) =
      let first := LifetimeSource.process pid b
      let fresh := LifetimeSource.startProcess none none pid .null first.2
      match o.processOwner? first.1 with
      | none => .ok ⟨first.1, false⟩ (o.ownProcess first.1 uuid, first.2)
      | some owner =>
        if owner = uuid then .ok ⟨first.1, false⟩ (o, first.2)
        else .ok ⟨fresh.1, true⟩ (o.ownProcess fresh.1 uuid, fresh.2) := by
  unfold claimProcess
  rw [Act.bind_ok (ask_ok _ o b), Act.bind_ok (Act.get_ok _)]
  dsimp only
  cases o.processOwner? (LifetimeSource.process pid b).1 with
  | none => rfl
  | some owner =>
    dsimp only
    split
    · rfl
    · rw [Act.bind_ok (ask_ok _ o _)]
      rfl

end Owners

namespace Act
variable {β α : Type} {f : Claiming β α} {c : Catalog β} {o : Owners} {b : β}

theorem claim_ok {a : α} (h : f (c.owners, c.backend) = .ok a (o, b)) :
    claim f c = .ok a { c with owners := o, backend := b } := by
  simp only [claim, h]

theorem claim_error {e : Fault} (h : f (c.owners, c.backend) = .error e (o, b)) :
    claim f c = .error e { c with owners := o, backend := b } := by
  simp only [claim, h]

end Act

/-- What the shape of a descriptor says about its track, given its parent's. -/
def Placement.Suits (p : Placement) (shape : Shape) (parent : Option Placement) : Prop :=
  match shape.pid, shape.tid with
  | some _, some _ => (∃ utid, p.scope = .thread utid) ∧ p.flavor = .slice
  | some _, none => (∃ upid, p.scope = .process upid) ∧ p.flavor = .slice
  | none, _ =>
    p.scope = (parent.bind childScope).getD .global ∧ p.flavor = .ofIsCounter shape.isCounter

namespace Session
open Catalog (createTrack claimThreadTrack claimProcessTrack situate settle)

section Claim
variable {c : Session} {uuid : Uuid}

def withLifetimes (c : Session) (l : Lifetimes) : Session := { c with backend.lifetimes := l }

def withOwner (c : Session) (uuid : Uuid) : Scope → Session
  | .global => c
  | .thread utid => { c with owners := c.owners.ownThread utid uuid }
  | .process upid => { c with owners := c.owners.ownProcess upid uuid }

def withPrimary (c : Session) : Scope → Session
  | .global => c
  | .thread utid =>
    { c.withRow (.thread utid) .slice with
      backend.store.tracks.ofThread :=
        c.backend.store.tracks.ofThread.insert utid (Handle.ofIndex c.rows.size) }
  | .process upid =>
    { c.withRow (.process upid) .slice with
      backend.store.tracks.ofProcess :=
        c.backend.store.tracks.ofProcess.insert upid (Handle.ofIndex c.rows.size) }

theorem owner?_withOwner {s : Scope} (h : s ≠ .global) (c : Session) (uuid : Uuid) (s' : Scope) :
    (c.withOwner uuid s).owner? s' = if s' = s then some uuid else c.owner? s' := by
  cases s <;> cases s' <;>
    simp_all [withOwner, owner?, Owners.threadOwner?, Owners.processOwner?, Owners.ownThread,
      Owners.ownProcess, Registry.get?_insert]

theorem primary?_withPrimary {s : Scope} (h : s ≠ .global) (c : Session) (s' : Scope) :
    (c.withPrimary s).primary? s' =
      if s' = s then some (Handle.ofIndex c.rows.size) else c.primary? s' := by
  cases s <;> cases s' <;>
    simp_all [withPrimary, withRow, primary?, Tracks.threadTrack?, Tracks.processTrack?,
      Tracks.create, Registry.get?_insert]

theorem rows_withPrimary {s : Scope} (h : s ≠ .global) (c : Session) :
    (c.withPrimary s).rows = c.rows.push ⟨Handle.ofIndex c.rows.size, .null, s, .slice⟩ := by
  cases s
  · exact absurd rfl h
  · rfl
  · rfl

theorem claimThread_eq (uuid : Uuid) (pid : Pid) (tid : Tid) (c : Session) :
    Act.claim (Owners.claimThread uuid pid tid) c =
      let first := c.backend.lifetimes.updateThread tid pid
      let fresh := first.2.startThread none tid
      let again := fresh.2.updateThread tid pid
      match c.owner? (.thread first.1) with
      | none =>
        .ok ⟨first.1, false⟩ ((c.withLifetimes first.2).withOwner uuid (.thread first.1))
      | some owner =>
        if owner = uuid then .ok ⟨first.1, false⟩ (c.withLifetimes first.2)
        else bif again.1 == fresh.1 then
          .ok ⟨fresh.1, true⟩ ((c.withLifetimes again.2).withOwner uuid (.thread fresh.1))
        else .error (Owners.mismatch again.1 fresh.1 tid) (c.withLifetimes again.2) := by
  have h := Owners.claimThread_eq uuid pid tid c.owners c.backend
  simp only [LifetimeSource.updateThread, LifetimeSource.startThread, Backend.onLifetimes] at h
  simp only [owner?]
  generalize c.backend.lifetimes.updateThread tid pid = first at *
  generalize first.2.startThread none tid = fresh at *
  generalize fresh.2.updateThread tid pid = again at *
  cases ho : c.owners.threadOwner? first.1 with
  | none =>
    rw [ho] at h
    exact Act.claim_ok h
  | some owner =>
    rw [ho] at h
    dsimp only at h ⊢
    by_cases hu : owner = uuid
    · rw [if_pos hu] at h ⊢
      exact Act.claim_ok h
    rw [if_neg hu] at h ⊢
    cases hm : again.1 == fresh.1 with
    | true =>
      rw [hm] at h
      exact Act.claim_ok h
    | false =>
      rw [hm] at h
      exact Act.claim_error h
theorem claimProcess_eq (uuid : Uuid) (pid : Pid) (c : Session) :
    Act.claim (Owners.claimProcess uuid pid) c =
      let first := c.backend.lifetimes.process pid
      let fresh := first.2.startProcess none none pid .null
      match c.owner? (.process first.1) with
      | none =>
        .ok ⟨first.1, false⟩ ((c.withLifetimes first.2).withOwner uuid (.process first.1))
      | some owner =>
        if owner = uuid then .ok ⟨first.1, false⟩ (c.withLifetimes first.2)
        else .ok ⟨fresh.1, true⟩ ((c.withLifetimes fresh.2).withOwner uuid (.process fresh.1)) := by
  unfold Act.claim
  rw [Owners.claimProcess_eq]
  simp only [owner?, LifetimeSource.process, LifetimeSource.startProcess, Backend.onLifetimes]
  cases c.owners.processOwner? (c.backend.lifetimes.process pid).1 with
  | none => rfl
  | some owner =>
    dsimp only
    by_cases ho : owner = uuid
    · rw [if_pos ho, if_pos ho]
      rfl
    · rw [if_neg ho, if_neg ho]
      rfl

/-- Entities that are owned were handed out, and only they have a primary track. -/
structure Entities (c : Session) : Prop where
  lifetimes : c.backend.lifetimes.Sound
  known : ∀ s v, c.owner? s = some v → c.backend.lifetimes.Holds s
  primary : ∀ s id, c.primary? s = some id → (c.owner? s).isSome

structure Unclaimed (c : Session) (l : Lifetimes) (s : Scope) : Prop where
  entity : s ≠ .global
  unowned : c.owner? s = none
  holds : l.Holds s
  grows : c.backend.lifetimes.Grows l
  sound : l.Sound

theorem Entities.unowned_of_not_holds {s : Scope} (h : c.Entities)
    (hs : ¬c.backend.lifetimes.Holds s) : c.owner? s = none :=
  Option.eq_none_iff_forall_ne_some.mpr fun v hv => hs (h.known s v hv)

theorem claimThread_ok {pid : Pid} {tid : Tid} (h : c.Entities)
    (free : c.owner? (.thread (c.backend.lifetimes.updateThread tid pid).1) ≠ some uuid)
    (fits : (left (Act.claim (Owners.claimThread uuid pid tid) c)).Fits) :
    ∃ utid reused l, Unclaimed c l (.thread utid) ∧
      Act.claim (Owners.claimThread uuid pid tid) c =
        .ok ⟨utid, reused⟩ ((c.withLifetimes l).withOwner uuid (.thread utid)) := by
  have first := Lifetimes.grows_updateThread tid pid c.backend.lifetimes
  have sound := h.lifetimes.updateThread tid pid
  rw [claimThread_eq] at fits ⊢
  dsimp only at fits ⊢
  cases ho : c.owner? (.thread (c.backend.lifetimes.updateThread tid pid).1) with
  | none =>
    exact ⟨_, _, _, ⟨Scope.noConfusion, ho, Lifetimes.holds_updateThread tid pid _, first, sound⟩,
      rfl⟩
  | some owner =>
    have hne : owner ≠ uuid := by
      rintro rfl
      exact free ho
    rw [ho] at fits
    simp only [if_neg hne] at fits ⊢
    generalize (c.backend.lifetimes.updateThread tid pid).2 = l at *
    have fresh := Lifetimes.grows_startThread none tid l
    have again := Lifetimes.grows_updateThread tid pid (l.startThread none tid).2
    -- Had another thread come back, there would be no room for the one just started.
    have room : l.threads.size < UInt32.size := by
      apply Lifetimes.size_lt_of_updateThread_startThread
      cases hm : ((l.startThread none tid).2.updateThread tid pid).1 ==
          (l.startThread none tid).1 <;> rw [hm] at fits <;> exact fits.threads
    have same := Lifetimes.updateThread_startThread tid pid l room
    rw [beq_iff_eq.mpr same]
    have unowned : c.owner? (.thread (l.startThread none tid).1) = none := by
      apply h.unowned_of_not_holds
      change ¬(Handle.ofIndex l.threads.size : Utid).index < _
      rw [Handle.index_ofIndex room]
      exact Nat.not_lt.mpr first.threads
    exact ⟨_, _, _, ⟨Scope.noConfusion, unowned,
      again.holds (Lifetimes.holds_startThread none tid l),
      first.trans (fresh.trans again), (sound.startThread none tid).updateThread tid pid⟩, rfl⟩

theorem claimProcess_ok {pid : Pid} (h : c.Entities)
    (free : c.owner? (.process (c.backend.lifetimes.process pid).1) ≠ some uuid)
    (fits : (left (Act.claim (Owners.claimProcess uuid pid) c)).Fits) :
    ∃ upid reused l, Unclaimed c l (.process upid) ∧
      Act.claim (Owners.claimProcess uuid pid) c =
        .ok ⟨upid, reused⟩ ((c.withLifetimes l).withOwner uuid (.process upid)) := by
  have first := Lifetimes.grows_process pid c.backend.lifetimes
  have sound := h.lifetimes.process pid
  have holds := h.lifetimes.holds_process pid
  rw [claimProcess_eq] at fits ⊢
  dsimp only at fits ⊢
  cases ho : c.owner? (.process (c.backend.lifetimes.process pid).1) with
  | none => exact ⟨_, _, _, ⟨Scope.noConfusion, ho, holds, first, sound⟩, rfl⟩
  | some owner =>
    have hne : owner ≠ uuid := by
      rintro rfl
      exact free ho
    rw [ho] at fits
    simp only [if_neg hne] at fits ⊢
    generalize (c.backend.lifetimes.process pid).2 = l at *
    have fresh := Lifetimes.grows_startProcess none none pid .null l
    have room : l.processes.size < UInt32.size := by
      have hsize : (l.startProcess none none pid .null).2.processes.size =
          l.processes.size + 1 := by
        simp [Lifetimes.startProcess]
      have hfits : (l.startProcess none none pid .null).2.processes.size ≤ UInt32.size :=
        fits.processes
      omega
    have unowned : c.owner? (.process (l.startProcess none none pid .null).1) = none := by
      apply h.unowned_of_not_holds
      change ¬(Handle.ofIndex l.processes.size : Upid).index < _
      rw [Handle.index_ofIndex room]
      exact Nat.not_lt.mpr first.processes
    exact ⟨_, _, _, ⟨Scope.noConfusion, unowned, Lifetimes.holds_startProcess none none pid .null l,
      first.trans fresh, sound.startProcess none none pid .null⟩, rfl⟩

end Claim

section Growing

theorem growing_claimThread (uuid : Uuid) (pid : Pid) (tid : Tid) :
    Growing (Act.claim (Owners.claimThread uuid pid tid)) := by
  intro c
  have first := Lifetimes.grows_updateThread tid pid c.backend.lifetimes
  rw [claimThread_eq]
  dsimp only
  generalize c.backend.lifetimes.updateThread tid pid = l at *
  have again := (Lifetimes.grows_startThread none tid l.2).trans
    (Lifetimes.grows_updateThread tid pid (l.2.startThread none tid).2)
  generalize l.2.startThread none tid = fresh at *
  cases c.owner? (.thread l.1) with
  | none => exact ⟨Nat.le_refl _, first⟩
  | some owner =>
    dsimp only
    split
    · exact ⟨Nat.le_refl _, first⟩
    cases (fresh.2.updateThread tid pid).1 == fresh.1 <;>
      exact ⟨Nat.le_refl _, first.trans again⟩

theorem growing_claimProcess (uuid : Uuid) (pid : Pid) :
    Growing (Act.claim (Owners.claimProcess uuid pid)) := by
  intro c
  have first := Lifetimes.grows_process pid c.backend.lifetimes
  rw [claimProcess_eq]
  generalize c.backend.lifetimes.process pid = l at *
  have fresh := Lifetimes.grows_startProcess none none pid .null l.2
  dsimp only
  cases c.owner? (.process l.1) with
  | none => exact ⟨Nat.le_refl _, first⟩
  | some owner =>
    dsimp only
    split
    · exact ⟨Nat.le_refl _, first⟩
    · exact ⟨Nat.le_refl _, first.trans fresh⟩

theorem growing_threadTrack (utid : Utid) :
    Growing (Act.onBackend (TrackSink.threadTrack utid)) := by
  intro c
  refine ⟨?_, .refl _⟩
  change c.backend.store.tracks.rows.size ≤ (c.backend.store.tracks.threadTrack utid).2.rows.size
  unfold Tracks.threadTrack
  split
  · exact Nat.le_refl _
  · simp [Tracks.create]

theorem growing_processTrack (upid : Upid) :
    Growing (Act.onBackend (TrackSink.processTrack upid)) := by
  intro c
  refine ⟨?_, .refl _⟩
  change c.backend.store.tracks.rows.size ≤ (c.backend.store.tracks.processTrack upid).2.rows.size
  unfold Tracks.processTrack
  split
  · exact Nat.le_refl _
  · simp [Tracks.create]

def threadClaimed (claim : Claim .thread) : Act Trace Placement := do
  if claim.reused then
    modify (Catalog.count .tidReuse)
  let track ← Act.onBackend (TrackSink.threadTrack claim.entity)
  return ⟨track, .thread claim.entity, .slice⟩

def processClaimed (claim : Claim .process) : Act Trace Placement := do
  if claim.reused then
    modify (Catalog.count .pidReuse)
  let track ← Act.onBackend (TrackSink.processTrack claim.entity)
  return ⟨track, .process claim.entity, .slice⟩

theorem growing_threadClaimed (claim : Claim .thread) : Growing (threadClaimed claim) := by
  have tail := (growing_threadTrack claim.entity).bind fun track =>
    growing_pure (⟨track, .thread claim.entity, .slice⟩ : Placement)
  unfold threadClaimed
  split
  · exact (growing_modify (grows_count .tidReuse)).bind fun _ => tail
  · exact tail

theorem growing_processClaimed (claim : Claim .process) : Growing (processClaimed claim) := by
  have tail := (growing_processTrack claim.entity).bind fun track =>
    growing_pure (⟨track, .process claim.entity, .slice⟩ : Placement)
  unfold processClaimed
  split
  · exact (growing_modify (grows_count .pidReuse)).bind fun _ => tail
  · exact tail

theorem claimThreadTrack_eq_bind (uuid : Uuid) (pid : Pid) (tid : Tid) :
    (claimThreadTrack uuid pid tid : Act Trace Placement) =
      Act.claim (Owners.claimThread uuid pid tid) >>= threadClaimed := rfl

theorem claimProcessTrack_eq_bind (uuid : Uuid) (pid : Pid) :
    (claimProcessTrack uuid pid : Act Trace Placement) =
      Act.claim (Owners.claimProcess uuid pid) >>= processClaimed := rfl

theorem growing_situate (uuid : Uuid) (r : Reservation) (parent : Option Placement) :
    Growing (situate uuid r parent) := by
  unfold situate
  split
  · exact (growing_claimThread _ _ _).bind growing_threadClaimed
  · exact (growing_claimProcess _ _).bind growing_processClaimed
  · exact growing_createTrack _ _

theorem growing_settle (uuid : Uuid) (r : Reservation) (parent : Option Placement) :
    Growing (settle uuid r parent) :=
  (growing_situate uuid r parent).bind fun p => growing_record uuid r p parent

end Growing

section Situate

/-- What making the row of a uuid does. Nothing is remembered yet. -/
structure Situated (c : Session) (uuid : Uuid) (r : Reservation) (parent : Option Placement)
    (p : Placement) (c₁ : Session) : Prop where
  track : p.track = Handle.ofIndex c.rows.size
  suits : p.Suits r.toShape parent
  rows : c₁.rows = c.rows.push ⟨p.track, .null, p.scope, p.flavor⟩
  args : c₁.backend.store.args = c.backend.store.args
  settings : c₁.settings = c.settings
  vocabulary : c₁.vocabulary = c.vocabulary
  reservations : c₁.reservations = c.reservations
  placements : c₁.placements = c.placements
  errors : ∀ a, a.isError → c₁.countOf a = c.countOf a
  unowned : r.pid.isSome → c.owner? p.scope = none
  owner : ∀ s, c₁.owner? s = if r.pid.isSome ∧ s = p.scope then some uuid else c.owner? s
  primary : ∀ s, c₁.primary? s = if r.pid.isSome ∧ s = p.scope then some p.track else c.primary? s
  entities : c₁.Entities

variable {c : Session} {uuid : Uuid} {r : Reservation} {parent : Option Placement}

def claimed (c : Session) (uuid : Uuid) (l : Lifetimes) (s : Scope) (tally : Tally) : Session :=
  (((c.withLifetimes l).withOwner uuid s).withTally tally).withPrimary s

theorem situated_claimed {l : Lifetimes} {s : Scope} (h : Unclaimed c l s) (entities : c.Entities)
    {tally : Tally} (errors : ∀ a, a.isError → tally.get a = c.countOf a) (hpid : r.pid.isSome)
    (suits : Placement.Suits ⟨Handle.ofIndex c.rows.size, s, .slice⟩ r.toShape parent) :
    Situated c uuid r parent ⟨Handle.ofIndex c.rows.size, s, .slice⟩
      (c.claimed uuid l s tally) := by
  have hs := h.entity
  have owner (s' : Scope) : (c.claimed uuid l s tally).owner? s' =
      if r.pid.isSome ∧ s' = s then some uuid else c.owner? s' := by
    simp only [hpid, true_and]
    rw [← owner?_withOwner hs c uuid s']
    cases s <;> rfl
  have primary (s' : Scope) : (c.claimed uuid l s tally).primary? s' =
      if r.pid.isSome ∧ s' = s then some (Handle.ofIndex c.rows.size) else c.primary? s' := by
    simp only [hpid, true_and]
    rw [← primary?_withPrimary hs c s']
    cases s <;> rfl
  have lifetimes : (c.claimed uuid l s tally).backend.lifetimes = l := by
    cases s <;> rfl
  constructor
  case track => rfl
  case suits => exact suits
  case rows =>
    refine (rows_withPrimary hs _).trans ?_
    cases s <;> rfl
  case args => cases s <;> rfl
  case settings => cases s <;> rfl
  case vocabulary => cases s <;> rfl
  case reservations => cases s <;> rfl
  case placements => cases s <;> rfl
  case errors =>
    intro a ha
    rw [← errors a ha]
    cases s <;> rfl
  case unowned => exact fun _ => h.unowned
  case owner => exact owner
  case primary => exact primary
  case entities =>
    constructor
    · rw [lifetimes]
      exact h.sound
    · intro s' v hv
      rw [lifetimes]
      rw [owner] at hv
      split at hv
      next hc => exact hc.2 ▸ h.holds
      next => exact h.grows.holds (entities.known s' v hv)
    · intro s' id hid
      rw [primary] at hid
      rw [owner]
      split at hid
      next hc => simp [hc]
      next hc =>
        rw [if_neg hc]
        exact entities.primary s' id hid

theorem threadTrack_ok {utid : Utid} (h : c.primary? (.thread utid) = none) :
    (Act.onBackend (TrackSink.threadTrack utid) : Act Trace TrackId) c =
      .ok (Handle.ofIndex c.rows.size) (c.withPrimary (.thread utid)) := by
  have h : c.backend.store.tracks.threadTrack? utid = none := h
  simp only [Act.onBackend, TrackSink.threadTrack, Backend.onStore, Store.threadTrack,
    Tracks.threadTrack, h]
  rfl

theorem processTrack_ok {upid : Upid} (h : c.primary? (.process upid) = none) :
    (Act.onBackend (TrackSink.processTrack upid) : Act Trace TrackId) c =
      .ok (Handle.ofIndex c.rows.size) (c.withPrimary (.process upid)) := by
  have h : c.backend.store.tracks.processTrack? upid = none := h
  simp only [Act.onBackend, TrackSink.processTrack, Backend.onStore, Store.processTrack,
    Tracks.processTrack, h]
  rfl

/-- What nobody owns has no primary track. -/
theorem Entities.primary?_eq_none (h : c.Entities) {s : Scope} (hs : c.owner? s = none) :
    c.primary? s = none := by
  apply Option.eq_none_iff_forall_ne_some.mpr
  intro id hid
  have howned := h.primary s id hid
  rw [hs] at howned
  cases howned

theorem threadClaimed_ok {claim : Claim .thread} (h : c.primary? (.thread claim.entity) = none) :
    threadClaimed claim c = .ok ⟨Handle.ofIndex c.rows.size, .thread claim.entity, .slice⟩
      ((c.withTally (if claim.reused then c.backend.store.tally.count .tidReuse
        else c.backend.store.tally)).withPrimary (.thread claim.entity)) := by
  obtain ⟨utid, reused⟩ := claim
  cases reused with
  | false => exact Act.bind_ok (threadTrack_ok h) _
  | true =>
    have counted : (modify (Catalog.count .tidReuse) : Act Trace PUnit) c =
        .ok ⟨⟩ (c.count .tidReuse) := rfl
    refine (Act.bind_ok counted _).trans ?_
    refine Act.bind_ok ?_ _
    exact threadTrack_ok h

theorem claimThreadTrack_ok {pid : Pid} {tid : Tid} (entities : c.Entities)
    (free : c.owner? (.thread (c.backend.lifetimes.updateThread tid pid).1) ≠ some uuid)
    (fits : (left (claimThreadTrack uuid pid tid c)).Fits) :
    ∃ utid l tally, Unclaimed c l (.thread utid) ∧
      (∀ a, a.isError → tally.get a = c.countOf a) ∧
      claimThreadTrack uuid pid tid c = .ok ⟨Handle.ofIndex c.rows.size, .thread utid, .slice⟩
        (c.claimed uuid l (.thread utid) tally) := by
  rw [claimThreadTrack_eq_bind] at fits ⊢
  obtain ⟨utid, reused, l, h, claim⟩ := claimThread_ok entities free
    (fits.of_grows (left_bind_grows growing_threadClaimed c))
  have hprimary : ((c.withLifetimes l).withOwner uuid (.thread utid)).primary? (.thread utid) =
      none :=
    entities.primary?_eq_none h.unowned
  refine ⟨utid, l, _, h, ?_, (Act.bind_ok claim _).trans (threadClaimed_ok hprimary)⟩
  intro a ha
  cases reused with
  | false => rfl
  | true =>
    refine (Tally.get_count _ _ _).trans (if_neg ?_)
    rintro rfl
    cases ha

theorem processClaimed_ok {claim : Claim .process} (h : c.primary? (.process claim.entity) = none) :
    processClaimed claim c = .ok ⟨Handle.ofIndex c.rows.size, .process claim.entity, .slice⟩
      ((c.withTally (if claim.reused then c.backend.store.tally.count .pidReuse
        else c.backend.store.tally)).withPrimary (.process claim.entity)) := by
  obtain ⟨upid, reused⟩ := claim
  cases reused with
  | false => exact Act.bind_ok (processTrack_ok h) _
  | true =>
    have counted : (modify (Catalog.count .pidReuse) : Act Trace PUnit) c =
        .ok ⟨⟩ (c.count .pidReuse) := rfl
    refine (Act.bind_ok counted _).trans ?_
    refine Act.bind_ok ?_ _
    exact processTrack_ok h

theorem claimProcessTrack_ok {pid : Pid} (entities : c.Entities)
    (free : c.owner? (.process (c.backend.lifetimes.process pid).1) ≠ some uuid)
    (fits : (left (claimProcessTrack uuid pid c)).Fits) :
    ∃ upid l tally, Unclaimed c l (.process upid) ∧
      (∀ a, a.isError → tally.get a = c.countOf a) ∧
      claimProcessTrack uuid pid c = .ok ⟨Handle.ofIndex c.rows.size, .process upid, .slice⟩
        (c.claimed uuid l (.process upid) tally) := by
  rw [claimProcessTrack_eq_bind] at fits ⊢
  obtain ⟨upid, reused, l, h, claim⟩ := claimProcess_ok entities free
    (fits.of_grows (left_bind_grows growing_processClaimed c))
  have hprimary : ((c.withLifetimes l).withOwner uuid (.process upid)).primary? (.process upid) =
      none :=
    entities.primary?_eq_none h.unowned
  refine ⟨upid, l, _, h, ?_, (Act.bind_ok claim _).trans (processClaimed_ok hprimary)⟩
  intro a ha
  cases reused with
  | false => rfl
  | true =>
    refine (Tally.get_count _ _ _).trans (if_neg ?_)
    rintro rfl
    cases ha

theorem situated_createTrack (entities : c.Entities) (hpid : r.pid = none)
    (parent : Option Placement) (uuid : Uuid) :
    Situated c uuid r parent ⟨Handle.ofIndex c.rows.size,
        (parent.bind Placement.childScope).getD .global, .ofIsCounter r.isCounter⟩
      (c.withRow ((parent.bind Placement.childScope).getD .global)
        (.ofIsCounter r.isCounter)) := by
  constructor
  case suits => simp [Placement.Suits, hpid]
  case unowned => simp [hpid]
  case owner =>
    intro s
    simp only [hpid, Option.isSome_none, Bool.false_eq_true, false_and, if_false]
    rfl
  case primary =>
    intro s
    simp only [hpid, Option.isSome_none, Bool.false_eq_true, false_and, if_false]
    rfl
  case entities => exact ⟨entities.lifetimes, entities.known, entities.primary⟩
  case errors => exact fun a _ => rfl
  all_goals rfl

theorem situate_ok (entities : c.Entities) (free : ∀ s, c.owner? s ≠ some uuid)
    (fits : (left (situate uuid r parent c)).Fits) :
    ∃ p, ∃ c₁ : Session, situate uuid r parent c = .ok p c₁ ∧
      Situated c uuid r parent p c₁ := by
  unfold situate at *
  cases hpid : r.pid with
  | none => exact ⟨_, _, createTrack_eq _ r c, situated_createTrack entities hpid parent uuid⟩
  | some pid =>
  cases htid : r.tid with
  | none =>
    simp only [hpid, htid] at fits
    obtain ⟨upid, l, tally, h, errors, made⟩ := claimProcessTrack_ok entities (free _) fits
    refine ⟨_, _, made, situated_claimed h entities errors (by simp [hpid]) ?_⟩
    simp [Placement.Suits, hpid, htid]
  | some tid =>
    simp only [hpid, htid] at fits
    obtain ⟨utid, l, tally, h, errors, made⟩ := claimThreadTrack_ok entities (free _) fits
    refine ⟨_, _, made, situated_claimed h entities errors (by simp [hpid]) ?_⟩
    simp [Placement.Suits, hpid, htid]

end Situate
end Session
end TraceTracks
