import TraceTracks.Proofs.Entities
import TraceTracks.Proofs.Succession

/-! Owners beside lifetimes that others use as well. A claim never fails, and what a uuid has
claimed stays its own, since a lifetime that is started for it is one that nobody has seen. -/
namespace TraceTracks

abbrev Estate := Owners × Lifetimes

/-- A claim, or what others ask of the lifetimes. -/
inductive Affair
  | claimThread (uuid : Uuid) (pid : Pid) (tid : Tid)
  | claimProcess (uuid : Uuid) (pid : Pid)
  | event (asked : Lifetimes.Event)
  deriving DecidableEq

namespace Estate

def start : Estate := (.empty, .empty)

def left {α : Type} : EStateM.Result Fault Estate α → Estate
  | .ok _ e => e
  | .error _ e => e

def take (e : Estate) : Affair → Estate
  | .claimThread uuid pid tid => left (Owners.claimThread uuid pid tid e)
  | .claimProcess uuid pid => left (Owners.claimProcess uuid pid e)
  | .event event => (e.1, e.2.live event)

def after (e : Estate) (affairs : List Affair) : Estate := affairs.foldl take e

@[simp] theorem after_cons (e : Estate) (a : Affair) (affairs : List Affair) :
    e.after (a :: affairs) = (e.take a).after affairs := rfl

@[simp] theorem after_append (e : Estate) (affairs more : List Affair) :
    e.after (affairs ++ more) = (e.after affairs).after more := List.foldl_append

variable {e e' e'' : Estate} {uuid : Uuid} {pid : Pid} {tid : Tid}

/-- The lifetimes are in order, and what is owned was started. -/
structure Kept (e : Estate) : Prop where
  filed : e.2.Filed
  threads : ∀ utid v, e.1.threadOwner? utid = some v → e.2.Holds (.thread utid)
  processes : ∀ upid v, e.1.processOwner? upid = some v → e.2.Holds (.process upid)

theorem kept_start : start.Kept :=
  ⟨Lifetimes.filed_empty, fun _ _ h => (by cases h), fun _ _ h => (by cases h)⟩

structure Upholds (e e' : Estate) : Prop where
  threads : ∀ utid v, e.1.threadOwner? utid = some v → e'.1.threadOwner? utid = some v
  processes : ∀ upid v, e.1.processOwner? upid = some v → e'.1.processOwner? upid = some v
  recalls : e.2.Recalls e'.2

theorem Upholds.refl (e : Estate) : e.Upholds e := ⟨fun _ _ => id, fun _ _ => id, .refl _⟩

theorem Upholds.trans (h : e.Upholds e') (h' : e'.Upholds e'') : e.Upholds e'' :=
  ⟨fun utid v hv => h'.threads utid v (h.threads utid v hv),
    fun upid v hv => h'.processes upid v (h.processes upid v hv), h.recalls.trans h'.recalls⟩

theorem Kept.mono (h : e.Kept) {l : Lifetimes} (filed : l.Filed) (grows : e.2.Grows l) :
    Kept (e.1, l) :=
  ⟨filed, fun utid v hv => grows.holds (h.threads utid v hv),
    fun upid v hv => grows.holds (h.processes upid v hv)⟩

theorem Kept.unowned_thread (h : e.Kept) {utid : Utid} (free : e.2.threads.size ≤ utid.index) :
    e.1.threadOwner? utid = none := by
  apply Option.eq_none_iff_forall_ne_some.mpr
  intro v hv
  exact absurd (h.threads utid v hv) (Nat.not_lt.mpr free)

theorem Kept.unowned_process (h : e.Kept) {upid : Upid} (free : e.2.processes.size ≤ upid.index) :
    e.1.processOwner? upid = none := by
  apply Option.eq_none_iff_forall_ne_some.mpr
  intro v hv
  exact absurd (h.processes upid v hv) (Nat.not_lt.mpr free)

theorem threadOwner?_ownThread (o : Owners) (utid : Utid) (uuid : Uuid) (other : Utid) :
    (o.ownThread utid uuid).threadOwner? other =
      if other = utid then some uuid else o.threadOwner? other :=
  Registry.get?_insert _ _ _ _

theorem processOwner?_ownProcess (o : Owners) (upid : Upid) (uuid : Uuid) (other : Upid) :
    (o.ownProcess upid uuid).processOwner? other =
      if other = upid then some uuid else o.processOwner? other :=
  Registry.get?_insert _ _ _ _

section Own

theorem Kept.ownThread (h : e.Kept) {utid : Utid} (holds : e.2.Holds (.thread utid)) (uuid : Uuid) :
    Kept (e.1.ownThread utid uuid, e.2) := by
  refine { h with threads := fun other v hv => ?_ }
  rw [threadOwner?_ownThread] at hv
  split at hv
  next same => exact same ▸ holds
  next => exact h.threads other v hv

theorem Kept.ownProcess (h : e.Kept) {upid : Upid} (holds : e.2.Holds (.process upid))
    (uuid : Uuid) : Kept (e.1.ownProcess upid uuid, e.2) := by
  refine { h with processes := fun other v hv => ?_ }
  rw [processOwner?_ownProcess] at hv
  split at hv
  next same => exact same ▸ holds
  next => exact h.processes other v hv

theorem upholds_ownThread {utid : Utid} (free : e.1.threadOwner? utid = none) (uuid : Uuid)
    {l : Lifetimes} (recalls : e.2.Recalls l) : e.Upholds (e.1.ownThread utid uuid, l) := by
  refine ⟨fun other v hv => ?_, fun _ _ => id, recalls⟩
  rw [threadOwner?_ownThread, if_neg]
  · exact hv
  · rintro rfl
    rw [free] at hv
    cases hv

theorem upholds_ownProcess {upid : Upid} (free : e.1.processOwner? upid = none) (uuid : Uuid)
    {l : Lifetimes} (recalls : e.2.Recalls l) : e.Upholds (e.1.ownProcess upid uuid, l) := by
  refine ⟨fun _ _ => id, fun other v hv => ?_, recalls⟩
  rw [processOwner?_ownProcess, if_neg]
  · exact hv
  · rintro rfl
    rw [free] at hv
    cases hv

end Own

section Thread

/-- What the claim of a thread of a tid in a pid comes to. -/
structure ThreadGranted (uuid : Uuid) (pid : Pid) (tid : Tid) (e : Estate) (claim : Claim .thread)
    (e' : Estate) : Prop where
  owner : ∀ utid, e'.1.threadOwner? utid =
    if utid = claim.entity then some uuid else e.1.threadOwner? utid
  others : e'.1.processes = e.1.processes
  newest : (e'.2.threadsOf tid).getLast? = some claim.entity
  latest : ∀ utid, e'.2.tidOf? utid = some tid → utid.index ≤ claim.entity.index
  entry : ∃ life upid, e'.2.thread? claim.entity = some life ∧ life.tid = tid ∧
    life.upid = some upid ∧ e'.2.currentProcess? pid = some upid
  reused : claim.reused = true ↔
    ∃ v, e.1.threadOwner? (e.2.updateThread tid pid).1 = some v ∧ v ≠ uuid
  proposed : claim.reused = false →
    claim.entity = (e.2.updateThread tid pid).1 ∧ e'.2 = (e.2.updateThread tid pid).2
  restarted : claim.reused = true →
    claim.entity.index = (e.2.updateThread tid pid).2.threads.size ∧
    e'.2.threads.size = (e.2.updateThread tid pid).2.threads.size + 1 ∧
    e'.2.processes = (e.2.updateThread tid pid).2.processes ∧
    e'.2.currentProcess? = (e.2.updateThread tid pid).2.currentProcess?

theorem entry_of_takes {l l' : Lifetimes} {upid : Upid} {utid : Utid}
    (h : Lifetimes.Takes tid upid l utid l') :
    ∃ life, l'.thread? utid = some life ∧ life.tid = tid ∧ life.upid = some upid := by
  obtain ⟨life, hl, ht⟩ := Option.map_eq_some_iff.mp h.tidOf?
  have home := h.home
  rw [Lifetimes.homeOf?, hl] at home
  exact ⟨life, hl, ht, home⟩

theorem grows_claimThread (uuid : Uuid) (pid : Pid) (tid : Tid) (e : Estate) :
    e.2.Grows (left (Owners.claimThread uuid pid tid e)).2 := by
  obtain ⟨o, l⟩ := e
  have first := Lifetimes.grows_updateThread tid pid l
  have again := (Lifetimes.grows_startThread none tid (l.updateThread tid pid).2).trans
    (Lifetimes.grows_updateThread tid pid _)
  rw [Owners.claimThread_eq]
  simp only [LifetimeSource.updateThread, LifetimeSource.startThread]
  cases o.threadOwner? (l.updateThread tid pid).1 with
  | none => exact first
  | some owner =>
    dsimp only
    split
    · exact first
    cases (((l.updateThread tid pid).2.startThread none tid).2.updateThread tid pid).1 ==
      ((l.updateThread tid pid).2.startThread none tid).1 <;> exact first.trans again

theorem takes_restarted {l : Lifetimes} (filed : l.Filed) {upid : Upid}
    (current : l.currentProcess? pid = some upid)
    (fits : ((l.startThread none tid).2.updateThread tid pid).2.Fits) :
    Lifetimes.Takes tid upid (l.startThread none tid).2 (l.startThread none tid).1
        ((l.startThread none tid).2.updateThread tid pid).2 ∧
      l.threads.size < UInt32.size ∧
      ((l.startThread none tid).2.updateThread tid pid).1 = (l.startThread none tid).1 ∧
      ((l.startThread none tid).2.updateThread tid pid).2.threads.size = l.threads.size + 1 ∧
      ((l.startThread none tid).2.updateThread tid pid).2.processes = l.processes ∧
      ((l.startThread none tid).2.updateThread tid pid).2.currentProcess? = l.currentProcess? := by
  have room := Lifetimes.size_lt_of_updateThread_startThread fits.threads
  have same := Lifetimes.updateThread_startThread tid pid l room
  have found : (l.startThread none tid).2.process pid = (upid, (l.startThread none tid).2) := by
    have current : (l.startThread none tid).2.currentProcess? pid = some upid := current
    simp only [Lifetimes.process, current]
  have taken := Lifetimes.takes_updateThread (filed.startThread none tid room) tid pid fits
  obtain ⟨processes, currents⟩ :=
    Lifetimes.updateThread_processes tid pid (l.startThread none tid).2
  rw [same, found] at taken
  rw [found] at processes currents
  refine ⟨taken, room, same, ?_, processes, ?_⟩
  · have started : (l.startThread none tid).2.threads.size = l.threads.size + 1 := by
      simp [Lifetimes.startThread]
    cases taken.found with
    | latest newest free size => exact size.trans started
    | added index size =>
      have fresh : (l.startThread none tid).1.index = l.threads.size := Handle.index_ofIndex room
      omega
  · funext other
    rw [Lifetimes.currentProcess?, currents]
    rfl

theorem threadGranted_proposed {o o' : Owners} {l : Lifetimes} (filed : l.Filed)
    (fits : (l.updateThread tid pid).2.Fits) (others : o'.processes = o.processes)
    (owner : ∀ utid, o'.threadOwner? utid =
      if utid = (l.updateThread tid pid).1 then some uuid else o.threadOwner? utid)
    (own : ∀ v, o.threadOwner? (l.updateThread tid pid).1 = some v → v = uuid) :
    ThreadGranted uuid pid tid (o, l) ⟨(l.updateThread tid pid).1, false⟩
      (o', (l.updateThread tid pid).2) := by
  have taken := Lifetimes.takes_updateThread filed tid pid fits
  have current := Lifetimes.currentProcess?_updateThread tid pid l pid
  rw [if_pos rfl] at current
  obtain ⟨life, hl, ht, hu⟩ := entry_of_takes taken
  constructor
  case owner => exact owner
  case others => exact others
  case newest => exact taken.newest
  case latest => exact fun _ => taken.filed.index_le_newest taken.newest
  case entry => exact ⟨life, _, hl, ht, hu, current⟩
  case reused =>
    refine ⟨fun h => (by cases h), ?_⟩
    rintro ⟨v, hv, other⟩
    exact absurd (own v hv) other
  case proposed => exact fun _ => ⟨rfl, rfl⟩
  case restarted => exact fun h => by cases h

theorem threadGranted_restarted {o : Owners} {l l₁ l' : Lifetimes} {fresh : Utid} {upid : Upid}
    {owner : Uuid} (ho : o.threadOwner? (l.updateThread tid pid).1 = some owner)
    (other : owner ≠ uuid) (taken : Lifetimes.Takes tid upid l₁ fresh l')
    (current : (l.updateThread tid pid).2.currentProcess? pid = some upid)
    (index : fresh.index = (l.updateThread tid pid).2.threads.size)
    (size : l'.threads.size = (l.updateThread tid pid).2.threads.size + 1)
    (processes : l'.processes = (l.updateThread tid pid).2.processes)
    (currents : l'.currentProcess? = (l.updateThread tid pid).2.currentProcess?) :
    ThreadGranted uuid pid tid (o, l) ⟨fresh, true⟩ (o.ownThread fresh uuid, l') := by
  obtain ⟨life, hl, ht, hu⟩ := entry_of_takes taken
  constructor
  case owner => exact threadOwner?_ownThread o fresh uuid
  case others => rfl
  case newest => exact taken.newest
  case latest => exact fun _ => taken.filed.index_le_newest taken.newest
  case entry => exact ⟨life, _, hl, ht, hu, (congrFun currents pid).trans current⟩
  case reused => exact ⟨fun _ => ⟨owner, ho, other⟩, fun _ => rfl⟩
  case proposed => exact fun h => by cases h
  case restarted => exact fun _ => ⟨index, size, processes, currents⟩

theorem claimThread_granted (h : e.Kept)
    (fits : (left (Owners.claimThread uuid pid tid e)).2.Fits) :
    ∃ claim, ∃ e' : Estate, Owners.claimThread uuid pid tid e = .ok claim e' ∧ e'.Kept ∧
      e.Upholds e' ∧ ThreadGranted uuid pid tid e claim e' := by
  obtain ⟨o, l⟩ := e
  have equation := Owners.claimThread_eq uuid pid tid o l
  simp only [LifetimeSource.updateThread, LifetimeSource.startThread] at equation
  have grown := Lifetimes.grows_updateThread tid pid l
  have held := Lifetimes.holds_updateThread tid pid l
  have proposal (fits : (l.updateThread tid pid).2.Fits) :=
    Lifetimes.takes_updateThread h.filed tid pid fits
  cases ho : o.threadOwner? (l.updateThread tid pid).1 with
  | none =>
    simp only [ho] at equation
    rw [equation] at fits
    have kept := h.mono (proposal fits).filed grown
    exact ⟨_, _, equation, kept.ownThread held uuid,
      upholds_ownThread ho uuid (proposal fits).recalls,
      threadGranted_proposed h.filed fits rfl (threadOwner?_ownThread o _ uuid) (by simp [ho])⟩
  | some owner =>
  simp only [ho] at equation
  by_cases own : owner = uuid
  · rw [if_pos own] at equation
    rw [equation] at fits
    refine ⟨_, _, equation, h.mono (proposal fits).filed grown,
      ⟨fun _ _ => id, fun _ _ => id, (proposal fits).recalls⟩,
      threadGranted_proposed h.filed fits rfl (fun utid => ?_) (by simp [ho, own])⟩
    split
    next same => rw [same, ho, own]
    next => rfl
  rw [if_neg own] at equation
  have again :
      (((l.updateThread tid pid).2.startThread none tid).2.updateThread tid pid).2.Fits := by
    rw [equation] at fits
    cases hm : (((l.updateThread tid pid).2.startThread none tid).2.updateThread tid pid).1 ==
      ((l.updateThread tid pid).2.startThread none tid).1 <;> rw [hm] at fits <;> exact fits
  have restarted := (Lifetimes.grows_startThread none tid (l.updateThread tid pid).2).trans
    (Lifetimes.grows_updateThread tid pid _)
  have first := proposal (again.of_grows restarted)
  have current := Lifetimes.currentProcess?_updateThread tid pid l pid
  rw [if_pos rfl] at current
  obtain ⟨taken, room, same, size, processes, currents⟩ := takes_restarted first.filed current again
  have fresh : ((l.updateThread tid pid).2.startThread none tid).1.index =
      (l.updateThread tid pid).2.threads.size := Handle.index_ofIndex room
  rw [same, beq_self_eq_true] at equation
  have granted := threadGranted_restarted ho own taken current fresh size processes currents
  have unowned := h.unowned_thread (fresh ▸ grown.threads)
  have kept := h.mono taken.filed (grown.trans restarted)
  have holds := Lifetimes.isSome_tidOf?_iff.mp (Option.isSome_of_eq_some taken.tidOf?)
  have recalls := first.recalls.trans
    ((Lifetimes.recalls_startThread none tid room).trans taken.recalls)
  exact ⟨_, _, equation, kept.ownThread holds uuid, upholds_ownThread unowned uuid recalls, granted⟩

end Thread

section Process

structure ProcessGranted (uuid : Uuid) (pid : Pid) (e : Estate) (claim : Claim .process)
    (e' : Estate) : Prop where
  owner : ∀ upid, e'.1.processOwner? upid =
    if upid = claim.entity then some uuid else e.1.processOwner? upid
  others : e'.1.threads = e.1.threads ∧ e'.2.threads = e.2.threads ∧ e'.2.utids = e.2.utids
  current : ∀ other, e'.2.currentProcess? other =
    if other = pid then some claim.entity else e.2.currentProcess? other
  entry : e'.2.pidOf? claim.entity = some pid
  reused : claim.reused = true ↔
    ∃ v, e.1.processOwner? (e.2.process pid).1 = some v ∧ v ≠ uuid
  proposed : claim.reused = false →
    claim.entity = (e.2.process pid).1 ∧ e'.2 = (e.2.process pid).2
  restarted : claim.reused = true → claim.entity.index = (e.2.process pid).2.processes.size ∧
    e'.2.processes.size = (e.2.process pid).2.processes.size + 1

theorem grows_claimProcess (uuid : Uuid) (pid : Pid) (e : Estate) :
    e.2.Grows (left (Owners.claimProcess uuid pid e)).2 := by
  obtain ⟨o, l⟩ := e
  have first := Lifetimes.grows_process pid l
  have fresh := Lifetimes.grows_startProcess none none pid .null (l.process pid).2
  rw [Owners.claimProcess_eq]
  simp only [LifetimeSource.process, LifetimeSource.startProcess]
  cases o.processOwner? (l.process pid).1 with
  | none => exact first
  | some owner =>
    dsimp only
    split
    · exact first
    · exact first.trans fresh

theorem processGranted_proposed {o o' : Owners} {l : Lifetimes} (filed : l.Filed)
    (fits : (l.process pid).2.Fits) (others : o'.threads = o.threads)
    (owner : ∀ upid, o'.processOwner? upid =
      if upid = (l.process pid).1 then some uuid else o.processOwner? upid)
    (own : ∀ v, o.processOwner? (l.process pid).1 = some v → v = uuid) :
    ProcessGranted uuid pid (o, l) ⟨(l.process pid).1, false⟩ (o', (l.process pid).2) := by
  have current := Lifetimes.currentProcess?_process pid l
  constructor
  case owner => exact owner
  case others => exact ⟨others, Lifetimes.threads_process pid l⟩
  case current => exact current
  case entry => exact (filed.process pid fits).current pid _ (by rw [current, if_pos rfl])
  case reused =>
    refine ⟨fun h => (by cases h), ?_⟩
    rintro ⟨v, hv, other⟩
    exact absurd (own v hv) other
  case proposed => exact fun _ => ⟨rfl, rfl⟩
  case restarted => exact fun h => by cases h

theorem processGranted_restarted {o : Owners} {l : Lifetimes} {owner : Uuid}
    (ho : o.processOwner? (l.process pid).1 = some owner) (other : owner ≠ uuid)
    (room : (l.process pid).2.processes.size < UInt32.size) :
    ProcessGranted uuid pid (o, l) ⟨((l.process pid).2.startProcess none none pid .null).1, true⟩
      (o.ownProcess ((l.process pid).2.startProcess none none pid .null).1 uuid,
        ((l.process pid).2.startProcess none none pid .null).2) := by
  constructor
  case owner => exact processOwner?_ownProcess o _ uuid
  case others => exact ⟨rfl, Lifetimes.threads_process pid l⟩
  case current =>
    intro other
    dsimp only
    rw [Lifetimes.currentProcess?_startProcess, Lifetimes.currentProcess?_process]
    split <;> rfl
  case entry => exact (Lifetimes.pidOf?_startProcess none none pid .null room _).trans (if_pos rfl)
  case reused => exact ⟨fun _ => ⟨owner, ho, other⟩, fun _ => rfl⟩
  case proposed => exact fun h => by cases h
  case restarted =>
    exact fun _ => ⟨Handle.index_ofIndex room, by simp [Lifetimes.startProcess]⟩

theorem claimProcess_granted (h : e.Kept)
    (fits : (left (Owners.claimProcess uuid pid e)).2.Fits) :
    ∃ claim, ∃ e' : Estate, Owners.claimProcess uuid pid e = .ok claim e' ∧ e'.Kept ∧
      e.Upholds e' ∧ ProcessGranted uuid pid e claim e' := by
  obtain ⟨o, l⟩ := e
  have equation := Owners.claimProcess_eq uuid pid o l
  simp only [LifetimeSource.process, LifetimeSource.startProcess] at equation
  have grown := Lifetimes.grows_process pid l
  have held := h.filed.sound.holds_process pid
  cases ho : o.processOwner? (l.process pid).1 with
  | none =>
    simp only [ho] at equation
    rw [equation] at fits
    have kept := h.mono (h.filed.process pid fits) grown
    exact ⟨_, _, equation, kept.ownProcess held uuid,
      upholds_ownProcess ho uuid (Lifetimes.recalls_process pid fits),
      processGranted_proposed h.filed fits rfl (processOwner?_ownProcess o _ uuid) (by simp [ho])⟩
  | some owner =>
  simp only [ho] at equation
  by_cases own : owner = uuid
  · rw [if_pos own] at equation
    rw [equation] at fits
    refine ⟨_, _, equation, h.mono (h.filed.process pid fits) grown,
      ⟨fun _ _ => id, fun _ _ => id, Lifetimes.recalls_process pid fits⟩,
      processGranted_proposed h.filed fits rfl (fun upid => ?_) (by simp [ho, own])⟩
    split
    next same => rw [same, ho, own]
    next => rfl
  rw [if_neg own] at equation
  rw [equation] at fits
  have room := Lifetimes.Fits.room_startProcess fits
  have restarted := Lifetimes.grows_startProcess none none pid .null (l.process pid).2
  have first := Lifetimes.Fits.of_grows fits restarted
  have recalls := (Lifetimes.recalls_process pid first).trans
    (Lifetimes.recalls_startProcess none none pid .null room)
  have fresh : ((l.process pid).2.startProcess none none pid .null).1.index =
      (l.process pid).2.processes.size := Handle.index_ofIndex room
  have unowned := h.unowned_process (fresh ▸ grown.processes)
  have filed := (h.filed.process pid first).startProcess none none pid .null room
  have kept := h.mono filed (grown.trans restarted)
  have holds := Lifetimes.holds_startProcess none none pid .null (l.process pid).2
  exact ⟨_, _, equation, kept.ownProcess holds uuid, upholds_ownProcess unowned uuid recalls,
    processGranted_restarted ho own room⟩

end Process

section Affairs

theorem grows_take (e : Estate) (a : Affair) : e.2.Grows (e.take a).2 := by
  cases a with
  | claimThread uuid pid tid => exact grows_claimThread uuid pid tid e
  | claimProcess uuid pid => exact grows_claimProcess uuid pid e
  | event event => exact e.2.grows_live event

theorem grows_after (e : Estate) (affairs : List Affair) : e.2.Grows (e.after affairs).2 := by
  induction affairs generalizing e with
  | nil => exact .refl _
  | cons a affairs ih => exact (grows_take e a).trans (ih (e.take a))

theorem Kept.take (h : e.Kept) (a : Affair) (fits : (e.take a).2.Fits) :
    (e.take a).Kept ∧ e.Upholds (e.take a) := by
  cases a with
  | claimThread uuid pid tid =>
    obtain ⟨claim, e', granted, kept, upholds, -⟩ := claimThread_granted h fits
    simp only [Estate.take, granted, left]
    exact ⟨kept, upholds⟩
  | claimProcess uuid pid =>
    obtain ⟨claim, e', granted, kept, upholds, -⟩ := claimProcess_granted h fits
    simp only [Estate.take, granted, left]
    exact ⟨kept, upholds⟩
  | event event =>
    obtain ⟨filed, recalls⟩ := h.filed.live event fits
    exact ⟨h.mono filed (e.2.grows_live event), fun _ _ => id, fun _ _ => id, recalls⟩

theorem Kept.after (h : e.Kept) (affairs : List Affair) (fits : (e.after affairs).2.Fits) :
    (e.after affairs).Kept ∧ e.Upholds (e.after affairs) := by
  induction affairs generalizing e with
  | nil => exact ⟨h, .refl e⟩
  | cons a affairs ih =>
    obtain ⟨kept, first⟩ := h.take a (fits.of_grows (grows_after (e.take a) affairs))
    obtain ⟨kept, rest⟩ := ih kept fits
    exact ⟨kept, first.trans rest⟩

end Affairs
end Estate

/-- What comes of an affair, and of what it claims, whatever is done later. -/
def Affair.Secures (e : Estate) (later : List Affair) : Affair → Prop
  | .claimThread uuid pid tid => ∃ claim, ∃ e' : Estate,
      Owners.claimThread uuid pid tid e = .ok claim e' ∧
        Estate.ThreadGranted uuid pid tid e claim e' ∧
      (e'.after later).1.threadOwner? claim.entity = some uuid
  | .claimProcess uuid pid => ∃ claim, ∃ e' : Estate,
      Owners.claimProcess uuid pid e = .ok claim e' ∧ Estate.ProcessGranted uuid pid e claim e' ∧
      (e'.after later).1.processOwner? claim.entity = some uuid
  | .event asked => (e.take (.event asked)).1 = e.1

namespace Estate

/-- No claim fails, and what was claimed stays with the claimer. -/
theorem ownership_is_permanent (before : List Affair) (affair : Affair) (later : List Affair)
    (fits : (start.after (before ++ affair :: later)).2.Fits) :
    affair.Secures (start.after before) later := by
  rw [after_append, after_cons] at fits
  have fits₁ := fits.of_grows (grows_after _ later)
  obtain ⟨kept, -⟩ := kept_start.after before (fits₁.of_grows (grows_take _ affair))
  generalize start.after before = e at *
  cases affair with
  | claimThread uuid pid tid =>
    obtain ⟨claim, e', granted, kept', -, claimed⟩ := claimThread_granted kept fits₁
    simp only [take, granted, left] at fits
    refine ⟨claim, e', granted, claimed, (kept'.after later fits).2.threads _ _ ?_⟩
    rw [claimed.owner, if_pos rfl]
  | claimProcess uuid pid =>
    obtain ⟨claim, e', granted, kept', -, claimed⟩ := claimProcess_granted kept fits₁
    simp only [take, granted, left] at fits
    refine ⟨claim, e', granted, claimed, (kept'.after later fits).2.processes _ _ ?_⟩
    rw [claimed.owner, if_pos rfl]
  | event asked => rfl

theorem ownership_is_permanent_moved :
    (start.after ([.event (.startThread none 5), .event (.updateThread 5 4), .claimProcess 1 4,
      .claimProcess 2 4, .claimThread 3 4 5] ++ .claimThread 6 4 5 ::
      [.event (.startProcess none none 4 .null), .claimThread 7 4 5])).2.Fits ∧
    (Affair.claimThread 6 4 5).Secures
      (start.after [.event (.startThread none 5), .event (.updateThread 5 4), .claimProcess 1 4,
        .claimProcess 2 4, .claimThread 3 4 5])
      [.event (.startProcess none none 4 .null), .claimThread 7 4 5] :=
  have fits : (start.after ([.event (.startThread none 5), .event (.updateThread 5 4),
      .claimProcess 1 4, .claimProcess 2 4, .claimThread 3 4 5] ++ .claimThread 6 4 5 ::
      [.event (.startProcess none none 4 .null), .claimThread 7 4 5])).2.Fits :=
    ⟨by decide +kernel, by decide +kernel⟩
  ⟨fits, ownership_is_permanent _ _ _ fits⟩

end Estate
end TraceTracks
