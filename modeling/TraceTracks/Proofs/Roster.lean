import TraceTracks.Proofs.Succession

/-! The registries of lifetimes after any series of events. They say exactly what the tables say,
what is known of a lifetime stays, and the thread of a tid is the same one until its process is
replaced. -/
namespace TraceTracks.Lifetimes
variable {l : Lifetimes} {utid : Utid} {upid now : Upid} {tid : Tid} {pid : Pid}

section Registries

theorem Filed.currentProcess?_eq_some_iff (h : l.Filed) : l.currentProcess? pid = some upid ↔
    l.pidOf? upid = some pid ∧ ∀ other, l.pidOf? other = some pid → other.index ≤ upid.index := by
  constructor
  · intro current
    refine ⟨h.current pid upid current, fun other ho => ?_⟩
    obtain ⟨now, hn, le⟩ := h.latest pid other ho
    rw [current] at hn
    cases hn
    exact le
  · rintro ⟨hp, largest⟩
    obtain ⟨now, current, le⟩ := h.latest pid upid hp
    have ge := largest now (h.current pid now current)
    rw [current, Handle.index_inj.mp (Nat.le_antisymm ge le)]

theorem Filed.currentProcess?_eq_none_iff (h : l.Filed) :
    l.currentProcess? pid = none ↔ ∀ upid, l.pidOf? upid ≠ some pid := by
  constructor
  · intro none upid hp
    obtain ⟨now, current, -⟩ := h.latest pid upid hp
    rw [none] at current
    cases current
  · intro unknown
    cases current : l.currentProcess? pid with
    | none => rfl
    | some upid => exact absurd (h.current pid upid current) (unknown upid)

theorem Filed.index_lt_size (h : l.Filed) (mem : utid ∈ l.threadsOf tid) :
    utid.index < l.threads.size :=
  isSome_tidOf?_iff.mp (Option.isSome_of_eq_some ((h.threads tid utid).mp mem))

end Registries

section Update

/-- There is no thread of the tid that can be taken for the process. -/
def Lacks (l : Lifetimes) (tid : Tid) (upid : Upid) : Prop :=
  l.threadsOf tid = [] ∨ ∃ old home, (l.threadsOf tid).getLast? = some old ∧
    l.homeOf? old = some home ∧ home ≠ upid

theorem Takes.size_of_lacks {l' : Lifetimes} (h : Takes tid upid l utid l')
    (lacks : l.Lacks tid upid) : l'.threads.size = l.threads.size + 1 := by
  cases h.found with
  | added _ size => exact size
  | latest newest free =>
    rcases lacks with none | ⟨old, home, last, belongs, other⟩
    · rw [none] at newest
      cases newest
    · rw [newest] at last
      cases last
      rw [belongs] at free
      rcases free with unset | same
      · cases unset
      · exact absurd (Option.some.inj same) other

theorem Takes.size_of_not_lacks {l' : Lifetimes} (h : Takes tid upid l utid l')
    (has : ¬l.Lacks tid upid) : l'.threads.size = l.threads.size := by
  cases h.found with
  | latest _ _ size => exact size
  | added _ _ taken =>
    refine absurd ?_ has
    cases newest : (l.threadsOf tid).getLast? with
    | none => exact .inl (List.getLast?_eq_none_iff.mp newest)
    | some old =>
      obtain ⟨home, belongs, other⟩ := taken old newest
      exact .inr ⟨old, home, newest, belongs, other⟩

end Update

section Run

def liveOn (l : Lifetimes) (events : List Event) : Lifetimes := events.foldl live l

theorem grows_liveOn (l : Lifetimes) (events : List Event) : l.Grows (l.liveOn events) := by
  induction events generalizing l with
  | nil => exact .refl l
  | cons event events ih => exact (grows_live l event).trans (ih _)

theorem Filed.liveOn (h : l.Filed) (events : List Event) (fits : (l.liveOn events).Fits) :
    (l.liveOn events).Filed ∧ l.Recalls (l.liveOn events) := by
  induction events generalizing l with
  | nil => exact ⟨h, .refl l⟩
  | cons event events ih =>
    obtain ⟨filed, recalls⟩ := h.live event (fits.of_grows (grows_liveOn _ events))
    obtain ⟨filed', recalls'⟩ := ih filed fits
    exact ⟨filed', recalls.trans recalls'⟩

theorem Filed.updateThread (h : l.Filed) (tid : Tid) (pid : Pid)
    (fits : (l.updateThread tid pid).2.Fits) : ∃ utid upid l',
      l.updateThread tid pid = (utid, l') ∧ (l'.threadsOf tid).getLast? = some utid ∧
      l'.currentProcess? pid = some upid ∧ l'.homeOf? utid = some upid ∧
      (l.Lacks tid upid → l'.threads.size = l.threads.size + 1) ∧
      (¬l.Lacks tid upid → l'.threads.size = l.threads.size) ∧
      utid.index < ((l.process pid).2.pick tid upid).2.threads.size ∧
      l'.updateThread tid pid = (utid, l') := by
  have takes := takes_updateThread h tid pid fits
  have current := currentProcess?_updateThread tid pid l pid
  rw [if_pos rfl] at current
  refine ⟨(l.updateThread tid pid).1, (l.process pid).1, (l.updateThread tid pid).2, rfl,
    takes.newest, current, takes.home, takes.size_of_lacks, takes.size_of_not_lacks, ?_,
    updateThread_again tid pid l fits⟩
  rw [updateThread_eq] at fits ⊢
  have known := (newest_pick tid _ _ (fits.of_grows (grows_associate _ _ _))).2
  rw [thread?, isSome_getElem?] at known
  exact known

/-- The threads of a tid are listed in ascending order, the current process of a pid is its largest
one, and threads belong to processes that are there. No entry is changed later, but that a thread
without a process gets one. The thread of a tid within a pid is the newest of the tid, in the
current process of the pid; it is new if the newest one was elsewhere or there was none, and asking
again changes nothing. Every thread that is looked at on the way is there. -/
theorem registries_agree (events : List Event) (reached : empty.liveOn events = l) (fits : l.Fits) :
    (∀ tid, (l.threadsOf tid).Pairwise (·.index < ·.index)) ∧
    (∀ tid utid, utid ∈ l.threadsOf tid ↔ l.tidOf? utid = some tid) ∧
    (∀ pid upid, l.currentProcess? pid = some upid ↔
      l.pidOf? upid = some pid ∧ ∀ other, l.pidOf? other = some pid → other.index ≤ upid.index) ∧
    (∀ pid, l.currentProcess? pid = none ↔ ∀ upid, l.pidOf? upid ≠ some pid) ∧
    (∀ utid upid, l.homeOf? utid = some upid → (l.process? upid).isSome) ∧
    (∀ tid, ∀ utid ∈ l.threadsOf tid, utid.index < l.threads.size) ∧
    (∀ more, (l.liveOn more).Fits → l.Recalls (l.liveOn more)) ∧
    ∀ tid pid, (l.updateThread tid pid).2.Fits → ∃ utid upid l',
      l.updateThread tid pid = (utid, l') ∧ (l'.threadsOf tid).getLast? = some utid ∧
      l'.currentProcess? pid = some upid ∧ l'.homeOf? utid = some upid ∧
      (l.Lacks tid upid → l'.threads.size = l.threads.size + 1) ∧
      (¬l.Lacks tid upid → l'.threads.size = l.threads.size) ∧
      utid.index < ((l.process pid).2.pick tid upid).2.threads.size ∧
      l'.updateThread tid pid = (utid, l') := by
  subst reached
  obtain ⟨filed, -⟩ := filed_empty.liveOn events fits
  refine ⟨filed.ascending, filed.threads, fun pid upid => filed.currentProcess?_eq_some_iff,
    fun pid => filed.currentProcess?_eq_none_iff, fun utid upid home => ?_,
    fun tid utid => filed.index_lt_size, fun more room => (filed.liveOn more room).2,
    filed.updateThread⟩
  have located := filed.homes utid upid home
  rwa [pidOf?, Option.isSome_map] at located

def restless : List Event :=
  [.updateThread 5 4, .startThread (some 3) 5, .updateThread 5 4, .updateThread 5 8,
    .startProcess (some 7) none 8 .null, .updateThread 5 8, .process 9, .updateThread 6 4]

theorem registries_agree_restless :
    (∀ other, (empty.liveOn restless).pidOf? other = some 8 → other.index ≤ 2) ∧
      ∃ utid l', (empty.liveOn restless).updateThread 5 4 = (utid, l') ∧
        (l'.threadsOf 5).getLast? = some utid ∧ l'.threads.size = 6 ∧
        l'.updateThread 5 4 = (utid, l') := by
  obtain ⟨-, -, largest, -, -, -, -, updates⟩ := registries_agree restless rfl
    ⟨by decide +kernel, by decide +kernel⟩
  obtain ⟨utid, upid, l', step, newest, current, -, adds, -, -, again⟩ := updates 5 4
    ⟨by decide +kernel, by decide +kernel⟩
  have later : ((empty.liveOn restless).updateThread 5 4).2.currentProcess? 4 = some ⟨0⟩ := by
    decide +kernel
  rw [step, current] at later
  cases later
  have size := adds (.inr ⟨⟨3⟩, ⟨2⟩, by decide +kernel, by decide +kernel, by decide⟩)
  refine ⟨((largest 8 ⟨2⟩).mp (by decide +kernel)).2, utid, l', step, newest, ?_, again⟩
  rw [size]
  decide +kernel

end Run
end TraceTracks.Lifetimes
