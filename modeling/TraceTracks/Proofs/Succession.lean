import TraceTracks.Proofs.Tables

/-! One lifetime after the other. The registries of tids and pids say what the tables say, whatever
is asked of them, and what is once known of a thread or a process stays so. -/
namespace TraceTracks.Lifetimes
variable {l l' l'' : Lifetimes} {utid other : Utid} {upid : Upid}

def tidOf? (l : Lifetimes) (utid : Utid) : Option Tid := (l.thread? utid).map ThreadLife.tid

def pidOf? (l : Lifetimes) (upid : Upid) : Option Pid := (l.process? upid).map ProcessLife.pid

def homeOf? (l : Lifetimes) (utid : Utid) : Option Upid := (l.thread? utid).bind ThreadLife.upid

theorem isSome_tidOf?_iff : (l.tidOf? utid).isSome ↔ l.Holds (.thread utid) := by
  simp [tidOf?, thread?, Holds]

theorem isSome_pidOf?_iff : (l.pidOf? upid).isSome ↔ l.Holds (.process upid) := by
  simp [pidOf?, process?, Holds]

/-- The handles of threads and processes were handed out once. -/
structure Fits (l : Lifetimes) : Prop where
  threads : l.threads.size ≤ UInt32.size
  processes : l.processes.size ≤ UInt32.size

theorem Fits.of_grows (h : l'.Fits) (g : l.Grows l') : l.Fits :=
  ⟨Nat.le_trans g.threads h.threads, Nat.le_trans g.processes h.processes⟩

structure Recalls (l l' : Lifetimes) : Prop where
  tids : ∀ utid tid, l.tidOf? utid = some tid → l'.tidOf? utid = some tid
  starts : ∀ utid life, l.thread? utid = some life →
    (l'.thread? utid).map ThreadLife.start = some life.start
  homes : ∀ utid upid, l.homeOf? utid = some upid → l'.homeOf? utid = some upid
  processes : ∀ upid life, l.process? upid = some life → l'.process? upid = some life

theorem Recalls.refl (l : Lifetimes) : l.Recalls l :=
  ⟨fun _ _ => id, fun _ _ h => by rw [h]; rfl, fun _ _ => id, fun _ _ => id⟩

theorem Recalls.trans (h : l.Recalls l') (h' : l'.Recalls l'') : l.Recalls l'' where
  tids utid tid ht := h'.tids utid tid (h.tids utid tid ht)
  starts utid life hl := by
    obtain ⟨life', hl', same⟩ := Option.map_eq_some_iff.mp (h.starts utid life hl)
    rw [← same]
    exact h'.starts utid life' hl'
  homes utid upid hu := h'.homes utid upid (h.homes utid upid hu)
  processes upid life hl := h'.processes upid life (h.processes upid life hl)

theorem Recalls.pidOf? (h : l.Recalls l') {pid : Pid} (hp : l.pidOf? upid = some pid) :
    l'.pidOf? upid = some pid := by
  obtain ⟨life, hl, rfl⟩ := Option.map_eq_some_iff.mp hp
  rw [Lifetimes.pidOf?, h.processes upid life hl]
  rfl

/-- A tid leads to its threads, oldest first, and a pid to its latest process. Threads belong to
processes that were started. -/
structure Filed (l : Lifetimes) : Prop where
  threads : ∀ tid utid, utid ∈ l.threadsOf tid ↔ l.tidOf? utid = some tid
  ascending : ∀ tid, (l.threadsOf tid).Pairwise fun a b => a.index < b.index
  current : ∀ pid upid, l.currentProcess? pid = some upid → l.pidOf? upid = some pid
  latest : ∀ pid upid, l.pidOf? upid = some pid →
    ∃ now, l.currentProcess? pid = some now ∧ upid.index ≤ now.index
  homes : ∀ utid upid, l.homeOf? utid = some upid → (l.pidOf? upid).isSome

theorem filed_empty : empty.Filed where
  threads tid utid := by simp [threadsOf, tidOf?, thread?, empty]
  ascending tid := by simp [threadsOf, empty]
  current pid upid h := by cases h
  latest pid upid h := by simp [pidOf?, process?, empty] at h
  homes utid upid h := by simp [homeOf?, thread?, empty] at h

theorem Filed.index_le_newest (h : l.Filed) {tid : Tid}
    (newest : (l.threadsOf tid).getLast? = some utid) (ht : l.tidOf? other = some tid) :
    other.index ≤ utid.index := by
  have mem := (h.threads tid other).mpr ht
  obtain ⟨before, split⟩ := List.getLast?_eq_some_iff.mp newest
  have ascending := h.ascending tid
  rw [split] at mem ascending
  rcases List.mem_append.mp mem with old | last
  · exact Nat.le_of_lt ((List.pairwise_append.mp ascending).2.2 other old utid (by simp))
  · exact Nat.le_of_eq (congrArg Handle.index (List.mem_singleton.mp last))

theorem Filed.sound (h : l.Filed) : l.Sound := fun pid upid hc =>
  isSome_pidOf?_iff.mp (Option.isSome_of_eq_some (h.current pid upid hc))

section StartThread
variable (start : Option Timestamp) (tid : Tid)

theorem thread?_startThread (room : l.threads.size < UInt32.size) (utid : Utid) :
    (l.startThread start tid).2.thread? utid =
      if utid = (l.startThread start tid).1 then some ⟨tid, none, start⟩ else l.thread? utid := by
  have last : (Handle.ofIndex l.threads.size : Utid).index = l.threads.size :=
    Handle.index_ofIndex room
  have iff : utid.index = l.threads.size ↔ utid = Handle.ofIndex l.threads.size := by
    rw [← Handle.index_inj, last]
  simp only [startThread, thread?, Array.getElem?_push, iff]
  rfl

theorem thread?_fresh (room : l.threads.size < UInt32.size) :
    l.thread? (l.startThread start tid).1 = none := by
  simp only [startThread, thread?, Handle.index_ofIndex room]
  exact Array.getElem?_eq_none (Nat.le_refl _)

theorem tidOf?_startThread (room : l.threads.size < UInt32.size) (utid : Utid) :
    (l.startThread start tid).2.tidOf? utid =
      if utid = (l.startThread start tid).1 then some tid else l.tidOf? utid := by
  rw [tidOf?, thread?_startThread start tid room]
  split <;> rfl

theorem homeOf?_startThread (room : l.threads.size < UInt32.size) (utid : Utid) :
    (l.startThread start tid).2.homeOf? utid =
      if utid = (l.startThread start tid).1 then none else l.homeOf? utid := by
  rw [homeOf?, thread?_startThread start tid room]
  split <;> rfl

theorem recalls_startThread (room : l.threads.size < UInt32.size) :
    l.Recalls (l.startThread start tid).2 := by
  have kept {utid : Utid} {life : ThreadLife} (h : l.thread? utid = some life) :
      (l.startThread start tid).2.thread? utid = some life := by
    rw [thread?_startThread start tid room, if_neg]
    · exact h
    · rintro rfl
      rw [thread?_fresh start tid room] at h
      cases h
  refine ⟨fun utid tid ht => ?_, fun utid life hl => ?_, fun utid upid hu => ?_, fun _ _ => id⟩
  · obtain ⟨life, hl, rfl⟩ := Option.map_eq_some_iff.mp ht
    rw [tidOf?, kept hl]
    rfl
  · rw [kept hl]
    rfl
  · obtain ⟨life, hl, hu⟩ := Option.bind_eq_some_iff.mp hu
    rw [homeOf?, kept hl]
    exact hu

theorem Filed.startThread (h : l.Filed) (room : l.threads.size < UInt32.size) :
    (l.startThread start tid).2.Filed := by
  have fresh : l.tidOf? (l.startThread start tid).1 = none := by
    rw [tidOf?, thread?_fresh start tid room]
    rfl
  have below {other : Tid} {utid : Utid} (hu : utid ∈ l.threadsOf other) :
      utid.index < (l.startThread start tid).1.index := by
    have known := isSome_tidOf?_iff.mp (Option.isSome_of_eq_some ((h.threads other utid).mp hu))
    simp only [Lifetimes.startThread, Handle.index_ofIndex room]
    exact known
  have step (other : Tid) : (l.startThread start tid).2.threadsOf other =
      if other = tid then l.threadsOf tid ++ [(l.startThread start tid).1]
      else l.threadsOf other := threadsOf_startThread start tid l other
  refine ⟨fun other utid => ?_, fun other => ?_, h.current, h.latest, fun utid upid hu => ?_⟩
  · rw [step, tidOf?_startThread start tid room]
    by_cases new : utid = (l.startThread start tid).1
    · subst new
      by_cases same : other = tid
      · simp [same]
      · rw [if_neg same, if_pos rfl, h.threads, fresh]
        simp [Ne.symm same]
    · by_cases same : other = tid
      · simp [same, new, h.threads]
      · simp [same, new, h.threads]
  · rw [step]
    split
    · rw [List.pairwise_append]
      exact ⟨h.ascending tid, List.pairwise_singleton _ _, fun a ha b hb => by
        rw [List.mem_singleton.mp hb]
        exact below ha⟩
    · exact h.ascending other
  · rw [homeOf?_startThread start tid room] at hu
    split at hu
    · cases hu
    · exact h.homes utid upid hu

end StartThread

section StartProcess
variable (start : Option Timestamp) (parent : Option Upid) (pid : Pid) (name : StringId)

theorem process?_startProcess (room : l.processes.size < UInt32.size) (upid : Upid) :
    (l.startProcess start parent pid name).2.process? upid =
      if upid = (l.startProcess start parent pid name).1 then some ⟨pid, parent, name, start⟩
      else l.process? upid := by
  have last : (Handle.ofIndex l.processes.size : Upid).index = l.processes.size :=
    Handle.index_ofIndex room
  have iff : upid.index = l.processes.size ↔ upid = Handle.ofIndex l.processes.size := by
    rw [← Handle.index_inj, last]
  simp only [startProcess, process?, Array.getElem?_push, iff]
  rfl

theorem process?_fresh (room : l.processes.size < UInt32.size) :
    l.process? (l.startProcess start parent pid name).1 = none := by
  simp only [startProcess, process?, Handle.index_ofIndex room]
  exact Array.getElem?_eq_none (Nat.le_refl _)

theorem pidOf?_startProcess (room : l.processes.size < UInt32.size) (upid : Upid) :
    (l.startProcess start parent pid name).2.pidOf? upid =
      if upid = (l.startProcess start parent pid name).1 then some pid else l.pidOf? upid := by
  rw [pidOf?, process?_startProcess start parent pid name room]
  split <;> rfl

theorem recalls_startProcess (room : l.processes.size < UInt32.size) :
    l.Recalls (l.startProcess start parent pid name).2 := by
  refine { Recalls.refl l with processes := fun upid life hl => ?_ }
  rw [process?_startProcess start parent pid name room, if_neg]
  · exact hl
  · rintro rfl
    rw [process?_fresh start parent pid name room] at hl
    cases hl

theorem Filed.startProcess (h : l.Filed) (room : l.processes.size < UInt32.size) :
    (l.startProcess start parent pid name).2.Filed := by
  have recalls := recalls_startProcess start parent pid name room
  have known {other : Pid} {upid : Upid} (hp : l.pidOf? upid = some other) :
      upid.index < (l.startProcess start parent pid name).1.index := by
    have handed := isSome_pidOf?_iff.mp (Option.isSome_of_eq_some hp)
    simp only [Lifetimes.startProcess, Handle.index_ofIndex room]
    exact handed
  have step (other : Pid) : (l.startProcess start parent pid name).2.currentProcess? other =
      if other = pid then some (l.startProcess start parent pid name).1
      else l.currentProcess? other := currentProcess?_startProcess start parent pid name l other
  have new := pidOf?_startProcess start parent pid name room
  refine ⟨h.threads, h.ascending, fun other upid hc => ?_, fun other upid hp => ?_,
    fun utid upid hu => ?_⟩
  · rw [step] at hc
    split at hc
    next same =>
      cases hc
      rw [new, if_pos rfl, same]
    next => exact recalls.pidOf? (h.current other upid hc)
  · rw [new] at hp
    rw [step]
    split at hp
    next same =>
      cases hp
      rw [if_pos rfl]
      exact ⟨_, rfl, Nat.le_of_eq (congrArg Handle.index same)⟩
    next =>
      by_cases same : other = pid
      · rw [if_pos same]
        exact ⟨_, rfl, Nat.le_of_lt (known hp)⟩
      · rw [if_neg same]
        exact h.latest other upid hp
  · obtain ⟨other, hp⟩ := Option.isSome_iff_exists.mp (h.homes utid upid hu)
    exact Option.isSome_of_eq_some (recalls.pidOf? hp)

end StartProcess

section Process

theorem process_cases (pid : Pid) (l : Lifetimes) :
    (l.currentProcess? pid = some (l.process pid).1 ∧ (l.process pid).2 = l) ∨
      (l.currentProcess? pid = none ∧ l.process pid = l.startProcess none none pid .null) := by
  unfold process
  cases h : l.currentProcess? pid with
  | none => exact .inr ⟨rfl, rfl⟩
  | some upid => exact .inl ⟨rfl, rfl⟩

theorem Fits.room_startProcess {start : Option Timestamp} {parent : Option Upid} {pid : Pid}
    {name : StringId} (fits : (l.startProcess start parent pid name).2.Fits) :
    l.processes.size < UInt32.size := by
  have size := fits.processes
  simp only [startProcess, Array.size_push] at size
  exact size

theorem Fits.room_startThread {start : Option Timestamp} {tid : Tid}
    (fits : (l.startThread start tid).2.Fits) : l.threads.size < UInt32.size := by
  have size := fits.threads
  simp only [startThread, Array.size_push] at size
  exact size

theorem Filed.process (h : l.Filed) (pid : Pid) (fits : (l.process pid).2.Fits) :
    (l.process pid).2.Filed := by
  rcases process_cases pid l with ⟨-, same⟩ | ⟨-, started⟩
  · rw [same]
    exact h
  · rw [started] at fits ⊢
    exact h.startProcess none none pid .null fits.room_startProcess

theorem recalls_process (pid : Pid) (fits : (l.process pid).2.Fits) :
    l.Recalls (l.process pid).2 := by
  rcases process_cases pid l with ⟨-, same⟩ | ⟨-, started⟩
  · rw [same]
    exact .refl l
  · rw [started] at fits ⊢
    exact recalls_startProcess none none pid .null fits.room_startProcess

theorem currentProcess?_process (pid : Pid) (l : Lifetimes) (other : Pid) :
    (l.process pid).2.currentProcess? other =
      if other = pid then some (l.process pid).1 else l.currentProcess? other := by
  rcases process_cases pid l with ⟨found, same⟩ | ⟨-, started⟩
  · rw [same]
    split
    next h => rw [h, found]
    next => rfl
  · rw [started]
    exact currentProcess?_startProcess none none pid .null l other

theorem process_of_current {pid : Pid} (h : l.currentProcess? pid = some upid) :
    l.process pid = (upid, l) := by
  rw [process, h]

theorem process_again (pid : Pid) (l : Lifetimes) :
    (l.process pid).2.process pid = l.process pid := by
  have current := currentProcess?_process pid l pid
  rw [if_pos rfl] at current
  exact process_of_current current

end Process

section UpdateThread
variable {tid : Tid} {pid : Pid}

theorem thread?_associate (l : Lifetimes) (utid : Utid) (upid : Upid) (other : Utid) :
    (l.associate utid upid).thread? other =
      if other = utid then (l.thread? other).map fun t => { t with upid := some upid }
      else l.thread? other := by
  simp only [associate, thread?, Array.getElem?_modify]
  by_cases h : other = utid
  · rw [if_pos (Handle.index_inj.mpr h.symm), if_pos h]
  · rw [if_neg fun he => h (Handle.index_inj.mp he).symm, if_neg h]

theorem tidOf?_associate (l : Lifetimes) (utid : Utid) (upid : Upid) (other : Utid) :
    (l.associate utid upid).tidOf? other = l.tidOf? other := by
  rw [tidOf?, thread?_associate]
  split
  · rw [Option.map_map]
    rfl
  · rfl

theorem homeOf?_associate (l : Lifetimes) (utid : Utid) (upid : Upid) (other : Utid) :
    (l.associate utid upid).homeOf? other =
      if other = utid ∧ (l.tidOf? other).isSome then some upid else l.homeOf? other := by
  rw [homeOf?, thread?_associate]
  by_cases h : other = utid
  · subst h
    cases hl : l.thread? other <;> simp [hl, tidOf?, homeOf?]
  · simp [h, homeOf?]

theorem Filed.associate (h : l.Filed) (hp : (l.pidOf? upid).isSome) (utid : Utid) :
    (l.associate utid upid).Filed := by
  refine ⟨fun tid other => ?_, h.ascending, h.current, h.latest, fun other home ho => ?_⟩
  · rw [tidOf?_associate]
    exact h.threads tid other
  · rw [homeOf?_associate] at ho
    split at ho
    · cases ho
      exact hp
    · exact h.homes other home ho

/-- A thread that is free, or already there, can be put into a process. -/
theorem recalls_associate (free : l.homeOf? utid = none ∨ l.homeOf? utid = some upid) :
    l.Recalls (l.associate utid upid) := by
  refine ⟨fun other tid ht => ?_, fun other life hl => ?_, fun other home ho => ?_,
    fun _ _ => id⟩
  · rwa [tidOf?_associate]
  · rw [thread?_associate, hl]
    split <;> rfl
  · rw [homeOf?_associate]
    split
    next taken =>
      obtain ⟨rfl, -⟩ := taken
      rcases free with none | some
      · rw [none] at ho
        cases ho
      · exact some.symm.trans ho
    next => exact ho

/-- A thread that is taken for a process was the latest of its tid, and free or already there; or it
is new, and the latest one belongs elsewhere. -/
inductive Found (tid : Tid) (upid : Upid) (l : Lifetimes) (utid : Utid) (l' : Lifetimes) : Prop
  | latest (newest : (l.threadsOf tid).getLast? = some utid)
      (free : l.homeOf? utid = none ∨ l.homeOf? utid = some upid)
      (size : l'.threads.size = l.threads.size)
  | added (index : utid.index = l.threads.size) (size : l'.threads.size = l.threads.size + 1)
      (taken : ∀ old, (l.threadsOf tid).getLast? = some old →
        ∃ home, l.homeOf? old = some home ∧ home ≠ upid)

theorem pick_cases (h : l.Filed) (tid : Tid) (upid : Upid) :
    ((l.threadsOf tid).getLast? = some (l.pick tid upid).1 ∧ (l.pick tid upid).2 = l ∧
        (l.homeOf? (l.pick tid upid).1 = none ∨ l.homeOf? (l.pick tid upid).1 = some upid)) ∨
      l.pick tid upid = l.startThread none tid ∧ ∀ old, (l.threadsOf tid).getLast? = some old →
        ∃ home, l.homeOf? old = some home ∧ home ≠ upid := by
  unfold pick matching?
  cases newest : (l.threadsOf tid).getLast? with
  | none => exact .inr ⟨rfl, fun _ h => by cases h⟩
  | some utid =>
  have known := (h.threads tid utid).mp (List.mem_of_getLast? newest)
  obtain ⟨life, hl, -⟩ := Option.map_eq_some_iff.mp known
  have home : l.homeOf? utid = life.upid := by rw [homeOf?, hl]; rfl
  simp only [Option.bind_eq_bind, Option.bind_some, hl]
  cases hu : life.upid with
  | none => exact .inl ⟨rfl, rfl, .inl (home.trans hu)⟩
  | some owner =>
    by_cases same : owner = upid
    · rw [Option.all_some, decide_eq_true same, if_pos rfl]
      exact .inl ⟨rfl, rfl, .inr (by rw [home, hu, same])⟩
    · rw [Option.all_some, decide_eq_false same, if_neg Bool.false_ne_true]
      refine .inr ⟨rfl, fun other ho => ?_⟩
      cases ho
      exact ⟨owner, home.trans hu, same⟩

structure Takes (tid : Tid) (upid : Upid) (l : Lifetimes) (utid : Utid)
    (l' : Lifetimes) : Prop where
  filed : l'.Filed
  recalls : l.Recalls l'
  newest : (l'.threadsOf tid).getLast? = some utid
  home : l'.homeOf? utid = some upid
  found : Found tid upid l utid l'

theorem Takes.tidOf? (h : Takes tid upid l utid l') : l'.tidOf? utid = some tid :=
  (h.filed.threads tid utid).mp (List.mem_of_getLast? h.newest)

theorem takes_associate (h : l.Filed) (located : (l.pidOf? upid).isSome)
    (newest : (l.threadsOf tid).getLast? = some utid)
    (free : l.homeOf? utid = none ∨ l.homeOf? utid = some upid) :
    Takes tid upid l utid (l.associate utid upid) where
  filed := h.associate located utid
  recalls := recalls_associate free
  newest := newest
  home := by
    have known := (h.threads tid utid).mp (List.mem_of_getLast? newest)
    rw [homeOf?_associate, if_pos ⟨rfl, Option.isSome_of_eq_some known⟩]
  found := .latest newest free (by simp [Lifetimes.associate])

theorem takes_pick (h : l.Filed) (located : (l.pidOf? upid).isSome) (tid : Tid)
    (fits : (l.pick tid upid).2.Fits) : Takes tid upid l (l.pick tid upid).1
      ((l.pick tid upid).2.associate (l.pick tid upid).1 upid) := by
  rcases pick_cases h tid upid with ⟨newest, same, free⟩ | ⟨started, taken⟩
  · rw [same]
    exact takes_associate h located newest free
  · rw [started] at fits ⊢
    have room := fits.room_startThread
    have newest : ((l.startThread none tid).2.threadsOf tid).getLast? =
        some (l.startThread none tid).1 := by
      rw [threadsOf_startThread, if_pos rfl, List.getLast?_concat]
      rfl
    have free : (l.startThread none tid).2.homeOf? (l.startThread none tid).1 = none := by
      rw [homeOf?_startThread none tid room, if_pos rfl]
    have step := takes_associate (h.startThread none tid room) located newest (.inl free)
    refine ⟨step.filed, (recalls_startThread none tid room).trans step.recalls, step.newest,
      step.home, .added (Handle.index_ofIndex room) ?_ taken⟩
    simp [startThread, associate]

theorem threadsOf_process (pid : Pid) (l : Lifetimes) :
    (l.process pid).2.threadsOf = l.threadsOf := by
  funext tid
  rw [threadsOf, (threads_process pid l).2]
  rfl

theorem homeOf?_process (pid : Pid) (l : Lifetimes) :
    (l.process pid).2.homeOf? = l.homeOf? := by
  funext utid
  rw [homeOf?, thread?, (threads_process pid l).1]
  rfl

theorem Found.of_process (h : Found tid upid (l.process pid).2 utid l') :
    Found tid upid l utid l' := by
  have threads : (l.process pid).2.threads.size = l.threads.size := by
    rw [(threads_process pid l).1]
  cases h with
  | latest newest free size =>
    rw [threadsOf_process] at newest
    rw [homeOf?_process] at free
    exact .latest newest free (size.trans threads)
  | added index size taken =>
    rw [threadsOf_process, homeOf?_process] at taken
    rw [threads] at index size
    exact .added index size taken

theorem updateThread_processes (tid : Tid) (pid : Pid) (l : Lifetimes) :
    (l.updateThread tid pid).2.processes = (l.process pid).2.processes ∧
      (l.updateThread tid pid).2.current = (l.process pid).2.current := by
  rw [updateThread_eq]
  unfold pick
  split <;> exact ⟨rfl, rfl⟩

theorem currentProcess?_updateThread (tid : Tid) (pid : Pid) (l : Lifetimes) (other : Pid) :
    (l.updateThread tid pid).2.currentProcess? other =
      if other = pid then some (l.process pid).1 else l.currentProcess? other := by
  rw [currentProcess?, (updateThread_processes tid pid l).2]
  exact currentProcess?_process pid l other

theorem takes_updateThread (h : l.Filed) (tid : Tid) (pid : Pid)
    (fits : (l.updateThread tid pid).2.Fits) : Takes tid (l.process pid).1 l
      (l.updateThread tid pid).1 (l.updateThread tid pid).2 := by
  rw [updateThread_eq] at fits ⊢
  have picked := fits.of_grows (grows_associate _ _ _)
  have started := picked.of_grows (grows_pick tid _ _)
  have filed := h.process pid started
  have current := filed.current pid (l.process pid).1 (by
    rw [currentProcess?_process, if_pos rfl])
  have taken := takes_pick filed (Option.isSome_of_eq_some current) tid picked
  exact ⟨taken.filed, (recalls_process pid started).trans taken.recalls, taken.newest, taken.home,
    taken.found.of_process⟩

theorem associate_again (l : Lifetimes) (utid : Utid) (upid : Upid) :
    (l.associate utid upid).associate utid upid = l.associate utid upid := by
  unfold associate
  congr 1
  apply Array.ext_getElem?
  intro i
  simp only [Array.getElem?_modify]
  split
  · rw [Option.map_map]
    rfl
  · rfl

theorem matching?_associate (newest : (l.threadsOf tid).getLast? = some utid)
    (known : (l.thread? utid).isSome) (upid : Upid) :
    (l.associate utid upid).matching? tid upid = some utid := by
  obtain ⟨life, hl⟩ := Option.isSome_iff_exists.mp known
  have newest : ((l.associate utid upid).threadsOf tid).getLast? = some utid := newest
  have here : (l.associate utid upid).thread? utid = some { life with upid := some upid } := by
    rw [thread?_associate, if_pos rfl, hl]
    rfl
  simp [matching?, newest, here]

theorem newest_pick (tid : Tid) (upid : Upid) (l : Lifetimes) (fits : (l.pick tid upid).2.Fits) :
    ((l.pick tid upid).2.threadsOf tid).getLast? = some (l.pick tid upid).1 ∧
      ((l.pick tid upid).2.thread? (l.pick tid upid).1).isSome := by
  unfold pick at fits ⊢
  cases found : l.matching? tid upid with
  | some utid =>
    refine ⟨?_, thread?_of_matching? found⟩
    obtain ⟨newest, last, found⟩ := Option.bind_eq_some_iff.mp found
    obtain ⟨life, -, found⟩ := Option.bind_eq_some_iff.mp found
    split at found
    · cases found
      exact last
    · cases found
  | none =>
    simp only [found] at fits
    rw [threadsOf_startThread, if_pos rfl, List.getLast?_concat]
    refine ⟨rfl, ?_⟩
    dsimp only
    rw [thread?_startThread none tid fits.room_startThread, if_pos rfl]
    rfl

theorem updateThread_again (tid : Tid) (pid : Pid) (l : Lifetimes)
    (fits : (l.updateThread tid pid).2.Fits) :
    (l.updateThread tid pid).2.updateThread tid pid = l.updateThread tid pid := by
  have current := currentProcess?_updateThread tid pid l pid
  rw [if_pos rfl] at current
  have first := updateThread_eq tid pid l
  rw [first] at fits
  obtain ⟨newest, known⟩ := newest_pick tid _ _ (fits.of_grows (grows_associate _ _ _))
  have found := matching?_associate newest known (l.process pid).1
  generalize l.process pid = home at *
  generalize home.2.pick tid home.1 = picked at *
  rw [first] at current ⊢
  have taken : (picked.2.associate picked.1 home.1).pick tid home.1 =
      (picked.1, picked.2.associate picked.1 home.1) := by
    simp only [pick, found]
  rw [updateThread_eq, process_of_current current, taken, associate_again]

end UpdateThread

section Events

inductive Event
  | updateThread (tid : Tid) (pid : Pid)
  | startThread (start : Option Timestamp) (tid : Tid)
  | process (pid : Pid)
  | startProcess (start : Option Timestamp) (parent : Option Upid) (pid : Pid) (name : StringId)
  deriving DecidableEq

def live (l : Lifetimes) : Event → Lifetimes
  | .updateThread tid pid => (l.updateThread tid pid).2
  | .startThread start tid => (l.startThread start tid).2
  | .process pid => (l.process pid).2
  | .startProcess start parent pid name => (l.startProcess start parent pid name).2

theorem grows_live (l : Lifetimes) (event : Event) : l.Grows (l.live event) := by
  cases event with
  | updateThread tid pid => exact grows_updateThread tid pid l
  | startThread start tid => exact grows_startThread start tid l
  | process pid => exact grows_process pid l
  | startProcess start parent pid name => exact grows_startProcess start parent pid name l

theorem Filed.live (h : l.Filed) (event : Event) (fits : (l.live event).Fits) :
    (l.live event).Filed ∧ l.Recalls (l.live event) := by
  cases event with
  | updateThread tid pid =>
    have taken := takes_updateThread h tid pid fits
    exact ⟨taken.filed, taken.recalls⟩
  | startThread start tid =>
    exact ⟨h.startThread start tid fits.room_startThread,
      recalls_startThread start tid fits.room_startThread⟩
  | process pid => exact ⟨h.process pid fits, recalls_process pid fits⟩
  | startProcess start parent pid name =>
    exact ⟨h.startProcess start parent pid name fits.room_startProcess,
      recalls_startProcess start parent pid name fits.room_startProcess⟩

end Events
end TraceTracks.Lifetimes
