import TraceTracks.Backend

/-! What the tables do when they grow: places in a registry, arguments added in a row, strings that
keep their handles, and lifetimes whose handles were all handed out. -/
namespace TraceTracks

theorem Handle.index_ofIndex_le {noun : Noun} (n : Nat) : (ofIndex n : Handle noun).index ≤ n := by
  simp only [index, ofIndex, UInt32.toNat_ofNat']
  exact Nat.mod_le _ _

namespace Registry
variable {κ ν : Type} [DecidableEq κ] {r : Registry κ ν} {k k' : κ}

def rank (r : Registry κ ν) (k : κ) : Nat := r.keys.idxOf k

theorem rank_lt_size (h : r.contains k) : r.rank k < r.keys.length :=
  List.idxOf_lt_length_of_mem (contains_iff_mem_keys.mp h)

theorem rank_insert (h : r.contains k) (k' : κ) (v : ν) : (r.insert k' v).rank k = r.rank k := by
  unfold rank
  rw [keys_insert]
  split
  · rfl
  · rw [List.idxOf_append, if_pos (contains_iff_mem_keys.mp h)]

theorem rank_lt_rank_insert (h : r.contains k) (hk' : r.contains k' = false) (v : ν) :
    (r.insert k' v).rank k < (r.insert k' v).rank k' := by
  have hnew : (r.insert k' v).rank k' = r.keys.length := by
    unfold rank
    have hn : k' ∉ r.keys := fun hm => by
      rw [contains_iff_mem_keys.mpr hm] at hk'
      cases hk'
    rw [keys_insert, if_neg (by simp [hk']), List.idxOf_append, if_neg hn]
    simp
  rw [rank_insert h, hnew]
  exact rank_lt_size h

end Registry

namespace Args

def addAll (a : Args) (track : TrackId) (args : List Arg) : Args :=
  args.foldl (fun a arg => a.add track arg.key arg.value) a

theorem ofTrack_addAll (a : Args) (track : TrackId) (args : List Arg) (other : TrackId) :
    (a.addAll track args).ofTrack other =
      if other = track then a.ofTrack track ++ args else a.ofTrack other := by
  induction args generalizing a with
  | nil =>
    by_cases h : other = track
    · simp [addAll, h]
    · simp [addAll, h]
  | cons arg args ih =>
    change ((a.add track arg.key arg.value).addAll track args).ofTrack other = _
    rw [ih, ofTrack_add, ofTrack_add]
    by_cases h : other = track
    · simp [h]
    · simp [h]

end Args

namespace Strings

def Sound (s : Strings) : Prop := ∀ text id, s.lookup? text = some id → s.get? id = some text

theorem sound_empty : empty.Sound := by
  intro text id h
  simp only [lookup?, empty, Registry.get?_insert, Registry.get?_empty] at h
  split at h
  · cases h
    subst text
    rfl
  · cases h

theorem size_le_intern (s : Strings) (text : String) : s.size ≤ (s.intern text).2.size := by
  unfold intern size
  split
  · exact Nat.le_refl _
  · simp

theorem size_intern_le (s : Strings) (text : String) :
    (s.intern text).2.size ≤ s.size + 1 := by
  unfold intern size
  split
  · exact Nat.le_succ _
  · simp

theorem lookup?_intern (s : Strings) (text : String) :
    (s.intern text).2.lookup? text = some (s.intern text).1 := by
  unfold intern
  split
  next id h => exact h
  next => simp [lookup?, Registry.get?_insert]

theorem lookup?_intern_of_lookup? {s : Strings} {other : String} {id : StringId}
    (h : s.lookup? other = some id) (text : String) :
    (s.intern text).2.lookup? other = some id := by
  unfold intern
  split
  · exact h
  next hn =>
    have hne : other ≠ text := by
      rintro rfl
      rw [hn] at h
      cases h
    simpa [lookup?, Registry.get?_insert, hne] using h

theorem Sound.intern {s : Strings} (h : s.Sound) {text : String}
    (fits : (s.intern text).2.size ≤ UInt32.size) : (s.intern text).2.Sound := by
  intro other id ho
  unfold Strings.intern at ho fits ⊢
  split at ho
  · exact h other id ho
  next hn =>
    simp only [hn, size, Array.size_push] at fits
    simp only [lookup?, Registry.get?_insert] at ho
    have hsize : (Handle.ofIndex s.texts.size : StringId).index = s.texts.size :=
      Handle.index_ofIndex fits
    split at ho
    · cases ho
      subst other
      simp [get?, hsize]
    · have hold := h other id ho
      simp only [get?] at hold ⊢
      obtain ⟨hlt, htext⟩ := Array.getElem?_eq_some_iff.mp hold
      rw [Array.getElem?_push_lt hlt, htext]

theorem Sound.inj {s : Strings} (h : s.Sound) {a b : String} {id : StringId}
    (ha : s.lookup? a = some id) (hb : s.lookup? b = some id) : a = b :=
  Option.some.inj ((h a id ha).symm.trans (h b id hb))

end Strings

namespace Lifetimes

def Sound (l : Lifetimes) : Prop :=
  ∀ pid upid, l.currentProcess? pid = some upid → upid.index < l.processes.size

def Holds (l : Lifetimes) : Scope → Prop
  | .global => True
  | .thread utid => utid.index < l.threads.size
  | .process upid => upid.index < l.processes.size

structure Grows (l l' : Lifetimes) : Prop where
  threads : l.threads.size ≤ l'.threads.size
  processes : l.processes.size ≤ l'.processes.size

variable {l l' l'' : Lifetimes}

theorem sound_empty : empty.Sound := by
  intro pid upid h
  cases h

theorem Grows.refl (l : Lifetimes) : l.Grows l := ⟨Nat.le_refl _, Nat.le_refl _⟩

theorem Grows.trans (h : l.Grows l') (h' : l'.Grows l'') : l.Grows l'' :=
  ⟨Nat.le_trans h.threads h'.threads, Nat.le_trans h.processes h'.processes⟩

theorem Grows.holds (h : l.Grows l') {s : Scope} (hs : l.Holds s) : l'.Holds s := by
  cases s with
  | global => trivial
  | thread utid => exact Nat.lt_of_lt_of_le hs h.threads
  | process upid => exact Nat.lt_of_lt_of_le hs h.processes

theorem grows_startThread (start : Option Timestamp) (tid : Tid) (l : Lifetimes) :
    l.Grows (l.startThread start tid).2 := by
  constructor <;> simp [startThread]

theorem grows_startProcess (start : Option Timestamp) (parent : Option Upid) (pid : Pid)
    (name : StringId) (l : Lifetimes) : l.Grows (l.startProcess start parent pid name).2 := by
  constructor <;> simp [startProcess]

theorem grows_process (pid : Pid) (l : Lifetimes) : l.Grows (l.process pid).2 := by
  unfold process
  split
  · exact Grows.refl l
  · exact grows_startProcess _ _ _ _ l

theorem Sound.startThread (h : l.Sound) (start : Option Timestamp) (tid : Tid) :
    (l.startThread start tid).2.Sound := h

theorem Sound.startProcess (h : l.Sound) (start : Option Timestamp) (parent : Option Upid)
    (pid : Pid) (name : StringId) : (l.startProcess start parent pid name).2.Sound := by
  intro other upid ho
  have hle : (Handle.ofIndex l.processes.size : Upid).index ≤ l.processes.size :=
    Handle.index_ofIndex_le _
  rw [currentProcess?_startProcess] at ho
  simp only [Lifetimes.startProcess, Array.size_push]
  split at ho
  · cases ho
    omega
  · exact Nat.lt_succ_of_lt (h other upid ho)

theorem Sound.process (h : l.Sound) (pid : Pid) : (l.process pid).2.Sound := by
  unfold Lifetimes.process
  split
  · exact h
  · exact h.startProcess _ _ _ _

theorem holds_startThread (start : Option Timestamp) (tid : Tid) (l : Lifetimes) :
    (l.startThread start tid).2.Holds (.thread (l.startThread start tid).1) := by
  have hle : (Handle.ofIndex l.threads.size : Utid).index ≤ l.threads.size :=
    Handle.index_ofIndex_le _
  simp only [Holds, startThread, Array.size_push]
  omega

theorem holds_startProcess (start : Option Timestamp) (parent : Option Upid) (pid : Pid)
    (name : StringId) (l : Lifetimes) : (l.startProcess start parent pid name).2.Holds
      (.process (l.startProcess start parent pid name).1) := by
  have hle : (Handle.ofIndex l.processes.size : Upid).index ≤ l.processes.size :=
    Handle.index_ofIndex_le _
  simp only [Holds, startProcess, Array.size_push]
  omega

theorem Sound.holds_process (h : l.Sound) (pid : Pid) :
    (l.process pid).2.Holds (.process (l.process pid).1) := by
  unfold Lifetimes.process
  split
  next upid hu => exact h pid upid hu
  next => exact holds_startProcess _ _ _ _ l

theorem thread?_of_matching? {tid : Tid} {upid : Upid} {utid : Utid}
    (h : l.matching? tid upid = some utid) : (l.thread? utid).isSome := by
  unfold matching? at h
  obtain ⟨latest, -, h⟩ := Option.bind_eq_some_iff.mp h
  obtain ⟨thread, ht, h⟩ := Option.bind_eq_some_iff.mp h
  split at h
  · cases h
    exact Option.isSome_iff_exists.mpr ⟨thread, ht⟩
  · cases h

/-- The thread that is taken, found or started, before it is put into its process. -/
def pick (tid : Tid) (upid : Upid) (l : Lifetimes) : Utid × Lifetimes :=
  match l.matching? tid upid with
  | some utid => (utid, l)
  | none => l.startThread none tid

theorem updateThread_eq (tid : Tid) (pid : Pid) (l : Lifetimes) :
    l.updateThread tid pid = ((pick tid (l.process pid).1 (l.process pid).2).1,
      (pick tid (l.process pid).1 (l.process pid).2).2.associate
        (pick tid (l.process pid).1 (l.process pid).2).1 (l.process pid).1) := rfl

theorem grows_pick (tid : Tid) (upid : Upid) (l : Lifetimes) : l.Grows (l.pick tid upid).2 := by
  unfold pick
  split
  · exact Grows.refl l
  · exact grows_startThread none tid l

theorem holds_pick (tid : Tid) (upid : Upid) (l : Lifetimes) :
    (l.pick tid upid).2.Holds (.thread (l.pick tid upid).1) := by
  unfold pick
  split
  next utid h => simpa [Holds, thread?] using thread?_of_matching? h
  next => exact holds_startThread none tid l

theorem Sound.pick (h : l.Sound) (tid : Tid) (upid : Upid) : (l.pick tid upid).2.Sound := by
  unfold Lifetimes.pick
  split
  · exact h
  · exact h.startThread none tid

theorem grows_associate (l : Lifetimes) (utid : Utid) (upid : Upid) :
    l.Grows (l.associate utid upid) := by
  constructor <;> simp [associate]

theorem grows_updateThread (tid : Tid) (pid : Pid) (l : Lifetimes) :
    l.Grows (l.updateThread tid pid).2 := by
  rw [updateThread_eq]
  exact (grows_process pid l).trans ((grows_pick tid _ _).trans (grows_associate _ _ _))

theorem Sound.updateThread (h : l.Sound) (tid : Tid) (pid : Pid) :
    (l.updateThread tid pid).2.Sound := by
  rw [updateThread_eq]
  exact (h.process pid).pick tid _

theorem holds_updateThread (tid : Tid) (pid : Pid) (l : Lifetimes) :
    (l.updateThread tid pid).2.Holds (.thread (l.updateThread tid pid).1) := by
  rw [updateThread_eq]
  exact (grows_associate _ _ _).holds (holds_pick tid _ _)

theorem threads_process (pid : Pid) (l : Lifetimes) :
    (l.process pid).2.threads = l.threads ∧ (l.process pid).2.utids = l.utids := by
  unfold process
  split <;> exact ⟨rfl, rfl⟩

theorem size_lt_of_updateThread_startThread {tid : Tid} {pid : Pid} {l : Lifetimes}
    (fits : ((l.startThread none tid).2.updateThread tid pid).2.threads.size ≤ UInt32.size) :
    l.threads.size < UInt32.size := by
  have started : (l.startThread none tid).2.threads.size = l.threads.size + 1 := by
    simp [startThread]
  have grown := (grows_updateThread tid pid (l.startThread none tid).2).threads
  omega

/-- A thread that was just started is free, and so it is the one that is taken next. -/
theorem updateThread_startThread (tid : Tid) (pid : Pid) (l : Lifetimes)
    (room : l.threads.size < UInt32.size) :
    ((l.startThread none tid).2.updateThread tid pid).1 = (l.startThread none tid).1 := by
  obtain ⟨hthreads, hutids⟩ := threads_process pid (l.startThread none tid).2
  have hlast : ((l.startThread none tid).2.process pid).2.threadsOf tid =
      l.threadsOf tid ++ [Handle.ofIndex l.threads.size] := by
    rw [threadsOf, hutids, ← threadsOf, threadsOf_startThread, if_pos rfl]
  have hfree : ((l.startThread none tid).2.process pid).2.thread? (Handle.ofIndex l.threads.size) =
      some ⟨tid, none, none⟩ := by
    rw [thread?, hthreads, Handle.index_ofIndex room]
    simp [startThread]
  have hmatch : ((l.startThread none tid).2.process pid).2.matching? tid
      ((l.startThread none tid).2.process pid).1 = some (Handle.ofIndex l.threads.size) := by
    simp [matching?, hlast, hfree]
  rw [updateThread_eq, pick, hmatch]
  rfl

end Lifetimes
end TraceTracks
