import TraceTracks.Proofs.DroppedLinks
import TraceTracks.Proofs.Irrelevance

/-! Every track lies where its descriptor and its parent put it, and its arguments say so: which
words they are written with, which they are, and in which order. -/
namespace TraceTracks

section Words
variable {s : Strings} {w : Vocabulary}

theorem Strings.get?_intern_of_get? {id : StringId} {word : String} (h : s.get? id = some word)
    (text : String) : (s.intern text).2.get? id = some word := by
  unfold intern
  split
  · exact h
  · obtain ⟨known, here⟩ := Array.getElem?_eq_some_iff.mp h
    rw [get?, Array.getElem?_push_lt known, here]

structure Vocabulary.Reads (w : Vocabulary) (s : Strings) : Prop where
  source : s.get? w.source = some "source"
  sourceId : s.get? w.sourceId = some "source_id"
  parentTrackId : s.get? w.parentTrackId = some "parent_track_id"
  category : s.get? w.category = some "category"
  descriptor : s.get? w.descriptor = some "descriptor"

theorem Vocabulary.Of.reads {name : String} (h : w.Of s name) (pool : s.Sound) : w.Reads s where
  source := pool _ _ h.source
  sourceId := pool _ _ h.sourceId
  parentTrackId := pool _ _ h.parentTrackId
  category := pool _ _ h.category
  descriptor := pool _ _ h.descriptor

theorem Vocabulary.Reads.intern (h : w.Reads s) (text : String) : w.Reads (s.intern text).2 where
  source := Strings.get?_intern_of_get? h.source text
  sourceId := Strings.get?_intern_of_get? h.sourceId text
  parentTrackId := Strings.get?_intern_of_get? h.parentTrackId text
  category := Strings.get?_intern_of_get? h.category text
  descriptor := Strings.get?_intern_of_get? h.descriptor text

/-- Arguments have their keys in a fixed order, with gaps. -/
theorem keys_argsFor_sublist (w : Vocabulary) (uuid : Uuid) (parent : Option TrackId)
    (category : StringId) : List.Sublist ((argsFor w uuid parent category).map Arg.key)
      [w.source, w.sourceId, w.parentTrackId, w.category] := by
  unfold argsFor
  cases parent <;> split <;> simp

theorem nodup_keys_argsFor (h : w.Distinct) (uuid : Uuid) (parent : Option TrackId)
    (category : StringId) : ((argsFor w uuid parent category).map Arg.key).Nodup :=
  (keys_argsFor_sublist w uuid parent category).nodup h

theorem Vocabulary.Reads.known_keys (h : w.Reads s) (uuid : Uuid) (parent : Option TrackId)
    (category : StringId) : ∀ arg ∈ argsFor w uuid parent category, (s.get? arg.key).isSome := by
  intro arg mem
  have known := (keys_argsFor_sublist w uuid parent category).subset (List.mem_map_of_mem mem)
  simp only [List.mem_cons, List.not_mem_nil, or_false] at known
  rcases known with key | key | key | key
  · simp [key, h.source]
  · simp [key, h.sourceId]
  · simp [key, h.parentTrackId]
  · simp [key, h.category]

end Words

namespace Reservation
variable {r r' : Reservation}

def OfDescriptor (r : Reservation) : Prop := ∃ d : Descriptor, r.still = d.reservation.still

theorem OfDescriptor.of_still (h : r.OfDescriptor) (same : r'.still = r.still) :
    r'.OfDescriptor :=
  let ⟨d, hd⟩ := h
  ⟨d, same.trans hd⟩

theorem OfDescriptor.pid_of_tid (h : r.OfDescriptor) (htid : r.tid.isSome) : r.pid.isSome := by
  obtain ⟨d, hd⟩ := h
  have shape := toShape_of_still hd
  have tid : r.tid = d.reservation.tid := congrArg Shape.tid shape
  have pid : r.pid = d.reservation.pid := congrArg Shape.pid shape
  rw [tid] at htid
  rw [pid]
  cases d <;> first | rfl | cases htid

/-- Only counters have a category, which are neither threads nor processes. -/
theorem OfDescriptor.category_of_pid (h : r.OfDescriptor) (hpid : r.pid.isSome) :
    r.category = .null := by
  obtain ⟨d, hd⟩ := h
  have pid : r.pid = d.reservation.pid := congrArg Shape.pid (toShape_of_still hd)
  rw [pid] at hpid
  rw [category_of_still hd]
  cases d <;> first | rfl | cases hpid

end Reservation

namespace Reservations
variable {rs : Reservations}

def OfDescriptors (rs : Reservations) : Prop := ∀ u r, rs.get? u = some r → r.OfDescriptor

theorem OfDescriptors.reserve (h : rs.OfDescriptors) (uuid : Uuid) (d : Descriptor) :
    (rs.reserve uuid d.reservation).2.OfDescriptors := by
  intro u r hr
  rw [get?_reserve] at hr
  split at hr
  next =>
    cases old : rs.get? uuid with
    | none =>
      rw [old] at hr
      cases hr
      exact ⟨d, rfl⟩
    | some r₀ =>
      rw [old] at hr
      cases hr
      refine (h uuid r₀ old).of_still ?_
      dsimp only [Option.elim]
      split
      · exact Reservation.still_merge r₀ d.reservation
      · rfl
  next => exact h u r hr

theorem OfDescriptors.sample (h : rs.OfDescriptors) (uuid : Uuid) (sequence : Sequence)
    (value : Int64) : (rs.sample uuid sequence value).2.OfDescriptors := by
  intro u r hr
  rw [get?_sample] at hr
  split at hr
  next =>
    obtain ⟨r₀, old, rfl⟩ := Option.map_eq_some_iff.mp hr
    refine (h uuid r₀ old).of_still ?_
    split <;> rfl
  next => exact h u r hr

theorem OfDescriptors.clear (h : rs.OfDescriptors) (sequence : Sequence) :
    (rs.clear sequence).OfDescriptors := by
  intro u r hr
  rw [get?_clear] at hr
  obtain ⟨r₀, old, rfl⟩ := Option.map_eq_some_iff.mp hr
  refine (h u r₀ old).of_still ?_
  split <;> rfl

end Reservations

theorem Catalog.ofDescriptors_perform {β : Type} [TrackSink β] [LifetimeSource β] {c : Catalog β}
    (h : c.reservations.OfDescriptors) (command : Command) :
    (c.perform command).2.reservations.OfDescriptors := by
  have steps : Steps fun c c' : Catalog β =>
      c.reservations.OfDescriptors → c'.reservations.OfDescriptors :=
    steps_reservations (R := fun rs rs' => rs.OfDescriptors → rs'.OfDescriptors) (fun _ => id)
      (fun first second => second ∘ first) fun _ _ announced => announced.reserve 0 _
  cases command with
  | announce uuid descriptor =>
    rw [perform, reservations_reserve]
    exact h.reserve uuid descriptor
  | track uuid event => exact steps.perform_track c uuid event h
  | defaultTrack => exact steps.perform_defaultTrack c h
  | sample uuid sequence value => exact h.sample uuid sequence value
  | clear sequence => exact h.clear sequence

namespace Session

section Strings

theorem strings_claimThread (u : Uuid) (pid : Pid) (tid : Tid) (c : Session) :
    (Act.left (Act.claim (Owners.claimThread u pid tid) c)).backend.store.strings =
      c.backend.store.strings := by
  rw [claimThread_eq]
  dsimp only
  split
  · rfl
  split
  · rfl
  cases (Lifetimes.updateThread _ _ _).1 == _ <;> rfl

theorem strings_claimProcess (u : Uuid) (pid : Pid) (c : Session) :
    (Act.left (Act.claim (Owners.claimProcess u pid) c)).backend.store.strings =
      c.backend.store.strings := by
  rw [claimProcess_eq]
  dsimp only
  split
  · rfl
  split <;> rfl

theorem strings_reserve (u : Uuid) (r : Reservation) (c : Session) :
    (c.reserve u r).backend.store.strings = c.backend.store.strings := by
  unfold Catalog.reserve
  dsimp only
  split <;> rfl

theorem steps_strings : Catalog.Steps fun c c' : Session =>
    c'.backend.store.strings = c.backend.store.strings where
  refl _ := rfl
  trans h h' := h'.trans h
  count _ _ := rfl
  createRow _ _ _ := rfl
  threadRow _ _ := rfl
  processRow _ _ := rfl
  claimThread := strings_claimThread
  claimProcess := strings_claimProcess
  addArg track key value c := by
    cases row : Session.row? c track with
    | none => rw [addArg_error row, Act.left]
    | some _ =>
      have present : (Session.row? c track).isSome := by simp [row]
      exact congrArg (fun result => (Act.left result).backend.store.strings)
        (addArg_ok present [] key value)
  setName track name c := by
    cases row : Session.row? c track with
    | none => rw [setName_error row, Act.left]
    | some _ =>
      rw [setName_ok (by simp [row]), Act.left]
      rfl
  name track c := by
    cases row : Session.row? c track with
    | none => rw [name_error row, Act.left]
    | some _ => rw [name_ok row, Act.left]
  remember _ _ _ := rfl
  announceDefault name := strings_reserve 0 _

theorem strings_perform (c : Session) (command : Command) :
    (c.perform command).2.backend.store.strings = c.backend.store.strings := by
  cases command with
  | announce uuid descriptor => exact strings_reserve uuid descriptor.reservation c
  | track uuid event => exact steps_strings.perform_track c uuid event
  | defaultTrack => exact steps_strings.perform_defaultTrack c
  | sample uuid sequence value => rfl
  | clear sequence => rfl

theorem reads_after {w : Vocabulary} {c : Session} (h : w.Reads c.backend.store.strings)
    (moves : List Move) : w.Reads (c.after moves).backend.store.strings := by
  induction moves generalizing c with
  | nil => exact h
  | cons m moves ih =>
    refine ih (c := c.move m) ?_
    cases m with
    | command command =>
      rw [move, strings_perform]
      exact h
    | errand e =>
      cases e with
      | intern text => exact h.intern text
      | updateThread tid pid => exact h
      | startThread start tid => exact h
      | process pid => exact h
      | startProcess start parent pid name => exact h

end Strings

section Described

structure Primary (c : Session) (u : Uuid) (p : Placement) : Prop where
  flavor : p.flavor = .slice
  entity : c.backend.lifetimes.Holds p.scope
  owner : c.owner? p.scope = some u
  primary : c.primary? p.scope = some p.track

/-- The scope of a plain track below another track, by what that one is. -/
inductive Inherits : Placement → Scope → Prop
  | thread (track : TrackId) (utid : Utid) : Inherits ⟨track, .thread utid, .slice⟩ (.thread utid)
  | process (track : TrackId) (upid : Upid) :
    Inherits ⟨track, .process upid, .slice⟩ (.process upid)
  | global (track : TrackId) (flavor : Flavor) : Inherits ⟨track, .global, flavor⟩ .global
  | counter (track : TrackId) (scope : Scope) : Inherits ⟨track, scope, .counter⟩ .global

/-- Where the track of a uuid lies and what its arguments are, by the descriptor of the uuid and by
the parent that it kept. -/
structure Described (c : Session) (e : Entry) (r : Reservation) (p : Placement) : Prop where
  row : ∃ name, c.row? p.track = some ⟨p.track, name, p.scope, p.flavor⟩
  parent : ∀ v, e.parent = some v → (c.placement? v).isSome ∧
    ((v ≠ 0 ∧ v = r.parent) ∨ (v = 0 ∧ e.uuid ≠ 0 ∧ r.pid = none))
  thread : r.tid.isSome → (∃ utid, p.scope = .thread utid) ∧ Primary c e.uuid p
  process : r.tid = none → r.pid.isSome → (∃ upid, p.scope = .process upid) ∧ Primary c e.uuid p
  counter : r.tid = none → r.pid = none → r.isCounter = true → p.flavor = .counter
  slice : r.tid = none → r.pid = none → r.isCounter = false → p.flavor = .slice
  below : r.tid = none → r.pid = none → e.parent = some r.parent → r.parent ≠ 0 →
    ∀ q, c.placement? r.parent = some q → Inherits q p.scope
  apart : r.tid = none → r.pid = none → ¬(e.parent = some r.parent ∧ r.parent ≠ 0) →
    p.scope = .global
  args : c.argsOf p.track =
    [⟨c.vocabulary.source, .string c.vocabulary.descriptor⟩,
      ⟨c.vocabulary.sourceId, .integer e.uuid.toInt64⟩] ++
    ((e.parent.bind fun v => (c.placement? v).map Placement.track).map fun above =>
      ⟨c.vocabulary.parentTrackId, .integer (Int64.ofNat above.index)⟩).toList ++
    if r.category = .null then [] else [⟨c.vocabulary.category, .string r.category⟩]
  keys : ((c.argsOf p.track).map Arg.key).Nodup

variable {c : Session} {e : Entry} {r : Reservation} {p : Placement} {q : Option Placement}

theorem Stands.parent?_eq (s : Stands c e r p q) : e.parent.bind c.placement? = q := by
  rcases s.parent_cases with ⟨none, rfl⟩ | ⟨v, q', link, rfl, placed⟩
  · rw [none]
    rfl
  · rw [link]
    exact placed

theorem inherits_childScope (q : Placement) : Inherits q (q.childScope.getD .global) := by
  obtain ⟨track, scope, flavor⟩ := q
  cases flavor with
  | counter => exact .counter track scope
  | slice =>
    cases scope with
    | global => exact .global track .slice
    | process upid => exact .process track upid
    | thread utid => exact .thread track utid

theorem Stands.inherits (s : Stands c e r p q) (hpid : r.pid = none)
    (link : e.parent = some r.parent) (nonzero : r.parent ≠ 0) {q' : Placement}
    (placed : c.placement? r.parent = some q') : Inherits q' p.scope := by
  have kept : q = some q' := by rw [← s.parent?_eq, link, Option.bind_some, placed]
  have scope := (s.plain hpid).1
  rw [link, if_neg fun zero => nonzero (Option.some.inj zero), kept] at scope
  rw [scope]
  exact inherits_childScope q'

theorem Stands.scope_eq_global (s : Stands c e r p q) (hpid : r.pid = none)
    (dropped : ¬(e.parent = some r.parent ∧ r.parent ≠ 0)) : p.scope = .global := by
  have scope := (s.plain hpid).1
  split at scope
  · exact scope
  next other =>
    rcases s.parent_cases with ⟨-, rfl⟩ | ⟨v, q', link, -, -⟩
    · exact scope
    · have nonzero : v ≠ 0 := fun zero => other (zero ▸ link)
      obtain rfl := s.due.declared v link nonzero
      exact absurd ⟨link, nonzero⟩ dropped

theorem Stands.described (s : Stands c e r p q) (entities : c.Entities)
    (words : c.vocabulary.Distinct) (announced : r.OfDescriptor) : Described c e r p := by
  have args := s.args
  rw [← s.parent?_eq, Option.map_bind] at args
  have own (flavor : p.flavor = .slice) (hpid : r.pid.isSome) : Primary c e.uuid p :=
    have owned := s.owned hpid
    ⟨flavor, entities.known _ _ owned.1, owned.1, owned.2⟩
  constructor
  case row => exact s.row
  case parent =>
    intro v link
    rcases s.parent_cases with ⟨none, -⟩ | ⟨v', q', link', -, placed⟩
    · rw [none] at link
      cases link
    obtain rfl : v' = v := Option.some.inj (link'.symm.trans link)
    refine ⟨by simp [placed], ?_⟩
    by_cases zero : v' = 0
    · subst zero
      exact .inr ⟨rfl, (s.due.default link).2, (s.due.default link).1⟩
    · exact .inl ⟨zero, s.due.declared v' link zero⟩
  case thread =>
    intro htid
    obtain ⟨tid, htid⟩ := Option.isSome_iff_exists.mp htid
    obtain ⟨pid, hpid⟩ := Option.isSome_iff_exists.mp
      (announced.pid_of_tid (by simp [htid]))
    have suits := s.suits
    simp only [Placement.Suits, hpid, htid] at suits
    exact ⟨suits.1, own suits.2 (by simp [hpid])⟩
  case process =>
    intro htid hpid
    obtain ⟨pid, hpid⟩ := Option.isSome_iff_exists.mp hpid
    have suits := s.suits
    simp only [Placement.Suits, hpid, htid] at suits
    exact ⟨suits.1, own suits.2 (by simp [hpid])⟩
  case counter =>
    intro _ hpid isCounter
    rw [(s.plain hpid).2, if_pos isCounter]
  case slice =>
    intro _ hpid isSlice
    rw [(s.plain hpid).2, isSlice, if_neg Bool.false_ne_true]
  case below => exact fun _ hpid link nonzero q' placed => s.inherits hpid link nonzero placed
  case apart => exact fun _ hpid dropped => s.scope_eq_global hpid dropped
  case args =>
    rw [args, argsFor, if_congr StringId.isNull_iff rfl rfl]
    rfl
  case keys =>
    rw [args]
    exact nodup_keys_argsFor words _ _ _

theorem ofDescriptors_after (h : c.reservations.OfDescriptors) (moves : List Move) :
    (c.after moves).reservations.OfDescriptors := by
  induction moves generalizing c with
  | nil => exact h
  | cons m moves ih =>
    refine ih (c := c.move m) ?_
    cases m with
    | command command => exact Catalog.ofDescriptors_perform h command
    | errand e => exact h

end Described

end Session

namespace History

theorem ofDescriptors_opening (h : History) : h.opening.reservations.OfDescriptors := by
  rw [opening, Session.start_eq]
  intro u r hr
  cases hr

/-- A thread with a counter and a child below it, a process, a counter below the default track,
which lies below the thread, and children whose parents cannot be kept. -/
def mixed : History where
  settings := .default
  before := [.intern "category"]
  moves := [.command (.announce 1 (.thread 2 4 5 .null 1)),
    .command (.announce 2 (.process 4 .null 1)),
    .command (.announce 3 (.counter 1 .null ⟨1⟩ 1 true 1)), .command (.announce 4 (.child 3 .null)),
    .command (.announce 5 (.counter 0 .null ⟨1⟩ 1 false 1)),
    .command (.announce 6 (.child 9 .null)),
    .command (.announce 0 (.child 1 .null)), .command (.track 5 .null), .command (.track 4 .null),
    .command (.track 6 .null), .command (.announce 9 (.child 0 .null)), .command (.track 9 .null)]
  room := by decide +kernel

/-- Every track lies where its descriptor and the parent that it kept put it, and its arguments are
those that follow from these, in order. -/
theorem tracks_match_descriptors (h : History) (fits : h.state.Fits) :
    h.state.vocabulary.Reads h.state.backend.store.strings ∧
      ∀ u p, h.state.placement? u = some p → ∃ e ∈ h.log, e.uuid = u ∧
        ∃ r, h.state.reservation? u = some r ∧ Session.Described h.state e r p := by
  have sound := sound fits
  have opened : h.opening.vocabulary.Reads h.opening.backend.store.strings := by
    have words := h.tables.store.strings.words_enterWords h.settings.defaultTrackName
    have pool := h.unwritten.strings.enterWords h.settings.defaultTrackName h.room
    rw [opening, Session.start_eq]
    generalize h.tables.store.strings.enterWords h.settings.defaultTrackName = entered at *
    exact words.reads pool
  have announced := Session.ofDescriptors_after h.ofDescriptors_opening h.moves
  constructor
  · rw [(advance fits).kept.vocabulary]
    exact Session.reads_after opened h.moves
  · intro u p hp
    obtain ⟨e, he, rfl, r, q, stands⟩ := sound.stands_of_placement? hp
    exact ⟨e, he, rfl, r, stands.reserved, stands.described sound.entities (distinct fits)
      (announced _ _ stands.reserved)⟩

theorem tracks_match_descriptors_mixed :
    mixed.state.vocabulary.Reads mixed.state.backend.store.strings ∧
      ∀ u p, mixed.state.placement? u = some p → ∃ e ∈ mixed.log, e.uuid = u ∧
        ∃ r, mixed.state.reservation? u = some r ∧ Session.Described mixed.state e r p :=
  mixed.tracks_match_descriptors ⟨by decide +kernel, by decide +kernel, by decide +kernel⟩

end History
end TraceTracks
