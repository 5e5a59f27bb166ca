import TraceTracks.Catalog.Command
import TraceTracks.Proofs.Progress

/-! Everything that can happen to a session: commands, and what callers do with the strings and the
lifetimes besides. The log of a history lists the tracks that it made, oldest first. -/
namespace TraceTracks

/-- What a caller may do with the tables of a trace without the session. -/
inductive Errand
  | intern (text : String)
  | updateThread (tid : Tid) (pid : Pid)
  | startThread (start : Option Timestamp) (tid : Tid)
  | process (pid : Pid)
  | startProcess (start : Option Timestamp) (parent : Option Upid) (pid : Pid) (name : StringId)
  deriving DecidableEq

def Errand.perform (b : Trace) : Errand → Trace
  | .intern text => (TrackSink.intern text b).2
  | .updateThread tid pid => (LifetimeSource.updateThread tid pid b).2
  | .startThread start tid => (LifetimeSource.startThread start tid b).2
  | .process pid => (LifetimeSource.process pid b).2
  | .startProcess start parent pid name => (LifetimeSource.startProcess start parent pid name b).2

inductive Move
  | command (command : Command)
  | errand (errand : Errand)
  deriving DecidableEq

namespace Session

def move (c : Session) : Move → Session
  | .command command => (c.perform command).2
  | .errand errand => { c with backend := errand.perform c.backend }

def after (c : Session) (moves : List Move) : Session := moves.foldl move c

/-- The tracks that a move makes. -/
def arrivalsOf (c : Session) : Move → List Entry
  | .command (.track uuid _) => c.arrivals c.settings.maxAncestors c.settings.maxAncestors [] uuid
  | .command .defaultTrack => c.defaultSurvey c.settings.maxAncestors []
  | _ => []

def logOf (c : Session) : List Move → List Entry
  | [] => []
  | m :: moves => c.arrivalsOf m ++ (c.move m).logOf moves

end Session

/-- A session is opened on tables that may hold strings and lifetimes already. -/
structure History where
  settings : Settings
  before : List Errand
  moves : List Move
  room : (before.foldl Errand.perform Trace.empty).store.strings.size + 6 ≤ UInt32.size

namespace History

def tables (h : History) : Trace := h.before.foldl Errand.perform Trace.empty

def opening (h : History) : Session := Catalog.start h.settings h.tables

def state (h : History) : Session := h.opening.after h.moves

def log (h : History) : List Entry := h.opening.logOf h.moves

def tangled : History where
  settings := .default
  before := [.intern "early", .process 4]
  moves := [.command (.announce 0 (.child 9 .null)), .command (.announce 9 (.child 8 .null)),
    .command (.announce 8 (.child 0 .null)), .errand (.startThread none 5),
    .command (.announce 7 (.child 8 .null)), .command (.announce 6 (.process 4 .null 1)),
    .command (.track 6 .null)]
  room := by decide +kernel

def looped : History where
  settings := .default
  before := []
  moves := [.command (.announce 0 (.child 9 .null)), .command (.announce 9 (.child 8 .null)),
    .command (.announce 8 (.child 0 .null)), .command (.announce 5 (.child 5 .null)),
    .command (.announce 3 (.thread 0 4 5 .null 1)), .command (.announce 2 (.child 3 .null)),
    .command (.track 9 .null), .command (.track 2 .null), .command (.track 5 .null)]
  room := by decide +kernel

/-- Two uuids share a pid and two others a thread as well, and a thread of the latter is replaced by
a caller. -/
def recycled : History where
  settings := .default
  before := [.updateThread 5 4]
  moves := [.command (.announce 1 (.process 4 .null 1)),
    .command (.announce 2 (.process 4 .null 2)),
    .command (.announce 3 (.thread 1 4 5 .null 1)), .command (.announce 4 (.thread 2 4 5 .null 2)),
    .command (.track 3 .null), .errand (.startThread none 5), .command (.track 4 .null),
    .command .defaultTrack]
  room := by decide +kernel

end History

def Vocabulary.Distinct (w : Vocabulary) : Prop :=
  [w.source, w.sourceId, w.parentTrackId, w.category].Nodup

structure Trace.Unwritten (b : Trace) : Prop where
  tracks : b.store.tracks = .empty
  args : b.store.args = .empty
  tally : b.store.tally = .zero
  strings : b.store.strings.Sound
  lifetimes : b.lifetimes.Sound

namespace Session
variable {log : List Entry} {c c' : Session}

section Growth

theorem nameIfUnnamed_ok {track : TrackId} (h : (c.row? track).isSome) (name : StringId) :
    ∃ c' : Session, Catalog.nameIfUnnamed track name c = .ok () c' ∧
      (c' = c ∨ c' = c.withName track name) := by
  obtain ⟨row, hrow⟩ := Option.isSome_iff_exists.mp h
  unfold Catalog.nameIfUnnamed
  rw [Act.bind_ok (name_ok hrow)]
  split
  · exact ⟨_, setName_ok h name, .inr rfl⟩
  · exact ⟨c, rfl, .inl rfl⟩

theorem growing_nameAfter (u : Uuid) (event : StringId) (o : Option Placement) :
    Growing (Catalog.nameAfter u event o) := .of_evolves (steps_grows.nameAfter u event o)

theorem growing_elseMakeDefault (o : Option Placement) : Growing (Catalog.elseMakeDefault o) :=
  .of_evolves (steps_grows.elseMakeDefault o)

theorem grows_errand (e : Errand) (c : Session) :
    Grows c { c with backend := e.perform c.backend } := by
  cases e with
  | intern text => exact ⟨Nat.le_refl _, .refl _⟩
  | updateThread tid pid =>
    exact ⟨Nat.le_refl _, Lifetimes.grows_updateThread tid pid _⟩
  | startThread start tid =>
    exact ⟨Nat.le_refl _, Lifetimes.grows_startThread start tid _⟩
  | process pid => exact ⟨Nat.le_refl _, Lifetimes.grows_process pid _⟩
  | startProcess start parent pid name =>
    exact ⟨Nat.le_refl _, Lifetimes.grows_startProcess start parent pid name _⟩

theorem perform_track (c : Session) (u : Uuid) (event : StringId) :
    (c.perform (.track u event)).2 = left (Catalog.track? u event c) := by
  unfold Catalog.perform
  dsimp only
  split <;> rename_i h <;> rw [h] <;> rfl

theorem perform_defaultTrack (c : Session) :
    (c.perform .defaultTrack).2 = left (Catalog.defaultTrackId c) := by
  unfold Catalog.perform
  dsimp only
  split <;> rename_i h <;> rw [h] <;> rfl

theorem grows_move (c : Session) (m : Move) : Grows c (c.move m) := by
  cases m with
  | errand e => exact grows_errand e c
  | command command =>
    cases command with
    | announce uuid descriptor => exact grows_reserve uuid descriptor.reservation c
    | track uuid event => exact steps_grows.perform_track c uuid event
    | defaultTrack => exact steps_grows.perform_defaultTrack c
    | sample uuid sequence value => exact ⟨Nat.le_refl _, .refl _⟩
    | clear sequence => exact ⟨Nat.le_refl _, .refl _⟩

theorem grows_after (c : Session) (moves : List Move) : Grows c (c.after moves) := by
  induction moves generalizing c with
  | nil => exact .refl c
  | cons m moves ih => exact (grows_move c m).trans (ih (c.move m))

end Growth

section Moves

structure Advance (log : List Entry) (c c' : Session) (entries : List Entry) : Prop where
  sound : Sound (log ++ entries) [] c'
  kept : Extends c c'
  counts : ∀ cut : Cut, c'.countOf cut.anomaly =
    c.countOf cut.anomaly + cutCount cut.anomaly (cutsOf entries)

theorem Advance.of_progress {entries : List Entry} (sound : Sound (log ++ entries) [] c')
    (progress : Progress c c' (cutsOf entries)) : Advance log c c' entries :=
  ⟨sound, progress.kept, fun cut => progress.counts _ (by cases cut <;> rfl)⟩

theorem Advance.of_quiet (s : Sound log [] c) (quiet : Quiet c c')
    (counts : ∀ cut : Cut, c'.countOf cut.anomaly = c.countOf cut.anomaly) :
    Advance log c c' [] := by
  refine ⟨?_, quiet.extends, counts⟩
  rw [List.append_nil]
  exact s.quiet quiet (List.forall_mem_nil _)

theorem nameAfter_ok (u : Uuid) (event : StringId) {o : Option Placement}
    (present : ∀ p, o = some p → (c.row? p.track).isSome) :
    ∃ c' : Session, Catalog.nameAfter u event o c = .ok (o.map Placement.track) c' ∧
      (c' = c ∨ StringId.isNull event = false ∧ ∃ track, c' = c.withName track event) := by
  cases o with
  | none => exact ⟨c, rfl, .inl rfl⟩
  | some p =>
    unfold Catalog.nameAfter
    dsimp only
    rw [Act.bind_ok (Act.get_ok c)]
    split
    next named =>
      simp only [Bool.and_eq_true, Bool.not_eq_true'] at named
      obtain ⟨c', renamed, same⟩ := nameIfUnnamed_ok (present p rfl) event
      rw [Act.bind_ok renamed]
      exact ⟨c', rfl, same.imp id fun same => ⟨named.1, p.track, same⟩⟩
    next => exact ⟨c, rfl, .inl rfl⟩

theorem track?_ok {u : Uuid} {event : StringId} (s : Sound log [] c)
    (fits : (left (Catalog.track? u event c)).Fits) :
    ∃ c₁ c' : Session, Catalog.track? u event c = .ok ((c₁.placement? u).map Placement.track) c' ∧
      Sound (log ++ c.arrivalsOf (.command (.track u event))) [] c₁ ∧
      Progress c c₁ (cutsOf (c.arrivalsOf (.command (.track u event)))) ∧
      (c' = c₁ ∨ StringId.isNull event = false ∧ ∃ track, c' = c₁.withName track event) := by
  rw [Catalog.track?_eq_bind] at fits ⊢
  have roomy := fits.of_grows (left_bind_grows (growing_nameAfter u event) c)
  obtain ⟨c₁, resolved, sound, progress⟩ := resolve_ok s c.settings.maxAncestors u roomy
  obtain ⟨c', named, same⟩ := nameAfter_ok u event (sound.row_of_placement? u)
  exact ⟨c₁, c', (Act.bind_ok resolved _).trans named, sound, progress, same⟩

theorem defaultTrackId_ok (s : Sound log [] c) (fits : (left (Catalog.defaultTrackId c)).Fits) :
    ∃ p, ∃ c' : Session, Catalog.defaultTrackId c = .ok p.track c' ∧ c'.placement? 0 = some p ∧
      Sound (log ++ c.defaultSurvey c.settings.maxAncestors []) [] c' ∧
      Progress c c' (cutsOf (c.defaultSurvey c.settings.maxAncestors [])) := by
  rw [Catalog.defaultTrackId_eq_map, left_map] at fits
  rw [Catalog.defaultTrackId_eq_map]
  have roomy := fits.of_grows (left_bind_grows growing_elseMakeDefault c)
  have resolution := Catalog.resolution c.settings.maxAncestors .empty Trail.level_empty 0 c
  obtain ⟨c₁, resolved, sound, progress⟩ := resolve_ok s c.settings.maxAncestors 0 roomy
  cases placed : c₁.placement? 0 with
  | some p =>
    rw [placed] at resolved
    have survey := s.defaultSurvey_of_found sound placed
    refine ⟨p, c₁, Act.map_ok (Catalog.defaultTrack_of_found resolved) _, placed, ?_⟩
    rw [survey]
    exact ⟨sound, progress⟩
  | none =>
    rw [placed] at resolved
    rw [resolved] at resolution
    obtain ⟨absent, unreserved, rfl⟩ := resolution.of_none
    have made : Catalog.defaultTrack (Catalog.resolve c₁.settings.maxAncestors .empty 0) c₁ =
        Catalog.makeDefault c₁ := Catalog.defaultTrack_of_none resolved
    rw [made] at fits
    obtain ⟨p, c', found, placed', sound', progress'⟩ :=
      makeDefault_ok s absent unreserved (by simp) fits
    have survey : Catalog.defaultSurvey c₁ c₁.settings.maxAncestors [] = [⟨0, none, []⟩] := by
      simp [Catalog.defaultSurvey, absent, unreserved]
    refine ⟨p, c', Act.map_ok (made.trans found) _, placed', ?_⟩
    rw [survey, cutsOf_singleton]
    exact ⟨sound', progress'⟩

theorem countOf_reserve (u : Uuid) (r : Reservation) (c : Session) (cut : Cut) :
    countOf (c.reserve u r) cut.anomaly = c.countOf cut.anomaly :=
  countOf_reserve_of_ne (by cases cut <;> decide) u r c

theorem quiet_errand (e : Errand) (c : Session) :
    Quiet c { c with backend := e.perform c.backend } := by
  have grows := (grows_errand e c).lifetimes
  have sound (h : c.backend.lifetimes.Sound) : (e.perform c.backend).lifetimes.Sound := by
    cases e with
    | intern text => exact h
    | updateThread tid pid => exact h.updateThread tid pid
    | startThread start tid => exact h.startThread start tid
    | process pid => exact h.process pid
    | startProcess start parent pid name => exact h.startProcess start parent pid name
  have tables : (e.perform c.backend).store.tracks = c.backend.store.tracks ∧
      (e.perform c.backend).store.args = c.backend.store.args := by
    cases e <;> exact ⟨rfl, rfl⟩
  refine ⟨rfl, rfl, rfl, fun u r h => ⟨r, h, rfl⟩, ?_, ?_, ?_, ?_, ?_, grows, sound⟩
  · intro id row h
    refine ⟨row.name, ?_⟩
    rw [row?, Store.track?] at h ⊢
    rwa [tables.1]
  · rw [rows, tables.1]
    rfl
  · funext id
    rw [argsOf, tables.2]
    rfl
  · funext scope
    cases scope <;> rfl
  · funext scope
    cases scope with
    | global => rfl
    | thread utid => rw [primary?, tables.1, primary?]
    | process upid => rw [primary?, tables.1, primary?]

theorem move_ok (s : Sound log [] c) (m : Move) (fits : (c.move m).Fits) :
    Advance log c (c.move m) (c.arrivalsOf m) := by
  cases m with
  | errand e =>
    apply Advance.of_quiet s (quiet_errand e c)
    intro cut
    cases e <;> rfl
  | command command =>
    cases command with
    | announce uuid descriptor =>
      exact .of_quiet s (quiet_reserve _ _ _) (countOf_reserve uuid descriptor.reservation c)
    | sample uuid sequence value => exact .of_quiet s (quiet_sample _ _ _ _) fun _ => rfl
    | clear sequence => exact .of_quiet s (quiet_clear _ _) fun _ => rfl
    | track uuid event =>
      rw [move, perform_track] at fits ⊢
      obtain ⟨c₁, c', found, sound, progress, same⟩ := track?_ok s fits
      have first := Advance.of_progress sound progress
      rw [found]
      rcases same with rfl | ⟨-, track, rfl⟩
      · exact first
      · have quiet := quiet_withName c₁ track event
        exact ⟨sound.quiet quiet (List.forall_mem_nil _), first.kept.trans quiet.extends,
          first.counts⟩
    | defaultTrack =>
      rw [move, perform_defaultTrack] at fits ⊢
      obtain ⟨p, c', found, -, sound, progress⟩ := defaultTrackId_ok s fits
      rw [found]
      exact .of_progress sound progress

theorem after_ok (s : Sound log [] c) (moves : List Move) (fits : (c.after moves).Fits) :
    Advance log c (c.after moves) (c.logOf moves) := by
  induction moves generalizing log c with
  | nil =>
    refine ⟨?_, .refl c, fun _ => rfl⟩
    rw [logOf, List.append_nil]
    exact s
  | cons m moves ih =>
    have first := move_ok s m (fits.of_grows (grows_after (c.move m) moves))
    have rest := ih first.sound fits
    refine ⟨?_, first.kept.trans rest.kept, fun cut => ?_⟩
    · rw [logOf, ← List.append_assoc]
      exact rest.sound
    · have counted := rest.counts cut
      rw [first.counts] at counted
      rw [logOf, cutsOf_append, cutCount_append, ← Nat.add_assoc]
      exact counted

end Moves

end Session

section Opening
variable {b : Trace}

theorem Errand.size_le_perform (b : Trace) (e : Errand) :
    b.store.strings.size ≤ (e.perform b).store.strings.size := by
  cases e with
  | intern text => exact Strings.size_le_intern _ text
  | _ => exact Nat.le_refl _

theorem Errand.size_le_foldl (errands : List Errand) (b : Trace) :
    b.store.strings.size ≤ (errands.foldl perform b).store.strings.size := by
  induction errands generalizing b with
  | nil => exact Nat.le_refl _
  | cons e errands ih => exact Nat.le_trans (size_le_perform b e) (ih (e.perform b))

theorem Trace.unwritten_empty : Trace.empty.Unwritten :=
  ⟨rfl, rfl, rfl, Strings.sound_empty, Lifetimes.sound_empty⟩

theorem Trace.Unwritten.perform (h : b.Unwritten) (e : Errand)
    (fits : (e.perform b).store.strings.size ≤ UInt32.size) : (e.perform b).Unwritten := by
  obtain ⟨tracks, args, tally, strings, lifetimes⟩ := h
  cases e with
  | intern text => exact ⟨tracks, args, tally, strings.intern fits, lifetimes⟩
  | updateThread tid pid =>
    exact ⟨tracks, args, tally, strings, lifetimes.updateThread tid pid⟩
  | startThread start tid => exact ⟨tracks, args, tally, strings, lifetimes.startThread start tid⟩
  | process pid => exact ⟨tracks, args, tally, strings, lifetimes.process pid⟩
  | startProcess start parent pid name =>
    exact ⟨tracks, args, tally, strings, lifetimes.startProcess start parent pid name⟩

theorem Trace.Unwritten.foldl (h : b.Unwritten) (errands : List Errand)
    (fits : (errands.foldl Errand.perform b).store.strings.size ≤ UInt32.size) :
    (errands.foldl Errand.perform b).Unwritten := by
  induction errands generalizing b with
  | nil => exact h
  | cons e errands ih =>
    exact ih (h.perform e (Nat.le_trans (Errand.size_le_foldl errands _) fits)) fits

def Strings.enterWords (s : Strings) (defaultTrackName : String) : Vocabulary × Strings :=
  let source := s.intern "source"
  let sourceId := source.2.intern "source_id"
  let parentTrackId := sourceId.2.intern "parent_track_id"
  let category := parentTrackId.2.intern "category"
  let descriptor := category.2.intern "descriptor"
  let name := descriptor.2.intern defaultTrackName
  (⟨source.1, sourceId.1, parentTrackId.1, category.1, descriptor.1, name.1⟩, name.2)

theorem Trace.intern_eq (text : String) (b : Trace) :
    TrackSink.intern text b = ((b.store.strings.intern text).1,
      { b with store.strings := (b.store.strings.intern text).2 }) := rfl

theorem Session.start_eq (settings : Settings) (b : Trace) : Catalog.start settings b =
    ⟨{ b with store.strings := (b.store.strings.enterWords settings.defaultTrackName).2 }, settings,
      (b.store.strings.enterWords settings.defaultTrackName).1, .empty, .empty, .empty⟩ := by
  simp only [Catalog.start, Catalog.vocabularyOf, Trace.intern_eq, Strings.enterWords]

structure Vocabulary.Of (w : Vocabulary) (s : Strings) (defaultTrackName : String) : Prop where
  source : s.lookup? "source" = some w.source
  sourceId : s.lookup? "source_id" = some w.sourceId
  parentTrackId : s.lookup? "parent_track_id" = some w.parentTrackId
  category : s.lookup? "category" = some w.category
  descriptor : s.lookup? "descriptor" = some w.descriptor
  defaultTrackName : s.lookup? defaultTrackName = some w.defaultTrackName

theorem Strings.words_enterWords (s : Strings) (defaultTrackName : String) :
    (s.enterWords defaultTrackName).1.Of (s.enterWords defaultTrackName).2 defaultTrackName := by
  have entered (s : Strings) (text : String) := lookup?_intern s text
  have kept {s : Strings} {word : String} {id : StringId} (h : s.lookup? word = some id)
      (text : String) := lookup?_intern_of_lookup? h text
  unfold enterWords
  constructor
  · exact kept (kept (kept (kept (kept (entered _ _) _) _) _) _) _
  · exact kept (kept (kept (kept (entered _ _) _) _) _) _
  · exact kept (kept (kept (entered _ _) _) _) _
  · exact kept (kept (entered _ _) _) _
  · exact kept (entered _ _) _
  · exact entered _ _

theorem Strings.Sound.enterWords {s : Strings} (h : s.Sound) (defaultTrackName : String)
    (room : s.size + 6 ≤ UInt32.size) : (s.enterWords defaultTrackName).2.Sound := by
  have enter {n : Nat} {s : Strings} (h : s.Sound ∧ s.size + (n + 1) ≤ UInt32.size)
      (text : String) : (s.intern text).2.Sound ∧ (s.intern text).2.size + n ≤ UInt32.size := by
    have size := size_intern_le s text
    exact ⟨h.1.intern (by omega), by omega⟩
  unfold Strings.enterWords
  exact (enter (enter (enter (enter (enter (enter ⟨h, room⟩ _) _) _) _) _) _).1

theorem Vocabulary.Of.distinct {w : Vocabulary} {s : Strings} {defaultTrackName : String}
    (words : w.Of s defaultTrackName) (pool : s.Sound) : w.Distinct := by
  have apart {x y : String} {i j : StringId} (hi : s.lookup? x = some i)
      (hj : s.lookup? y = some j) (hxy : x ≠ y) : i ≠ j := by
    rintro rfl
    exact hxy (pool.inj hi hj)
  have ab := apart words.source words.sourceId (by decide)
  have ac := apart words.source words.parentTrackId (by decide)
  have ad := apart words.source words.category (by decide)
  have bc := apart words.sourceId words.parentTrackId (by decide)
  have bd := apart words.sourceId words.category (by decide)
  have cd := apart words.parentTrackId words.category (by decide)
  simp only [Vocabulary.Distinct, List.nodup_cons, List.mem_cons, List.not_mem_nil, or_false,
    not_or, not_false_eq_true, List.nodup_nil, and_true]
  exact ⟨⟨ab, ac, ad⟩, ⟨bc, bd⟩, cd⟩

theorem Strings.Sound.distinct_enterWords {s : Strings} (h : s.Sound) (defaultTrackName : String)
    (room : s.size + 6 ≤ UInt32.size) : (s.enterWords defaultTrackName).1.Distinct :=
  (s.words_enterWords defaultTrackName).distinct (h.enterWords defaultTrackName room)

namespace Session

theorem sound_blank {c : Session} (tracks : c.backend.store.tracks = .empty)
    (args : c.backend.store.args = .empty) (lifetimes : c.backend.lifetimes.Sound)
    (placements : c.placements = .empty) (owners : c.owners = .empty) : Sound [] [] c := by
  have unowned (s : Scope) : c.owner? s = none := by
    cases s <;> simp only [owner?, owners] <;> rfl
  have noRow (id : TrackId) : c.row? id = none := by
    rw [row?, Store.track?, tracks]
    rfl
  have untaken (u : Uuid) (p : Placement) : ¬Taken [] c u p := by
    rintro (hp | ⟨k, hk, -, -⟩)
    · rw [Catalog.placement?, placements] at hp
      cases hp
    · cases hk
  constructor
  case entities =>
    refine ⟨lifetimes, fun s v hv => ?_, fun s id hid => ?_⟩
    · rw [unowned] at hv
      cases hv
    · cases s <;> simp only [primary?, tracks] at hid <;> cases hid
  case keys =>
    rw [placements]
    rfl
  case placed => exact List.forall_mem_nil _
  case keeps => exact List.forall_mem_nil _
  case id =>
    intro id row hrow
    rw [noRow] at hrow
    cases hrow
  case taken =>
    intro id hrow
    rw [noRow] at hrow
    cases hrow
  case unique => exact fun u v p q t _ _ => absurd t (untaken u p)
  case single => exact List.nodup_nil
  case bare =>
    intro id _
    rw [argsOf, args]
    rfl
  case owner =>
    intro s v hv
    rw [unowned] at hv
    cases hv

theorem sound_start (settings : Settings) (h : b.Unwritten) :
    Sound [] [] (Catalog.start settings b) := by
  rw [start_eq]
  exact sound_blank h.tracks h.args h.lifetimes rfl rfl

end Session

namespace History
variable {h : History}

theorem unwritten (h : History) : h.tables.Unwritten :=
  Trace.unwritten_empty.foldl h.before (Nat.le_trans (Nat.le_add_right _ 6) h.room)

theorem advance (fits : h.state.Fits) : Session.Advance [] h.opening h.state h.log :=
  Session.after_ok (Session.sound_start h.settings h.unwritten) h.moves fits

/-- The tables are sound after every history. -/
theorem sound (fits : h.state.Fits) : Session.Sound h.log [] h.state := (advance fits).sound

theorem distinct_opening (h : History) : h.opening.vocabulary.Distinct := by
  rw [opening, Session.start_eq]
  exact h.unwritten.strings.distinct_enterWords _ h.room

theorem distinct (fits : h.state.Fits) : h.state.vocabulary.Distinct := by
  rw [(advance fits).kept.vocabulary]
  exact h.distinct_opening

/-- Every link that was ever dropped is in the log. -/
theorem countOf_eq (fits : h.state.Fits) (cut : Cut) :
    h.state.countOf cut.anomaly = cutCount cut.anomaly (cutsOf h.log) := by
  have zero : h.opening.countOf cut.anomaly = 0 := by
    rw [opening, Session.start_eq, Session.countOf, h.unwritten.tally, Tally.get_zero]
  rw [(advance fits).counts, zero, Nat.zero_add]

end History
end Opening
end TraceTracks
