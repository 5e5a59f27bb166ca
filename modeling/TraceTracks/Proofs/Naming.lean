import TraceTracks.Proofs.CanonicalRows

/-! How tracks come by their names. The descriptor names a track when it is made. A plain track
whose descriptor does not is named by the first event on it that has a name, and keeps that. -/
namespace TraceTracks

namespace Reservation
variable {r r' : Reservation} {events : List StringId}

/-- The name of a track on which there were some events, in order. -/
def dueName (r : Reservation) (events : List StringId) : StringId :=
  if r.name ≠ .null then r.name
  else if r.pid.isSome || r.tid.isSome || r.isCounter then .null
  else (events.find? (· ≠ .null)).getD .null

theorem dueName_of_named (named : r.name ≠ .null) (events : List StringId) :
    r.dueName events = r.name :=
  if_pos named

theorem dueName_of_fixed (unnamed : r.name = .null) (fixed : r.hasFixedName)
    (events : List StringId) : r.dueName events = .null :=
  (if_neg fun named => named unnamed).trans (if_pos fixed)

theorem dueName_of_plain (unnamed : r.name = .null) (plain : r.hasFixedName = false)
    (events : List StringId) : r.dueName events = (events.find? (· ≠ .null)).getD .null :=
  (if_neg fun named => named unnamed).trans (if_neg (Bool.eq_false_iff.mp plain))

theorem dueName_nil (r : Reservation) : r.dueName [] = r.name := by
  by_cases unnamed : r.name = .null
  · cases fixed : r.hasFixedName with
    | true => rw [dueName_of_fixed unnamed fixed, unnamed]
    | false =>
      rw [dueName_of_plain unnamed fixed, unnamed]
      rfl
  · exact dueName_of_named unnamed []

theorem dueName_of_still (h : r'.still = r.still) (events : List StringId) :
    r'.dueName events = r.dueName events := by
  have shape := toShape_of_still h
  have pid : r'.pid = r.pid := congrArg Shape.pid shape
  have tid : r'.tid = r.tid := congrArg Shape.tid shape
  have isCounter : r'.isCounter = r.isCounter := congrArg Shape.isCounter shape
  unfold dueName
  rw [name_of_still h, pid, tid, isCounter]

theorem dueName_append (r : Reservation) (events more : List StringId) :
    r.dueName (events ++ more) =
      if r.dueName events = .null then r.dueName more else r.dueName events := by
  by_cases unnamed : r.name = .null
  · cases fixed : r.hasFixedName with
    | true => simp only [dueName_of_fixed unnamed fixed, ite_self]
    | false =>
      simp only [dueName_of_plain unnamed fixed, List.find?_append]
      cases found : events.find? (· ≠ .null) with
      | none => rfl
      | some name =>
        have proper : name ≠ .null := by simpa using List.find?_some found
        exact (if_neg proper).symm
  · simp only [dueName_of_named unnamed, if_neg unnamed]

theorem dueName_append_of_ne_null (h : r.dueName events ≠ .null) (more : List StringId) :
    r.dueName (events ++ more) = r.dueName events := by
  rw [dueName_append, if_neg h]

theorem dueName_append_singleton (r : Reservation) (events : List StringId) (event : StringId) :
    r.dueName (events ++ [event]) =
      if StringId.isNull (r.dueName events) && (!StringId.isNull event && !r.hasFixedName)
      then event else r.dueName events := by
  rw [dueName_append]
  by_cases none : r.dueName events = .null
  · have unnamed : r.name = .null := Decidable.byContradiction fun named =>
      named ((dueName_of_named named events).symm.trans none)
    rw [if_pos none, none]
    cases fixed : r.hasFixedName with
    | true =>
      rw [dueName_of_fixed unnamed fixed]
      simp
    | false =>
      rw [dueName_of_plain unnamed fixed]
      by_cases silent : event = .null
      · rw [silent]
        rfl
      · simp [silent, Bool.eq_false_iff.mpr (mt StringId.isNull_iff.mp silent)]
  · rw [if_neg none, Bool.eq_false_iff.mpr (mt StringId.isNull_iff.mp none), Bool.false_and,
      if_neg Bool.false_ne_true]

end Reservation

namespace Session
variable {c c' : Session}

section Event

def heard (c : Session) (u : Uuid) (event : StringId) : Session :=
  match c.placement? u with
  | none => c
  | some p =>
    if (c.row? p.track).any fun row => StringId.isNull row.name && (!StringId.isNull event &&
        (c.reservation? u).any (!·.hasFixedName))
    then c.withName p.track event
    else c

theorem nameIfUnnamed_eq {track : TrackId} {row : Track} (h : c.row? track = some row)
    (name : StringId) : Catalog.nameIfUnnamed track name c =
      .ok () (if StringId.isNull row.name then c.withName track name else c) := by
  have present : (c.row? track).isSome := by simp [h]
  unfold Catalog.nameIfUnnamed
  rw [Act.bind_ok (name_ok h)]
  split
  · exact setName_ok present name
  · rfl

theorem nameAfter_eq (u : Uuid) (event : StringId)
    (present : ∀ p, c.placement? u = some p → (c.row? p.track).isSome) :
    Catalog.nameAfter u event (c.placement? u) c =
      .ok ((c.placement? u).map Placement.track) (c.heard u event) := by
  unfold heard
  cases placed : c.placement? u with
  | none => rfl
  | some p =>
  obtain ⟨row, hrow⟩ := Option.isSome_iff_exists.mp (present p placed)
  unfold Catalog.nameAfter
  dsimp only
  rw [Act.bind_ok (Act.get_ok c), hrow, Option.any_some]
  split
  next plain =>
    rw [Act.bind_ok (nameIfUnnamed_eq hrow event), plain, Bool.and_true]
    rfl
  next fixed =>
    rw [Bool.not_eq_true] at fixed
    rw [fixed, Bool.and_false]
    rfl

/-- Looking a track up for an event goes the same way for any other event, but for the name. -/
theorem track?_heard {log : List Entry} {u : Uuid} {event : StringId} (s : Sound log [] c)
    (fits : (left (Catalog.track? u event c)).Fits) : ∃ c₁ : Session,
      (∀ event', left (Catalog.track? u event' c) = c₁.heard u event') ∧
      Sound (log ++ c.arrivalsOf (.command (.track u event))) [] c₁ ∧
      Progress c c₁ (cutsOf (c.arrivalsOf (.command (.track u event)))) ∧
      (c₁.placement? u).isSome = (c.reservation? u).isSome := by
  rw [Catalog.track?_eq_bind] at fits
  have roomy := fits.of_grows (left_bind_grows (growing_nameAfter u event) c)
  have resolution := Catalog.resolution c.settings.maxAncestors .empty Trail.level_empty u c
  obtain ⟨c₁, resolved, sound, progress⟩ := resolve_ok s c.settings.maxAncestors u roomy
  refine ⟨c₁, fun event' => ?_, sound, progress, ?_⟩
  · rw [Catalog.track?_eq_bind, Act.bind_ok resolved,
      nameAfter_eq u event' (sound.row_of_placement? u),
      left]
  cases placed : c₁.placement? u with
  | none =>
    rw [resolved, placed] at resolution
    rw [resolution.of_none.2.1]
    rfl
  | some p =>
    obtain ⟨e, -, rfl, r, q, stands⟩ := sound.stands_of_placement? placed
    rcases progress.announced e.uuid with same | ⟨zero, unreserved, -⟩
    · rw [← same, stands.reserved]
      rfl
    · have absent : c.placement? e.uuid = none := by
        apply Option.eq_none_iff_forall_ne_some.mpr
        intro p' placed'
        obtain ⟨e', -, same, r', q', stands'⟩ := s.stands_of_placement? placed'
        have reserved := stands'.reserved
        rw [same, zero, unreserved] at reserved
        cases reserved
      rw [Catalog.resolve_of_unannounced absent (zero ▸ unreserved)] at resolved
      injection resolved with found
      rw [placed] at found
      cases found

theorem quiet_heard (c : Session) (u : Uuid) (event : StringId) : Quiet c (c.heard u event) := by
  have same : Quiet c c := quiet_withTally c c.backend.store.tally
  unfold heard
  split
  · exact same
  split
  · exact quiet_withName _ _ _
  · exact same

theorem reservation?_heard (c : Session) (u : Uuid) (event : StringId) :
    (c.heard u event).reservation? = c.reservation? := by
  unfold heard
  split
  · rfl
  split <;> rfl

theorem heard_null (c : Session) (u : Uuid) : c.heard u .null = c := by
  unfold heard
  split
  · rfl
  · have null : StringId.isNull .null = true := rfl
    rw [null]
    simp

theorem row?_heard_of_ne {u : Uuid} {p : Placement} (placed : c.placement? u = some p)
    (event : StringId) {id : TrackId} (h : id ≠ p.track) :
    (c.heard u event).row? id = c.row? id := by
  unfold heard
  rw [placed]
  dsimp only
  split
  · rw [row?_withName, if_neg h]
  · rfl

theorem row?_heard_self {u : Uuid} {p : Placement} {r : Reservation} {row : Track}
    (placed : c.placement? u = some p) (reserved : c.reservation? u = some r)
    (hrow : c.row? p.track = some row) (event : StringId) :
    ∃ row', (c.heard u event).row? p.track = some row' ∧ row'.name =
      if StringId.isNull row.name && (!StringId.isNull event && !r.hasFixedName) then event
      else row.name := by
  unfold heard
  rw [placed]
  dsimp only
  rw [hrow, reserved, Option.any_some, Option.any_some]
  split
  · exact ⟨_, by rw [row?_withName, if_pos rfl, hrow, Option.map_some], rfl⟩
  · exact ⟨row, hrow, rfl⟩

end Event
section Run
variable {log : List Entry} {events : Uuid → List StringId}

def eventsOf (c : Session) (u : Uuid) : Move → List StringId
  | .command (.track v event) => if v = u ∧ (c.reservation? v).isSome then [event] else []
  | _ => []

/-- The names of the events that moves pass with a uuid while it is announced, in order. -/
def eventsAfter (c : Session) (u : Uuid) : List Move → List StringId
  | [] => []
  | m :: moves => c.eventsOf u m ++ (c.move m).eventsAfter u moves

structure Named (events : Uuid → List StringId) (c : Session) : Prop where
  due : ∀ u p r, c.placement? u = some p → c.reservation? u = some r →
    ∃ row, c.row? p.track = some row ∧ row.name = r.dueName (events u)
  unheard : ∀ u, c.placement? u = none → events u = []

theorem Named.extend (n : Named events c) (s : Sound log [] c) (x : Extends c c')
    (steady : ∀ u p, c.placement? u = some p → c'.row? p.track = c.row? p.track)
    (labelled : ∀ u p, c.placement? u = none → c'.placement? u = some p → Labelled c' u p) :
    Named events c' where
  due u p r placed reserved := by
    cases before : c.placement? u with
    | none =>
      obtain ⟨r', row, reserved', hrow, name⟩ := labelled u p before placed
      obtain rfl : r' = r := Option.some.inj (reserved'.symm.trans reserved)
      refine ⟨row, hrow, ?_⟩
      rw [name, n.unheard u before, Reservation.dueName_nil]
    | some p' =>
      obtain rfl : p' = p := Option.some.inj ((x.placed u p' before).symm.trans placed)
      obtain ⟨e, -, rfl, r₀, q, stands⟩ := s.stands_of_placement? before
      obtain ⟨r', reserved', same⟩ := x.reserved e.uuid r₀ stands.reserved
      obtain rfl : r' = r := Option.some.inj (reserved'.symm.trans reserved)
      obtain ⟨row, hrow, name⟩ := n.due e.uuid p' r₀ before stands.reserved
      refine ⟨row, (steady e.uuid p' before).trans hrow, ?_⟩
      rw [name, Reservation.dueName_of_still same]
  unheard u absent := by
    refine n.unheard u (Option.eq_none_iff_forall_ne_some.mpr fun p placed => ?_)
    rw [x.placed u p placed] at absent
    cases absent

theorem Named.quiet (n : Named events c) (s : Sound log [] c) (x : Quiet c c')
    (rows : c'.row? = c.row?) : Named events c' := by
  refine n.extend s x.extends (fun u p _ => congrFun rows p.track) fun u p absent placed => ?_
  rw [x.placement?_eq, absent] at placed
  cases placed

theorem Named.heard (n : Named events c) (s : Sound log [] c) {u : Uuid}
    (placed : (c.placement? u).isSome) (event : StringId) :
    Named (fun v => events v ++ if u = v then [event] else []) (c.heard u event) := by
  have x := quiet_heard c u event
  obtain ⟨p, hp⟩ := Option.isSome_iff_exists.mp placed
  constructor
  · intro v p' r placed' reserved
    rw [x.placement?_eq] at placed'
    rw [reservation?_heard] at reserved
    obtain ⟨row, hrow, name⟩ := n.due v p' r placed' reserved
    split
    next same =>
      subst same
      rw [hp] at placed'
      cases placed'
      obtain ⟨row', hrow', name'⟩ := row?_heard_self hp reserved hrow event
      refine ⟨row', hrow', ?_⟩
      rw [name', name, Reservation.dueName_append_singleton]
    next other =>
      have apart : p'.track ≠ p.track := fun same => other (s.apart placed' hp same).symm
      refine ⟨row, (row?_heard_of_ne hp event apart).trans hrow, ?_⟩
      rw [List.append_nil, name]
  · intro v absent
    rw [x.placement?_eq] at absent
    have other : u ≠ v := by
      rintro rfl
      rw [absent] at placed
      cases placed
    rw [n.unheard v absent, if_neg other]
    rfl

theorem Named.congr {events' : Uuid → List StringId} (n : Named events c)
    (same : ∀ u, events' u = events u) : Named events' c :=
  funext same ▸ n

theorem Named.move (n : Named events c) (s : Sound log [] c) (m : Move) (fits : (c.move m).Fits) :
    Named (fun u => events u ++ c.eventsOf u m) (c.move m) := by
  cases m with
  | errand e =>
    refine (n.quiet s (quiet_errand e c) ?_).congr fun u => List.append_nil _
    cases e <;> rfl
  | command command =>
    cases command with
    | announce uuid descriptor =>
      refine (n.quiet s (quiet_reserve uuid descriptor.reservation c) ?_).congr fun u =>
        List.append_nil _
      unfold Catalog.reserve
      dsimp only
      split <;> rfl
    | sample uuid sequence value =>
      exact (n.quiet s (quiet_sample uuid sequence value c) rfl).congr fun u => List.append_nil _
    | clear sequence =>
      exact (n.quiet s (quiet_clear sequence c) rfl).congr fun u => List.append_nil _
    | defaultTrack =>
      rw [Session.move, perform_defaultTrack] at fits ⊢
      obtain ⟨p, c', found, -, sound, progress⟩ := defaultTrackId_ok s fits
      rw [found]
      exact (n.extend s progress.kept progress.steady progress.labelled).congr fun u =>
        List.append_nil _
    | track u event =>
      rw [Session.move, perform_track] at fits ⊢
      obtain ⟨c₁, heard, sound, progress, placed⟩ := track?_heard s fits
      have n₁ := n.extend s progress.kept progress.steady progress.labelled
      rw [heard]
      cases reserved : (c.reservation? u).isSome with
      | true =>
        refine (n₁.heard sound (placed.trans reserved) event).congr fun v => ?_
        simp [eventsOf, reserved]
      | false =>
        have absent : c₁.placement? u = none := by
          rwa [reserved, Option.isSome_eq_false_iff, Option.isNone_iff_eq_none] at placed
        have unheard : c₁.heard u event = c₁ := by rw [Session.heard, absent]
        rw [unheard]
        refine n₁.congr fun v => ?_
        simp [eventsOf, reserved]

theorem Named.after (n : Named events c) (s : Sound log [] c) (moves : List Move)
    (fits : (c.after moves).Fits) :
    Named (fun u => events u ++ c.eventsAfter u moves) (c.after moves) := by
  induction moves generalizing log c events with
  | nil => exact n.congr fun u => List.append_nil _
  | cons m moves ih =>
    have roomy : (c.move m).Fits := fits.of_grows (grows_after _ _)
    have moved := ih (n.move s m roomy) (move_ok s m roomy).sound fits
    exact moved.congr fun u => (List.append_assoc _ _ _).symm

theorem row?_track_of_ne {u : Uuid} {event : StringId} {id : TrackId} (s : Sound log [] c)
    (fits : (c.move (.command (.track u event))).Fits)
    (other : ∀ p, (c.move (.command (.track u event))).placement? u = some p → p.track ≠ id) :
    (c.move (.command (.track u event))).row? id =
      (c.move (.command (.track u .null))).row? id := by
  rw [Session.move, perform_track] at fits other ⊢
  rw [Session.move, perform_track]
  obtain ⟨c₁, heard, -⟩ := track?_heard s fits
  rw [heard, (quiet_heard c₁ u event).placement?_eq] at other
  rw [heard, heard, heard_null]
  cases placed : c₁.placement? u with
  | none => rw [Session.heard, placed]
  | some p => exact row?_heard_of_ne placed event (other p placed).symm

/-- A track that has its due name keeps it if it is one. -/
theorem Named.row?_after (n : Named events c) (s : Sound log [] c) (moves : List Move)
    (fits : (c.after moves).Fits) {id : TrackId} {row : Track} (hrow : c.row? id = some row)
    (named : row.name ≠ .null) : (c.after moves).row? id = some row := by
  have x := (after_ok s moves fits).kept
  obtain ⟨u, p, placed, rfl, -⟩ := s.placement?_of_row? hrow
  obtain ⟨e, -, rfl, r, q, stands⟩ := s.stands_of_placement? placed
  obtain ⟨r', reserved', same⟩ := x.reserved e.uuid r stands.reserved
  obtain ⟨row₀, hrow₀, name₀⟩ := n.due e.uuid p r placed stands.reserved
  obtain rfl : row₀ = row := Option.some.inj (hrow₀.symm.trans hrow)
  obtain ⟨row', hrow', name'⟩ :=
    (n.after s moves fits).due e.uuid p r' (x.placed _ _ placed) reserved'
  obtain ⟨name, renamed⟩ := x.row _ _ hrow
  rw [hrow'] at renamed
  cases renamed
  rw [Reservation.dueName_of_still same, Reservation.dueName_append_of_ne_null (name₀ ▸ named),
    ← name₀] at name'
  rw [hrow', show name = row₀.name from name']

end Run
end Session

namespace History

/-- A uuid is named by its descriptor, others by their events, and counters and processes by nobody
else; events come before their uuid is announced, and again after another uuid had its track. -/
def christened : History where
  settings := .default
  before := [.intern "first", .intern "second"]
  moves := [.command (.track 2 ⟨1⟩), .command (.announce 1 (.process 4 .null 1)),
    .command (.announce 2 (.child 1 .null)), .command (.announce 3 (.child 2 ⟨2⟩)),
    .command (.announce 4 (.counter 2 .null .null 1 false 0)), .command (.track 3 ⟨1⟩),
    .command (.track 4 ⟨1⟩), .command (.announce 2 (.child 1 ⟨2⟩)), .command (.track 2 .null),
    .command (.track 2 ⟨2⟩), .command (.track 2 ⟨1⟩)]
  room := by decide +kernel

/-- Every track has the name that is due to it by its descriptor and by the events on it. A name
that is one stays, and the name of an event reaches no row but that of its uuid. -/
theorem tracks_named_by_events (h : History) (fits : h.state.Fits) :
    (∀ u p r, h.state.placement? u = some p → h.state.reservation? u = some r →
      ∃ row, h.state.row? p.track = some row ∧
        row.name = r.dueName (h.opening.eventsAfter u h.moves)) ∧
    (∀ moves, (h.state.after moves).Fits → ∀ id row, h.state.row? id = some row →
      row.name ≠ .null → (h.state.after moves).row? id = some row) ∧
    ∀ u event, (h.state.move (.command (.track u event))).Fits →
      ∀ id, (∀ p, (h.state.move (.command (.track u event))).placement? u = some p →
        p.track ≠ id) →
        (h.state.move (.command (.track u event))).row? id =
          (h.state.move (.command (.track u .null))).row? id := by
  have start := Session.sound_start h.settings h.unwritten
  have blank : Session.Named (fun _ => []) h.opening := by
    rw [opening, Session.start_eq]
    constructor
    · intro u p r placed
      cases placed
    · exact fun _ _ => rfl
  have named := blank.after start h.moves fits
  refine ⟨fun u p r => named.due u p r, fun moves room id row => ?_, fun u event room id => ?_⟩
  · exact named.row?_after (sound fits) moves room
  · exact Session.row?_track_of_ne (sound fits) room

theorem tracks_named_by_events_christened :
    (∀ u p r, christened.state.placement? u = some p → christened.state.reservation? u = some r →
      ∃ row, christened.state.row? p.track = some row ∧
        row.name = r.dueName (christened.opening.eventsAfter u christened.moves)) ∧
    (∀ moves, (christened.state.after moves).Fits →
      ∀ id row, christened.state.row? id = some row →
        row.name ≠ .null → (christened.state.after moves).row? id = some row) ∧
    ∀ u event, (christened.state.move (.command (.track u event))).Fits →
      ∀ id, (∀ p, (christened.state.move (.command (.track u event))).placement? u = some p →
        p.track ≠ id) →
        (christened.state.move (.command (.track u event))).row? id =
          (christened.state.move (.command (.track u .null))).row? id :=
  christened.tracks_named_by_events ⟨by decide +kernel, by decide +kernel, by decide +kernel⟩

end History
end TraceTracks
