import TraceTracks.Proofs.Evolution
import TraceTracks.Proofs.Invariant

/-! Resolution never fails while the tables have room, makes exactly the tracks that were surveyed,
and keeps the tables sound. -/
namespace TraceTracks

def cutCount (a : Anomaly) (cuts : List Cut) : Nat := cuts.countP (·.anomaly = a)

@[simp] theorem cutCount_nil (a : Anomaly) : cutCount a [] = 0 := rfl

@[simp] theorem cutCount_append (a : Anomaly) (cuts cuts' : List Cut) :
    cutCount a (cuts ++ cuts') = cutCount a cuts + cutCount a cuts' := List.countP_append

def cutsOf (entries : List Entry) : List Cut := entries.flatMap Entry.cuts

@[simp] theorem cutsOf_nil : cutsOf [] = [] := rfl

@[simp] theorem cutsOf_singleton (e : Entry) : cutsOf [e] = e.cuts := by
  simp [cutsOf]

@[simp] theorem cutsOf_append (entries entries' : List Entry) :
    cutsOf (entries ++ entries') = cutsOf entries ++ cutsOf entries' := by
  simp [cutsOf]

def Catalog.defaultReservation {β : Type} (c : Catalog β) : Reservation :=
  (Descriptor.child 0 c.vocabulary.defaultTrackName).reservation

/-- The default track is made like any other, once it is announced. -/
theorem Catalog.makeDefault_eq {β : Type} [TrackSink β] [LifetimeSource β] (c : Catalog β) :
    makeDefault c = settle 0 c.defaultReservation none (c.reserve 0 c.defaultReservation) :=
  rfl

namespace Session

def Labelled (c : Session) (u : Uuid) (p : Placement) : Prop :=
  ∃ r row, c.reservation? u = some r ∧ c.row? p.track = some row ∧ row.name = r.name

/-- What a part of a resolution did, the dropped links included. -/
structure Progress (c c' : Session) (cuts : List Cut) : Prop where
  kept : Extends c c'
  announced : ∀ u, c'.reservation? u = c.reservation? u ∨
    (u = 0 ∧ c.reservation? 0 = none ∧ c'.reservation? 0 = some c.defaultReservation)
  counts : ∀ a, a.isError → c'.countOf a = c.countOf a + cutCount a cuts
  steady : ∀ u p, c.placement? u = some p → c'.row? p.track = c.row? p.track
  labelled : ∀ u p, c.placement? u = none → c'.placement? u = some p → Labelled c' u p

namespace Progress
variable {a b c : Session} {cuts cuts' : List Cut}

theorem refl (c : Session) : Progress c c [] where
  kept := .refl c
  announced _ := .inl rfl
  counts _ _ := rfl
  steady _ _ _ := rfl
  labelled u p absent placed := by
    rw [absent] at placed
    cases placed

theorem trans (h : Progress a b cuts) (h' : Progress b c cuts') : Progress a c (cuts ++ cuts') where
  kept := h.kept.trans h'.kept
  announced u := by
    have same : b.defaultReservation = a.defaultReservation := by
      rw [Catalog.defaultReservation, h.kept.vocabulary]
      rfl
    rcases h'.announced u with hu | ⟨rfl, absent, made⟩
    · rcases h.announced u with hu' | ⟨rfl, absent, made⟩
      · exact .inl (hu.trans hu')
      · exact .inr ⟨rfl, absent, hu.trans made⟩
    · rcases h.announced 0 with hu' | ⟨-, absent', made'⟩
      · exact .inr ⟨rfl, hu'.symm.trans absent, same ▸ made⟩
      · rw [made'] at absent
        cases absent
  counts a ha := by
    rw [h'.counts a ha, h.counts a ha, cutCount_append]
    omega
  steady u p hp := (h'.steady u p (h.kept.placed u p hp)).trans (h.steady u p hp)
  labelled u p absent placed := by
    cases hb : b.placement? u with
    | none => exact h'.labelled u p hb placed
    | some p' =>
      obtain rfl : p' = p := Option.some.inj ((h'.kept.placed u p' hb).symm.trans placed)
      obtain ⟨r, row, reserved, hrow, name⟩ := h.labelled u p' absent hb
      obtain ⟨r', reserved', same⟩ := h'.kept.reserved u r reserved
      refine ⟨r', row, reserved', (h'.steady u p' hb).trans hrow, ?_⟩
      rw [name, Reservation.name_of_still same]

theorem congr (h : Progress a b cuts) (same : ∀ a, cutCount a cuts = cutCount a cuts') :
    Progress a b cuts' :=
  ⟨h.kept, h.announced, fun a ha => same a ▸ h.counts a ha, h.steady, h.labelled⟩

end Progress

section Parts
variable {log : List Entry} {held : List Held} {c c₁ : Session} {u : Uuid} {r : Reservation}
  {p : Placement} {q : Option Placement}

theorem countOf_countCuts (cuts : List Cut) (c : Session) (a : Anomaly) :
    countOf (c.countCuts cuts) a = c.countOf a + cutCount a cuts := by
  induction cuts generalizing c with
  | nil => rfl
  | cons cut cuts ih =>
    change countOf (Catalog.countCuts cuts (c.count cut.anomaly)) a = _
    rw [ih]
    have hcount : countOf (c.count cut.anomaly) a =
        if a = cut.anomaly then c.countOf a + 1 else c.countOf a := Tally.get_count _ _ _
    rw [hcount]
    by_cases ha : a = cut.anomaly
    · simp only [cutCount, List.countP_cons, ha, decide_true, if_true]
      omega
    · simp [cutCount, ha, Ne.symm ha]

theorem progress_countCuts (cuts : List Cut) (c : Session) :
    Progress c (c.countCuts cuts) cuts := by
  refine ⟨?_, ?_, fun a _ => countOf_countCuts cuts c a, ?_, ?_⟩
  · rw [countCuts_eq]
    exact (quiet_withTally c _).extends
  · rw [countCuts_eq]
    exact fun u => .inl rfl
  · rw [countCuts_eq]
    exact fun _ _ _ => rfl
  · rw [countCuts_eq]
    exact (Progress.refl c).labelled

theorem Sound.countCuts (s : Sound log held c) (cuts : List Cut) :
    Sound log held (c.countCuts cuts) := by
  rw [countCuts_eq]
  exact s.quiet (quiet_withTally c _) fun _ _ => rfl

theorem Situated.progress (x : Situated c u r q p c₁) (s : Sound log held c) (fits : c₁.Fits) :
    Progress c c₁ [] where
  kept := x.extends s.entities fits
  announced v := .inl (x.reservation?_eq v)
  counts := x.errors
  steady v p' hp := by
    refine x.row?_of_ne fits fun he => ?_
    obtain ⟨name, hrow⟩ := s.row_of_taken (.placed hp)
    rw [he, x.row?_before fits] at hrow
    cases hrow
  labelled v p' absent placed := by
    rw [x.placement?_eq, absent] at placed
    cases placed

theorem Sound.progress_recorded {h : Held} (s : Sound log (h :: held) c) (q : Option Placement) :
    Progress c (c.recorded h.uuid h.reservation h.placement q) [] where
  kept := s.extends_recorded q
  announced v := .inl (by rw [reservation?_recorded])
  counts a _ := by rw [countOf_recorded, cutCount_nil, Nat.add_zero]
  steady v p hp := row?_recorded_of_ne _ _ _ _ _ (s.track_ne_of_placement? hp)
  labelled v p absent placed := by
    have keeps := s.keeps h List.mem_cons_self
    obtain ⟨r, reserved, same⟩ := keeps.reserved
    rcases placement?_recorded_cases placed with ⟨rfl, rfl⟩ | before
    · exact ⟨r, _, (congrFun (reservation?_recorded ..) _).trans reserved,
        row?_recorded_self _ _ _ _ _ keeps.row, (Reservation.name_of_still same).symm⟩
    · rw [absent] at before
      cases before

theorem Sound.record_ok {h : Held} (s : Sound log (h :: held) c) (q : Option Placement) :
    Catalog.record h.uuid h.reservation h.placement q c =
      .ok h.placement (c.recorded h.uuid h.reservation h.placement q) := by
  refine Session.record_ok ?_ _ _ _
  rw [(s.keeps h List.mem_cons_self).row]
  rfl

theorem settle_ok (s : Sound log held c) (reserved : c.reservation? u = some r)
    (absent : c.placement? u = none) (new : u ∉ held.map Held.uuid)
    (fits : (left (Catalog.settle u r q c)).Fits) {e : Entry} (uuid : e.uuid = u)
    (due : e.Due r) (parent : e.parent.map c.placement? = q.map some)
    (apart : e.parent ≠ some 0) :
    ∃ p, ∃ c' : Session, Catalog.settle u r q c = .ok p c' ∧ c'.placement? u = some p ∧
      Sound (log ++ [e]) held c' ∧ Progress c c' [] := by
  have roomy : (left (Catalog.situate u r q c)).Fits :=
    fits.of_grows (left_bind_grows (fun p => growing_record u r p q) c)
  obtain ⟨p, c₁, made, x⟩ := situate_ok s.entities (s.free absent new) roomy
  rw [made] at roomy
  have held₁ := s.hold x roomy reserved absent new
  have same (v : Uuid) : c₁.placement? v = c.placement? v := x.placement?_eq v
  have parent₁ : e.parent.map c₁.placement? = q.map some := by
    rw [← parent]
    exact congrArg (fun f => e.parent.map f) (funext same)
  refine ⟨p, c₁.recorded u r p q, ?_, placement?_recorded_self _ _ _ _ _,
    held₁.release uuid due parent₁ (if_neg apart).symm,
    (x.progress s roomy).trans (held₁.progress_recorded q)⟩
  exact (Act.bind_ok made _).trans (held₁.record_ok q)

theorem progress_announced (unreserved : c.reservation? 0 = none) :
    Progress c (c.reserve 0 c.defaultReservation) [] := by
  have announced := reserve_of_unreserved unreserved c.defaultReservation
  have reserved := Catalog.reservation?_reserve_of_unreserved unreserved c.defaultReservation
  have quiet := quiet_reserve 0 c.defaultReservation c
  constructor
  case kept => exact quiet.extends
  case announced =>
    intro v
    by_cases hv : v = 0
    · exact .inr ⟨hv, unreserved, (reserved 0).trans (if_pos rfl)⟩
    · exact .inl ((reserved v).trans (if_neg hv))
  case counts =>
    intro a _
    rw [announced]
    rfl
  case steady =>
    intro v p _
    rw [announced]
    rfl
  case labelled =>
    intro v p absent placed
    rw [quiet.placement?_eq, absent] at placed
    cases placed

theorem Sound.announced (s : Sound log held c) (unreserved : c.reservation? 0 = none) :
    Sound log held (c.reserve 0 c.defaultReservation) := by
  refine s.quiet (quiet_reserve 0 c.defaultReservation c) fun h _ => ?_
  rw [reserve_of_unreserved unreserved]
  rfl

theorem makeDefault_ok (s : Sound log held c) (absent : c.placement? 0 = none)
    (unreserved : c.reservation? 0 = none) (new : 0 ∉ held.map Held.uuid)
    (fits : (left (Catalog.makeDefault c)).Fits) :
    ∃ p, ∃ c' : Session, Catalog.makeDefault c = .ok p c' ∧ c'.placement? 0 = some p ∧
      Sound (log ++ [⟨0, none, []⟩]) held c' ∧ Progress c c' [] := by
  rw [Catalog.makeDefault_eq] at fits ⊢
  have reserved : (c.reserve 0 c.defaultReservation).reservation? 0 =
      some c.defaultReservation := by
    rw [Catalog.reservation?_reserve_of_unreserved unreserved, if_pos rfl]
  have absent₁ : (c.reserve 0 c.defaultReservation).placement? 0 = none := by
    rw [Catalog.placement?_reserve, absent]
  have due : Entry.Due ⟨0, none, []⟩ c.defaultReservation := .of_none (.inr (.inl rfl))
  obtain ⟨p, c', hp, placed, sound, progress⟩ := settle_ok (s.announced unreserved) reserved
    absent₁ new fits rfl due rfl (Option.some_ne_none 0).symm
  exact ⟨p, c', hp, placed, sound, (progress_announced unreserved).trans progress⟩

end Parts

section Resolve
variable {limit : Nat}

theorem left_eq {α : Type} (result : EStateM.Result Fault (Catalog Trace) α) :
    left result = Act.left result := by
  cases result <;> rfl

theorem Growing.of_evolves {α : Type} {x : Act Trace α} (h : Catalog.Evolves Grows x) :
    Growing x :=
  fun c => (left_eq (x c)).symm ▸ h c

theorem Growing.evolves {α : Type} {x : Act Trace α} (h : Growing x) :
    Catalog.Evolves Grows x :=
  fun c => left_eq (x c) ▸ h c

theorem steps_grows : Catalog.Steps Grows where
  refl := .refl
  trans := .trans
  count := grows_count
  createRow scope flavor c := ⟨by simp [Act.left, Act.onBackend, TrackSink.createTrack,
    Backend.onStore, Store.createTrack, rows, Tracks.create], .refl _⟩
  threadRow := growing_threadTrack
  processRow := growing_processTrack
  claimThread uuid pid tid := (growing_claimThread uuid pid tid).evolves
  claimProcess uuid pid := (growing_claimProcess uuid pid).evolves
  addArg track key value c := by
    cases row : Session.row? c track with
    | none =>
      rw [addArg_error row]
      exact .refl c
    | some _ =>
      have present : (Session.row? c track).isSome := by simp [row]
      have added : (Act.tryBackend (TrackSink.addArg track key value) : Act Trace Unit) c =
          .ok () (withArgs c track [⟨key, value⟩]) := addArg_ok present [] key value
      rw [added]
      exact ⟨Nat.le_refl _, .refl _⟩
  setName track name c := by
    cases row : Session.row? c track with
    | none =>
      rw [setName_error row]
      exact .refl c
    | some _ =>
      rw [setName_ok (by simp [row])]
      exact ⟨by simp [Act.left, withName, rows], .refl _⟩
  name track c := by
    cases row : Session.row? c track with
    | none =>
      rw [name_error row]
      exact .refl c
    | some _ =>
      rw [name_ok row]
      exact .refl c
  remember _ _ c := ⟨Nat.le_refl _, .refl _⟩
  announceDefault name := grows_reserve 0 _

/-- What the outcome of a call comes to: the placement of the uuid, and the tracks that were
surveyed. Those that wait for them stay as they are. -/
def Arrives (limit : Nat) (path : Trail) (u : Uuid) (c : Session)
    (result : EStateM.Result Fault (Catalog Trace) (Option Placement)) (log : List Entry)
    (held : List Held) : Prop :=
  ∃ c' : Session, result = .ok (c'.placement? u) c' ∧
    Sound (log ++ c.arrivals limit (limit - path.depth) path.above u) held c' ∧
    Progress c c' (cutsOf (c.arrivals limit (limit - path.depth) path.above u))

section Arrivals
variable {log : List Entry} {held : List Held} {path : Trail} {c c₁ : Session} {u : Uuid}
  {r : Reservation} {ending : Ending}

theorem Sound.absent_iff (s : Sound log held c) :
    c.placement? u = none ↔ u ∉ log.map Entry.uuid := by
  rw [← s.keys]
  exact Registry.get?_eq_none_iff

theorem Sound.isSome_of_mem (s : Sound log held c) (h : u ∈ log.map Entry.uuid) :
    (c.placement? u).isSome := by
  rw [Option.isSome_iff_ne_none]
  exact fun absent => s.absent_iff.mp absent h

theorem settle_arrives {entries : List Entry} {q : Option Placement} {cuts : List Cut}
    (s : Sound (log ++ entries) held c₁) (progress : Progress c c₁ cuts) {e : Entry}
    (arrivals : c.arrivals limit (limit - path.depth) path.above u = entries ++ [e])
    (same : ∀ a, cutCount a cuts = cutCount a (cutsOf (entries ++ [e])))
    (reserved : c₁.reservation? u = some r) (absent : c₁.placement? u = none)
    (new : u ∉ held.map Held.uuid)
    (fits : (left ((some <$> Catalog.settle u r q : Act Trace (Option Placement)) c₁)).Fits)
    (uuid : e.uuid = u) (due : e.Due r) (parent : e.parent.map c₁.placement? = q.map some)
    (apart : e.parent ≠ some 0) :
    Arrives limit path u c ((some <$> Catalog.settle u r q : Act Trace (Option Placement)) c₁)
      log held := by
  rw [left_map] at fits
  obtain ⟨p, c', made, placed, sound, step⟩ :=
    settle_ok s reserved absent new fits uuid due parent apart
  refine ⟨c', ?_, ?_, ?_⟩
  · rw [Act.map_ok made, placed]
  · rw [arrivals, ← List.append_assoc]
    exact sound
  · rw [arrivals]
    exact (progress.trans step).congr fun a => by simpa using same a

theorem shelter_ok (s : Sound log held c) (reserved : c.reservation? u = some r)
    (absent : c.placement? u = none) (new : u ∉ held.map Held.uuid) (hpid : r.pid = none)
    {cuts : List Cut} {p : Placement}
    (made : Catalog.createTrack .global r (c.countCuts cuts) = .ok p c₁) (fits : c₁.Fits) :
    Sound log (⟨u, r, p, none⟩ :: held) c₁ ∧ Progress c c₁ cuts ∧
      c₁.reservations = c.reservations ∧ c₁.placements = c.placements := by
  have s₀ := s.countCuts cuts
  have step₀ := progress_countCuts cuts c
  have reservations := reservations_countCuts cuts c
  have placements := placements_countCuts cuts c
  generalize c.countCuts cuts = c₀ at *
  have x := situated_createTrack s₀.entities hpid none u
  rw [createTrack_eq] at made
  cases made
  have reserved₀ : c₀.reservation? u = some r := by
    rwa [Catalog.reservation?, reservations]
  have absent₀ : c₀.placement? u = none := by
    rwa [Catalog.placement?, placements]
  refine ⟨s₀.hold x fits reserved₀ absent₀ new, ?_, reservations, placements⟩
  simpa using step₀.trans (x.progress s₀ fits)

theorem shelter_arrives {entries : List Entry} {p q : Placement} {cuts cuts' : List Cut}
    (s : Sound (log ++ entries) (⟨u, r, p, none⟩ :: held) c₁) (progress : Progress c c₁ cuts')
    (arrivals : c.arrivals limit (limit - path.depth) path.above u =
      entries ++ [⟨u, some 0, cuts⟩])
    (same : ∀ a, cutCount a cuts' = cutCount a (cutsOf entries ++ cuts))
    (hpid : r.pid = none) (nonzero : u ≠ 0) (default : c₁.placement? 0 = some q) :
    Arrives limit path u c ((some <$> Catalog.record u r p (some q) :
      Act Trace (Option Placement)) c₁) log held := by
  have due : Entry.Due ⟨u, some 0, cuts⟩ r := .of_default hpid nonzero
  have parent : (some (0 : Uuid)).map c₁.placement? = (some q).map some := congrArg some default
  have made := s.record_ok (some q)
  have placed := placement?_recorded_self c₁ u r p (some q)
  refine ⟨c₁.recorded u r p (some q), ?_, ?_, ?_⟩
  · rw [Act.map_ok made, placed]
  · rw [arrivals, ← List.append_assoc]
    exact s.release rfl due parent (if_pos rfl).symm
  · rw [arrivals]
    exact (progress.trans (s.progress_recorded (some q))).congr fun a => by simpa using same a

theorem Sound.absent_after (s : Sound log held c) {entries : List Entry} {held' : List Held}
    (s' : Sound (log ++ entries) held' c₁) (absent : c.placement? u = none)
    (apart : ∀ e ∈ entries, e.uuid ≠ u) : c₁.placement? u = none := by
  rw [s'.absent_iff, List.map_append, List.mem_append, not_or]
  refine ⟨s.absent_iff.mp absent, fun hm => ?_⟩
  obtain ⟨e, he, hu⟩ := List.mem_map.mp hm
  exact apart e he hu

theorem Progress.reservation?_eq {cuts : List Cut} (h : Progress c c₁ cuts)
    (reserved : c.reservation? u = some r) : c₁.reservation? u = some r := by
  rcases h.announced u with hu | ⟨rfl, absent, -⟩
  · exact hu.trans reserved
  · rw [absent] at reserved
    cases reserved

theorem Arrives.of_barred {p : Placement} (s : Sound log held c)
    (absent : c.placement? u = none) (reserved : c.reservation? u = some r)
    (ends : c.ending? (limit - path.depth) path.above u = some ending)
    (apart : ending.joined? = none) (homeless : c.homeless u = true) (waits : 0 ∈ path.above)
    (made : Catalog.createTrack .global r (c.countCuts ending.cuts) = .ok p c₁)
    (new : u ∉ held.map Held.uuid)
    (fits : (left ((some <$> Catalog.record u r p none : Act Trace (Option Placement))
      (c₁.count .loop))).Fits) :
    Arrives limit path u c ((some <$> Catalog.record u r p none :
      Act Trace (Option Placement)) (c₁.count .loop)) log held := by
  have hpid := ((Catalog.homeless_iff reserved).mp homeless).1
  have arrivals := Catalog.arrivals_of_absent limit (limit - path.depth) path.above absent
    (by simp [reserved])
  rw [Catalog.survey_of_barred limit ends apart homeless waits] at arrivals
  have counted : c.countCuts (ending.cuts ++ [.defaultLoop]) =
      (c.countCuts ending.cuts).count .loop := by
    simp [Catalog.countCuts]
    rfl
  have settled : (some <$> Catalog.record u r p none : Act Trace (Option Placement))
      (c₁.count .loop) = (some <$> Catalog.settle u r none)
        (c.countCuts (ending.cuts ++ [.defaultLoop])) := by
    rw [counted]
    have hs : Catalog.situate u r none = (Catalog.createTrack .global r : Act Trace Placement) := by
      simp [Catalog.situate, hpid]
    unfold Catalog.settle
    rw [hs]
    rw [createTrack_eq] at made
    cases made
    rfl
  rw [settled] at fits ⊢
  have sound := s.countCuts (ending.cuts ++ [.defaultLoop])
  rw [← List.append_nil log] at sound
  refine settle_arrives sound (progress_countCuts _ c) arrivals (fun a => by simp) ?_ ?_ new fits
    rfl (.of_none (.inr (.inr (by simp)))) rfl (Option.some_ne_none 0).symm
  · rwa [Catalog.reservation?, reservations_countCuts]
  · rwa [Catalog.placement?, placements_countCuts]

theorem Arrives.of_joined {v : Uuid} {q : Placement} (s : Sound log held c)
    (absent : c.placement? u = none) (reserved : c.reservation? u = some r)
    (ends : c.ending? (limit - path.depth) path.above u = some (.join v))
    (above : c.placement? v = some q) (new : u ∉ held.map Held.uuid)
    (fits : (left ((some <$> Catalog.settle u r (some q) :
      Act Trace (Option Placement)) c)).Fits) :
    Arrives limit path u c ((some <$> Catalog.settle u r (some q) :
      Act Trace (Option Placement)) c) log held := by
  have arrivals := Catalog.arrivals_of_absent limit (limit - path.depth) path.above absent
    (by simp [reserved])
  rw [Catalog.survey_of_join limit ends] at arrivals
  obtain ⟨declared, nonzero, -, -⟩ := Catalog.ending?_eq_join ends
  rw [Catalog.declared_of_reservation? reserved] at declared
  have due : Entry.Due ⟨u, some v, []⟩ r := .of_declared declared.symm nonzero
  have parent : (some v).map c.placement? = (some q).map some := congrArg some above
  have apart : some v ≠ some (0 : Uuid) := fun hv => nonzero (Option.some.inj hv)
  rw [← List.append_nil log] at s
  exact settle_arrives s (.refl c) arrivals (fun _ => rfl) reserved absent new fits rfl due
    parent apart

theorem Arrives.of_linked {q : Placement} (level : path.Level) (s : Sound log held c)
    (absent : c.placement? u = none) (reserved : c.reservation? u = some r)
    (opens : c.ending? (limit - path.depth) path.above u = none)
    (above : Arrives limit (path.enter u) (c.declared u) c (.ok (some q) c₁) log held)
    (new : u ∉ held.map Held.uuid)
    (fits : (left ((some <$> Catalog.settle u r (some q) :
      Act Trace (Option Placement)) c₁)).Fits) :
    Arrives limit path u c ((some <$> Catalog.settle u r (some q) :
      Act Trace (Option Placement)) c₁) log held := by
  obtain ⟨nonzero, -, free, unplaced, announced⟩ := Catalog.ending?_eq_none opens
  have arrivals := Catalog.arrivals_of_absent limit (limit - path.depth) path.above absent
    (by simp [reserved])
  have room : limit - (path.enter u).depth = limit - path.depth - 1 := by
    rw [level.depth_enter]
    omega
  rw [Catalog.survey_of_open limit opens,
    ← Catalog.arrivals_of_absent limit _ (u :: path.above) unplaced announced] at arrivals
  obtain ⟨c', hc', sound, progress⟩ := above
  rw [room, Trail.above_enter] at sound progress
  injection hc' with found same
  subst same
  have apart (e : Entry) (he : e ∈ c.arrivals limit (limit - path.depth - 1) (u :: path.above)
      (c.declared u)) : e.uuid ≠ u := fun hu =>
    Catalog.not_mem_path_of_mem_arrivals free he (hu ▸ List.mem_cons_self)
  have due : Entry.Due ⟨u, some (c.declared u), []⟩ r :=
    .of_declared (Catalog.declared_of_reservation? reserved) nonzero
  have parent : (some (c.declared u)).map c₁.placement? = (some q).map some :=
    congrArg some found.symm
  exact settle_arrives sound progress arrivals (fun a => by simp)
    (progress.reservation?_eq reserved)
    (s.absent_after sound absent apart) new fits rfl due parent
    fun hv => nonzero (Option.some.inj hv)

theorem Arrives.of_sheltered {c₂ : Session} {p q : Placement} (s : Sound log held c)
    (absent : c.placement? u = none) (reserved : c.reservation? u = some r)
    (ends : c.ending? (limit - path.depth) path.above u = some ending)
    (apart : ending.joined? = none) (homeless : c.homeless u = true) (free : 0 ∉ path.above)
    (made : Catalog.createTrack .global r (c.countCuts ending.cuts) = .ok p c₁)
    (fits : c₁.Fits) (new : u ∉ held.map Held.uuid)
    (default : Sound log (⟨u, r, p, none⟩ :: held) c₁ →
      c₂.placement? 0 = some q ∧
      Sound (log ++ c₁.defaultSurvey limit (u :: path.above)) (⟨u, r, p, none⟩ :: held) c₂ ∧
      Progress c₁ c₂ (cutsOf (c₁.defaultSurvey limit (u :: path.above)))) :
    Arrives limit path u c ((some <$> Catalog.record u r p (some q) :
      Act Trace (Option Placement)) c₂) log held := by
  have arrivals := Catalog.arrivals_of_absent limit (limit - path.depth) path.above absent
    (by simp [reserved])
  rw [Catalog.survey_of_sheltered limit ends apart homeless free] at arrivals
  obtain ⟨hpid, nonzero⟩ := (Catalog.homeless_iff reserved).mp homeless
  obtain ⟨held₁, step, reservations, placements⟩ :=
    shelter_ok s reserved absent new hpid made fits
  rw [← (Catalog.survey_congr reservations placements).2] at arrivals
  obtain ⟨found, held₂, step'⟩ := default held₁
  refine shelter_arrives held₂ (step.trans step') arrivals (fun a => ?_) hpid nonzero found
  simp only [cutCount_append]
  omega

theorem Arrives.of_shelterMade {p : Placement} (s : Sound log held c)
    (absent : c.placement? u = none) (reserved : c.reservation? u = some r)
    (ends : c.ending? (limit - path.depth) path.above u = some ending)
    (apart : ending.joined? = none) (homeless : c.homeless u = true) (free : 0 ∉ path.above)
    (made : Catalog.createTrack .global r (c.countCuts ending.cuts) = .ok p c₁)
    (absent₀ : c₁.placement? 0 = none) (unreserved₀ : c₁.reservation? 0 = none)
    (new : u ∉ held.map Held.uuid) (new₀ : 0 ∉ held.map Held.uuid)
    (fits : (left ((some <$> (Catalog.makeDefault >>= fun q => Catalog.record u r p (some q)) :
      Act Trace (Option Placement)) c₁)).Fits) :
    Arrives limit path u c ((some <$> (Catalog.makeDefault >>= fun q =>
      Catalog.record u r p (some q)) : Act Trace (Option Placement)) c₁) log held := by
  obtain ⟨hpid, nonzero⟩ := (Catalog.homeless_iff reserved).mp homeless
  rw [left_map] at fits
  have roomy : (left (Catalog.makeDefault c₁)).Fits :=
    fits.of_grows (left_bind_grows (fun q => growing_record u r p (some q)) c₁)
  have roomy₁ : Fits c₁ := roomy.of_grows (growing_makeDefault c₁)
  have unheld : 0 ∉ Held.uuid ⟨u, r, p, none⟩ :: held.map Held.uuid := by
    simp [Ne.symm nonzero, new₀]
  have survey : Catalog.defaultSurvey c₁ limit (u :: path.above) = [⟨0, none, []⟩] := by
    simp [Catalog.defaultSurvey, absent₀, unreserved₀]
  obtain ⟨held₁, -⟩ := shelter_ok s reserved absent new hpid made roomy₁
  obtain ⟨q, c₂, found, placed, sound, progress⟩ :=
    makeDefault_ok held₁ absent₀ unreserved₀ unheld roomy
  have rest : (some <$> (Catalog.makeDefault >>= fun q => Catalog.record u r p (some q)) :
      Act Trace (Option Placement)) c₁ = (some <$> Catalog.record u r p (some q)) c₂ := by
    simp only [Functor.map, EStateM.map, Act.bind_ok found]
  rw [rest]
  refine .of_sheltered s absent reserved ends apart homeless free made roomy₁ new fun _ => ?_
  rw [survey, cutsOf_singleton]
  exact ⟨placed, sound, progress⟩

theorem Sound.defaultSurvey_of_found {path : List Uuid} {held' : List Held} {q : Placement}
    (s : Sound log held c) (s' : Sound (log ++ c.arrivals limit limit path 0) held' c₁)
    (found : c₁.placement? 0 = some q) :
    c.defaultSurvey limit path = c.arrivals limit limit path 0 := by
  cases reserved : c.reservation? 0 with
  | some r => exact Catalog.defaultSurvey_of_reserved (by simp [reserved])
  | none =>
    cases absent : c.placement? 0 with
    | some p => simp [Catalog.arrivals, Catalog.defaultSurvey, absent]
    | none =>
      have none : c.arrivals limit limit path 0 = [] := by
        simp [Catalog.arrivals, reserved]
      rw [none] at s'
      rw [s.absent_after s' absent (by simp)] at found
      cases found

theorem Arrives.of_housed (s : Sound log held c)
    (absent : c.placement? u = none) (reserved : c.reservation? u = some r)
    (ends : c.ending? (limit - path.depth) path.above u = some ending)
    (apart : ending.joined? = none) (housed : c.homeless u = false)
    (new : u ∉ held.map Held.uuid)
    (fits : (left ((some <$> Catalog.settle u r none : Act Trace (Option Placement))
      (c.countCuts ending.cuts))).Fits) :
    Arrives limit path u c ((some <$> Catalog.settle u r none :
      Act Trace (Option Placement)) (c.countCuts ending.cuts)) log held := by
  have arrivals := Catalog.arrivals_of_absent limit (limit - path.depth) path.above absent
    (by simp [reserved])
  rw [Catalog.survey_of_housed limit ends apart housed] at arrivals
  have due : Entry.Due ⟨u, none, ending.cuts⟩ r :=
    .of_none (((Catalog.homeless_eq_false_iff reserved).mp housed).imp_right .inl)
  have sound := s.countCuts ending.cuts
  rw [← List.append_nil log] at sound
  refine settle_arrives sound (progress_countCuts _ c) arrivals (fun a => by simp) ?_ ?_ new fits
    rfl due rfl (Option.some_ne_none 0).symm
  · rwa [Catalog.reservation?, reservations_countCuts]
  · rwa [Catalog.placement?, placements_countCuts]

theorem not_mem_held {held : List Held} {path : Trail} {u : Uuid} (free : u ∉ path.above)
    (waiting : ∀ k ∈ held, k.uuid ∈ path.above) : u ∉ held.map Held.uuid := by
  intro hm
  obtain ⟨k, hk, rfl⟩ := List.mem_map.mp hm
  exact free (waiting k hk)

/-- Each call makes just the tracks that were surveyed, and does not fail. -/
theorem Resolution.arrives {result : EStateM.Result Fault (Catalog Trace) (Option Placement)}
    (h : Catalog.Resolution limit path u c result) (level : path.Level) (s : Sound log held c)
    (free : u ∉ path.above) (waiting : ∀ k ∈ held, k.uuid ∈ path.above)
    (fits : (left result).Fits) : Arrives limit path u c result log held := by
  -- By induction on the calls. Rows are held for some of the uuids on the path, and no uuid on the
  -- path gets its track meanwhile.
  induction h generalizing log held with
  | known placed =>
    refine ⟨_, by rw [placed], ?_⟩
    simp only [Catalog.arrivals, placed, Option.isSome_some, true_or, if_true, List.append_nil,
      cutsOf_nil]
    exact ⟨s, .refl _⟩
  | unannounced absent unreserved =>
    refine ⟨_, by rw [absent], ?_⟩
    simp only [Catalog.arrivals, unreserved, Option.isNone_none, or_true, if_true, List.append_nil,
      cutsOf_nil]
    exact ⟨s, .refl _⟩
  | joined absent reserved ends above =>
    exact .of_joined s absent reserved ends above (not_mem_held free waiting) fits
  | linked absent reserved opens above ih =>
    have free' := Catalog.declared_notMem_above_enter opens
    have roomy := fits.of_grows ((growing_settle _ _ _).map some _)
    have up := ih (level.enter _) s free' (fun k hk => by simp [waiting k hk]) roomy
    exact .of_linked level s absent reserved opens up (not_mem_held free waiting) fits
  | linkFailed absent reserved opens above ih =>
    have free' := Catalog.declared_notMem_above_enter opens
    obtain ⟨c', hc', -⟩ := ih (level.enter _) s free' (fun k hk => by simp [waiting k hk]) fits
    cases hc'
  | housed absent reserved ends apart housed =>
    exact .of_housed s absent reserved ends apart housed (not_mem_held free waiting) fits
  | barred absent reserved ends apart homeless waits made =>
    exact .of_barred s absent reserved ends apart homeless waits made
      (not_mem_held free waiting) fits
  | @sheltered path u c c₁ c₂ r ending p q absent reserved ends apart homeless zero made default
      ih =>
    have nonzero := ((Catalog.homeless_iff reserved).mp homeless).2
    have roomy : Fits c₂ := fits.of_grows ((growing_record u r p (some q)).map some c₂)
    have roomy₁ : Fits c₁ := roomy.of_grows (steps_grows.resolution default)
    have zero' := Trail.zero_notMem_above_enterRoot zero nonzero
    refine .of_sheltered s absent reserved ends apart homeless zero made roomy₁
      (not_mem_held free waiting) fun held₁ => ?_
    obtain ⟨c', hc', sound, progress⟩ := ih (Trail.level_enterRoot path u) held₁ zero' (by
      rintro k (_ | ⟨_, hk⟩)
      · simp
      · simp [waiting k hk]) roomy
    injection hc' with found same
    subst same
    rw [Trail.depth_enterRoot, Nat.sub_zero, Trail.above_enterRoot] at sound progress
    rw [held₁.defaultSurvey_of_found sound found.symm]
    exact ⟨found.symm, sound, progress⟩
  | shelterMade absent reserved ends apart homeless zero made absent₀ unreserved₀ =>
    exact .of_shelterMade s absent reserved ends apart homeless zero made absent₀ unreserved₀
      (not_mem_held free waiting) (not_mem_held zero waiting) fits
  | @shelterFailed path u c c₁ c₂ r ending p e absent reserved ends apart homeless zero made default
      ih =>
    have nonzero := ((Catalog.homeless_iff reserved).mp homeless).2
    have hpid := ((Catalog.homeless_iff reserved).mp homeless).1
    have roomy₁ : Fits c₁ := fits.of_grows (steps_grows.resolution default)
    have zero' := Trail.zero_notMem_above_enterRoot zero nonzero
    obtain ⟨held₁, -⟩ := shelter_ok s reserved absent (not_mem_held free waiting) hpid made roomy₁
    obtain ⟨c', hc', -⟩ := ih (Trail.level_enterRoot path u) held₁ zero' (by
      rintro k (_ | ⟨_, hk⟩)
      · simp
      · simp [waiting k hk]) fits
    cases hc'

theorem resolve_ok (s : Sound log [] c) (limit : Nat) (u : Uuid)
    (fits : (left (Catalog.resolve limit .empty u c)).Fits) :
    ∃ c' : Session, Catalog.resolve limit .empty u c = .ok (c'.placement? u) c' ∧
      Sound (log ++ c.arrivals limit limit [] u) [] c' ∧
      Progress c c' (cutsOf (c.arrivals limit limit [] u)) := by
  have h := Resolution.arrives (Catalog.resolution limit .empty Trail.level_empty u c)
    Trail.level_empty s List.not_mem_nil (List.forall_mem_nil _) fits
  rwa [Arrives, Trail.above_empty, Trail.depth_empty, Nat.sub_zero] at h

end Arrivals

end Resolve

end Session
end TraceTracks
