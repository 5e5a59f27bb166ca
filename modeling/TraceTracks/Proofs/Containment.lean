import TraceTracks.Proofs.Breakdown
import TraceTracks.Proofs.Remnants

/-! What is kept when the storage refuses calls, at any point of any attempt to make a track: the
memo, the rows that it names and their hierarchy, and what was announced. An attempt fails only if a
call was refused, and then with the reason for that. -/
namespace TraceTracks

abbrev Trial := Catalog (Faulty Trace)

namespace Catalog
variable {β : Type}

theorem Announces.trans {a b c : Catalog β} (h : a.Announces b) (h' : b.Announces c)
    (vocabulary : b.vocabulary = a.vocabulary) : a.Announces c := by
  intro u
  have same : b.defaultReservation = a.defaultReservation := by
    rw [defaultReservation, vocabulary]
    rfl
  rcases h' u with hu | ⟨rfl, absent, made⟩
  · rcases h u with hu' | ⟨rfl, absent, made⟩
    · exact .inl (hu.trans hu')
    · exact .inr ⟨rfl, absent, hu.trans made⟩
  · rcases h 0 with hu | ⟨-, -, made'⟩
    · exact .inr ⟨rfl, hu ▸ absent, same ▸ made⟩
    · rw [made'] at absent
      cases absent

theorem cuts_ne_nil_of_ending? {c : Catalog β} {room : Nat} {path : List Uuid} {u : Uuid}
    {ending : Ending} (ends : c.ending? room path u = some ending) (apart : ending.joined? = none) :
    c.declared u = 0 ∨ ending.cuts ≠ [] := by
  cases ending with
  | root =>
    simp only [ending?] at ends
    split at ends
    next root => exact .inl root
    next =>
      split at ends <;> try cases ends
      split at ends <;> try cases ends
      split at ends <;> try cases ends
      split at ends <;> cases ends
  | join parent => cases apart
  | _ => exact .inr (List.cons_ne_nil _ _)

end Catalog

namespace Session
open Catalog (Ends)

/-- What a part of a resolution that may fail did. Those that wait for it have no track yet. -/
structure After (held : List TrackId) (path : List Uuid) (c c' : Session) : Prop where
  robust : Robust held c'
  upholds : Upholds c c'
  announced : c.Announces c'
  waiting : ∀ v ∈ path, c'.placement? v = c.placement? v

section After
variable {held held' : List TrackId} {path path' : List Uuid} {a b c c' : Session} {u : Uuid}
  {r : Reservation}

theorem Robust.after_self (h : Robust held c) : After held path c c :=
  ⟨h, .refl c, fun _ => .inl rfl, fun _ _ => rfl⟩

theorem After.trans (h : After held path a b) (h' : After held' path b c) :
    After held' path a c where
  robust := h'.robust
  upholds := h.upholds.trans h'.upholds
  announced := h.announced.trans h'.announced h.upholds.vocabulary
  waiting v mem := (h'.waiting v mem).trans (h.waiting v mem)

theorem After.shorten (h : After held (u :: path) c c') : After held path c c' :=
  { h with waiting := fun v mem => h.waiting v (List.mem_cons_of_mem u mem) }

theorem After.reserved (h : After held path c c') (reserved : c.reservation? u = some r) :
    c'.reservation? u = some r := by
  rcases h.announced u with same | ⟨rfl, none, -⟩
  · exact same.trans reserved
  · rw [none] at reserved
    cases reserved

theorem Robust.after_quiet (h : Robust held c) (x : Quiet c c')
    (counts : ∀ cut : Cut, c.countOf cut.anomaly ≤ c'.countOf cut.anomaly)
    (same : c'.reservations = c.reservations) : After held path c c' := by
  obtain ⟨robust, upholds⟩ := h.quiet x counts (same ▸ h.descriptors)
  refine ⟨robust, upholds, fun u => .inl ?_, fun v _ => congrFun x.placement?_eq v⟩
  rw [Catalog.reservation?, same]
  rfl

theorem Robust.after_lodged {p : Placement} (h : Robust held c) (x : Lodged c u r p c')
    (absent : c.placement? u = none) : After held path c c' where
  robust := h.lodge x absent
  upholds := x.upholds h.entities
  announced v := .inl (congrFun x.reservation?_eq v)
  waiting v _ := congrFun x.placement?_eq v

theorem After.release {p : Placement} (h : After (p.track :: held) path c c')
    (hpid : r.pid = none) :
    After held path c c' ∧ Ready held c' u r p := by
  obtain ⟨robust, ready⟩ := h.robust.release hpid
  exact ⟨{ h with robust }, ready⟩

theorem quiet_countCuts (cuts : List Cut) (c : Session) : Quiet c (c.countCuts cuts) := by
  rw [countCuts_eq]
  exact quiet_withTally c _

theorem Robust.after_countCuts (h : Robust held c) (cuts : List Cut) :
    After held path c (c.countCuts cuts) := by
  refine h.after_quiet (quiet_countCuts cuts c) (fun cut => ?_) (reservations_countCuts cuts c)
  rw [countOf_countCuts]
  exact Nat.le_add_right _ _

theorem dropped_countCuts {cuts : List Cut} (some : cuts ≠ []) (c : Session) :
    Dropped (c.countCuts cuts) := by
  obtain ⟨cut, mem⟩ := List.exists_mem_of_ne_nil cuts some
  refine ⟨cut, ?_⟩
  rw [countOf_countCuts]
  exact Nat.lt_of_lt_of_le (List.countP_pos_iff.mpr ⟨cut, mem, by simp⟩) (Nat.le_add_left _ _)

end After

def Places (held : List TrackId) (path : List Uuid) (u : Uuid) (c : Session) (b : Faulty Trace)
    (result : EStateM.Result Fault Trial Placement) : Prop :=
  Ends b (fun p s => After held path c s ∧ s.placement? u = some p) (After held path c) result

section Settle
variable {held held' : List TrackId} {path : List Uuid} {c : Trial} {u : Uuid} {r : Reservation}
  {p : Placement} {parent : Option Uuid} {q : Option Placement}

theorem After.places {a c : Session} {b : Faulty Trace}
    {result : EStateM.Result Fault Trial Placement}
    (first : After held' path a c) (h : Places held path u c b result) :
    Places held path u a b result :=
  h.mono (fun _ _ => And.imp_left first.trans) fun _ => first.trans

theorem after_recorded {c : Session} {r' : Reservation} (free : u ∉ path)
    (recorded : Robust held (c.recorded u r' p q) ∧ Upholds c (c.recorded u r' p q)) :
    After held path c (c.recorded u r' p q) := by
  refine ⟨recorded.1, recorded.2, fun v => .inl (by rw [reservation?_recorded]), fun v mem => ?_⟩
  rw [placement?_recorded, if_neg]
  rintro rfl
  exact free mem

/-- A row is recorded, or else it is no worse than before. -/
theorem places_record (h : Robust held c.inner) (ready : Ready held c.inner u r p)
    (reserved : c.inner.reservation? u = some r) (absent : c.inner.placement? u = none)
    (free : u ∉ path) (kin : Kin c.inner u r parent q) :
    Places held path u c.inner c.backend (Catalog.record u r p q c) := by
  refine (ends_record ready.row u r q).mono ?_ ?_
  · rintro p' s ⟨rfl, rfl⟩
    exact ⟨after_recorded free (h.record ready reserved absent kin),
      placement?_recorded_self c.inner u r p' q⟩
  · rintro s (⟨done, rest, more, split, rfl⟩ | rfl)
    · obtain ⟨robust, upholds⟩ := h.scrawl ready (h.descriptors u r reserved) split more
      exact ⟨robust, upholds, fun _ => .inl rfl, fun _ _ => rfl⟩
    · exact after_recorded free (h.remember ready reserved absent kin)

theorem grows_trial : Catalog.Steps fun c c' : Trial => Grows c.inner c'.inner := steps_grows.faulty

theorem fits_of_error {α : Type} {x : EStateM Fault Trial α} {c c₁ : Trial} {e : Fault}
    (fits : Fits c₁.inner) (failed : x c = .error e c₁)
    (grows : Grows c.inner (Act.left (x c)).inner) : Fits c.inner := by
  rw [failed] at grows
  exact fits.of_grows grows

theorem places_settle (h : Robust held c.inner) (reserved : c.inner.reservation? u = some r)
    (absent : c.inner.placement? u = none) (free : u ∉ path) (kin : Kin c.inner u r parent q)
    (fits : Fits (Act.left (Catalog.settle u r q c)).inner) :
    Places held path u c.inner c.backend (Catalog.settle u r q c) := by
  have mirrors := Catalog.mirrors_situate (β := Trace) u r q
  have roomy : Fits (left (Catalog.situate u r q c.inner)) := by
    rw [left_eq, ← mirrors.inner_left]
    exact fits.of_grows (grows_trial.left_bind _ (fun p => grows_trial.record u r p q) c)
  obtain ⟨p, c₁, made, x⟩ := h.situate q roomy
  have first : After held path c.inner c₁ := h.after_lodged x absent
  have here : Ends c.backend (fun p' s => p' = p ∧ s = c₁) (After held path c.inner)
      (Catalog.situate u r q c) := mirrors.ends made ⟨rfl, rfl⟩
  refine here.bind fun p' c₂ ⟨hp, hc⟩ => ?_
  subst hp hc
  have still := first.reserved reserved
  exact first.places (places_record first.robust (x.ready h absent) still
    ((congrFun x.placement?_eq u).trans absent) free (kin.mono first.upholds reserved still rfl))

end Settle

section Shelter
variable {held : List TrackId} {above : List Uuid} {c c₁ : Trial} {u : Uuid} {r : Reservation}
  {p : Placement} {room : Nat} {ending : Ending} (path : List Uuid)

theorem inner_countCuts (cuts : List Cut) (c : Trial) :
    (c.countCuts cuts).inner = c.inner.countCuts cuts ∧
      Faulty.Granted c.backend (c.countCuts cuts).backend := by
  induction cuts generalizing c with
  | nil => exact ⟨rfl, .of_same rfl rfl⟩
  | cons cut cuts ih =>
    obtain ⟨same, granted⟩ := ih (c.count cut.anomaly)
    have first : Faulty.Granted c.backend (c.count cut.anomaly).backend := .of_same rfl rfl
    exact ⟨same, first.trans granted⟩

theorem after_cuts (h : Robust held c.inner) (reserved : c.inner.reservation? u = some r)
    (ends : c.ending? room above u = some ending) (apart : ending.joined? = none) :
    After held path c.inner (c.countCuts ending.cuts).inner ∧
      (r.parent = 0 ∨ Dropped (c.countCuts ending.cuts).inner) ∧
      Faulty.Granted c.backend (c.countCuts ending.cuts).backend := by
  obtain ⟨same, granted⟩ := inner_countCuts ending.cuts c
  rw [same]
  refine ⟨h.after_countCuts ending.cuts, ?_, granted⟩
  have dropped := Catalog.cuts_ne_nil_of_ending? ends apart
  rw [Catalog.declared_of_reservation? (show c.reservation? u = some r from reserved)] at dropped
  exact dropped.imp_right fun some => dropped_countCuts some c.inner

structure Adrift (held : List TrackId) (path : List Uuid) (c : Trial) (u : Uuid) (r : Reservation)
    (p : Placement) (c₁ : Trial) : Prop where
  after : After held path c.inner c₁.inner
  pid : r.pid = none
  nonzero : u ≠ 0
  reserved : c₁.inner.reservation? u = some r
  absent : c₁.inner.placement? u = none
  ready : Ready held c₁.inner u r p
  lost : r.parent = 0 ∨ Dropped c₁.inner
  granted : Faulty.Granted c.backend c₁.backend

theorem adrift_createTrack (h : Robust held c.inner) (reserved : c.inner.reservation? u = some r)
    (absent : c.inner.placement? u = none) (homeless : c.homeless u = true)
    (ends : c.ending? room above u = some ending) (apart : ending.joined? = none)
    (made : Catalog.createTrack .global r (c.countCuts ending.cuts) = .ok p c₁)
    (fits : Fits c₁.inner) : Adrift held path c u r p c₁ := by
  obtain ⟨pid, nonzero⟩ := (Catalog.homeless_iff reserved).mp homeless
  obtain ⟨counted, dropped, granted⟩ := after_cuts (u :: path) h reserved ends apart
  have absent := (counted.waiting u List.mem_cons_self).trans absent
  generalize c.countCuts ending.cuts = c₀ at *
  rw [Catalog.mirrors_createTrack .global r c₀, createTrack_eq] at made
  injection made with hp hc
  have row : c₁.inner = withRow c₀.inner .global (.ofIsCounter r.isCounter) := by
    rw [← hc]
    rfl
  have calls : Faulty.Granted c₀.backend c₁.backend := by
    rw [← hc]
    exact .of_same rfl rfl
  have lodged : Lodged c₀.inner u r p c₁.inner := by
    rw [row] at fits ⊢
    rw [← hp]
    exact (situated_createTrack counted.robust.entities pid none u).lodged fits
  have placed : After held path c₀.inner c₁.inner := counted.robust.after_lodged lodged absent
  have after := counted.shorten.trans placed
  exact ⟨after, pid, nonzero, after.reserved reserved,
    (congrFun lodged.placement?_eq u).trans absent, lodged.ready counted.robust absent,
    dropped.imp_right placed.upholds.dropped, granted.trans calls⟩

end Shelter

section Resolve
variable {held : List TrackId} {path : List Uuid} {c c₁ : Trial} {u : Uuid} {r : Reservation}
  {p : Placement}

theorem Kin.of_declared {c : Session} {v : Uuid} (reserved : c.reservation? u = some r)
    (parent : v = r.parent) (nonzero : v ≠ 0) (placed : c.placement? v = some p) :
    Kin c u r (some v) (some p) where
  found := congrArg some placed
  declared w hw _ := (Option.some.inj hw).symm.trans parent
  default hv := absurd (Option.some.inj hv) nonzero
  orphan hv := by cases hv
  due := by
    rw [Catalog.effectiveParent?_of_reserved reserved, if_pos (parent ▸ nonzero), parent]
    exact .inl rfl

theorem Kin.of_default {c : Session} (reserved : c.reservation? u = some r) (hpid : r.pid = none)
    (nonzero : u ≠ 0) (lost : r.parent = 0 ∨ c.Dropped) (placed : c.placement? 0 = some p) :
    Kin c u r (some 0) (some p) where
  found := congrArg some placed
  declared w hw hw0 := absurd (Option.some.inj hw).symm hw0
  default _ := ⟨hpid, nonzero⟩
  orphan hv := by cases hv
  due := by
    refine lost.imp_left fun root => ?_
    rw [Catalog.effectiveParent?_of_reserved reserved, if_neg (not_not_intro root),
      if_pos ⟨hpid, nonzero⟩]

theorem Kin.of_none {c : Session}
    (orphan : r.pid.isSome ∨ u = 0 ∨ c.Ancestor u 0)
    (due : none = c.effectiveParent? u ∨ c.Dropped) : Kin c u r none none where
  found := rfl
  declared w hw := by cases hw
  default hv := by cases hv
  orphan _ := orphan
  due := due

theorem Kin.of_housed {c : Session} (reserved : c.reservation? u = some r)
    (housed : r.pid.isSome ∨ u = 0) (lost : r.parent = 0 ∨ c.Dropped) :
    Kin c u r none none := by
  refine .of_none (housed.imp_right .inl) (lost.imp_left fun root => ?_)
  rw [Catalog.effectiveParent?_of_reserved reserved, if_neg (not_not_intro root), if_neg]
  rintro ⟨hpid, nonzero⟩
  rcases housed with pid | zero
  · rw [hpid] at pid
    cases pid
  · exact nonzero zero

theorem rooted_enter {c : Session} {path : Trail}
    (rooted : 0 ∈ path.above → u = 0 ∨ c.Ancestor u 0) (nonzero : c.declared u ≠ 0) :
    0 ∈ (path.enter u).above → c.declared u = 0 ∨ c.Ancestor (c.declared u) 0 := by
  intro mem
  have link : c.Links u (c.declared u) := ⟨rfl, nonzero⟩
  have above : u = 0 ∨ c.Ancestor u 0 := by
    rw [Trail.above_enter, List.mem_cons] at mem
    exact mem.elim (fun zero => .inl zero.symm) rooted
  rcases above with rfl | above
  · exact .inr (.single link)
  · exact .inr (.tail above link)

/-- What the outcome of a call comes to, also that of a failure. -/
def Withstands (held : List TrackId) (path : List Uuid) (u : Uuid) (c : Trial)
    (result : EStateM.Result Fault Trial (Option Placement)) : Prop :=
  Ends c.backend (fun o s => After held path c.inner s ∧ o = s.placement? u)
    (After held path c.inner) result

theorem Places.withstands {x : Act (Faulty Trace) Placement}
    (h : Places held path u c.inner c₁.backend (x c₁))
    (granted : Faulty.Granted c.backend c₁.backend) :
    Withstands held path u c ((some <$> x) c₁) :=
  (Ends.map h fun _ _ ⟨after, placed⟩ => ⟨after, placed.symm⟩).after granted

theorem after_announced (path : List Uuid) (h : Robust held c.inner)
    (unreserved : c.inner.reservation? 0 = none) :
    After held path c.inner (c.reserve 0 c.defaultReservation).inner ∧
      (c.reserve 0 c.defaultReservation).inner.reservation? 0 = some c.defaultReservation ∧
      Faulty.Granted c.backend (c.reserve 0 c.defaultReservation).backend := by
  rw [Catalog.inner_reserve]
  refine ⟨?_, ?_, ?_⟩
  · have quiet := quiet_reserve 0 c.defaultReservation c.inner
    have descriptors := h.descriptors.reserve 0 (Descriptor.child 0 c.vocabulary.defaultTrackName)
    rw [← Catalog.reservations_reserve] at descriptors
    obtain ⟨robust, upholds⟩ := h.quiet quiet
      (fun cut => Nat.le_of_eq (countOf_reserve 0 c.defaultReservation c.inner cut).symm)
        descriptors
    have same : c.inner.withDefault = c.inner.reserve 0 c.defaultReservation := by
      rw [Catalog.withDefault, if_neg (by simp [unreserved])]
      rfl
    exact ⟨robust, upholds, same ▸ c.inner.announces_withDefault,
      fun v _ => congrFun quiet.placement?_eq v⟩
  · rw [Catalog.reservation?_reserve_of_unreserved unreserved, if_pos rfl]
  · rw [Catalog.reserve_eq_around]
    exact .of_same rfl rfl

theorem places_makeDefault (h : Robust held c.inner) (absent : c.inner.placement? 0 = none)
    (unreserved : c.inner.reservation? 0 = none) (free : 0 ∉ path)
    (fits : Fits (Act.left (Catalog.makeDefault c)).inner) :
    Places held path 0 c.inner c.backend (Catalog.makeDefault c) := by
  obtain ⟨announced, reserved, granted⟩ := after_announced (0 :: path) h unreserved
  rw [Catalog.makeDefault_eq] at fits ⊢
  have absent := (announced.waiting 0 List.mem_cons_self).trans absent
  have kin := Kin.of_housed reserved (.inr rfl) (.inl rfl)
  have settled := places_settle announced.robust reserved absent free kin fits
  exact Ends.after (announced.shorten.places settled) granted

section Cases
variable {c₂ : Trial} {q : Placement} {room : Nat} {ending : Ending}

theorem Withstands.of_linked (absent : c.inner.placement? u = none)
    (reserved : c.inner.reservation? u = some r) (free : u ∉ path) (nonzero : c.declared u ≠ 0)
    (up : Withstands held (u :: path) (c.declared u) c (.ok (some q) c₁))
    (fits : Fits (Act.left (Catalog.settle u r (some q) c₁)).inner) :
    Withstands held path u c ((some <$> Catalog.settle u r (some q)) c₁) := by
  obtain ⟨⟨after, found⟩, granted⟩ := up.of_ok
  have still := after.reserved reserved
  have kin : Kin c₁.inner u r (some (c.declared u)) (some q) :=
    .of_declared still (Catalog.declared_of_reservation? reserved) nonzero found.symm
  have made := places_settle after.robust still
    ((after.waiting u List.mem_cons_self).trans absent) free kin fits
  exact (after.shorten.places made).withstands granted

theorem Withstands.of_housed {above : List Uuid} (robust : Robust held c.inner)
    (absent : c.inner.placement? u = none) (reserved : c.inner.reservation? u = some r)
    (free : u ∉ path) (ends : c.ending? room above u = some ending) (apart : ending.joined? = none)
    (housed : c.homeless u = false)
    (fits : Fits (Act.left (Catalog.settle u r none (c.countCuts ending.cuts))).inner) :
    Withstands held path u c ((some <$> Catalog.settle u r none) (c.countCuts ending.cuts)) := by
  obtain ⟨counted, lost, granted⟩ := after_cuts (u :: path) robust reserved ends apart
  have still := counted.reserved reserved
  have kin := Kin.of_housed still ((Catalog.homeless_eq_false_iff reserved).mp housed) lost
  have made := places_settle counted.robust still
    ((counted.waiting u List.mem_cons_self).trans absent) free kin fits
  exact (counted.shorten.places made).withstands granted

theorem Adrift.counted (a : Adrift held path c u r p c₁) (ancestor : c.inner.Ancestor u 0) :
    After held path c₁.inner (c₁.count .loop).inner ∧ Kin (c₁.count .loop).inner u r none none := by
  have counted : After held path c₁.inner (c₁.count .loop).inner :=
    a.after.robust.after_countCuts [.loop]
  have dropped : Dropped (c₁.inner.countCuts [.loop]) :=
    dropped_countCuts (List.cons_ne_nil _ _) c₁.inner
  have ancestor := (a.after.trans counted).upholds.ancestor ancestor
  exact ⟨counted, .of_none (.inr (.inr ancestor)) (.inr dropped)⟩

theorem Adrift.barred (a : Adrift held path c u r p c₁) (free : u ∉ path)
    (ancestor : c.inner.Ancestor u 0) :
    Withstands held path u c ((some <$> Catalog.record u r p none) (c₁.count .loop)) := by
  obtain ⟨counted, kin⟩ := a.counted ancestor
  have recorded := places_record counted.robust (a.ready.quiet (quiet_countCuts [.loop] _))
    (counted.reserved a.reserved) a.absent free kin
  exact ((a.after.trans counted).places recorded).withstands (a.granted.trans (.of_same rfl rfl))

theorem Adrift.hold (a : Adrift held path c u r p c₁) : Robust (p.track :: held) c₁.inner :=
  a.after.robust.hold a.ready a.pid

theorem Adrift.released {s : Session} (a : Adrift held path c u r p c₁)
    (down : After (p.track :: held) (u :: path) c₁.inner s) (found : s.placement? 0 = some q) :
    After held (u :: path) c₁.inner s ∧ Ready held s u r p ∧ Kin s u r (some 0) (some q) := by
  obtain ⟨after, ready⟩ := down.release (u := u) a.pid
  exact ⟨after, ready, .of_default (after.reserved a.reserved) a.pid a.nonzero
    (a.lost.imp_right after.upholds.dropped) found⟩

theorem Adrift.places_record (a : Adrift held path c u r p c₁) (free : u ∉ path)
    (down : After (p.track :: held) (u :: path) c₁.inner c₂.inner)
    (found : c₂.inner.placement? 0 = some q) :
    Places held path u c₁.inner c₂.backend (Catalog.record u r p (some q) c₂) := by
  obtain ⟨after, ready, kin⟩ := a.released down found
  exact after.shorten.places (Session.places_record after.robust ready (after.reserved a.reserved)
    ((after.waiting u List.mem_cons_self).trans a.absent) free kin)

theorem Adrift.sheltered (a : Adrift held path c u r p c₁) (free : u ∉ path)
    (down : Withstands (p.track :: held) (u :: path) 0 c₁ (.ok (some q) c₂)) :
    Withstands held path u c ((some <$> Catalog.record u r p (some q)) c₂) := by
  obtain ⟨⟨after, found⟩, granted⟩ := down.of_ok
  have places := a.after.places (a.places_record free after found.symm)
  exact places.withstands (a.granted.trans granted)

theorem Adrift.shelterMade (a : Adrift held path c u r p c₁) (free : u ∉ path) (zero : 0 ∉ path)
    (absent : c₁.inner.placement? 0 = none) (unreserved : c₁.inner.reservation? 0 = none)
    (fits : Fits (Act.left (Catalog.makeDefault c₁)).inner) :
    Withstands held path u c
      ((some <$> (Catalog.makeDefault >>= fun q => Catalog.record u r p (some q))) c₁) := by
  have zero' := List.not_mem_cons_of_ne_of_not_mem a.nonzero.symm zero
  have default := places_makeDefault a.hold absent unreserved zero' fits
  have recorded : Places held path u c₁.inner c₁.backend
      ((Catalog.makeDefault >>= fun q => Catalog.record u r p (some q)) c₁) :=
    (Ends.mono default (fun _ _ => id) fun _ down => (down.release (u := u) a.pid).1.shorten).bind
      fun q c₂ ⟨down, found⟩ => a.places_record free down found
  exact (a.after.places recorded).withstands a.granted

theorem Adrift.shelterFailed {e : Fault} (a : Adrift held path c u r p c₁)
    (down : Withstands (p.track :: held) (u :: path) 0 c₁ (.error e c₂)) :
    Withstands held path u c (.error e c₂) := by
  obtain ⟨after, broken⟩ := down.of_error
  exact .error (a.after.trans (after.release (u := u) a.pid).1.shorten) (a.granted.broken broken)

end Cases

/-- A resolution fails only where a call was refused, and leaves the tables robust either way. -/
theorem Resolution.withstands {limit : Nat} {path : Trail}
    {result : EStateM.Result Fault Trial (Option Placement)}
    (h : Catalog.Resolution limit path u c result) (robust : Robust held c.inner)
    (free : u ∉ path.above) (rooted : 0 ∈ path.above → u = 0 ∨ c.inner.Ancestor u 0)
    (fits : Fits (Act.left result).inner) : Withstands held path.above u c result := by
  -- By induction on the calls. Nobody on the path gets its track meanwhile, so that the row of one
  -- who waits can still be recorded; below the default track, there are only its ancestors.
  induction h generalizing held with
  | known placed => exact .ok ⟨robust.after_self, placed.symm⟩ (.of_same rfl rfl)
  | unannounced absent _ => exact .ok ⟨robust.after_self, absent.symm⟩ (.of_same rfl rfl)
  | @joined path u c r parent q absent reserved ends above =>
    obtain ⟨declared, nonzero, -, -⟩ := Catalog.ending?_eq_join ends
    rw [Catalog.declared_of_reservation? reserved] at declared
    rw [Act.left_map] at fits
    have kin : Kin c.inner u r (some parent) (some q) :=
      .of_declared reserved declared.symm nonzero above
    exact (places_settle robust reserved absent free kin fits).withstands (.of_same rfl rfl)
  | @linked path u c c₁ r q absent reserved opens above ih =>
    have nonzero := (Catalog.ending?_eq_none opens).1
    have free' := Catalog.declared_notMem_above_enter opens
    rw [Act.left_map] at fits
    have up := ih robust free' (rooted_enter rooted nonzero)
      (fits.of_grows (grows_trial.settle u r (some q) c₁))
    rw [Trail.above_enter] at up
    exact .of_linked absent reserved free nonzero up fits
  | linkFailed absent reserved opens above ih =>
    have nonzero := (Catalog.ending?_eq_none opens).1
    have free' := Catalog.declared_notMem_above_enter opens
    obtain ⟨after, broken⟩ := (ih robust free' (rooted_enter rooted nonzero) fits).of_error
    rw [Trail.above_enter] at after
    exact .error after.shorten broken
  | housed absent reserved ends apart housed =>
    rw [Act.left_map] at fits
    exact .of_housed robust absent reserved free ends apart housed fits
  | @barred path u c c₁ r ending p absent reserved ends apart homeless waits made =>
    rw [Act.left_map] at fits
    have roomy : Fits c₁.inner := (fits.of_grows (grows_trial.record u r p none _)).of_grows
      (grows_count .loop c₁.inner)
    have row := adrift_createTrack path.above robust reserved absent homeless ends apart made roomy
    exact row.barred free ((rooted waits).resolve_left row.nonzero)
  | @sheltered path u c c₁ c₂ r ending p q absent reserved ends apart homeless zero
      made default ih =>
    rw [Act.left_map] at fits
    have roomy : Fits c₂.inner := fits.of_grows (grows_trial.record u r p (some q) c₂)
    have row := adrift_createTrack path.above robust reserved absent homeless ends apart made
      (roomy.of_grows (grows_trial.resolution default))
    have zero' := Trail.zero_notMem_above_enterRoot zero row.nonzero
    have down := ih row.hold zero' (fun _ => .inl rfl) roomy
    rw [Trail.above_enterRoot] at down
    exact row.sheltered free down
  | @shelterMade path u c c₁ r ending p absent reserved ends apart homeless zero made absent₀
      unreserved₀ =>
    rw [Act.left_map] at fits
    have roomy := fits.of_grows (grows_trial.left_bind Catalog.makeDefault
      (fun q => grows_trial.record u r p (some q)) c₁)
    have row := adrift_createTrack path.above robust reserved absent homeless ends apart made
      (roomy.of_grows (grows_trial.closed.makeDefault c₁))
    exact row.shelterMade free zero absent₀ unreserved₀ roomy
  | @shelterFailed path u c c₁ c₂ r ending p e absent reserved ends apart homeless zero made default
      ih =>
    have row := adrift_createTrack path.above robust reserved absent homeless ends apart made
      (fits.of_grows (grows_trial.resolution default))
    have zero' := Trail.zero_notMem_above_enterRoot zero row.nonzero
    have down := ih row.hold zero' (fun _ => .inl rfl) fits
    rw [Trail.above_enterRoot] at down
    exact row.shelterFailed down

end Resolve
end Session
end TraceTracks
