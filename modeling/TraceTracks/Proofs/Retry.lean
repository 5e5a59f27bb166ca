import TraceTracks.Proofs.Twins

/-! What a second attempt makes of what the first one left. It finds what was remembered, makes a
row again where one was held without being remembered, comes back to what it had claimed, and so
ends where an undisturbed attempt would have ended, but for the uuid at which the first one broke
off. -/
namespace TraceTracks

/-- The uuid at which an attempt broke off: it has no track yet, or has got its track since. -/
def Scar.Marks (c c₁ : Session) : Scar → Prop
  | .twice u => c₁.placement? u = none
  | .unnamed u => c.placement? u = none ∧ (c₁.placement? u).isSome

theorem Scar.Marks.mono {a b c : Session} {scar : Scar} (h : scar.Marks b c)
    (x : Session.Extends a b) : scar.Marks a c := by
  cases scar with
  | twice u => exact h
  | unnamed u =>
    refine ⟨?_, h.2⟩
    rw [← Option.not_isSome_iff_eq_none]
    intro placed
    have placed := x.placement?_isSome placed
    rw [h.1] at placed
    cases placed

namespace Session
open Catalog (resolve settle record createTrack makeDefault Resolution resolution)

section Ending
variable {held : List TrackId} {path above : List Uuid} {c c₁ d : Session} {u : Uuid}
  {r : Reservation} {room : Nat} {ending : Ending}

theorem After.declared_eq (h : After held path c c₁) (reserved : c.reservation? u = some r) :
    c₁.declared u = c.declared u := by
  rw [Catalog.declared_of_reservation? reserved,
    Catalog.declared_of_reservation? (h.reserved reserved)]

theorem Strewn.ending?_eq (h : Strewn c d) : d.ending? room above u = c.ending? room above u := by
  simp only [Catalog.ending?, Catalog.declared, h.placement?_eq, h.reservation?_eq]
  rfl

theorem After.ending_stays (h : After held path c c₁) (reserved : c.reservation? u = some r)
    (ends : c.ending? room above u = some ending) : c₁.ending? room above u = some ending := by
  simp only [Catalog.ending?, h.declared_eq reserved] at ends ⊢
  by_cases root : c.declared u = 0
  · rwa [if_pos root] at ends ⊢
  rw [if_neg root] at ends ⊢
  by_cases full : room = 0
  · rwa [if_pos full] at ends ⊢
  rw [if_neg full] at ends ⊢
  by_cases loop : c.declared u ∈ u :: above
  · rwa [if_pos loop] at ends ⊢
  rw [if_neg loop] at ends ⊢
  by_cases placed : (c.placement? (c.declared u)).isSome
  · rw [if_pos placed] at ends
    rwa [if_pos (h.upholds.placement?_isSome placed)]
  rw [if_neg placed] at ends
  by_cases unknown : (c.reservation? (c.declared u)).isNone
  · rw [if_pos unknown] at ends
    have still : c₁.reservation? (c.declared u) = none :=
      ((h.announced _).resolve_right fun default => root default.1).trans
        (Option.isNone_iff_eq_none.mp unknown)
    rw [if_neg, if_pos (Option.isNone_iff_eq_none.mpr still)]
    · exact ends
    intro placed
    obtain ⟨p, placed⟩ := Option.isSome_iff_exists.mp placed
    obtain ⟨r', parent, q, endures⟩ := h.robust.endures _ p placed
    rw [endures.reserved] at still
    cases still
  · rw [if_neg unknown] at ends
    cases ends

/-- A walk goes on as before, or ends as it has got further. -/
theorem After.ending_opens (h : After held path c c₁) (reserved : c.reservation? u = some r)
    (opens : c.ending? room above u = none) : c₁.ending? room above u =
      if (c₁.placement? (c.declared u)).isSome then some (.join (c.declared u)) else none := by
  obtain ⟨root, full, loop, -, known⟩ := Catalog.ending?_eq_none opens
  obtain ⟨r', known⟩ := Option.isSome_iff_exists.mp known
  simp only [Catalog.ending?, h.declared_eq reserved]
  rw [if_neg root, if_neg full, if_neg loop]
  congr 1
  rw [h.reserved known]
  rfl

theorem After.homeless_eq (h : After held path c c₁) (reserved : c.reservation? u = some r) :
    c₁.homeless u = c.homeless u := by
  rw [Bool.eq_iff_iff, Catalog.homeless_iff reserved, Catalog.homeless_iff (h.reserved reserved)]

theorem Strewn.homeless_eq (h : Strewn c d) : d.homeless u = c.homeless u := by
  simp only [Catalog.homeless, h.reservation?_eq]

theorem After.finds (h : After held path c c₁) (strewn : Strewn c₁ d)
    (reserved : c.reservation? u = some r) (ends : c.ending? room above u = some ending) :
    d.reservation? u = some r ∧ d.ending? room above u = some ending ∧
      d.homeless u = c.homeless u :=
  ⟨strewn.reservation?_eq ▸ h.reserved reserved,
    strewn.ending?_eq.trans (h.ending_stays reserved ends),
    strewn.homeless_eq.trans (h.homeless_eq reserved)⟩

theorem Robust.countCuts (robust : Robust held c) (cuts : List Cut) :
    Robust held (c.countCuts cuts) :=
  have after : After held [] c (c.countCuts cuts) := robust.after_countCuts cuts
  after.robust

end Ending

section Mends
variable {held : List TrackId} {limit : Nat} {path : Trail} {u : Uuid} {r : Reservation}
  {p q : Placement} {a : Option Placement} {parent : Option Uuid} {scar : Scar} {s s' c₁ : Session}

/-- A second attempt, from whatever the first one left, ends like an undisturbed one. -/
def Mends (limit : Nat) (path : Trail) (u : Uuid) (s c₁ : Session) (scar : Scar) : Prop :=
  ∀ held d, Strewn c₁ d → Robust held d → Fits (left (resolve limit path u d)) →
    Fits (left (resolve limit path u s)) → ∃ p, ∃ d' : Session, ∃ q, ∃ s' : Session,
      resolve limit path u d = .ok (some p) d' ∧ resolve limit path u s = .ok (some q) s' ∧
        Redone scar d' s'

inductive Resumes (c₁ : Session) (u : Uuid) (x : Act Trace Placement) (scar : Scar) (s' : Session) :
    Prop
  | known {p : Placement} (placed : c₁.placement? u = some p)
      (redone : ∀ d, Strewn c₁ d → Redone scar d s')
  | again (absent : c₁.placement? u = none)
      (redone : ∀ held d, Strewn c₁ d → Robust held d → Fits (left (x d)) →
        ∃ p, ∃ d' : Session, x d = .ok p d' ∧ Redone scar d' s')

theorem Resumes.mends {x : Act Trace Placement} (h : Resumes c₁ u x scar s')
    (made : resolve limit path u s = .ok (some q) s')
    (calls : ∀ held d, Strewn c₁ d → Robust held d → d.placement? u = none →
      ∃ d₀ : Session, Strewn d d₀ ∧ Robust held d₀ ∧ resolve limit path u d = (some <$> x) d₀) :
    Mends limit path u s c₁ scar := by
  intro held d strewn robust fits _
  cases h with
  | @known p placed redone =>
    have placed : d.placement? u = some p := strewn.placement?_eq ▸ placed
    exact ⟨p, d, q, s', Catalog.resolve_of_placement? placed limit path, made, redone d strewn⟩
  | again absent redone =>
    obtain ⟨d₀, strewn₀, robust₀, same⟩ :=
      calls held d strewn robust (strewn.placement?_eq ▸ absent)
    rw [same, left_map] at fits
    obtain ⟨p, d', ok, redone⟩ := redone held d₀ (strewn.trans strewn₀) robust₀ fits
    exact ⟨p, d', q, s', same.trans (Act.map_ok ok some), made, redone⟩

theorem outage_of_settle {c c₁ : Trial} {e : Fault} {c' : Session}
    (made : Catalog.situate u r a c.inner = .ok p c') (present : (c'.row? p.track).isSome)
    (failed : settle u r a c = .error e c₁) : Outage c' u r p a c₁.inner := by
  have situated : Catalog.situate u r a c = .ok p (c.around c') := by
    rw [Catalog.mirrors_situate, made]
    rfl
  unfold settle at failed
  rw [Act.bind_ok situated] at failed
  exact outage_of_record (c := c.around c') present failed

theorem Robust.after_settle_failed {c c₁ : Trial} {e : Fault} {above : List Uuid}
    (robust : Robust held c.inner) (reserved : c.inner.reservation? u = some r)
    (absent : c.inner.placement? u = none) (free : u ∉ above) (kin : Kin c.inner u r parent a)
    (failed : settle u r a c = .error e c₁) (fits : Fits c₁.inner) :
    After held above c.inner c₁.inner := by
  have places := places_settle robust reserved absent free kin (by rwa [failed])
  rw [failed] at places
  exact (Catalog.Ends.of_error places).1

theorem resumes_settle {c c₁ : Trial} {e : Fault} (robust : Robust held c.inner)
    (reserved : c.inner.reservation? u = some r) (absent : c.inner.placement? u = none)
    (kin : Kin c.inner u r parent a) (failed : settle u r a c = .error e c₁)
    (fits : Fits c₁.inner) :
    ∃ scar p, ∃ s' : Session, scar.Marks c.inner c₁.inner ∧ settle u r a c.inner = .ok p s' ∧
      Resumes c₁.inner u (settle u r a) scar s' := by
  have roomy : Fits (left (Catalog.situate u r a c.inner)) := by
    rw [left_eq, ← (Catalog.mirrors_situate (β := Trace) u r a).inner_left]
    refine Fits.of_grows (show Fits (Act.left (settle u r a c)).inner from ?_)
      (grows_trial.left_bind _ (fun p => grows_trial.record u r p a) c)
    rwa [failed]
  obtain ⟨p, c', made, lodges, place⟩ := lodges_situate robust absent roomy
  have awaits := lodges.awaits reserved kin
  have settled : settle u r a c.inner = .ok p (c'.recorded u r p a) :=
    (Act.bind_ok made _).trans (record_ok awaits.ready.row u r a)
  have after := robust.after_settle_failed reserved absent List.not_mem_nil kin failed fits
  have outage := outage_of_settle made awaits.ready.row failed
  obtain ⟨absent₁, redone⟩ | ⟨placed, redone⟩ := outage.scars awaits
  · refine ⟨.twice u, p, _, absent₁, settled, .again absent₁ fun held' d strewn robust' fits' => ?_⟩
    have upholds := after.upholds.trans strewn.upholds
    have reserved' : d.reservation? u = some r := strewn.reservation?_eq ▸ after.reserved reserved
    exact lodges.settle_again awaits place redone strewn robust' (strewn.placement?_eq ▸ absent₁)
      (kin.mono upholds reserved reserved' rfl) fits'
  · refine ⟨.unnamed u, p, _, ⟨absent, ?_⟩, settled, .known placed redone⟩
    rw [placed]
    rfl

theorem mends_settle {c c₁ : Trial} {e : Fault} (robust : Robust held c.inner)
    (reserved : c.inner.reservation? u = some r) (absent : c.inner.placement? u = none)
    (kin : Kin c.inner u r parent a) (failed : settle u r a c = .error e c₁) (fits : Fits c₁.inner)
    (made : resolve limit path u s = (some <$> settle u r a) c.inner)
    (calls : ∀ held d, Strewn c₁.inner d → Robust held d → d.placement? u = none → ∃ d₀ : Session,
      Strewn d d₀ ∧ Robust held d₀ ∧ resolve limit path u d = (some <$> settle u r a) d₀) :
    ∃ scar : Scar, scar.Marks c.inner c₁.inner ∧ Mends limit path u s c₁.inner scar := by
  obtain ⟨scar, p, s', marks, settled, resumes⟩ :=
    resumes_settle robust reserved absent kin failed fits
  exact ⟨scar, marks, resumes.mends (made.trans (Act.map_ok settled some)) calls⟩

theorem After.resolve_joined {c d : Session} {v : Uuid} (after : After held path.above c c₁)
    (level : path.Level) (reserved : c.reservation? u = some r)
    (joins : c₁.ending? (limit - path.depth) path.above u = some (.join v))
    (above : c₁.placement? v = some q) (strewn : Strewn c₁ d) (absent : d.placement? u = none) :
    resolve limit path u d = (some <$> settle u r (some q)) d := by
  have calls : Resolution limit path u d _ :=
    .joined absent (strewn.reservation?_eq ▸ after.reserved reserved)
      (strewn.ending?_eq.trans joins) (strewn.placement?_eq ▸ above)
  exact calls.eq_resolve level

theorem mends_housed {c c₁ : Trial} {e : Fault} {ending : Ending} (level : path.Level)
    (after : After held path.above c.inner c₁.inner) (robust : Robust held c.inner)
    (absent : c.inner.placement? u = none) (reserved : c.inner.reservation? u = some r)
    (ends : c.ending? (limit - path.depth) path.above u = some ending)
    (apart : ending.joined? = none) (housed : c.homeless u = false)
    (failed : settle u r none (c.countCuts ending.cuts) = .error e c₁) (fits : Fits c₁.inner) :
    ∃ scar : Scar, scar.Marks c.inner c₁.inner ∧ Mends limit path u c.inner c₁.inner scar := by
  obtain ⟨counted, lost, -⟩ := after_cuts [u] robust reserved ends apart
  have still := counted.reserved reserved
  have kin := Kin.of_housed still ((Catalog.homeless_eq_false_iff reserved).mp housed) lost
  have calls : Resolution limit path u c.inner _ := .housed absent reserved ends apart housed
  obtain ⟨scar, marks, mends⟩ := mends_settle counted.robust still
    ((counted.waiting u List.mem_cons_self).trans absent) kin failed fits
    ((calls.eq_resolve level).trans (congrArg _ (inner_countCuts ending.cuts c).1.symm))
    fun held d strewn robust absent => by
      obtain ⟨reserved, ends, same⟩ := after.finds strewn reserved ends
      have calls : Resolution limit path u d _ :=
        .housed absent reserved ends apart (same.trans housed)
      exact ⟨_, strewn_countCuts _ d, robust.countCuts _, calls.eq_resolve level⟩
  exact ⟨scar, marks.mono counted.upholds.toExtends, mends⟩

end Mends

section Afloat
variable {held : List TrackId} {limit : Nat} {path : Trail} {c c₁ d : Session} {u : Uuid}
  {r : Reservation} {p : Placement} {ending : Ending}

structure Afloat (held : List TrackId) (c : Session) (u : Uuid) (r : Reservation) (p : Placement)
    (c₁ : Session) : Prop where
  strewn : Strewn c c₁
  robust : Robust held c₁
  ready : Ready held c₁ u r p
  blank : Blank c₁ p.track
  scope : p.scope = .global
  flavor : p.flavor = .ofIsCounter r.isCounter

/-- A uuid whose walk ended apart from every track, and whose track would be at home nowhere. -/
structure Homeless (limit : Nat) (path : Trail) (c : Session) (u : Uuid) (r : Reservation)
    (ending : Ending) : Prop where
  absent : c.placement? u = none
  reserved : c.reservation? u = some r
  ends : c.ending? (limit - path.depth) path.above u = some ending
  apart : ending.joined? = none
  homeless : c.homeless u = true

theorem Homeless.again (x : Homeless limit path c u r ending) (after : After held path.above c c₁)
    (strewn : Strewn c₁ d) (absent : d.placement? u = none) : Homeless limit path d u r ending := by
  obtain ⟨reserved, ends, alike⟩ := after.finds strewn x.reserved x.ends
  exact ⟨absent, reserved, ends, x.apart, alike.trans x.homeless⟩

theorem Homeless.afloat (x : Homeless limit path c u r ending) (robust : Robust held c)
    (made : createTrack .global r (c.countCuts ending.cuts) = .ok p c₁) (fits : c₁.Fits) :
    Afloat held c u r p c₁ := by
  obtain ⟨hpid, -⟩ := (Catalog.homeless_iff x.reserved).mp x.homeless
  have counted := strewn_countCuts ending.cuts c
  have robust := robust.countCuts ending.cuts
  have absent : (c.countCuts ending.cuts).placement? u = none := counted.placement?_eq ▸ x.absent
  generalize c.countCuts ending.cuts = c₀ at *
  rw [createTrack_eq] at made
  injection made with hp hc
  subst hp hc
  have lodged := (situated_createTrack robust.entities hpid none u).lodged fits
  have housed : Housed c₀ ⟨Handle.ofIndex (rows c₀).size, .global, .ofIsCounter r.isCounter⟩
      (withRow c₀ .global (.ofIsCounter r.isCounter)) := .made rfl rfl
  exact ⟨counted.trans (lodged.strewn rfl), robust.lodge lodged absent, lodged.ready robust absent,
    housed.blank lodged robust (lodged.fresh hpid) fits, rfl, rfl⟩

theorem Homeless.adrift {c c₁ : Trial} (x : Homeless limit path c.inner u r ending)
    (robust : Robust held c.inner)
    (made : createTrack .global r (c.countCuts ending.cuts) = .ok p c₁) (fits : Fits c₁.inner) :
    Adrift held path.above c u r p c₁ ∧ Afloat held c.inner u r p c₁.inner :=
  ⟨adrift_createTrack path.above robust x.reserved x.absent x.homeless x.ends x.apart made fits,
    x.afloat robust (Catalog.createTrack_under made).1 fits⟩

theorem Afloat.count (h : Afloat held c u r p c₁) (cuts : List Cut) :
    Afloat held c u r p (c₁.countCuts cuts) where
  strewn := h.strewn.trans (strewn_countCuts cuts c₁)
  robust := h.robust.countCuts cuts
  ready := h.ready.quiet (quiet_countCuts cuts c₁)
  blank := by
    obtain ⟨name, args⟩ := h.blank
    rw [countCuts_eq]
    exact ⟨name, args⟩
  scope := h.scope
  flavor := h.flavor

end Afloat

section Homeless
variable {held : List TrackId} {limit : Nat} {path : Trail} {u : Uuid} {r : Reservation}
  {p q : Placement} {a : Option Placement} {parent : Option Uuid} {scar : Scar} {s c₁ d : Session}
  {ending : Ending}

theorem Awaits.after_failed {c c₁ : Trial} {e : Fault} (awaits : Awaits held c.inner u r p parent a)
    (failed : record u r p a c = .error e c₁) : After held [] c.inner c₁.inner := by
  have places : Places held [] u c.inner c.backend (record u r p a c) :=
    places_record awaits.robust awaits.ready awaits.reserved awaits.absent List.not_mem_nil
      awaits.kin
  rw [failed] at places
  exact (Catalog.Ends.of_error places).1

theorem mends_record {c c₁ : Trial} {e : Fault} (awaits : Awaits held c.inner u r p parent a)
    (blank : Blank c.inner p.track) (scope : p.scope = .global)
    (flavor : p.flavor = .ofIsCounter r.isCounter) (failed : record u r p a c = .error e c₁)
    (made : resolve limit path u s = (some <$> record u r p a) c.inner)
    (calls : ∀ held d, Strewn c₁.inner d → Robust held d → d.placement? u = none →
      Fits (left (resolve limit path u d)) → ∃ p', ∃ d₁ : Session, Afloat held d u r p' d₁ ∧
        resolve limit path u d = (some <$> record u r p' a) d₁) :
    ∃ scar : Scar, scar.Marks c.inner c₁.inner ∧ Mends limit path u s c₁.inner scar := by
  have made := made.trans (Act.map_ok (record_ok awaits.ready.row u r a) some)
  have after := awaits.after_failed failed
  obtain ⟨absent₁, redone⟩ | ⟨placed, redone⟩ :=
    (outage_of_record awaits.ready.row failed).scars awaits
  · refine ⟨.twice u, absent₁, fun held' d strewn robust fits _ => ?_⟩
    have absent : d.placement? u = none := strewn.placement?_eq ▸ absent₁
    obtain ⟨p', d₁, afloat, same⟩ := calls held' d strewn robust absent fits
    have strewn₁ := strewn.trans afloat.strewn
    have reserved : d₁.reservation? u = some r :=
      strewn₁.reservation?_eq ▸ after.reserved awaits.reserved
    have kin := awaits.kin.mono (after.upholds.trans strewn₁.upholds) awaits.reserved reserved rfl
    have awaits' : Awaits held' d₁ u r p' parent a :=
      ⟨afloat.robust, reserved, afloat.strewn.placement?_eq ▸ absent, afloat.ready, kin⟩
    refine ⟨p', d₁.recorded u r p' a, p, _, ?_, made, ?_⟩
    · exact same.trans (Act.map_ok (record_ok afloat.ready.row u r a) some)
    · exact (redone d₁ strewn₁).record awaits' awaits (afloat.blank.matched blank)
        (afloat.scope.trans scope.symm) (afloat.flavor.trans flavor.symm)
  · refine ⟨.unnamed u, ⟨awaits.absent, ?_⟩, fun held' d strewn robust fits _ => ?_⟩
    · rw [placed]
      rfl
    have placed : d.placement? u = some p := strewn.placement?_eq ▸ placed
    exact ⟨p, d, p, _, Catalog.resolve_of_placement? placed limit path, made, redone d strewn⟩

theorem mends_barred {c c₂ c₁ : Trial} {e : Fault} (level : path.Level)
    (after : After held path.above c.inner c₁.inner) (x : Homeless limit path c.inner u r ending)
    (waits : 0 ∈ path.above) (ancestor : c.inner.Ancestor u 0)
    (made : createTrack .global r (c.countCuts ending.cuts) = .ok p c₂)
    (row : Adrift held path.above c u r p c₂) (afloat : Afloat held c.inner u r p c₂.inner)
    (failed : record u r p none (c₂.count .loop) = .error e c₁) :
    ∃ scar : Scar, scar.Marks c.inner c₁.inner ∧ Mends limit path u c.inner c₁.inner scar := by
  obtain ⟨counted, kin⟩ := row.counted ancestor
  have afloat := afloat.count [.loop]
  have awaits : Awaits held (c₂.count .loop).inner u r p none none :=
    ⟨afloat.robust, counted.reserved row.reserved, row.absent, afloat.ready, kin⟩
  have calls : Resolution limit path u c.inner _ := .barred x.absent x.reserved x.ends x.apart
    x.homeless waits (Catalog.createTrack_under made).1
  obtain ⟨scar, marks, mends⟩ := mends_record awaits afloat.blank afloat.scope afloat.flavor failed
    (calls.eq_resolve level) fun held d strewn robust absent fits => by
      obtain ⟨p', d₁, made⟩ := Catalog.createTrack_ok .global r (d.countCuts ending.cuts)
      have y := x.again after strewn absent
      have calls : Resolution limit path u d _ :=
        .barred y.absent y.reserved y.ends y.apart y.homeless waits made
      have same := calls.eq_resolve level
      rw [same] at fits
      have roomy := (fits.of_grows ((growing_record _ _ _ _).map some _)).of_grows
        (grows_count .loop d₁)
      exact ⟨p', _, (y.afloat robust made roomy).count [.loop], same⟩
  exact ⟨scar, marks.mono (row.after.trans counted).upholds.toExtends, mends⟩

theorem mends_sheltered {c c₂ c₃ c₁ : Trial} {e : Fault} (level : path.Level)
    (after : After held path.above c.inner c₁.inner) (x : Homeless limit path c.inner u r ending)
    (zero : 0 ∉ path.above) (row : Adrift held path.above c u r p c₂)
    (afloat : Afloat held c.inner u r p c₂.inner)
    (down : After (p.track :: held) (u :: path.above) c₂.inner c₃.inner)
    (found : c₃.inner.placement? 0 = some q) (tidy : Tidy c₂.inner c₃.inner)
    (failed : record u r p (some q) c₃ = .error e c₁)
    (made : resolve limit path u c.inner = (some <$> record u r p (some q)) c₃.inner) :
    ∃ scar : Scar, scar.Marks c.inner c₁.inner ∧ Mends limit path u c.inner c₁.inner scar := by
  obtain ⟨after₃, ready, kin⟩ := row.released down found
  have awaits : Awaits held c₃.inner u r p (some 0) (some q) :=
    ⟨after₃.robust, after₃.reserved row.reserved,
      (after₃.waiting u List.mem_cons_self).trans row.absent, ready, kin⟩
  have bare := (down.robust.keeps p.track List.mem_cons_self).2.1
  have found₁ := (awaits.after_failed failed).upholds.placed 0 q found
  obtain ⟨scar, marks, mends⟩ := mends_record awaits (afloat.blank.tidy tidy bare) afloat.scope
    afloat.flavor failed made fun held d strewn robust absent fits => by
      obtain ⟨p', d₁, made⟩ := Catalog.createTrack_ok .global r (d.countCuts ending.cuts)
      have found : d₁.placement? 0 = some q := by
        have aside := (aside_countCuts ending.cuts d).trans (aside_createTrack made)
        rw [Catalog.placement?, aside.placements]
        exact (congrFun strewn.placement?_eq 0).trans found₁
      have y := x.again after strewn absent
      have calls : Resolution limit path u d _ :=
        .sheltered y.absent y.reserved y.ends y.apart y.homeless zero made (.known found)
      have same := calls.eq_resolve level
      rw [same] at fits
      have roomy := fits.of_grows ((growing_record _ _ _ _).map some d₁)
      exact ⟨p', d₁, y.afloat robust made roomy, same⟩
  exact ⟨scar, marks.mono (row.after.upholds.trans after₃.upholds).toExtends, mends⟩

theorem Homeless.grows (x : Homeless limit path d u r ending) (level : path.Level)
    (zero : 0 ∉ path.above) {d₁ : Session}
    (made : createTrack .global r (d.countCuts ending.cuts) = .ok p d₁) :
    Grows (left (resolve limit (path.enterRoot u) 0 d₁)) (left (resolve limit path u d)) := by
  obtain ⟨absent, reserved, ends, apart, homeless⟩ := x
  have default := resolution limit (path.enterRoot u) (Trail.level_enterRoot path u) 0 d₁
  generalize resolve limit (path.enterRoot u) 0 d₁ = result at *
  cases result with
  | ok found d₂ =>
    cases found with
    | some q =>
      have calls : Resolution limit path u d _ :=
        .sheltered absent reserved ends apart homeless zero made default
      rw [calls.eq_resolve level]
      exact (growing_record _ _ _ _).map some d₂
    | none =>
      obtain ⟨absent₀, unreserved₀, rfl⟩ := default.of_none
      have calls : Resolution limit path u d _ :=
        .shelterMade absent reserved ends apart homeless zero made absent₀ unreserved₀
      rw [calls.eq_resolve level]
      exact (growing_makeDefault.bind fun q => growing_record u r p (some q)).map some d₂
  | error e d₂ =>
    have calls : Resolution limit path u d _ :=
      .shelterFailed absent reserved ends apart homeless zero made default
    rw [calls.eq_resolve level]
    exact .refl d₂

structure Waits (held : List TrackId) (c : Session) (u : Uuid) (r : Reservation) (p : Placement) :
    Prop where
  robust : Robust (p.track :: held) c
  reserved : c.reservation? u = some r
  absent : c.placement? u = none
  pid : r.pid = none
  nonzero : u ≠ 0
  blank : Blank c p.track
  scope : p.scope = .global
  flavor : p.flavor = .ofIsCounter r.isCounter

theorem Adrift.waits {c c₂ : Trial} (row : Adrift held path.above c u r p c₂)
    (afloat : Afloat held c.inner u r p c₂.inner) : Waits held c₂.inner u r p :=
  ⟨row.hold, row.reserved, row.absent, row.pid, row.nonzero, afloat.blank, afloat.scope,
    afloat.flavor⟩

theorem Waits.resolves {c : Session} (w : Waits held c u r p) (zero : 0 ∉ path.above)
    (lost : r.parent = 0 ∨ Dropped c) (fits : Fits (left (resolve limit (path.enterRoot u) 0 c)))
    {c' : Session} (found : resolve limit (path.enterRoot u) 0 c = .ok (some q) c') :
    Awaits held c' u r p (some 0) (some q) ∧ Blank c' p.track := by
  have zero' := Trail.zero_notMem_above_enterRoot zero w.nonzero
  obtain ⟨o, c'', same, down, placed⟩ :=
    w.robust.resolves (Trail.level_enterRoot path u) zero' (fun _ => .inl rfl) fits
  have tidy : Tidy c (Act.left (resolve limit (path.enterRoot u) 0 c)) :=
    tidy_closed.resolve _ _ _ c
  rw [found] at same tidy
  cases same
  rw [Trail.above_enterRoot] at down
  have bare := (down.robust.keeps p.track List.mem_cons_self).2.1
  obtain ⟨after, ready⟩ := down.release (u := u) w.pid
  have still := after.reserved w.reserved
  have kin := Kin.of_default still w.pid w.nonzero (lost.imp_right after.upholds.dropped)
    placed.symm
  exact ⟨⟨after.robust, still, (after.waiting u List.mem_cons_self).trans w.absent, ready, kin⟩,
    w.blank.tidy tidy bare⟩

theorem mends_shelter {c₀ : Session} (level : path.Level) (zero : 0 ∉ path.above)
    (after : After held path.above s c₁) (x : Homeless limit path s u r ending)
    (absent : c₁.placement? u = none) (lost : r.parent = 0 ∨ Dropped c₁)
    (waits : Waits held c₀ u r p) (lost₀ : r.parent = 0 ∨ Dropped c₀)
    (down : Mends limit (path.enterRoot u) 0 c₀ c₁ scar)
    (grows : Grows (left (resolve limit (path.enterRoot u) 0 c₀)) (left (resolve limit path u s)))
    (made : ∀ q s₂, resolve limit (path.enterRoot u) 0 c₀ = .ok (some q) s₂ →
      resolve limit path u s = (some <$> record u r p (some q)) s₂) :
    Mends limit path u s c₁ scar := by
  intro held' d strewn robust fits fits'
  have y := x.again after strewn (strewn.placement?_eq ▸ absent)
  obtain ⟨p', d₁, row⟩ := Catalog.createTrack_ok .global r (d.countCuts ending.cuts)
  have roomy := fits.of_grows (y.grows level zero row)
  have growing : Growing (resolve limit (path.enterRoot u) 0) :=
    .of_evolves (steps_grows.closed.resolve limit (path.enterRoot u) 0)
  have afloat := y.afloat robust row (roomy.of_grows (growing d₁))
  have strewn₁ := strewn.trans afloat.strewn
  have waits' : Waits held' d₁ u r p' :=
    ⟨afloat.robust.hold afloat.ready waits.pid, afloat.strewn.reservation?_eq ▸ y.reserved,
      afloat.strewn.placement?_eq ▸ y.absent, waits.pid, waits.nonzero, afloat.blank, afloat.scope,
      afloat.flavor⟩
  obtain ⟨q', d₂, q, s₂, found, found', redone⟩ :=
    down _ d₁ strewn₁ waits'.robust roomy (fits'.of_grows grows)
  obtain ⟨awaits, blank⟩ :=
    waits'.resolves zero (lost.imp_right strewn₁.upholds.dropped) roomy found
  obtain ⟨awaits', blank'⟩ := waits.resolves zero lost₀ (fits'.of_grows grows) found'
  have calls : Resolution limit path u d _ :=
    .sheltered y.absent y.reserved y.ends y.apart y.homeless zero row
      (found ▸ resolution limit _ (Trail.level_enterRoot path u) 0 d₁)
  refine ⟨p', d₂.recorded u r p' (some q'), p, s₂.recorded u r p (some q),
    (calls.eq_resolve level).trans ?_, (made q s₂ found').trans ?_, ?_⟩
  · exact Act.map_ok (record_ok awaits.ready.row u r (some q')) some
  · exact Act.map_ok (record_ok awaits'.ready.row u r (some q)) some
  · exact redone.record awaits awaits' (blank.matched blank')
      (waits'.scope.trans waits.scope.symm) (waits'.flavor.trans waits.flavor.symm)

end Homeless

section Link
variable {held : List TrackId} {limit : Nat} {path : Trail} {u : Uuid} {r : Reservation}
  {q : Placement} {scar : Scar} {s c₁ d : Session}

theorem grows_link (level : path.Level) (absent : d.placement? u = none)
    (reserved : d.reservation? u = some r)
    (opens : d.ending? (limit - path.depth) path.above u = none) :
    Grows (left (resolve limit (path.enter u) (d.declared u) d))
      (left (resolve limit path u d)) := by
  have above := resolution limit (path.enter u) (level.enter u) (d.declared u) d
  generalize resolve limit (path.enter u) (d.declared u) d = result at *
  cases result with
  | ok found d₁ =>
    cases found with
    | some q =>
      have calls : Resolution limit path u d _ := .linked absent reserved opens above
      rw [calls.eq_resolve level]
      exact (growing_settle _ _ _).map some d₁
    | none =>
      have known := (Catalog.ending?_eq_none opens).2.2.2.2
      rw [above.of_none.2.1] at known
      cases known
  | error e d₁ =>
    have calls : Resolution limit path u d _ := .linkFailed absent reserved opens above
    rw [calls.eq_resolve level]
    exact .refl d₁

theorem After.resolve_linked (after : After held path.above s c₁) (level : path.Level)
    (reserved : s.reservation? u = some r)
    (opens : s.ending? (limit - path.depth) path.above u = none) (strewn : Strewn c₁ d)
    (absent : d.placement? u = none) :
    (∀ q d₁, resolve limit (path.enter u) (s.declared u) d = .ok (some q) d₁ →
      resolve limit path u d = (some <$> settle u r (some q)) d₁) ∧
    Grows (left (resolve limit (path.enter u) (s.declared u) d))
      (left (resolve limit path u d)) := by
  have reserved' : d.reservation? u = some r := strewn.reservation?_eq ▸ after.reserved reserved
  have declared : d.declared u = s.declared u := by
    rw [Catalog.declared_of_reservation? reserved', Catalog.declared_of_reservation? reserved]
  have ends := strewn.ending?_eq.trans (after.ending_opens reserved opens)
  by_cases placed : (c₁.placement? (s.declared u)).isSome
  · rw [if_pos placed] at ends
    obtain ⟨p, placed⟩ := Option.isSome_iff_exists.mp placed
    have placed : d.placement? (s.declared u) = some p := strewn.placement?_eq ▸ placed
    have calls : Resolution limit path u d _ := .joined absent reserved' ends placed
    rw [Catalog.resolve_of_placement? placed, calls.eq_resolve level]
    refine ⟨fun q d₁ same => ?_, (growing_settle _ _ _).map some d⟩
    cases same
    rfl
  · rw [if_neg placed] at ends
    rw [← declared]
    refine ⟨fun q d₁ found => ?_, grows_link level absent reserved' ends⟩
    have calls : Resolution limit path u d _ :=
      .linked absent reserved' ends (found ▸ resolution limit _ (level.enter u) (d.declared u) d)
    exact calls.eq_resolve level

theorem Robust.linked {c c' : Session} {v : Uuid} (robust : Robust held c) (level : path.Level)
    (free : v ∉ (path.enter u).above)
    (rooted : 0 ∈ (path.enter u).above → v = 0 ∨ c.Ancestor v 0)
    (fits : Fits (left (resolve limit (path.enter u) v c))) (reserved : c.reservation? u = some r)
    (absent : c.placement? u = none) (parent : v = r.parent) (nonzero : v ≠ 0)
    (found : resolve limit (path.enter u) v c = .ok (some q) c') :
    Robust held c' ∧ c'.reservation? u = some r ∧ c'.placement? u = none ∧
      Kin c' u r (some v) (some q) := by
  obtain ⟨o, c'', same, after, placed⟩ := robust.resolves (level.enter u) free rooted fits
  rw [found] at same
  cases same
  rw [Trail.above_enter] at after
  have still := after.reserved reserved
  exact ⟨after.robust, still, (after.waiting u List.mem_cons_self).trans absent,
    .of_declared still parent nonzero placed.symm⟩

theorem mends_link (level : path.Level) (robust : Robust held s)
    (after : After held path.above s c₁) (absent : s.placement? u = none)
    (absent₁ : c₁.placement? u = none) (reserved : s.reservation? u = some r)
    (rooted : 0 ∈ path.above → u = 0 ∨ s.Ancestor u 0)
    (opens : s.ending? (limit - path.depth) path.above u = none)
    (up : Mends limit (path.enter u) (s.declared u) s c₁ scar) : Mends limit path u s c₁ scar := by
  intro held' d strewn robust' fits fits'
  have reserved' : d.reservation? u = some r := strewn.reservation?_eq ▸ after.reserved reserved
  have absent' : d.placement? u = none := strewn.placement?_eq ▸ absent₁
  have nonzero := (Catalog.ending?_eq_none opens).1
  have free' := Catalog.declared_notMem_above_enter opens
  obtain ⟨next, grows⟩ := after.resolve_linked level reserved opens strewn absent'
  obtain ⟨next', grows'⟩ := robust.after_self.resolve_linked level reserved opens (.refl s) absent
  obtain ⟨q, d₁, q', s₁, found, found', redone⟩ :=
    up held' d strewn robust' (fits.of_grows grows) (fits'.of_grows grows')
  have same := next q d₁ found
  have same' := next' q' s₁ found'
  have lifted := rooted_enter rooted nonzero
  obtain ⟨robust₁, still, absent₁, kin⟩ := robust'.linked level free'
    (fun mem => (lifted mem).imp_right (after.upholds.trans strewn.upholds).ancestor)
    (fits.of_grows grows) reserved' absent' (Catalog.declared_of_reservation? reserved)
    nonzero found
  obtain ⟨robust₁', still', absent₁', kin'⟩ := robust.linked level free' lifted
    (fits'.of_grows grows') reserved absent (Catalog.declared_of_reservation? reserved)
    nonzero found'
  rw [same, left_map] at fits
  rw [same', left_map] at fits'
  obtain ⟨p, d₂, p', s₂, settled, settled', redone⟩ :=
    redone.settle robust₁ robust₁' still absent₁ kin kin' (redone.childScope kin kin') fits fits'
  exact ⟨p, d₂, p', s₂, same.trans (Act.map_ok settled some),
    same'.trans (Act.map_ok settled' some), redone⟩

end Link

section Attempt
variable {held : List TrackId} {limit : Nat} {path : Trail} {u : Uuid} {r : Reservation}
  {p : Placement} {ending : Ending} {c c₁ c₂ : Trial} {e : Fault}

theorem Blank.reserve {c : Session} {id : TrackId} (blank : Blank c id) (v : Uuid)
    (r : Reservation) : Blank (c.reserve v r) id := by
  obtain ⟨name, args⟩ := blank
  refine ⟨by rwa [row?_reserve], ?_⟩
  rwa [(quiet_reserve v r c).args]

theorem mends_makeDefault (level : path.Level) (after : After held path.above c.inner c₁.inner)
    (x : Homeless limit path c.inner u r ending) (zero : 0 ∉ path.above)
    (made : createTrack .global r (c.countCuts ending.cuts) = .ok p c₂)
    (row : Adrift held path.above c u r p c₂) (afloat : Afloat held c.inner u r p c₂.inner)
    (absent₀ : c₂.inner.placement? 0 = none) (unreserved₀ : c₂.inner.reservation? 0 = none)
    (failed : makeDefault c₂ = .error e c₁) (fits : Fits c₁.inner) :
    ∃ scar : Scar, scar.Marks c.inner c₁.inner ∧ Mends limit path u c.inner c₁.inner scar := by
  obtain ⟨announced, default, -⟩ := after_announced (0 :: u :: path.above) row.hold unreserved₀
  have inner := Catalog.inner_reserve 0 c₂.defaultReservation c₂
  rw [Catalog.makeDefault_eq] at failed
  have settles : makeDefault c₂.inner =
      settle 0 c₂.defaultReservation none (c₂.reserve 0 c₂.defaultReservation).inner := by
    rw [inner]
    rfl
  have blank := inner ▸ afloat.blank.reserve 0 c₂.defaultReservation
  generalize c₂.reserve 0 c₂.defaultReservation = c₀ at *
  have waits : Waits held c₀.inner u r p :=
    ⟨announced.robust, announced.reserved row.reserved,
      (announced.waiting u (List.mem_cons_of_mem 0 List.mem_cons_self)).trans row.absent, row.pid,
      row.nonzero, blank, afloat.scope, afloat.flavor⟩
  have level₀ := Trail.level_enterRoot path u
  have absent₁ := (announced.waiting 0 List.mem_cons_self).trans absent₀
  have kin : Kin c₀.inner 0 c₂.defaultReservation none none :=
    .of_housed default (.inr rfl) (.inl rfl)
  have free := Trail.zero_notMem_above_enterRoot zero row.nonzero
  have down := announced.robust.after_settle_failed default absent₁ free kin failed fits
  have ends₀ : c₀.inner.ending? (limit - (path.enterRoot u).depth) (path.enterRoot u).above 0 =
      some .root := if_pos (Catalog.declared_of_reservation? default)
  have housed : c₀.inner.homeless 0 = false :=
    (Catalog.homeless_eq_false_iff default).mpr (.inr rfl)
  obtain ⟨scar, marks, mends⟩ :=
    mends_housed level₀ down announced.robust absent₁ default ends₀ rfl housed failed fits
  have calls₀ : Resolution limit (path.enterRoot u) 0 c₀.inner _ :=
    .housed absent₁ default ends₀ rfl housed
  have calls : Resolution limit path u c.inner _ := .shelterMade x.absent x.reserved x.ends x.apart
    x.homeless zero (Catalog.createTrack_under made).1 absent₀ unreserved₀
  have same₀ := calls₀.eq_resolve level₀
  have same := calls.eq_resolve level
  have lost := row.lost.imp_right announced.upholds.dropped
  refine ⟨scar, marks.mono (row.after.upholds.trans announced.upholds).toExtends, ?_⟩
  refine mends_shelter level zero after x ?_ (lost.imp_right down.upholds.dropped) waits lost mends
    ?_ ?_
  · exact (down.waiting u (by simp)).trans waits.absent
  · rw [same₀, same, left_map, left_map]
    change Grows (left (settle 0 c₂.defaultReservation none c₀.inner)) _
    rw [← settles]
    exact left_bind_grows (fun q => growing_record u r p (some q)) c₂.inner
  · intro q s₂ found
    rw [same₀] at found
    obtain ⟨q', settled, some⟩ := Act.of_map_ok found
    cases some
    rw [same]
    simp only [Functor.map, EStateM.map, Act.bind_ok (settles.trans settled)]

theorem mends_linked {q : Placement} (level : path.Level)
    (after : After held path.above c.inner c₁.inner) (robust : Robust held c.inner)
    (absent : c.inner.placement? u = none) (reserved : c.inner.reservation? u = some r)
    (rooted : 0 ∈ path.above → u = 0 ∨ c.inner.Ancestor u 0)
    (opens : c.ending? (limit - path.depth) path.above u = none)
    (above : Resolution limit (path.enter u) (c.declared u) c (.ok (some q) c₂))
    (failed : settle u r (some q) c₂ = .error e c₁) (fits : Fits c₁.inner) :
    ∃ scar : Scar, scar.Marks c.inner c₁.inner ∧ Mends limit path u c.inner c₁.inner scar := by
  have nonzero := (Catalog.ending?_eq_none opens).1
  have free := Catalog.declared_notMem_above_enter opens
  have roomy : Fits c₂.inner := fits_of_error fits failed (grows_trial.settle u r (some q) c₂)
  obtain ⟨⟨lifted, found⟩, -⟩ :=
    (Resolution.withstands above robust free (rooted_enter rooted nonzero) roomy).of_ok
  rw [Trail.above_enter] at lifted
  have still := lifted.reserved reserved
  have kin : Kin c₂.inner u r (some (c.declared u)) (some q) :=
    .of_declared still (Catalog.declared_of_reservation? reserved) nonzero found.symm
  have absent₂ := (lifted.waiting u List.mem_cons_self).trans absent
  have calls : Resolution limit path u c.inner _ := .linked absent reserved opens
    ((above.follows (level.enter u)).of_ok.1 ▸ resolution limit _ (level.enter u) _ c.inner)
  have whole := lifted.robust.after_settle_failed still absent₂ List.not_mem_nil kin failed fits
  obtain ⟨scar, marks, mends⟩ := mends_settle lifted.robust still absent₂ kin failed fits
    (calls.eq_resolve level) fun held' d strewn robust' absent' => by
      have placed := whole.upholds.placed _ q found.symm
      have joins : c₁.inner.ending? (limit - path.depth) path.above u =
          some (.join (c.declared u)) := (after.ending_opens reserved opens).trans
        (if_pos (Option.isSome_iff_exists.mpr ⟨q, placed⟩))
      exact ⟨d, .refl d, robust', after.resolve_joined level reserved joins placed strewn absent'⟩
  exact ⟨scar, marks.mono lifted.upholds.toExtends, mends⟩

theorem mends_found {c₃ : Trial} {q : Placement} (level : path.Level)
    (after : After held path.above c.inner c₁.inner) (robust : Robust held c.inner)
    (x : Homeless limit path c.inner u r ending) (zero : 0 ∉ path.above)
    (made : createTrack .global r (c.countCuts ending.cuts) = .ok p c₂)
    (default : Resolution limit (path.enterRoot u) 0 c₂ (.ok (some q) c₃))
    (failed : record u r p (some q) c₃ = .error e c₁) (fits : Fits c₁.inner) :
    ∃ scar : Scar, scar.Marks c.inner c₁.inner ∧ Mends limit path u c.inner c₁.inner scar := by
  have roomy : Fits c₃.inner := fits_of_error fits failed (grows_trial.record u r p (some q) c₃)
  obtain ⟨row, afloat⟩ := x.adrift robust made (roomy.of_grows (grows_trial.resolution default))
  have zero' := Trail.zero_notMem_above_enterRoot zero row.nonzero
  obtain ⟨⟨down, found⟩, -⟩ :=
    (Resolution.withstands default row.hold zero' (fun _ => .inl rfl) roomy).of_ok
  rw [Trail.above_enterRoot] at down
  have level₀ := Trail.level_enterRoot path u
  have under := (default.follows level₀).of_ok.1
  have tidy : Tidy c₂.inner (Act.left (resolve limit (path.enterRoot u) 0 c₂.inner)) :=
    tidy_closed.resolve _ _ _ _
  rw [under] at tidy
  have calls : Resolution limit path u c.inner _ := .sheltered x.absent x.reserved x.ends x.apart
    x.homeless zero (Catalog.createTrack_under made).1
      (under ▸ resolution limit _ level₀ 0 c₂.inner)
  exact mends_sheltered level after x zero row afloat down found.symm tidy failed
    (calls.eq_resolve level)

/-- The default track was made without an announcement, the row below it could not be recorded. -/
theorem mends_made {c₃ : Trial} {q : Placement} (level : path.Level)
    (after : After held path.above c.inner c₁.inner)
    (x : Homeless limit path c.inner u r ending) (zero : 0 ∉ path.above)
    (made : createTrack .global r (c.countCuts ending.cuts) = .ok p c₂)
    (row : Adrift held path.above c u r p c₂) (afloat : Afloat held c.inner u r p c₂.inner)
    (absent₀ : c₂.inner.placement? 0 = none) (unreserved₀ : c₂.inner.reservation? 0 = none)
    (default : makeDefault c₂ = .ok q c₃) (failed : record u r p (some q) c₃ = .error e c₁)
    (fits : Fits c₃.inner) :
    ∃ scar : Scar, scar.Marks c.inner c₁.inner ∧ Mends limit path u c.inner c₁.inner scar := by
  have zero' := List.not_mem_cons_of_ne_of_not_mem row.nonzero.symm zero
  have places := places_makeDefault row.hold absent₀ unreserved₀ zero' (by rwa [default])
  have follows := Catalog.follows_makeDefault c₂
  have tidy : Tidy c₂.inner (Act.left (makeDefault c₂.inner)) := tidy_closed.makeDefault _
  rw [default] at places follows
  obtain ⟨⟨down, found⟩, -⟩ := Catalog.Ends.of_ok places
  rw [follows.of_ok.1] at tidy
  have calls : Resolution limit path u c.inner _ := .shelterMade x.absent x.reserved x.ends x.apart
    x.homeless zero (Catalog.createTrack_under made).1 absent₀ unreserved₀
  have same := calls.eq_resolve level
  simp only [Functor.map, EStateM.map, Act.bind_ok follows.of_ok.1] at same
  exact mends_sheltered level after x zero row afloat down found tidy failed same

theorem mends_unfound (level : path.Level) (after : After held path.above c.inner c₁.inner)
    (x : Homeless limit path c.inner u r ending) (zero : 0 ∉ path.above)
    (made : createTrack .global r (c.countCuts ending.cuts) = .ok p c₂)
    (row : Adrift held path.above c u r p c₂) (afloat : Afloat held c.inner u r p c₂.inner)
    (down : After (p.track :: held) (path.enterRoot u).above c₂.inner c₁.inner) {scar : Scar}
    (mends : Mends limit (path.enterRoot u) 0 c₂.inner c₁.inner scar) :
    Mends limit path u c.inner c₁.inner scar := by
  have made' := (Catalog.createTrack_under made).1
  have absent : c₁.inner.placement? u = none := (down.waiting u (by simp)).trans row.absent
  refine mends_shelter level zero after x absent (row.lost.imp_right down.upholds.dropped)
    (row.waits afloat) row.lost mends (x.grows level zero made') fun q s₂ found => ?_
  have calls : Resolution limit path u c.inner _ := .sheltered x.absent x.reserved x.ends x.apart
    x.homeless zero made' (found ▸ resolution limit _ (Trail.level_enterRoot path u) 0 c₂.inner)
  exact calls.eq_resolve level

/-- Whatever a failed attempt to resolve a uuid left undone, a second attempt makes up for. -/
theorem mends_resolution {result : EStateM.Result Fault Trial (Option Placement)}
    (h : Resolution limit path u c result) (failed : result = .error e c₁)
    (after : After held path.above c.inner c₁.inner) (level : path.Level)
    (robust : Robust held c.inner) (free : u ∉ path.above)
    (rooted : 0 ∈ path.above → u = 0 ∨ c.inner.Ancestor u 0) (fits : Fits c₁.inner) :
    ∃ scar : Scar, scar.Marks c.inner c₁.inner ∧ Mends limit path u c.inner c₁.inner scar := by
  -- By induction on the calls of the first attempt. The failure lies either in the call at hand or
  -- in the one below it, for the parent or for the default track.
  induction h generalizing held with
  | known => cases failed
  | unannounced => cases failed
  | @joined path u c r parent q absent reserved ends above =>
    have settled := Act.of_map_error failed
    obtain ⟨declared, nonzero, -, -⟩ := Catalog.ending?_eq_join ends
    rw [Catalog.declared_of_reservation? reserved] at declared
    have kin : Kin c.inner u r (some parent) (some q) :=
      .of_declared reserved declared.symm nonzero above
    have calls : Resolution limit path u c.inner _ := .joined absent reserved ends above
    refine mends_settle robust reserved absent kin settled fits (calls.eq_resolve level) ?_
    intro held' d strewn robust' absent'
    exact ⟨d, .refl d, robust', after.resolve_joined level reserved
      (after.ending_stays reserved ends) (after.upholds.placed parent q above) strewn absent'⟩
  | linked absent reserved opens above ih =>
    exact mends_linked level after robust absent reserved rooted opens above
      (Act.of_map_error failed) fits
  | @linkFailed path u c c₂ r e absent reserved opens above ih =>
    cases failed
    have nonzero := (Catalog.ending?_eq_none opens).1
    have free' := Catalog.declared_notMem_above_enter opens
    have rooted' := rooted_enter rooted nonzero
    have up := (Resolution.withstands above robust free' rooted' fits).of_error.1
    obtain ⟨scar, marks, mends⟩ := ih rfl up (level.enter u) robust free' rooted'
    rw [Trail.above_enter] at up
    exact ⟨scar, marks, mends_link level robust after absent
      ((up.waiting u List.mem_cons_self).trans absent) reserved rooted opens mends⟩
  | housed absent reserved ends apart housed =>
    exact mends_housed level after robust absent reserved ends apart housed
      (Act.of_map_error failed) fits
  | @barred path u c c₂ r ending p absent reserved ends apart homeless waits made =>
    have x : Homeless limit path c.inner u r ending := ⟨absent, reserved, ends, apart, homeless⟩
    have recorded := Act.of_map_error failed
    have counted := fits_of_error fits recorded (grows_trial.record u r p none (c₂.count .loop))
    have roomy : Fits c₂.inner := counted.of_grows (grows_count .loop c₂.inner)
    obtain ⟨row, afloat⟩ := x.adrift robust made roomy
    exact mends_barred level after x waits ((rooted waits).resolve_left row.nonzero) made row afloat
      recorded
  | sheltered absent reserved ends apart homeless zero made default ih =>
    exact mends_found level after robust ⟨absent, reserved, ends, apart, homeless⟩ zero made default
      (Act.of_map_error failed) fits
  | @shelterMade path u c c₂ r ending p absent reserved ends apart homeless zero made absent₀
      unreserved₀ =>
    have x : Homeless limit path c.inner u r ending := ⟨absent, reserved, ends, apart, homeless⟩
    have broken := Act.of_map_error failed
    have roomy : Fits (Act.left (makeDefault c₂)).inner := by
      have grows := grows_trial.left_bind makeDefault
        (fun q => grows_trial.record u r p (some q)) c₂
      rw [broken] at grows
      exact fits.of_grows grows
    obtain ⟨row, afloat⟩ := x.adrift robust made
      (roomy.of_grows (grows_trial.closed.makeDefault c₂))
    cases default : makeDefault c₂ with
    | error e' c₃ =>
      rw [Act.bind_error default] at broken
      cases broken
      exact mends_makeDefault level after x zero made row afloat absent₀ unreserved₀ default fits
    | ok q c₃ =>
      rw [Act.bind_ok default] at broken
      rw [default] at roomy
      exact mends_made level after x zero made row afloat absent₀ unreserved₀ default broken roomy
  | @shelterFailed path u c c₂ c₃ r ending p e absent reserved ends apart homeless zero made default
      ih =>
    cases failed
    have x : Homeless limit path c.inner u r ending := ⟨absent, reserved, ends, apart, homeless⟩
    obtain ⟨row, afloat⟩ := x.adrift robust made (fits.of_grows (grows_trial.resolution default))
    have zero' := Trail.zero_notMem_above_enterRoot zero row.nonzero
    have down := (Resolution.withstands default row.hold zero' (fun _ => .inl rfl) fits).of_error.1
    obtain ⟨scar, marks, mends⟩ :=
      ih rfl down (Trail.level_enterRoot path u) row.hold zero' fun _ => .inl rfl
    exact ⟨scar, marks.mono row.after.upholds.toExtends,
      mends_unfound level after x zero made row afloat down mends⟩

end Attempt
end Session
end TraceTracks
